import Converge.Proofs.Template.Rendering

/-!
# Numbers in errors

Errors tell an author by a number where to look. Those of rendering count segments. Those for documents that cannot be
addressed count the documents that were rendered, so they lag behind for every segment without a document, and run ahead
for every segment with several.

## Main Definitions

* `RenderError.number?` — the number in an error.
* `Template.Offends` — what is wrong in a segment.
* `Template.RendersTo` — the documents that come of a segment.

## Main Statements

* `Template.render_eq_error_iff` — the number in an error of rendering is that of the first segment with an offence.
* `Template.exists_segment_of_keys_eq_error` — the number for a document that cannot be addressed is its position among
  all documents.
* `Template.segments_or_documents_numbered` — the two together, and when they agree.
-/

namespace Converge

open Chars

/-- The number that an error tells. -/
def RenderError.number? : RenderError → Option Nat
  | .notYaml segment _ | .notMapping segment | .fault _ segment _ => some segment
  | .wrongCount _ _ => none
  | .missingIdentity document _ => some document

/-! ### Steps with numbers -/

section Numbered

variable {ε α β : Type}

/-- **Of steps with numbers, what fails is the first that does, with its number**, if the numbers do not matter to those
that succeed. -/
theorem mapM_zipIdx_eq_error_iff {f : α × Nat → Except ε β} {P : α → Prop}
    (passes : ∀ item number, (∃ result, f (item, number) = .ok result) ↔ P item) {items : List α} {start : Nat} {e : ε} :
    (items.zipIdx start).mapM f = .error e ↔ ∃ before item after, items = before ++ item :: after ∧
      (∀ earlier ∈ before, P earlier) ∧ f (item, start + before.length) = .error e := by
  have hpasses (before : List α) : (∀ earlier ∈ before.zipIdx start, ∃ result, f earlier = .ok result) ↔
      ∀ earlier ∈ before, P earlier := by
    induction before generalizing start with
    | nil => exact iff_of_true (List.forall_mem_nil _) (List.forall_mem_nil _)
    | cons item before ih => rw [List.zipIdx_cons, List.forall_mem_cons, List.forall_mem_cons, passes, ih]
  rw [mapM_eq_error_iff]
  constructor
  · rintro ⟨front, ⟨item, number⟩, back, hitems, hfront, hfails⟩
    obtain ⟨before, rest, rfl, rfl, hrest⟩ := List.zipIdx_eq_append_iff.1 hitems
    obtain ⟨first, after, rfl, hfirst, -⟩ := List.zipIdx_eq_cons_iff.1 hrest.symm
    cases hfirst
    exact ⟨before, item, after, rfl, (hpasses before).1 hfront, hfails⟩
  · rintro ⟨before, item, after, rfl, hbefore, hfails⟩
    refine ⟨before.zipIdx start, (item, start + before.length), after.zipIdx (start + before.length + 1), ?_,
      (hpasses before).2 hbefore, hfails⟩
    rw [List.zipIdx_append, List.zipIdx_cons]

/-- An item among those of several lists stands in one of the lists. -/
theorem exists_list_of_flatten_eq {lists : List (List α)} {before after : List α} {item : α}
    (h : lists.flatten = before ++ item :: after) :
    ∃ earlier front back later, lists = earlier ++ (front ++ item :: back) :: later ∧
      before = earlier.flatten ++ front := by
  obtain ⟨earlier, rest, rfl, rfl, hrest⟩ | ⟨earlier, front, first, back, later, rfl, rfl, hback⟩ :=
    List.flatten_eq_append_iff.1 h
  · obtain ⟨empty, back, later, rfl, hempty, -⟩ := List.flatten_eq_cons_iff.1 hrest.symm
    refine ⟨earlier ++ empty, [], back, later, by rw [List.append_assoc, List.nil_append], ?_⟩
    rw [List.flatten_append, List.flatten_eq_nil_iff.2 hempty, List.append_nil, List.append_nil]
  · obtain ⟨rfl, -⟩ := List.cons_eq_cons.1 hback
    exact ⟨earlier, front, back, later, rfl, rfl⟩

end Numbered

namespace Template

variable {read : String → Except Yaml.Error Document} {bindings : Bindings} {text : String} {segment : List Char}
  {number : Nat} {e : RenderError}

/-! ### Errors of rendering -/

/-- The documents that come of a segment. -/
def RendersTo (read : String → Except Yaml.Error Document) (bindings : Bindings) (segment : List Char)
    (rendered : List Document) : Prop :=
  ∃ documents, unfilledOf read segment = .ok documents ∧ List.Forall₂ (Renders bindings) documents rendered

/-- The first thing that is wrong in a segment of some number: it cannot be read; or one of its documents is no object or
cannot be filled, while those before it can. -/
inductive Offends (read : String → Except Yaml.Error Document) (bindings : Bindings) (segment : List Char)
    (number : Nat) : RenderError → Prop
  | unread {cause : Yaml.Error} (notRead : unfilledOf read segment = .error cause) :
      Offends read bindings segment number (.notYaml number cause)
  | notMapping {before after : List Document} {document : Document}
      (written : unfilledOf read segment = .ok (before ++ document :: after))
      (sound : ∀ earlier ∈ before, ∃ rendered, Renders bindings earlier rendered)
      (offending : document.isObject = false) : Offends read bindings segment number (.notMapping number)
  | unfilled {before after : List Document} {document : Document} {finding : Finding}
      (written : unfilledOf read segment = .ok (before ++ document :: after))
      (sound : ∀ earlier ∈ before, ∃ rendered, Renders bindings earlier rendered)
      (mapping : document.isObject = true) (offending : fill bindings [] document = .error finding) :
      Offends read bindings segment number (.fault finding.fault number finding.location)

/-- An error that a segment gives has the number of the segment. -/
theorem Offends.number?_eq (h : Offends read bindings segment number e) : e.number? = some number := by
  cases h <;> rfl

theorem fillDocument_eq_error_iff {document : Document} : fillDocument bindings number document = .error e ↔
    document.isObject = false ∧ e = .notMapping number ∨
      document.isObject = true ∧ ∃ finding, fill bindings [] document = .error finding ∧
        e = .fault finding.fault number finding.location := by
  rw [fillDocument]
  cases document.isObject with
  | false => simp [eq_comm]
  | true =>
      rw [if_pos rfl, mapError_eq_error_iff]
      simp [eq_comm]

/-- A segment gives an error if something is wrong in it. -/
theorem renderSegment_eq_error_iff :
    renderSegment read bindings number segment = .error e ↔ Offends read bindings segment number e := by
  have hstep : renderSegment read bindings number segment = .error e ↔
      (∃ cause, unfilledOf read segment = .error cause ∧ e = .notYaml number cause) ∨
        ∃ documents, unfilledOf read segment = .ok documents ∧
          documents.mapM (fillDocument bindings number) = .error e := by
    rw [renderSegment, unfilledOf]
    split
    · simp [pure, Except.pure]
    · cases read (String.ofList segment) with
      | error cause => simp [Except.map, eq_comm]
      | ok value => simp [Except.map]
  rw [hstep]
  constructor
  · rintro (⟨cause, hunread, rfl⟩ | ⟨documents, hwritten, hfails⟩)
    · exact .unread hunread
    · obtain ⟨before, document, after, rfl, hsound, hdocument⟩ := mapM_eq_error_iff.1 hfails
      simp only [fillDocument_eq_ok_iff] at hsound
      obtain ⟨hobject, rfl⟩ | ⟨hobject, finding, hfinding, rfl⟩ := fillDocument_eq_error_iff.1 hdocument
      · exact .notMapping hwritten hsound hobject
      · exact .unfilled hwritten hsound hobject hfinding
  · intro h
    cases h with
    | unread notRead => exact .inl ⟨_, notRead, rfl⟩
    | notMapping written sound offending =>
        refine .inr ⟨_, written, mapM_eq_error_iff.2 ⟨_, _, _, rfl, ?_, ?_⟩⟩
        · simpa only [fillDocument_eq_ok_iff] using sound
        · exact fillDocument_eq_error_iff.2 (.inl ⟨offending, rfl⟩)
    | unfilled written sound mapping offending =>
        refine .inr ⟨_, written, mapM_eq_error_iff.2 ⟨_, _, _, rfl, ?_, ?_⟩⟩
        · simpa only [fillDocument_eq_ok_iff] using sound
        · exact fillDocument_eq_error_iff.2 (.inr ⟨mapping, _, offending, rfl⟩)

/-- **The number in an error of rendering is that of the first segment with an offence.** -/
theorem render_eq_error_iff : render read text bindings = .error e ↔
    ∃ before segment after, segments text.toList = before ++ segment :: after ∧
      (∀ earlier ∈ before, ∃ rendered, RendersTo read bindings earlier rendered) ∧
      Offends read bindings segment (before.length + 1) e := by
  rw [render, map_eq_error_iff, mapM_zipIdx_eq_error_iff fun segment number =>
    exists_congr fun rendered => renderSegment_eq_ok_iff]
  simp only [renderSegment_eq_error_iff, Nat.add_comm 1]
  rfl

/-! ### Documents that cannot be addressed -/

/-- Documents have no keys if one of them has none; the number is its position. -/
theorem keys_eq_error_iff {documents : List Document} : keys documents = .error e ↔
    ∃ before document after, documents = before ++ document :: after ∧
      (∀ earlier ∈ before, ∃ key, ObjectKey.ofDocument earlier = .ok key) ∧
      ∃ cause, ObjectKey.ofDocument document = .error cause ∧ e = .missingIdentity (before.length + 1) cause := by
  rw [keys, mapM_zipIdx_eq_error_iff fun document number => exists_congr fun key => mapError_eq_ok_iff]
  simp only [mapError_eq_error_iff, Nat.add_comm 1, @eq_comm _ e]

/-- **The number for a document that cannot be addressed is its position** among the documents of all segments. It is the
first such document. -/
theorem exists_segment_of_keys_eq_error {rendered : List Document} (h : render read text bindings = .ok rendered)
    (fails : keys rendered = .error e) :
    ∃ before segment after earlier front document back cause,
      segments text.toList = before ++ segment :: after ∧ List.Forall₂ (RendersTo read bindings) before earlier ∧
        RendersTo read bindings segment (front ++ document :: back) ∧
        (∀ other ∈ earlier.flatten ++ front, ∃ key, ObjectKey.ofDocument other = .ok key) ∧
        ObjectKey.ofDocument document = .error cause ∧
        e = .missingIdentity ((earlier.flatten ++ front).length + 1) cause := by
  obtain ⟨parts, hparts, rfl⟩ := render_eq_ok_iff_forall₂.1 h
  obtain ⟨passed, document, rest, hrendered, hpassed, cause, hdocument, rfl⟩ := keys_eq_error_iff.1 fails
  obtain ⟨earlier, front, back, later, rfl, rfl⟩ := exists_list_of_flatten_eq hrendered
  obtain ⟨before, segment, after, hbefore, hsegment, -, hsegments⟩ := exists_split_of_forall₂ hparts.flip
  exact ⟨before, segment, after, earlier, front, document, back, cause, hsegments, hbefore.flip, hsegment, hpassed,
    hdocument, rfl⟩

/-! ### Whole templates -/

/-- A segment with one document is rendered to one. -/
theorem RendersTo.length_eq_one {rendered : List Document} {document : Document}
    (h : RendersTo read bindings segment rendered) (single : unfilledOf read segment = .ok [document]) :
    rendered.length = 1 := by
  obtain ⟨documents, hdocuments, hrendered⟩ := h
  cases single.symm.trans hdocuments
  exact hrendered.length_eq.symm

/-- Segments with one document each are rendered to as many documents. -/
theorem length_flatten_of_single {texts : List (List Char)} {parts : List (List Document)}
    (h : List.Forall₂ (RendersTo read bindings) texts parts)
    (single : ∀ segment ∈ texts, ∃ document, unfilledOf read segment = .ok [document]) :
    parts.flatten.length = texts.length := by
  induction h with
  | nil => rfl
  | cons hpart _ ih =>
      obtain ⟨⟨document, hdocument⟩, hrest⟩ := List.forall_mem_cons.1 single
      rw [List.flatten_cons, List.length_append, ih hrest, hpart.length_eq_one hdocument, List.length_cons,
        Nat.add_comm]

/-- **Rendering numbers segments, and addressing numbers documents.** The number in an error of rendering is that of the
segment with the offence, where all segments count, also those without a document. The number for a document that cannot
be addressed is its position among the documents of all segments. It is the number of the segment that the document was
written in if, up to there, there are as many documents as segments; so it is if each segment has one document. -/
theorem segments_or_documents_numbered (read : String → Except Yaml.Error Document) (text : String)
    (bindings : Bindings) :
    (∀ e, render read text bindings = .error e ↔
      ∃ before segment after, segments text.toList = before ++ segment :: after ∧
        (∀ earlier ∈ before, ∃ rendered, RendersTo read bindings earlier rendered) ∧
        Offends read bindings segment (before.length + 1) e ∧ e.number? = some (before.length + 1)) ∧
    ∀ rendered e, render read text bindings = .ok rendered → keys rendered = .error e →
      ∃ before segment after earlier front document back,
        segments text.toList = before ++ segment :: after ∧ List.Forall₂ (RendersTo read bindings) before earlier ∧
          RendersTo read bindings segment (front ++ document :: back) ∧
          (∀ other ∈ earlier.flatten ++ front, ∃ key, ObjectKey.ofDocument other = .ok key) ∧
          (∃ cause, ObjectKey.ofDocument document = .error cause ∧
            e = .missingIdentity ((earlier.flatten ++ front).length + 1) cause) ∧
          (e.number? = some (before.length + 1) ↔ (earlier.flatten ++ front).length = before.length) ∧
          ((∀ segment ∈ segments text.toList, ∃ document, unfilledOf read segment = .ok [document]) →
            e.number? = some (before.length + 1)) := by
  refine ⟨fun e => ?_, fun rendered e hrendered hfails => ?_⟩
  · rw [render_eq_error_iff]
    refine exists_congr fun before => exists_congr fun segment => exists_congr fun after => ?_
    exact and_congr_right fun _ => and_congr_right fun _ => (and_iff_left_of_imp Offends.number?_eq).symm
  · obtain ⟨before, segment, after, earlier, front, document, back, cause, hsegments, hbefore, hsegment, hpassed,
      hdocument, rfl⟩ := exists_segment_of_keys_eq_error hrendered hfails
    have hagree : (RenderError.missingIdentity ((earlier.flatten ++ front).length + 1) cause).number? =
        some (before.length + 1) ↔ (earlier.flatten ++ front).length = before.length := by
      rw [RenderError.number?, Option.some.injEq, Nat.add_right_cancel_iff]
    refine ⟨before, segment, after, earlier, front, document, back, hsegments, hbefore, hsegment, hpassed,
      ⟨cause, hdocument, rfl⟩, hagree, fun single => hagree.2 ?_⟩
    rw [hsegments, List.forall_mem_append, List.forall_mem_cons] at single
    obtain ⟨written, hwritten⟩ := single.2.1
    have hone := hsegment.length_eq_one hwritten
    have hmany := length_flatten_of_single hbefore single.1
    simp only [List.length_append, List.length_cons] at hone ⊢
    omega

/-- Two segments with one document each. The second document has no `apiVersion`, and its number is that of its
segment. -/
theorem segments_or_documents_numbered_of_two :
    let text := "{apiVersion: v1, kind: A, metadata: {name: a}}
---
kind: B
"
    ∃ rendered e, render Yaml.read text .empty = .ok rendered ∧ keys rendered = .error e ∧ e.number? = some 2 ∧
      ∃ before segment after, segments text.toList = before ++ segment :: after ∧ before.length + 1 = 2 := by
  intro text
  let first := Document.object [("apiVersion", .string "v1"), ("kind", .string "A"),
    ("metadata", .object [("name", .string "a")])]
  let second := Document.object [("kind", .string "B")]
  have hrendered : render Yaml.read text .empty = .ok [first, second] := by decide +kernel
  have hkeys : keys [first, second] = .error (.missingIdentity 2 (.missingField "apiVersion")) := by decide +kernel
  obtain ⟨-, hnumbers⟩ := segments_or_documents_numbered Yaml.read text .empty
  obtain ⟨before, segment, after, _, _, _, _, hsegments, -, -, -, -, -, hsingle⟩ := hnumbers _ _ hrendered hkeys
  have hsingle' : ∀ segment ∈ segments text.toList, ∃ document, unfilledOf Yaml.read segment = .ok [document] := by
    have hsegments' : segments text.toList =
      ["{apiVersion: v1, kind: A, metadata: {name: a}}
".toList, "kind: B
".toList] := by decide +kernel
    rw [hsegments', List.forall_mem_cons, List.forall_mem_singleton]
    exact ⟨⟨first, by decide +kernel⟩, ⟨second, by decide +kernel⟩⟩
  exact ⟨_, _, hrendered, hkeys, rfl, before, segment, after, hsegments, (Option.some.inj (hsingle hsingle')).symm⟩

/-- A comment above the first mark makes a segment without a document. The document below the mark cannot be addressed;
it is written in the second segment, and the error tells the first. -/
theorem number_behind_comment :
    let text := "# note
---
kind: A
"
    segments text.toList = ["# note
".toList, "kind: A
".toList] ∧
      unfilledOf Yaml.read "# note
".toList = .ok [] ∧
      render Yaml.read text .empty = .ok [.object [("kind", .string "A")]] ∧
      keys [.object [("kind", .string "A")]] = .error (.missingIdentity 1 (.missingField "apiVersion")) := by
  decide +kernel

end Template

end Converge
