import Converge.Proofs.Template.Rendering
import Converge.Proofs.Template.Splicing
import Converge.Proofs.Template.Structure
import Converge.Proofs.Yaml.Ordered

/-!
# Bound values stay in their place

Bindings come into a template only where an expression stands, and an expression sees only the binding that it is
rooted at. So what is rendered at a position does not depend on any other binding, and what a bound value contains
is of no consequence for the rest of the document. There is one way out of a position, which is the name of a member:
it decides where the value of the member goes. Names without expressions close it.

## Main Definitions

* `Template.PlainNames` — a document whose names have no expressions in them.
* `Template.AgreeBelow` — bindings that agree on every text of a document.

## Main Statements

* `Template.exists_filled_at` — where names have no expressions, everything is filled where it stands.
* `Template.fillsTo_congr` — a document sees the bindings at the roots of its expressions only.
* `Template.values_stay_in_place` — two renderings of a template agree wherever its expressions do not tell the
  bindings apart.

## Design Notes

The reader of segments may be any function into documents whose objects have each name once and in order. Objects are
lists here and could be otherwise, but what a reader makes of a text never is (`Yaml.ordered_of_read`).
-/

namespace Converge.Template

open Document (Step)

variable {first second bindings : Bindings} {read : String → Except Yaml.Error Document}

/-! ### Names without expressions -/

/-- A name without expressions stays as it is. -/
theorem NamesTo.eq_of_plain {name filled : String} (h : NamesTo bindings name filled)
    (plain : expressions name.toList = []) : filled = name := by
  obtain ⟨value, hvalue, rfl⟩ := h
  rw [eq_string_of_plain hvalue plain, written, String.ofList_toList]

/-- There are no expressions in the names of a document. -/
def PlainNames (document : Document) : Prop :=
  ∀ path members, document.at? path = some (.object members) → ∀ member ∈ members,
    expressions member.1.toList = []

theorem PlainNames.names {members : Members} (plain : PlainNames (.object members)) :
    ∀ member ∈ members, expressions member.1.toList = [] := plain [] members (Document.at?_nil _)

theorem PlainNames.step {document next : Document} {step : Step} (plain : PlainNames document)
    (hstep : document.step? step = some next) : PlainNames next := fun path members hat =>
  plain (step :: path) members (Document.at?_cons_eq_some_iff.2 ⟨next, hstep, hat⟩)

theorem PlainNames.at? {document value : Document} {path : List Step} (plain : PlainNames document)
    (hat : document.at? path = some value) : PlainNames value := by
  induction path generalizing document with
  | nil =>
      rw [Document.at?_nil, Option.some.injEq] at hat
      exact hat ▸ plain
  | cons step path ih =>
      obtain ⟨next, hstep, hnext⟩ := Document.at?_cons_eq_some_iff.1 hat
      exact ih (plain.step hstep) hnext

theorem PlainNames.of_string (text : String) : PlainNames (.string text) := by
  intro path members hat
  cases path with
  | nil => cases hat
  | cons step path => cases hat

theorem PlainNames.of_members {members : Members} (names : ∀ member ∈ members, expressions member.1.toList = [])
    (values : ∀ member ∈ members, PlainNames member.2) : PlainNames (.object members) := by
  intro path inner hat
  cases path with
  | nil =>
      cases hat
      exact names
  | cons step path =>
      obtain ⟨next, hstep, hnext⟩ := Document.at?_cons_eq_some_iff.1 hat
      cases step with
      | item => cases hstep
      | member name => exact values _ (Members.mem_of_lookup hstep) path inner hnext

/-- Distinct names without expressions stay apart. -/
theorem PlainNames.apart {members : Members} (plain : PlainNames (.object members)) (ordered : members.Ordered) :
    members.Pairwise (Apart bindings) := by
  refine List.Pairwise.imp_of_mem (fun {member other} hmember hother hlt => ?_) ordered
  intro filled hfilled hsame
  have hname : filled = member.1 := hfilled.eq_of_plain (plain.names member hmember)
  have hother : filled = other.1 := hsame.eq_of_plain (plain.names other hother)
  exact ne_of_lt hlt (hname.symm.trans hother)

/-- A way down a document whose names have no expressions stays as it is. -/
theorem Reaches.place_eq {template value : Document} {path place : List Step}
    (h : Reaches bindings template path place value) (plain : PlainNames template) : place = path := by
  induction h with
  | here => rfl
  | @item items position item value path place found _ ih =>
      have hstep : Document.step? (.array items) (.item position) = some item := found
      rw [ih (plain.step hstep)]
  | @member before after name filled child value path place first becomes _ _ ih =>
      have hmem : (name, child) ∈ before ++ (name, child) :: after := List.mem_append_right before List.mem_cons_self
      have hstep : Document.step? (.object (before ++ (name, child) :: after)) (.member name) = some child :=
        Members.lookup_of_first first child after
      have hname : expressions name.toList = [] := plain.names (name, child) hmem
      rw [becomes.eq_of_plain hname, ih (plain.step hstep)]

/-- In a document whose names have no expressions, what stands at a path is filled where it stands. -/
theorem exists_filled_at {template rendered value : Document} {path : List Step}
    (hfill : FillsTo bindings template rendered) (ordered : template.Ordered) (plain : PlainNames template)
    (hat : template.at? path = some value) :
    ∃ filled, rendered.at? path = some filled ∧ FillsTo bindings value filled := by
  have apart : ∀ path members, template.at? path = some (.object members) → members.Pairwise (Apart bindings) := by
    intro path members hmembers
    have hordered : Document.Ordered (.object members) := ordered.at? hmembers
    exact (plain.at? hmembers).apart hordered.1
  obtain ⟨place, reaches⟩ := exists_reaches hfill apart hat
  obtain rfl := reaches.place_eq plain
  exact reaches.exists_filled hfill

/-! ### Two renderings -/

/-- The bindings agree on every text at and below a position. -/
def AgreeBelow (first second : Bindings) (document : Document) : Prop :=
  ∀ path text, document.at? path = some (.string text) → Agree first second text

theorem AgreeBelow.step {document next : Document} {step : Step} (agree : AgreeBelow first second document)
    (hstep : document.step? step = some next) : AgreeBelow first second next := fun path text hat =>
  agree (step :: path) text (Document.at?_cons_eq_some_iff.2 ⟨next, hstep, hat⟩)

/-- At a text, it is the expressions of the text that count. -/
theorem agreeBelow_string_iff {text : String} : AgreeBelow first second (.string text) ↔ Agree first second text := by
  constructor
  · intro h
    exact h [] text (Document.at?_nil _)
  · intro h path text' hat
    cases path with
    | nil =>
        cases hat
        exact h
    | cons step path => cases hat

/-- A document sees the bindings at the roots of its expressions only. -/
theorem fillsTo_congr {document filled : Document} (agree : AgreeBelow first second document)
    (ordered : document.Ordered) (plain : PlainNames document) (h : FillsTo first document filled) :
    FillsTo second document filled := by
  -- By the parts of the document: bindings are only looked at in the case of a text, and names are plain.
  induction document using Document.byParts generalizing filled with
  | null | bool | number => exact h
  | string text =>
      rw [fillsTo_string_iff] at h ⊢
      rwa [← valueOfText_congr (agreeBelow_string_iff.1 agree)]
  | array items ih =>
      rw [fillsTo_array_iff] at h ⊢
      obtain ⟨results, hresults, rfl⟩ := h
      refine ⟨results, ?_, rfl⟩
      have hitems : ∀ item ∈ items, ∀ result, FillsTo first item result → FillsTo second item result := by
        intro item hitem result hresult
        obtain ⟨position, hposition⟩ := List.mem_iff_getElem?.1 hitem
        have hstep : Document.step? (.array items) (.item position) = some item := hposition
        exact ih item hitem (agree.step hstep) (ordered.step? hstep) (plain.step hstep) hresult
      exact ((List.forall₂_and_left ..).2 ⟨hitems, hresults⟩).imp fun _ _ h => h.1 _ h.2
  | object members ih =>
      rw [fillsTo_object_iff] at h ⊢
      obtain ⟨entries, hentries, rfl⟩ := h
      refine ⟨entries, ?_, rfl⟩
      have hmembers : ∀ member ∈ members, ∀ entry : String × Document,
          NamesTo first member.1 entry.1 ∧ FillsTo first member.2 entry.2 →
            NamesTo second member.1 entry.1 ∧ FillsTo second member.2 entry.2 := by
        rintro ⟨name, value⟩ hmember entry ⟨hname, hvalue⟩
        have hstep : Document.step? (.object members) (.member name) = some value :=
          Members.Ordered.lookup_of_mem ordered.1 hmember
        have hagree : Agree first second name := by
          rw [Agree, plain.names (name, value) hmember]
          exact List.forall_mem_nil _
        refine ⟨?_, ih _ hmember (agree.step hstep) (ordered.step? hstep) (plain.step hstep) hvalue⟩
        rwa [NamesTo, ← valueOfText_congr hagree]
      exact ((List.forall₂_and_left ..).2 ⟨hmembers, hentries⟩).imp fun _ _ h => h.1 _ h.2

/-! ### Renderings -/

theorem ordered_of_mem_documentsOf {value document : Document} (h : value.Ordered)
    (hmem : document ∈ documentsOf value) : document.Ordered := by
  unfold documentsOf at hmem
  split at hmem
  · cases hmem
  · exact Document.orderedItems_iff.1 h document hmem
  · rw [List.mem_singleton] at hmem
    exact hmem ▸ h

/-- If all that is read is in order, so are the documents of a template. -/
theorem ordered_of_mem_unfilled (hread : ∀ source value, read source = .ok value → value.Ordered) {text : String}
    {documents : List Document} (h : unfilled read text = .ok documents) {document : Document}
    (hmem : document ∈ documents) : document.Ordered := by
  obtain ⟨parts, hparts, rfl⟩ := map_eq_ok_iff.1 h
  obtain ⟨part, hpart, hmem⟩ := List.mem_flatten.1 hmem
  obtain ⟨segment, -, hsegment⟩ := exists_of_mem_mapM hparts hpart
  rw [unfilledOf] at hsegment
  split at hsegment
  · cases hsegment
    cases hmem
  · obtain ⟨value, hvalue, rfl⟩ := map_eq_ok_iff.1 hsegment
    exact ordered_of_mem_documentsOf (hread _ value hvalue) hmem

/-- **Bound values stay in their place.** Two renderings of a template come of the same documents, which bindings have
no part in, and so they are of the same number. If no name in these documents has an expression in it, whatever stands
at a path of one of them is filled at this path, in both renderings. What it is filled to is the same if none of the
expressions in it is rooted at a binding in which the two differ, and a text becomes no more than the values of its
expressions in their place, whatever is written in them. -/
theorem values_stay_in_place (hread : ∀ source value, read source = .ok value → value.Ordered) {text : String}
    {rendered rendered' : List Document} (h : render read text first = .ok rendered)
    (h' : render read text second = .ok rendered') :
    ∃ documents, unfilled read text = .ok documents ∧
      rendered.length = documents.length ∧ rendered'.length = documents.length ∧
      ((∀ document ∈ documents, PlainNames document) →
        ∀ (number : Nat) (document : Document), documents[number]? = some document →
        ∃ result result' : Document, rendered[number]? = some result ∧ rendered'[number]? = some result' ∧
        ∀ path value, document.at? path = some value →
        ∃ filled filled', result.at? path = some filled ∧ result'.at? path = some filled' ∧
          (AgreeBelow first second value → filled = filled') ∧
          ∀ source, value = .string source → Placed first source filled ∧ Placed second source filled') := by
  obtain ⟨documents, hdocuments, hfirst⟩ := render_eq_ok_iff.1 h
  obtain ⟨documents', hdocuments', hsecond⟩ := render_eq_ok_iff.1 h'
  obtain rfl : documents = documents' := Except.ok.inj (hdocuments.symm.trans hdocuments')
  refine ⟨documents, hdocuments, hfirst.length_eq.symm, hsecond.length_eq.symm, ?_⟩
  intro hplain number document hnumber
  have hmem : document ∈ documents := List.mem_of_getElem? hnumber
  have ordered : document.Ordered := ordered_of_mem_unfilled hread hdocuments hmem
  have plain : PlainNames document := hplain document hmem
  obtain ⟨result, hresult, -, hfill⟩ := exists_getElem?_of_forall₂ hfirst hnumber
  obtain ⟨result', hresult', -, hfill'⟩ := exists_getElem?_of_forall₂ hsecond hnumber
  refine ⟨result, result', hresult, hresult', ?_⟩
  intro path value hat
  obtain ⟨filled, hat₁, hfilled⟩ := exists_filled_at hfill ordered plain hat
  obtain ⟨filled', hat₂, hfilled'⟩ := exists_filled_at hfill' ordered plain hat
  refine ⟨filled, filled', hat₁, hat₂, ?_, ?_⟩
  · intro agree
    exact (fillsTo_congr agree (ordered.at? hat) (plain.at? hat) hfilled).unique hfilled'
  · rintro source rfl
    exact ⟨placed_of_valueOfText (fillsTo_string_iff.1 hfilled), placed_of_valueOfText (fillsTo_string_iff.1 hfilled')⟩

/-- What is bound to one of two names has an expression, a mark and the syntax of a list in it. -/
theorem values_stay_in_place_of_syntax :
    let text := "a: x$\x7b\x7b m \x7d\x7d\nb: $\x7b\x7b n \x7d\x7d\n"
    let first := Table.ofList [("m", .string "\n---\n$\x7b\x7b n \x7d\x7d"), ("n", .ofNat 1)]
    let second := Table.ofList [("m", .string ": [1]"), ("n", .ofNat 1)]
    let document := Document.object [("a", .string "x$\x7b\x7b m \x7d\x7d"), ("b", .string "$\x7b\x7b n \x7d\x7d")]
    let rendered := Document.object [("a", .string "x\n---\n$\x7b\x7b n \x7d\x7d"), ("b", .ofNat 1)]
    let rendered' := Document.object [("a", .string "x: [1]"), ("b", .ofNat 1)]
    (∀ source value, Yaml.read source = .ok value → value.Ordered) ∧
      render Yaml.read text first = .ok [rendered] ∧ render Yaml.read text second = .ok [rendered'] ∧
      PlainNames document ∧ AgreeBelow first second (.string "$\x7b\x7b n \x7d\x7d") ∧
      rendered.at? [.member "b"] = rendered'.at? [.member "b"] := by
  intro text first second document rendered rendered'
  have hread : ∀ source value, Yaml.read source = .ok value → value.Ordered := fun source value h =>
    Yaml.ordered_of_read h
  have h : render Yaml.read text first = .ok [rendered] := by decide +kernel +revert
  have h' : render Yaml.read text second = .ok [rendered'] := by decide +kernel +revert
  have hdocuments : unfilled Yaml.read text = .ok [document] := by decide +kernel +revert
  have hroots : ∀ expression ∈ expressions "$\x7b\x7b n \x7d\x7d".toList,
      first.get? (Expression.root expression) = second.get? (Expression.root expression) := by decide +kernel +revert
  have agree : AgreeBelow first second (.string "$\x7b\x7b n \x7d\x7d") := agreeBelow_string_iff.2 hroots
  have plain : PlainNames document := by
    refine .of_members (by decide +kernel) ?_
    rw [List.forall_mem_cons, List.forall_mem_singleton]
    exact ⟨.of_string _, .of_string _⟩
  obtain ⟨documents, hsame, -, -, hplaces⟩ := values_stay_in_place hread h h'
  obtain rfl : [document] = documents := Except.ok.inj (hdocuments.symm.trans hsame)
  obtain ⟨_, _, hnumber, hnumber', hpaths⟩ := hplaces (List.forall_mem_singleton.2 plain) 0 document rfl
  cases hnumber
  cases hnumber'
  obtain ⟨filled, filled', hat, hat', hequal, -⟩ := hpaths [.member "b"] (.string "$\x7b\x7b n \x7d\x7d") rfl
  exact ⟨hread, h, h', plain, agree, by rw [hat, hat', hequal agree]⟩

end Converge.Template
