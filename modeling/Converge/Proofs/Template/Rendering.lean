import Converge.Proofs.Template.Filling
import Converge.Proofs.Template.Segmentation
import Converge.Proofs.Text.Trimming
import Converge.Yaml.Reader

/-!
# From segments to documents

Rendering a template is two things one after the other: its segments are read, which bindings have no part in, and the
documents that were read are filled one by one. Segments without a value give no document, and so it does not matter
that a blank text above the first mark is left out. This decides what becomes of every line of a text, and what becomes
of two texts that are put together.

## Main Definitions

* `Template.unfilled` — the documents of a template before they are filled.
* `Template.Renders` — a document of a template and what it is filled to.
* `Template.isRemark` — a line with a comment or with nothing on it.

## Main Statements

* `Template.render_eq_ok_iff` — rendering succeeds if the template can be read and each of its documents is filled.
* `Template.lost_only_on_marks` — what is written on a mark is lost, whatever it is, and nothing else.
* `Template.document_on_mark_lost` — a template whose first document is written on a mark.
* `Template.render_of_joined` — two templates with a mark between them give the documents of the one and those of the
  other.
-/

namespace Converge.Template

open Chars

variable {read : String → Except Yaml.Error Document} {bindings : Bindings}

/-! ### Segments without documents -/

/-- A line with a comment on it, or with nothing. -/
def isRemark (line : List Char) : Bool :=
  let content := trim (dropLineEnd line)
  content.isEmpty || content.head? = some '#'

theorem isVoid_eq (segment : List Char) : isVoid segment = (linesWithEnds segment).all isRemark := by
  rw [isVoid, lines, List.map_map, List.all_map]
  rfl

/-- Without its line break a line starts as it did. -/
theorem prefix_dropLineEnd (line : List Char) : dropLineEnd line <+: line := by
  unfold dropLineEnd
  split
  · next body h =>
      refine ⟨['\r', '\n'], ?_⟩
      rw [← List.reverse_reverse line, h, List.reverse_cons, List.reverse_cons, List.append_assoc]
      rfl
  · next body _ h =>
      refine ⟨['\n'], ?_⟩
      rw [← List.reverse_reverse line, h, List.reverse_cons]
  · exact List.prefix_rfl

theorem isRemark_of_allBlank {line : List Char} (h : allBlank line = true) : isRemark line = true := by
  have hbody : allBlank (dropLineEnd line) = true :=
    List.all_eq_true.2 fun c hc => List.all_eq_true.1 h c ((prefix_dropLineEnd line).subset hc)
  rw [isRemark, trim_of_allBlank hbody]
  rfl

/-- There is nothing in a blank segment. -/
theorem isVoid_of_allBlank {segment : List Char} (h : allBlank segment = true) : isVoid segment = true := by
  rw [isVoid_eq, List.all_eq_true]
  intro line hline
  refine isRemark_of_allBlank (List.all_eq_true.2 fun c hc => List.all_eq_true.1 h c ?_)
  rw [← flatten_linesWithEnds segment]
  exact List.mem_flatten.2 ⟨line, hline, hc⟩

/-! ### Reading and filling -/

/-- The documents of a segment before they are filled. -/
def unfilledOf (read : String → Except Yaml.Error Document) (segment : List Char) :
    Except Yaml.Error (List Document) :=
  if isVoid segment then .ok [] else (read (String.ofList segment)).map documentsOf

/-- The documents of a template before they are filled. -/
def unfilled (read : String → Except Yaml.Error Document) (text : String) : Except Yaml.Error (List Document) :=
  ((segments text.toList).mapM (unfilledOf read)).map List.flatten

/-- A document of a template is an object, and the bindings fill it to another one. -/
def Renders (bindings : Bindings) (document rendered : Document) : Prop :=
  document.isObject = true ∧ FillsTo bindings document rendered

theorem fillDocument_eq_ok_iff {number : Nat} {document rendered : Document} :
    fillDocument bindings number document = .ok rendered ↔ Renders bindings document rendered := by
  rw [fillDocument, Renders]
  split
  · next h => rw [mapError_eq_ok_iff, fill_eq_ok_iff, and_iff_right h]
  · next h => exact iff_of_false nofun fun hrenders => h hrenders.1

/-- The number of a segment goes into errors alone. -/
theorem renderSegment_eq_ok_iff {number : Nat} {segment : List Char} {rendered : List Document} :
    renderSegment read bindings number segment = .ok rendered ↔
      ∃ documents, unfilledOf read segment = .ok documents ∧
        List.Forall₂ (Renders bindings) documents rendered := by
  rw [renderSegment, unfilledOf]
  split
  · simp [eq_comm]
  · cases read (String.ofList segment) with
    | error cause => simp [Except.map]
    | ok value => simp [Except.map, mapM_eq_ok_iff_forall₂, fillDocument_eq_ok_iff]

/-- Each segment is rendered for itself. -/
theorem render_eq_ok_iff_forall₂ {text : String} {rendered : List Document} :
    render read text bindings = .ok rendered ↔
      ∃ parts, List.Forall₂ (fun segment part => ∃ documents, unfilledOf read segment = .ok documents ∧
        List.Forall₂ (Renders bindings) documents part) (segments text.toList) parts ∧ parts.flatten = rendered := by
  have hsegments (segments : List (List Char)) (number : Nat) :
      segments = (segments.zipIdx number).map Prod.fst := (List.zipIdx_map_fst number segments).symm
  rw [render, map_eq_ok_iff]
  simp only [mapM_eq_ok_iff_forall₂, renderSegment_eq_ok_iff]
  conv_rhs => rw [hsegments (segments text.toList) 1]
  simp only [List.forall₂_map_left_iff]

/-- Rendering succeeds if the template can be read and each of its documents is filled. -/
theorem render_eq_ok_iff {text : String} {rendered : List Document} :
    render read text bindings = .ok rendered ↔
      ∃ documents, unfilled read text = .ok documents ∧ List.Forall₂ (Renders bindings) documents rendered := by
  rw [render_eq_ok_iff_forall₂, exists_parts_iff, unfilled]

/-! ### Lines that are lost -/

/-- **What is written on a mark is lost, and nothing else.** Whatever stands on a mark, the segments are those of a text
with a bare mark in its place, and so are the documents. Any other line that is not blank stands in a segment, between
the lines up to the next mark on either side. If it is no comment, rendering reads this segment, and the documents in it
are among those that are given back. -/
theorem lost_only_on_marks (read : String → Except Yaml.Error Document) (text : String)
    (above below : List (List Char)) (line : List Char) (hlines : linesWithEnds text.toList = above ++ line :: below) :
    (isMark line = true →
      let bare := above.flatten ++ (bareMark ++ below.flatten)
      segments text.toList = segments bare ∧
        ∀ bindings, render read text bindings = render read (String.ofList bare) bindings) ∧
    (isMark line = false → allBlank line = false →
      ∃ upper lower, upper <:+ above ∧ lower <+: below ∧ Unmarked (upper ++ lower) ∧
        let segment := (upper ++ line :: lower).flatten
        segment ∈ segments text.toList ∧
          (isRemark line = false → ∀ bindings rendered, render read text bindings = .ok rendered →
            ∃ value part, read (String.ofList segment) = .ok value ∧
              List.Forall₂ (Renders bindings) (documentsOf value) part ∧ part <:+: rendered)) := by
  refine ⟨?_, ?_⟩
  · intro hmark bare
    have hsegments : segments text.toList = segments bare := segments_eq_of_mark hlines hmark
    refine ⟨hsegments, fun bindings => ?_⟩
    rw [render, render, String.toList_ofList, hsegments]
  · intro hline hblank
    obtain ⟨upper, lower, hupper, hlower, unmarked, hmem⟩ := exists_segment hlines hline hblank
    refine ⟨upper, lower, hupper, hlower, unmarked, hmem, ?_⟩
    intro hremark bindings rendered hrender
    obtain ⟨parts, hparts, rfl⟩ := render_eq_ok_iff_forall₂.1 hrender
    obtain ⟨before, after, hsplit⟩ := List.append_of_mem hmem
    rw [hsplit] at hparts
    obtain ⟨left, part, right, -, ⟨documents, hdocuments, hpart⟩, -, rfl⟩ := exists_split_of_forall₂ hparts
    have hvoid : isVoid (upper ++ line :: lower).flatten = false := by
      rw [isVoid_eq, linesWithEnds_around hlines hupper hlower, List.all_eq_false]
      exact ⟨line, List.mem_append_right upper List.mem_cons_self, by rw [hremark]; exact Bool.false_ne_true⟩
    rw [unfilledOf, hvoid, if_neg Bool.false_ne_true, map_eq_ok_iff] at hdocuments
    obtain ⟨value, hread, rfl⟩ := hdocuments
    refine ⟨value, part, hread, hpart, left.flatten, right.flatten, ?_⟩
    rw [List.flatten_append, List.flatten_cons, List.append_assoc]

/-- A mark with a document on it, and below it a document. The one is lost, the other is in a segment. -/
theorem lost_only_on_marks_of_two_lines :
    let text := "--- a: 1\nkind: B\n"
    let mark := "--- a: 1\n".toList
    let line := "kind: B\n".toList
    linesWithEnds text.toList = [mark, line] ∧ isMark mark = true ∧ isMark line = false ∧ isRemark line = false ∧
      segments text.toList = segments (bareMark ++ line) ∧
      ∃ segment ∈ segments text.toList, ∀ bindings rendered, render Yaml.read text bindings = .ok rendered →
        ∃ value part, Yaml.read (String.ofList segment) = .ok value ∧
          List.Forall₂ (Renders bindings) (documentsOf value) part ∧ part <:+: rendered := by
  intro text mark line
  have hlines : linesWithEnds text.toList = [mark, line] := by decide +kernel
  have hmark : isMark mark = true := by decide +kernel
  have hline : isMark line = false := by decide +kernel
  have hblank : allBlank line = false := by decide +kernel
  have hremark : isRemark line = false := by decide +kernel
  obtain ⟨upper, lower, -, -, -, hmem, hrender⟩ :=
    (lost_only_on_marks Yaml.read text [mark] [] line hlines).2 hline hblank
  have hsegments := ((lost_only_on_marks Yaml.read text [] [line] mark hlines).1 hmark).1
  exact ⟨hlines, hmark, hline, hremark, hsegments, _, hmem, hrender hremark⟩

/-- The first of two documents is written on a mark. It is in no segment, and rendering gives the second one only, as if
there were no other. Below the mark it would be given too. -/
theorem document_on_mark_lost :
    let text := "--- \x7bkind: A\x7d\n---\nkind: B\n"
    'A' ∈ text.toList ∧ (∀ segment ∈ segments text.toList, 'A' ∉ segment) ∧
      render Yaml.read text .empty = .ok [.object [("kind", .string "B")]] ∧
      render Yaml.read "---\n\x7bkind: A\x7d\n---\nkind: B\n" .empty =
        .ok [.object [("kind", .string "A")], .object [("kind", .string "B")]] := by
  decide +kernel

/-! ### Templates that are put together -/

/-- It does not matter that a blank text above the first mark is left out. -/
theorem flatten_mapM_dropBlankStart_eq_ok_iff {texts : List (List Char)} {documents : List Document} :
    ((dropBlankStart texts).mapM (unfilledOf read)).map List.flatten = .ok documents ↔
      (texts.mapM (unfilledOf read)).map List.flatten = .ok documents := by
  unfold dropBlankStart
  split
  · next first second rest =>
      split
      · next hblank =>
          -- A blank text is void, so it gives no document even where it is kept.
          have hfirst : unfilledOf read first = .ok [] := by
            rw [unfilledOf, if_pos (isVoid_of_allBlank hblank)]
          rw [@flatten_mapM_cons_eq_ok_iff _ _ _ (unfilledOf read) first]
          constructor
          · intro h
            exact ⟨[], documents, hfirst, h, rfl⟩
          · rintro ⟨left, right, hleft, hright, rfl⟩
            cases hfirst.symm.trans hleft
            exact hright
      · exact Iff.rfl
  · exact Iff.rfl

/-- With a mark between them, two templates have the documents of the one and those of the other. -/
theorem unfilled_of_joined {first : String} (closed : Closed first.toList) (second : String)
    {documents : List Document} :
    unfilled read (first ++ "---\n" ++ second) = .ok documents ↔
      ∃ above below, unfilled read first = .ok above ∧ unfilled read second = .ok below ∧
        documents = above ++ below := by
  have hlines : linesWithEnds (first ++ "---\n" ++ second).toList =
      linesWithEnds first.toList ++ bareMark :: linesWithEnds second.toList := by
    rw [String.toList_append, String.toList_append, List.append_assoc]
    exact linesWithEnds_append_bareMark closed second.toList
  simp only [unfilled, segments, flatten_mapM_dropBlankStart_eq_ok_iff, hlines,
    betweenMarks_append_mark isMark_bareMark, flatten_mapM_append_eq_ok_iff]

/-- **Two templates with a mark between them are rendered as the one and the other.** This succeeds exactly if both can
be rendered, and gives the documents of the first and behind them those of the second, however their segments look
where they meet. -/
theorem render_of_joined (read : String → Except Yaml.Error Document) (first second : String)
    (closed : Closed first.toList) (bindings : Bindings) (rendered : List Document) :
    render read (first ++ "---\n" ++ second) bindings = .ok rendered ↔
      ∃ above below, render read first bindings = .ok above ∧ render read second bindings = .ok below ∧
        rendered = above ++ below := by
  simp only [render_eq_ok_iff, unfilled_of_joined closed]
  constructor
  · rintro ⟨_, ⟨above, below, habove, hbelow, rfl⟩, hrendered⟩
    obtain ⟨left, right, hleft, hright, rfl⟩ := forall₂_append_left_iff.1 hrendered
    exact ⟨left, right, ⟨above, habove, hleft⟩, ⟨below, hbelow, hright⟩, rfl⟩
  · rintro ⟨left, right, ⟨above, habove, hleft⟩, ⟨below, hbelow, hright⟩, rfl⟩
    exact ⟨above ++ below, ⟨above, below, habove, hbelow, rfl⟩, List.rel_append hleft hright⟩

/-- Both templates start with a mark, and have segments without documents. -/
theorem render_of_joined_with_marks :
    let first := "---\n# none\n---\nkind: A\n"
    let second := "---\n[]\n---\n~\n---\nkind: B\n"
    Closed first.toList ∧ render Yaml.read first .empty = .ok [.object [("kind", .string "A")]] ∧
      render Yaml.read second .empty = .ok [.object [("kind", .string "B")]] ∧
      render Yaml.read (first ++ "---\n" ++ second) .empty =
        .ok [.object [("kind", .string "A")], .object [("kind", .string "B")]] := by
  intro first second
  have closed : Closed first.toList := .inr (by decide +kernel)
  have hfirst : render Yaml.read first .empty = .ok [.object [("kind", .string "A")]] := by decide +kernel
  have hsecond : render Yaml.read second .empty = .ok [.object [("kind", .string "B")]] := by decide +kernel
  exact ⟨closed, hfirst, hsecond,
    (render_of_joined Yaml.read first second closed .empty _).2 ⟨_, _, hfirst, hsecond, rfl⟩⟩

end Converge.Template
