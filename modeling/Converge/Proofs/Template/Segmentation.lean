import Converge.Proofs.Text.Lines
import Converge.Template.Segments
import Mathlib.Data.List.Induction

/-!
# Lines and segments

The segments of a text are its lines between the marks. So a line that is no mark stands in one segment, together
with its neighbours up to the next mark on either side, and a mark stands in none: whatever is written on it, the
segments are the same. A blank text above the first mark makes no segment.

## Main Definitions

* `Template.Unmarked` — lines none of which is a mark.
* `Template.bareMark` — a mark with nothing else on its line.

## Main Statements

* `Template.betweenMarks_append_mark` — a mark parts the texts above it from those below it. Everything else about
  marks follows from this.
* `Template.exists_segment` — a line that is neither a mark nor blank stands in a segment, between its neighbours.
* `Template.segments_eq_of_mark` — what is written on a mark does not change the segments.
-/

namespace Converge.Template

open Chars

variable {text line mark : List Char} {above below : List (List Char)}

/-- The texts between the marks are made of the lines between them. -/
theorem betweenMarks_eq_splitOnP (lines : List (List Char)) :
    betweenMarks lines = (lines.splitOnP isMark).map List.flatten := by
  induction lines with
  | nil => rfl
  | cons line lines ih =>
      rw [betweenMarks, List.splitOnP_cons_eq_if_modifyHead]
      split
      · rw [ih, List.map_cons, List.flatten_nil]
      · obtain ⟨group, groups, hgroups⟩ := List.exists_cons_of_ne_nil (List.splitOnP_ne_nil isMark lines)
        rw [ih, hgroups]
        rfl

/-- A mark parts the texts above it from those below it. -/
theorem betweenMarks_append_mark (hmark : isMark mark = true) (above below : List (List Char)) :
    betweenMarks (above ++ mark :: below) = betweenMarks above ++ betweenMarks below := by
  rw [betweenMarks_eq_splitOnP, betweenMarks_eq_splitOnP, betweenMarks_eq_splitOnP,
    List.splitOnP_append_cons above below hmark, List.map_append]

/-- None of the lines is a mark. -/
def Unmarked (lines : List (List Char)) : Prop := ∀ line ∈ lines, isMark line = false

theorem unmarked_nil : Unmarked [] := List.forall_mem_nil _

theorem Unmarked.append {upper lower : List (List Char)} (hupper : Unmarked upper) (hlower : Unmarked lower) :
    Unmarked (upper ++ lower) :=
  List.forall_mem_append.2 ⟨hupper, hlower⟩

theorem Unmarked.concat {upper : List (List Char)} (hupper : Unmarked upper) (hline : isMark line = false) :
    Unmarked (upper ++ [line]) :=
  hupper.append (List.forall_mem_singleton.2 hline)

/-- Lines without a mark are one text. -/
theorem betweenMarks_of_unmarked {lines : List (List Char)} (h : Unmarked lines) :
    betweenMarks lines = [lines.flatten] := by
  rw [betweenMarks_eq_splitOnP, List.splitOnP_eq_singleton h, List.map_singleton]

/-! ### The text around a line -/

/-- The lines from the last mark on belong together with what follows them. -/
theorem exists_from_last_mark (above : List (List Char)) :
    ∃ before upper, upper <:+ above ∧ Unmarked upper ∧
      ∀ below, betweenMarks (above ++ below) = before ++ betweenMarks (upper ++ below) := by
  induction above using List.reverseRecOn with
  | nil => exact ⟨[], [], List.suffix_rfl, unmarked_nil, fun _ => rfl⟩
  | append_singleton above line ih =>
      cases hmark : isMark line with
      | true =>
          refine ⟨betweenMarks above, [], List.nil_suffix, unmarked_nil, fun below => ?_⟩
          rw [List.append_assoc, List.singleton_append, betweenMarks_append_mark hmark, List.nil_append]
      | false =>
          obtain ⟨before, upper, hupper, unmarked, htexts⟩ := ih
          refine ⟨before, upper ++ [line], ?_, unmarked.concat hmark, fun below => ?_⟩
          · exact List.suffix_concat_iff.2 (.inr ⟨upper, rfl, hupper⟩)
          · rw [List.append_assoc, htexts, List.append_assoc]

/-- Lines without a mark belong together with the lines up to the next mark. -/
theorem exists_up_to_next_mark (below : List (List Char)) :
    ∃ lower after, lower <+: below ∧ Unmarked lower ∧
      ∀ upper, Unmarked upper → betweenMarks (upper ++ below) = (upper ++ lower).flatten :: after := by
  induction below with
  | nil =>
      refine ⟨[], [], List.prefix_rfl, unmarked_nil, fun upper hupper => ?_⟩
      rw [List.append_nil, betweenMarks_of_unmarked hupper]
  | cons line below ih =>
      cases hmark : isMark line with
      | true =>
          refine ⟨[], betweenMarks below, List.nil_prefix, unmarked_nil, fun upper hupper => ?_⟩
          rw [betweenMarks_append_mark hmark, betweenMarks_of_unmarked hupper, List.append_nil,
            List.singleton_append]
      | false =>
          obtain ⟨lower, after, hlower, unmarked, htexts⟩ := ih
          refine ⟨line :: lower, after, (List.prefix_cons_inj line).2 hlower,
            List.forall_mem_cons.2 ⟨hmark, unmarked⟩, fun upper hupper => ?_⟩
          have htext := htexts (upper ++ [line]) (hupper.concat hmark)
          rwa [List.append_assoc, List.append_assoc, List.singleton_append, List.singleton_append] at htext

/-- A line that is no mark stands in one of the texts, with its neighbours up to the next mark on either side. -/
theorem exists_text_between_marks (hline : isMark line = false) (above below : List (List Char)) :
    ∃ upper lower, upper <:+ above ∧ lower <+: below ∧ Unmarked (upper ++ lower) ∧
      (upper ++ line :: lower).flatten ∈ betweenMarks (above ++ line :: below) := by
  obtain ⟨before, upper, hupper, unmarked, habove⟩ := exists_from_last_mark above
  obtain ⟨lower, after, hlower, unmarked', hbelow⟩ := exists_up_to_next_mark below
  refine ⟨upper, lower, hupper, hlower, unmarked.append unmarked', ?_⟩
  have htext := hbelow (upper ++ [line]) (unmarked.concat hline)
  rw [List.append_assoc, List.append_assoc, List.singleton_append, List.singleton_append] at htext
  rw [habove, htext]
  exact List.mem_append_right before List.mem_cons_self

/-! ### Segments -/

/-- A text that is not blank is not left out. -/
theorem mem_dropBlankStart {texts : List (List Char)} (h : text ∈ texts) (hblank : allBlank text = false) :
    text ∈ dropBlankStart texts := by
  unfold dropBlankStart
  split
  · next first second rest =>
      split
      · next hfirst =>
          refine (List.mem_cons.1 h).resolve_left ?_
          rintro rfl
          rw [hblank] at hfirst
          cases hfirst
      · exact h
  · exact h

theorem allBlank_flatten {lines : List (List Char)} (hline : line ∈ lines) (hblank : allBlank line = false) :
    allBlank lines.flatten = false := by
  rw [allBlank, List.all_eq_false] at hblank ⊢
  obtain ⟨c, hc, hnot⟩ := hblank
  exact ⟨c, List.mem_flatten.2 ⟨line, hline, hc⟩, hnot⟩

/-- Lines around a line of a text are the lines of the text that they make. -/
theorem linesWithEnds_around {upper lower : List (List Char)} (hlines : linesWithEnds text = above ++ line :: below)
    (hupper : upper <:+ above) (hlower : lower <+: below) :
    linesWithEnds (upper ++ line :: lower).flatten = upper ++ line :: lower := by
  obtain ⟨higher, rfl⟩ := hupper
  obtain ⟨deeper, rfl⟩ := hlower
  have hwithin : upper ++ line :: lower <:+: linesWithEnds text := by
    refine ⟨higher, deeper, ?_⟩
    rw [hlines, List.append_assoc, List.append_assoc, List.append_assoc, List.cons_append]
  exact ((lines_linesWithEnds text).of_within hwithin).linesWithEnds_flatten

/-- A line that is neither a mark nor blank stands in a segment, with its neighbours up to the next mark on either
side. -/
theorem exists_segment (hlines : linesWithEnds text = above ++ line :: below) (hline : isMark line = false)
    (hblank : allBlank line = false) :
    ∃ upper lower, upper <:+ above ∧ lower <+: below ∧ Unmarked (upper ++ lower) ∧
      (upper ++ line :: lower).flatten ∈ segments text := by
  obtain ⟨upper, lower, hupper, hlower, unmarked, hmem⟩ := exists_text_between_marks hline above below
  refine ⟨upper, lower, hupper, hlower, unmarked, ?_⟩
  rw [segments, hlines]
  have hmemLine : line ∈ upper ++ line :: lower := List.mem_append_right upper List.mem_cons_self
  exact mem_dropBlankStart hmem (allBlank_flatten hmemLine hblank)

/-- A mark with nothing else on its line. -/
def bareMark : List Char := ['-', '-', '-', '\n']

theorem isMark_bareMark : isMark bareMark = true := by
  decide

theorem linesWithEnds_bareMark_append (below : List Char) :
    linesWithEnds (bareMark ++ below) = bareMark :: linesWithEnds below := by
  have unbroken : '\n' ∉ ['-', '-', '-'] := by decide
  exact linesWithEnds_line unbroken below

/-- A bare mark below a closed text is a line of its own. -/
theorem linesWithEnds_append_bareMark {first : List Char} (closed : Closed first) (second : List Char) :
    linesWithEnds (first ++ (bareMark ++ second)) = linesWithEnds first ++ bareMark :: linesWithEnds second := by
  rw [linesWithEnds_append closed, linesWithEnds_bareMark_append]

/-- What is written on a mark does not change the segments. -/
theorem segments_eq_of_mark (hlines : linesWithEnds text = above ++ mark :: below) (hmark : isMark mark = true) :
    segments text = segments (above.flatten ++ (bareMark ++ below.flatten)) := by
  have hform : Lines (above ++ mark :: below) := hlines ▸ lines_linesWithEnds text
  have hform' : Lines ((above ++ [mark]) ++ below) := by
    rwa [List.append_assoc, List.singleton_append]
  rw [segments, segments, hlines,
    linesWithEnds_append_bareMark (hform.closed_of_append (List.cons_ne_nil mark below)),
    hform.of_append_left.linesWithEnds_flatten, hform'.of_append_right.linesWithEnds_flatten,
    betweenMarks_append_mark hmark, betweenMarks_append_mark isMark_bareMark]

end Converge.Template
