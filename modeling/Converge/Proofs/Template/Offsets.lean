import Converge.Proofs.Template.Segmentation
import Converge.Proofs.Text.Slices

/-!
# Segments by their bytes

The segments of a text can be cut out of it while its lines are counted. Two bytes are kept: where the open segment
starts and where the line that is next starts. At a mark the text between them is a segment, and the next one starts
behind the mark; at the end the text from the first of them on is the last segment. No cut fails: both bytes are always
ends of lines, whatever the characters in the lines and however the lines end.

## Main Definitions

* `Template.Pass` — how far a text has been passed, and the segments up to there.
* `Template.cutOut?` — the segments of a text, cut out of it at bytes.
* `Template.Pass.Reached` — a pass has reached the end of some lines.

## Main Statements

* `Template.Pass.Reached.exists_next` — a line more is passed.
* `Template.cutOut?_eq` — no cut fails, and what is cut out are the segments.
-/

namespace Converge.Template

open Chars Text

/-! ### Cutting out -/

/-- How far a text has been passed: the segments that are finished, the byte at which the open one starts, and the byte
that has been reached. -/
structure Pass where
  finished : List String
  start : Nat
  reached : Nat

/-- Passes one line more. A mark finishes the open segment; the next one starts behind the mark. -/
def Pass.next? (text : String) (pass : Pass) (line : String) : Option Pass :=
  let reached := pass.reached + line.utf8ByteSize
  if isMark line.toList then
    (slice? text pass.start pass.reached).map fun segment => ⟨pass.finished ++ [segment], reached, reached⟩
  else some { pass with reached := reached }

/-- The segments of a text, cut out of it at bytes, if no cut fails. -/
def cutOut? (text : String) : Option (List String) := do
  let lines := (linesWithEnds text.toList).map String.ofList
  let pass ← lines.foldlM (Pass.next? text) ⟨[], 0, 0⟩
  let last ← fromByte? text pass.start
  return (dropBlankStart ((pass.finished ++ [last]).map String.toList)).map String.ofList

/-! ### What a pass has reached -/

variable {text : String} {above below : List (List Char)} {line : List Char} {pass : Pass}

/-- A line that is no mark goes on with the last text. -/
theorem betweenMarks_concat {before : List (List Char)} {last : List Char} (hline : isMark line = false)
    (h : betweenMarks above = before ++ [last]) : betweenMarks (above ++ [line]) = before ++ [last ++ line] := by
  obtain ⟨before', upper, -, unmarked, htexts⟩ := exists_from_last_mark above
  have habove := htexts []
  rw [List.append_nil, List.append_nil, betweenMarks_of_unmarked unmarked, h] at habove
  obtain ⟨rfl, hlast⟩ := List.append_inj' habove rfl
  rw [htexts, betweenMarks_of_unmarked (unmarked.concat hline), List.flatten_concat, List.singleton_inj.1 hlast]

/-- A pass has reached the end of some lines: its finished segments and the open one are the texts between the marks,
and its bytes are where the open one starts and where it ends. -/
structure Pass.Reached (pass : Pass) (above : List (List Char)) : Prop where
  exists_open : ∃ passed current, above.flatten = passed ++ current ∧
    betweenMarks above = pass.finished.map String.toList ++ [current] ∧
    pass.start = (String.ofList passed).utf8ByteSize
  reached : pass.reached = (String.ofList above.flatten).utf8ByteSize

namespace Pass.Reached

theorem nil : Reached ⟨[], 0, 0⟩ [] := ⟨⟨[], [], rfl, rfl, rfl⟩, rfl⟩

/-- The byte behind a line is as far behind the byte in front of it as the line is long. -/
theorem reached_concat (h : pass.Reached above) (line : List Char) :
    pass.reached + (String.ofList line).utf8ByteSize = (String.ofList (above ++ [line]).flatten).utf8ByteSize := by
  rw [h.reached, List.flatten_concat, String.ofList_append, String.utf8ByteSize_append]

/-- **A line more is passed**, and no cut fails. -/
theorem exists_next (h : pass.Reached above) (hlines : linesWithEnds text.toList = above ++ line :: below) :
    ∃ next, pass.next? text (String.ofList line) = some next ∧ next.Reached (above ++ [line]) := by
  obtain ⟨passed, current, hflatten, hbetween, hstart⟩ := h.exists_open
  rw [next?, String.toList_ofList]
  cases hmark : isMark line with
  | false =>
      refine ⟨_, if_neg Bool.false_ne_true, ⟨passed, current ++ line, ?_, ?_, hstart⟩, h.reached_concat line⟩
      · rw [List.flatten_concat, hflatten, List.append_assoc]
      · exact betweenMarks_concat hmark hbetween
  | true =>
      have htext : text =
          String.ofList passed ++ String.ofList current ++ String.ofList (line :: below).flatten := by
        rw [← String.ofList_append, ← String.ofList_append, ← hflatten, ← List.flatten_append, ← hlines,
          flatten_linesWithEnds, String.ofList_toList]
      have hcut : slice? text pass.start pass.reached = some (String.ofList current) := by
        rw [hstart, h.reached, hflatten, String.ofList_append]
        conv_lhs => rw [htext]
        exact slice?_append _ _ _
      refine ⟨_, by rw [if_pos rfl, hcut, Option.map_some], ⟨(above ++ [line]).flatten, [], ?_, ?_, ?_⟩, ?_⟩
      · rw [List.append_nil]
      · rw [betweenMarks_append_mark hmark, hbetween, List.map_append, List.map_singleton, String.toList_ofList]
        rfl
      · exact h.reached_concat line
      · exact h.reached_concat line

end Pass.Reached

/-- All lines of a text are passed. -/
theorem exists_pass (hlines : linesWithEnds text.toList = above ++ below) :
    ∃ pass, (above.map String.ofList).foldlM (Pass.next? text) ⟨[], 0, 0⟩ = some pass ∧ pass.Reached above := by
  induction above using List.reverseRecOn generalizing below with
  | nil => exact ⟨_, rfl, .nil⟩
  | append_singleton above line ih =>
      rw [List.append_assoc, List.singleton_append] at hlines
      obtain ⟨pass, hpass, reached⟩ := ih hlines
      obtain ⟨next, hnext, reached'⟩ := reached.exists_next hlines
      refine ⟨next, ?_, reached'⟩
      rw [List.map_append, List.foldlM_append, hpass, List.map_singleton]
      show (pass.next? text (String.ofList line)).bind _ = _
      rw [hnext]
      rfl

/-- **No cut fails, and what is cut out are the segments.** -/
theorem cutOut?_eq (text : String) : cutOut? text = some ((segments text.toList).map String.ofList) := by
  obtain ⟨pass, hpass, reached⟩ := exists_pass (List.append_nil (linesWithEnds text.toList)).symm
  obtain ⟨passed, current, hflatten, hbetween, hstart⟩ := reached.exists_open
  rw [flatten_linesWithEnds] at hflatten
  have hlast : fromByte? text pass.start = some (String.ofList current) :=
    fromByte?_eq_some_iff.2 ⟨String.ofList passed, by rw [← String.ofList_append, ← hflatten, String.ofList_toList],
      hstart.symm⟩
  have hsegments : (pass.finished ++ [String.ofList current]).map String.toList =
      betweenMarks (linesWithEnds text.toList) := by
    rw [hbetween, List.map_append, List.map_singleton, String.toList_ofList]
  simp only [cutOut?, hpass, Option.bind_eq_bind, Option.bind_some, hlast, hsegments]
  rfl

end Converge.Template
