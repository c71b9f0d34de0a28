import Converge.Text.Chars

/-!
# Segments of a template

A template holds several documents, with a line `---` between two of them. The lines between two such marks
form a segment. Segments are numbered from one as an author counts them: a mark above the first document
begins no document of its own.

## Main Definitions

* `isMark` — the lines that separate documents.
* `segments` — the segments of a text.
* `isVoid` — a segment with nothing in it but comments.

## Design Notes

A mark may carry text after a blank; that text belongs to no segment.
-/

namespace Converge.Template

open Chars

/-- A line that separates documents: `---` alone or followed by a blank and more. -/
def isMark (line : List Char) : Bool :=
  let content := trimEnd line
  content = ['-', '-', '-'] || (afterStart ['-', '-', '-', ' '] content).isSome

/-- The texts between the marks: one more than there are marks. -/
def betweenMarks : List (List Char) → List (List Char)
  | [] => [[]]
  | line :: lines =>
      if isMark line then [] :: betweenMarks lines
      else match betweenMarks lines with
        | [] => [line]
        | segment :: segments => (line ++ segment) :: segments

/-- Leaves out a blank text above the first mark. -/
def dropBlankStart : List (List Char) → List (List Char)
  | first :: second :: rest => if allBlank first then second :: rest else first :: second :: rest
  | segments => segments

/-- The segments of a text. -/
def segments (text : List Char) : List (List Char) := dropBlankStart (betweenMarks (linesWithEnds text))

/-- A segment all of whose lines are blank or comments. -/
def isVoid (segment : List Char) : Bool :=
  ((lines segment).map trim).all fun line => line.isEmpty || line.head? = some '#'

/-- There is always a segment. -/
theorem betweenMarks_ne_nil (lines : List (List Char)) : betweenMarks lines ≠ [] := by
  induction lines with
  | nil => simp [betweenMarks]
  | cons line lines ih =>
      unfold betweenMarks
      split
      · simp
      · split <;> simp

/-- The count of segments is one more than that of the marks. -/
theorem length_betweenMarks (lines : List (List Char)) :
    (betweenMarks lines).length = lines.countP isMark + 1 := by
  induction lines with
  | nil => rfl
  | cons line lines ih =>
      unfold betweenMarks
      split
      · next h => simp [ih, h]
      · next h =>
          split
          · next hn => exact absurd hn (betweenMarks_ne_nil lines)
          · next hs => rw [hs] at ih; simpa [h] using ih

end Converge.Template
