import Converge.Text.Chars

/-!
# Indented text blocks

A template written inside other text is usually indented as a whole. `dedent` removes what the lines
have in common and the blank lines around the block.

## Main Definitions

* `indentWidth` — how many spaces and tabs a line starts with.
* `margin` — the smallest such width over the lines that are not blank.
* `dedent` — the block without its margin.
-/

namespace Converge.Text

open Chars

/-- The characters that indent a line. -/
def isIndent (c : Char) : Bool := c == ' ' || c == '\t'

/-- How many spaces and tabs a line starts with. -/
def indentWidth (line : List Char) : Nat := (line.takeWhile isIndent).length

/-- The smallest indentation of the lines that are not blank; zero if there is none. -/
def margin (block : List (List Char)) : Nat :=
  (((block.filter (!allBlank ·)).map indentWidth).min?).getD 0

/-- A line without the margin and without the blanks at its end; a blank line becomes empty. -/
def strip (width : Nat) (line : List Char) : List Char :=
  if allBlank line then [] else trimEnd (line.drop width)

/-- The lines from the first to the last one that is not empty. -/
def trimLines (block : List (List Char)) : List (List Char) :=
  ((block.dropWhile List.isEmpty).reverse.dropWhile List.isEmpty).reverse

/-- The block without its margin, without blanks at the end of a line and without the blank lines
around it. -/
def dedentChars (text : List Char) : List Char :=
  let block := lines text
  join ['\n'] (trimLines (block.map (strip (margin block))))

/-- `dedentChars` on a string. -/
def dedent (text : String) : String := String.ofList (dedentChars text.toList)

end Converge.Text
