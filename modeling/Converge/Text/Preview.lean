import Converge.Text.Chars

/-!
# Short previews

One line that shows how a longer text begins, for messages.

## Main Definitions

* `previewChars`, `preview` — the start of a text on one line, cut once it has reached a number of bytes.
-/

namespace Converge.Text

open Chars

/-- The characters that a preview writes as a single space. -/
def isLineControl (c : Char) : Bool := c == '\n' || c == '\r' || c == '\t'

/-- Copies characters behind `shown` until it has reached `limit` bytes; what does not fit any more is
announced by three points. A run of line controls becomes one space. -/
def fill (limit : Nat) (shown : List Char) : List Char → List Char
  | [] => shown
  | c :: rest =>
      if limit ≤ byteLength shown then shown ++ ['.', '.', '.']
      else if isLineControl c then
        fill limit (if shown.getLast? = some ' ' then shown else shown ++ [' ']) rest
      else fill limit (shown ++ [c]) rest

/-- The start of a text on one line, without blanks at its ends. -/
def previewChars (limit : Nat) (text : List Char) : List Char := trim (fill limit [] text)

/-- `previewChars` on a string. -/
def preview (text : String) (limit : Nat) : String := String.ofList (previewChars limit text.toList)

end Converge.Text
