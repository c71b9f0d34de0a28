import Converge.Document.Basic

/-!
# Compact JSON text

Documents are written without any spaces. Characters outside ASCII stay as they are; of the ASCII
characters the quote, the backslash and the controls are escaped.

## Main Definitions

* `Json.layout` — how floats are written.
* `Json.quote` — a string in quotes.
* `Json.write` — the text of a document.
-/

namespace Converge.Json

/-- Floats have no exponent from `1e-5` up to below `1e16`; an exponent has a sign. -/
def layout : FloatLayout := ⟨-4, 16, true⟩

/-- A digit of base 16, in small letters. -/
def hexDigit (n : Nat) : Char := if n < 10 then Char.ofNat (n + 48) else Char.ofNat (n + 87)

/-- A character inside a quoted string. -/
def escape (c : Char) : List Char :=
  match c with
  | '"' => ['\\', '"']
  | '\\' => ['\\', '\\']
  | '\n' => ['\\', 'n']
  | '\t' => ['\\', 't']
  | '\r' => ['\\', 'r']
  | '\x08' => ['\\', 'b']
  | '\x0c' => ['\\', 'f']
  | c =>
      if c.toNat < 0x20 then ['\\', 'u', '0', '0', hexDigit (c.toNat / 16), hexDigit (c.toNat % 16)]
      else [c]

/-- A string in quotes. -/
def quote (text : String) : String := "\"" ++ String.ofList (text.toList.flatMap escape) ++ "\""

mutual

/-- The compact text of a document. -/
def write : Document → String
  | .null => "null"
  | .bool true => "true"
  | .bool false => "false"
  | .number value => value.write layout
  | .string text => quote text
  | .array items => "[" ++ ",".intercalate (writeItems items) ++ "]"
  | .object members => "\x7b" ++ ",".intercalate (writeMembers members) ++ "\x7d"
termination_by structural d => d

/-- The text of every item. -/
def writeItems : List Document → List String
  | [] => []
  | item :: items => write item :: writeItems items
termination_by structural d => d

/-- The text of every member. -/
def writeMembers : List (String × Document) → List String
  | [] => []
  | member :: members => writeMember member :: writeMembers members
termination_by structural d => d

/-- The text of a member. -/
def writeMember : String × Document → String
  | (name, value) => quote name ++ ":" ++ write value
termination_by structural d => d

end

end Converge.Json
