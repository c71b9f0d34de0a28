import Converge.Yaml.Writer.Scalar

/-!
# Writing YAML text

Documents are written in block style, two blanks for each level. The items of a sequence that is the value of
a key stand below the key without a further indentation. Nothing is broken into lines of a certain length.

## Main Definitions

* `layout` — how floats are written.
* `Place` — where a value begins.
* `value` — the text of a value from where it begins.
* `write` — the text of a document.

## Design Notes

Members are written in the order in which they stand. A name that takes more than one line or 128 bytes is
written behind a question mark.
-/

namespace Converge.Yaml

namespace Writer

/-- Floats have no exponent from `1e-5` up to below `1e16`; an exponent that is not negative has no sign. -/
def layout : FloatLayout := ⟨-4, 16, false⟩

/-- Where a value begins: at the start of the text, or behind the name or the mark of an entry that is
indented so far. -/
inductive Place where
  | top
  | behindName (indent : Nat)
  | behindMark (indent : Nat)
  deriving Repr, DecidableEq

namespace Place

/-- The indentation of the items of a sequence. -/
def items : Place → Nat
  | .top => 0
  | .behindName indent => indent
  | .behindMark indent => indent + 2

/-- The indentation of the members of a mapping, and of the further lines of a string. -/
def members : Place → Nat
  | .top => 0
  | .behindName indent | .behindMark indent => indent + 2

/-- The indentation of the further lines of a string. -/
def lines : Place → Nat
  | .top => 2
  | .behindName indent | .behindMark indent => indent + 2

/-- What stands on one line goes behind the name or the mark. -/
def line (place : Place) (text : List Char) : List Char :=
  match place with
  | .top => text
  | _ => ' ' :: text

/-- Indented lines go below a name; behind a mark the first of them loses its indentation. -/
def block (place : Place) (indent : Nat) (text : List Char) : List Char :=
  match place with
  | .top => text
  | .behindName _ => '\n' :: text
  | .behindMark _ => ' ' :: text.drop indent

end Place

/-- A name that has to be written behind a question mark. -/
def isLongName (name : String) : Bool := name.toList.any isBreak || 128 < Chars.byteLength name.toList

/-- The text before the value of a member: its name and a colon. -/
def nameText (indent : Nat) (name : String) : List Char :=
  if isLongName name then
    '?' :: ' ' :: scalarLine (indent + 2) name ++ blanks indent ++ [':']
  else scalarInline name ++ [':']

/-- Where the value of a member begins. -/
def placeOf (indent : Nat) (name : String) : Place :=
  if isLongName name then .behindMark indent else .behindName indent

mutual

/-- The text of a value from where it begins, with the end of its last line. -/
def value (place : Place) : Document → List Char
  | .null => place.line "null\n".toList
  | .bool true => place.line "true\n".toList
  | .bool false => place.line "false\n".toList
  | .number number => place.line ((number.write layout).toList ++ ['\n'])
  | .string text => place.line (scalarLine place.lines text)
  | .array [] => place.line "[]\n".toList
  | .array items => place.block place.items (sequence place.items items)
  | .object [] => place.line ['\x7b', '\x7d', '\n']
  | .object entries => place.block place.members (mapping place.members entries)
termination_by structural document => document

/-- The lines of the items of a sequence. -/
def sequence (indent : Nat) : List Document → List Char
  | [] => []
  | item :: items => blanks indent ++ '-' :: value (.behindMark indent) item ++ sequence indent items
termination_by structural items => items

/-- The lines of the members of a mapping. -/
def mapping (indent : Nat) : List (String × Document) → List Char
  | [] => []
  | entry :: entries => blanks indent ++ member indent entry ++ mapping indent entries
termination_by structural entries => entries

/-- The text of a member. -/
def member (indent : Nat) : String × Document → List Char
  | (name, document) => nameText indent name ++ value (placeOf indent name) document
termination_by structural entry => entry

end

end Writer

/-- The text of a document. -/
def write (document : Document) : String := String.ofList (Writer.value .top document)

end Converge.Yaml
