import Converge.Text.Chars
import Converge.Yaml.Error

/-!
# Tokens of YAML text

Tokens are what the parser sees: marks, scalars with their text, anchors, tags and directives. Where the
indentation opens or closes a collection there is a token too.

## Main Definitions

* `Token` — the tokens.
* `Mark` — a place in the text.
* `normalBreaks` — a text whose line breaks are line feeds.
* `isBreak`, `isSpace`, `isWordChar` — the classes of characters.
-/

namespace Converge.Yaml

open Chars

/-- How a scalar is written. -/
inductive Style where
  | plain
  | quoted
  | block
  deriving Repr, DecidableEq

/-- A token of YAML text. -/
inductive Token where
  | streamEnd
  | versionDirective (major minor : Nat)
  | tagDirective (handle expansion : List Char)
  | documentStart
  | documentEnd
  | blockSequenceStart
  | blockMappingStart
  | blockEnd
  | flowSequenceStart
  | flowSequenceEnd
  | flowMappingStart
  | flowMappingEnd
  | blockEntry
  | flowEntry
  | key
  | value
  | alias (name : List Char)
  | anchor (name : List Char)
  | tag (handle suffix : List Char)
  | scalar (style : Style) (text : List Char)
  deriving Repr, DecidableEq

/-! ### Characters -/

/-- A character that ends a line, once line breaks are normal. -/
def isBreak (c : Char) : Bool := c == '\n' || c == '\u2028' || c == '\u2029'

/-- A space or a tab. -/
def isSpace (c : Char) : Bool := c == ' ' || c == '\t'

/-- A character of anchors and handles. -/
def isWordChar (c : Char) : Bool :=
  isDigit c || ('a' ≤ c && c ≤ 'z') || ('A' ≤ c && c ≤ 'Z') || c == '_' || c == '-'

/-- Whether the rest of a text begins with a space, a line break or nothing. -/
def atGap : List Char → Bool
  | [] => true
  | c :: _ => isSpace c || isBreak c

/-- Whether the rest of a text begins with a line break or nothing. -/
def atLineEnd : List Char → Bool
  | [] => true
  | c :: _ => isBreak c

/-- Whether the rest of a text begins with three of a character and a gap behind them. -/
def atMark (c : Char) : List Char → Bool
  | a :: b :: d :: rest => a == c && b == c && d == c && atGap rest
  | _ => false

/-- A mark that begins or ends a document; it counts at the start of a line only. -/
def atDocumentMark (cs : List Char) : Bool := atMark '-' cs || atMark '.' cs

/-- The characters that a text may contain. -/
def isAllowed (c : Char) : Bool :=
  let n := c.toNat
  n == 0x09 || n == 0x0A || n == 0x0D || (0x20 ≤ n && n ≤ 0x7E) || n == 0x85
    || (0xA0 ≤ n && n ≤ 0xD7FF) || (0xE000 ≤ n && n ≤ 0xFFFD) || 0x10000 ≤ n

/-- The mark of byte order, which may begin a line. -/
def byteOrderMark : Char := '\ufeff'

/-- A text with line feeds for carriage returns and next-line characters. A carriage return and a line feed
make one line break. -/
def normalBreaks : List Char → List Char
  | '\r' :: '\n' :: cs => '\n' :: normalBreaks cs
  | '\r' :: cs => '\n' :: normalBreaks cs
  | c :: cs => (if c == '\u0085' then '\n' else c) :: normalBreaks cs
  | [] => []

/-! ### Places -/

/-- A place in a text: bytes from the start, lines and columns. -/
structure Mark where
  index : Nat
  line : Nat
  column : Nat
  deriving Repr, DecidableEq

namespace Mark

/-- The start of a text. -/
def start : Mark := ⟨0, 0, 0⟩

/-- The place behind a character of the same line. -/
def next (m : Mark) (c : Char) : Mark := ⟨m.index + c.utf8Size, m.line, m.column + 1⟩

/-- The place behind a line break. -/
def newLine (m : Mark) (c : Char) : Mark := ⟨m.index + c.utf8Size, m.line + 1, 0⟩

/-- The place behind a character. -/
def after (m : Mark) (c : Char) : Mark := if isBreak c then m.newLine c else m.next c

/-- The place behind a run of characters. -/
def afterAll (m : Mark) (cs : List Char) : Mark := cs.foldl after m

end Mark

/-- The rest of a text and the place where it begins. -/
structure Cursor where
  rest : List Char
  mark : Mark

namespace Cursor

/-- The cursor behind so many characters. -/
def skip (cursor : Cursor) (count : Nat) : Cursor :=
  ⟨cursor.rest.drop count, cursor.mark.afterAll (cursor.rest.take count)⟩

/-- The cursor behind a run of characters of a class. -/
def skipWhile (cursor : Cursor) (p : Char → Bool) : Cursor :=
  ⟨cursor.rest.dropWhile p, cursor.mark.afterAll (cursor.rest.takeWhile p)⟩

end Cursor

end Converge.Yaml
