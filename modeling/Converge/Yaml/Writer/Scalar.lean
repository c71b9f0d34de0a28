import Converge.Yaml.Scalar

/-!
# Writing strings as YAML scalars

A string is written plain if it is read back as the same string, else in single quotes. A string with line
feeds is written as a literal block. What neither quotes nor blocks can hold is written in double quotes with
escapes.

## Main Definitions

* `Written` — the styles in which a string is written.
* `styleOf` — the style of a string.
* `plain`, `singleQuoted`, `doubleQuoted`, `literal` — the texts.
-/

namespace Converge.Yaml.Writer

open Chars

/-- The styles in which a string is written. -/
inductive Written where
  | plain
  | singleQuoted
  | doubleQuoted
  | literal
  deriving Repr, DecidableEq

/-! ### What a string contains -/

/-- The characters that end a line. -/
def isBreak (c : Char) : Bool :=
  c = '\n' || c = '\r' || c = '\u0085' || c = '\u2028' || c = '\u2029'

/-- The characters that are written without an escape. -/
def isPrintable (c : Char) : Bool :=
  let n := c.toNat
  n = 0x0A || (0x20 ≤ n && n ≤ 0x7E) || (0xA0 ≤ n && n ≤ 0xD7FF) || (0xE000 ≤ n && n ≤ 0xFFFD && n ≠ 0xFEFF)
    || 0x10000 ≤ n

/-- A blank, a tab, a line end or no character at all. -/
def endsWord (c : Option Char) : Bool :=
  match c with
  | none => true
  | some c => c = ' ' || c = '\t' || c = '\x00' || isBreak c

/-- Some character that passes one test stands before one that passes another. -/
def somewhere (first second : Char → Bool) : List Char → Bool
  | a :: b :: rest => (first a && second b) || somewhere first second (b :: rest)
  | _ => false

/-- A blank or a line end. -/
def isSpace (c : Char) : Bool := c = ' ' || isBreak c

/-- The characters that a plain scalar cannot begin with. -/
def indicators : List Char :=
  ['#', ',', '[', ']', '\x7b', '\x7d', '&', '*', '!', '|', '>', '\'', '"', '%', '@', '\x60']

/-- A beginning that would be read as something else than a plain scalar. -/
def opensStructure : List Char → Bool
  | '-' :: '-' :: '-' :: _ => true
  | '.' :: '.' :: '.' :: _ => true
  | c :: rest => indicators.contains c || (['?', ':', '-'].contains c && endsWord rest.head?)
  | [] => false

/-- A colon before or a hash behind the end of a word. -/
def holdsStructure (cs : List Char) : Bool :=
  somewhere (endsWord ∘ some) (· = '#') cs || somewhere (· = ':') (endsWord ∘ some) cs || cs.getLast? = some ':'

/-- Something that only double quotes can hold: a character that has to be escaped, or a blank at the end of
a line. -/
def needsEscapes (cs : List Char) : Bool :=
  cs.any (!isPrintable ·) || somewhere (· = ' ') isBreak cs

/-- A blank at the start of a line. -/
def indentsLine (cs : List Char) : Bool := somewhere isBreak (· = ' ') cs

/-! ### Styles -/

/-- Whether a plain scalar would not be read as a string. -/
def isAmbiguous (text : String) : Bool :=
  isZeroPadded text.toList || match Scalar.ofPlain text with
    | .ok (.string _) => false
    | _ => true

/-- Whether a string may stand plain. -/
def allowsPlain (cs : List Char) : Bool :=
  !(cs.any isBreak || (cs.head?.map isSpace).getD false || (cs.getLast?.map isSpace).getD false
    || needsEscapes cs || opensStructure cs || holdsStructure cs)

/-- The style of a string. -/
def styleOf (text : String) : Written :=
  let cs := text.toList
  if cs.contains '\n' then
    -- A block cannot show a blank at the end of its last line.
    if needsEscapes cs || cs.getLast? = some ' ' then .doubleQuoted else .literal
  else if !isAmbiguous text && allowsPlain cs then .plain
  else if needsEscapes cs || indentsLine cs then .doubleQuoted
  else .singleQuoted

/-! ### Texts -/

/-- So many blanks. -/
def blanks (count : Nat) : List Char := List.replicate count ' '

/-- A string in single quotes: a quote is written twice, the lines after the first are indented. `fresh` says
that a line has just begun. -/
def singleQuotedFrom (indent : Nat) : (fresh : Bool) → List Char → List Char
  | fresh, [] => if fresh then blanks indent else []
  | fresh, c :: rest =>
      if isBreak c then c :: singleQuotedFrom indent true rest
      else (if fresh && c ≠ ' ' then blanks indent else [])
        ++ (if c = '\'' then ['\'', '\''] else [c])
        ++ singleQuotedFrom indent (fresh && c = ' ') rest

/-- A string in single quotes. -/
def singleQuoted (indent : Nat) (cs : List Char) : List Char :=
  '\'' :: singleQuotedFrom indent false cs ++ ['\'']

/-- The lower digits of a number in base 16, in capitals. -/
def hexDigits (count n : Nat) : List Char :=
  (List.range count).reverse.map fun place =>
    let digit := n / Nat.pow 16 place % 16
    if digit < 10 then Char.ofNat (digit + 48) else Char.ofNat (digit + 55)

/-- The escape of a character. -/
def escape (c : Char) : List Char :=
  match c.toNat with
  | 0x00 => ['\\', '0']
  | 0x07 => ['\\', 'a']
  | 0x08 => ['\\', 'b']
  | 0x09 => ['\\', 't']
  | 0x0A => ['\\', 'n']
  | 0x0B => ['\\', 'v']
  | 0x0C => ['\\', 'f']
  | 0x0D => ['\\', 'r']
  | 0x1B => ['\\', 'e']
  | 0x22 => ['\\', '"']
  | 0x5C => ['\\', '\\']
  | 0x85 => ['\\', 'N']
  | 0xA0 => ['\\', '_']
  | 0x2028 => ['\\', 'L']
  | 0x2029 => ['\\', 'P']
  | n =>
      if n ≤ 0xFF then '\\' :: 'x' :: hexDigits 2 n
      else if n ≤ 0xFFFF then '\\' :: 'u' :: hexDigits 4 n
      else '\\' :: 'U' :: hexDigits 8 n

/-- A string in double quotes. -/
def doubleQuoted (cs : List Char) : List Char :=
  '"' :: cs.flatMap (fun c =>
    if !isPrintable c || isBreak c || c = '"' || c = '\\' then escape c else [c]) ++ ['"']

/-- The lines of a literal block, each indented unless it is empty. -/
def literalFrom (indent : Nat) : (fresh : Bool) → List Char → List Char
  | _, [] => []
  | fresh, c :: rest =>
      if isBreak c then c :: literalFrom indent true rest
      else (if fresh then blanks indent else []) ++ c :: literalFrom indent false rest

/-- The head of a literal block: the indentation if the string begins with a blank or a line end, and what
becomes of the line ends at its end. -/
def literalHead (cs : List Char) : List Char :=
  let start := if (cs.head?.map isSpace).getD false then ['2'] else []
  let ending := match cs.reverse with
    | [] => ['-']
    | [c] => if isBreak c then ['+'] else ['-']
    | last :: previous :: _ => if !isBreak last then ['-'] else if isBreak previous then ['+'] else []
  '|' :: start ++ ending

/-- A string as a literal block. -/
def literal (indent : Nat) (cs : List Char) : List Char := literalHead cs ++ '\n' :: literalFrom indent true cs

/-- A string in its style, up to the end of its last line. The lines after the first are indented. -/
def scalarLine (indent : Nat) (text : String) : List Char :=
  let cs := text.toList
  match styleOf text with
  | .plain => cs ++ ['\n']
  | .singleQuoted => singleQuoted indent cs ++ ['\n']
  | .doubleQuoted => doubleQuoted cs ++ ['\n']
  | .literal => literal indent cs ++ (if (cs.getLast?.map isBreak).getD false then [] else ['\n'])

/-- A string in its style, where it is known to fit on a line. -/
def scalarInline (text : String) : List Char :=
  let cs := text.toList
  match styleOf text with
  | .plain => cs
  | .singleQuoted => singleQuoted 0 cs
  | _ => doubleQuoted cs

end Converge.Yaml.Writer
