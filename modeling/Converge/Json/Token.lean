import Converge.Text.Chars
import Converge.Number

/-!
# Tokens of JSON text

The text is read one character at a time; what has been seen of an unfinished token is the state of the
reading.

## Main Definitions

* `Token` — marks, words, strings and numbers.
* `number?` — the number a lexeme stands for.
* `Token.all?` — the tokens of a text, `none` if it has none that fit.
-/

namespace Converge.Json

open Chars

/-- A token of JSON text. -/
inductive Token where
  | openArray
  | closeArray
  | openObject
  | closeObject
  | comma
  | colon
  | null
  | bool (value : Bool)
  | number (value : Number)
  | string (text : String)
  deriving Repr, DecidableEq

/-! ### Numbers -/

/-- The parts of a number: its sign, the digits before and after the point, and the exponent. -/
structure Lexeme where
  negative : Bool
  whole : List Char
  fraction : Option (List Char)
  exponent : Option (Bool × List Char)

/-- Cuts a lexeme into its parts. A number that is not zero has no zero in front; a point and an exponent
are each followed by a digit. -/
def Lexeme.ofChars? (cs : List Char) : Option Lexeme :=
  let (negative, cs) := match cs with
    | '-' :: rest => (true, rest)
    | _ => (false, cs)
  let whole := cs.takeWhile isDigit
  let cs := cs.dropWhile isDigit
  if whole.isEmpty || (whole.head? = some '0' && whole.length != 1) then none
  else
    let (fraction, cs) := match cs with
      | '.' :: rest => (some (rest.takeWhile isDigit), rest.dropWhile isDigit)
      | _ => (none, cs)
    if fraction = some [] then none
    else match cs with
      | [] => some ⟨negative, whole, fraction, none⟩
      | e :: rest =>
          let (down, digits) := match rest with
            | '-' :: digits => (true, digits)
            | '+' :: digits => (false, digits)
            | _ => (false, rest)
          if (e = 'e' || e = 'E') && !digits.isEmpty && digits.all isDigit then
            some ⟨negative, whole, fraction, some (down, digits)⟩
          else none

/-- The digits of a number as far as they fit a 64-bit word, and how many digits are left over. -/
def wordDigits (value : Nat) : List Char → Nat × Nat
  | [] => (value, 0)
  | c :: cs =>
      let next := 10 * value + digitValue c
      if next < wordBound then wordDigits next cs else (value, cs.length + 1)

/-- An exponent of more than this is too large to be counted. -/
def exponentBound : Nat := Nat.pow 2 31

/-- The number of a lexeme. Without a fraction and an exponent it is a whole number as long as it fits
a 64-bit word; the negative zero is a float. A float is made of the digits that fit a word and of the power
of ten that is left. -/
def Lexeme.number? (l : Lexeme) : Option Number :=
  let (whole, excess) := wordDigits 0 l.whole
  let isWhole := l.fraction.isNone && l.exponent.isNone && excess = 0
  if isWhole && !l.negative then some (.integer whole)
  else if isWhole && 0 < whole && whole ≤ Nat.pow 2 63 then some (.integer (-whole))
  else
    let fraction := l.fraction.getD []
    let (digits, left) := wordDigits whole fraction
    let point : Int := (excess : Int) - ((fraction.length : Int) - (left : Int))
    let power : Option Int := match l.exponent with
      | none => some point
      | some (down, exponent) =>
          let size := decimalValue exponent
          if size < exponentBound then some (if down then point - size else point + size) else none
    match power with
    | some power => (Binary64.scaledDecimal? l.negative digits power).map .float
    | none =>
        if digits != 0 && (l.exponent.map (·.1)) = some false then none
        else some (.float (Binary64.zero l.negative))

/-- The number that a lexeme stands for. -/
def number? (cs : List Char) : Option Number := (Lexeme.ofChars? cs).bind Lexeme.number?

/-! ### Reading tokens -/

/-- What has been read of an unfinished token; characters are kept in reverse order. -/
inductive Pending where
  | nothing
  | word (seen : List Char)
  | number (seen : List Char)
  | string (seen : List Char)
  | escape (seen : List Char)
  | unicode (seen : List Char) (high : Option Nat) (digits : Nat) (value : Nat)
  | lowMark (seen : List Char) (high : Nat)
  | lowEscape (seen : List Char) (high : Nat)

/-- A mark of one character. -/
def mark? : Char → Option Token
  | '[' => some .openArray
  | ']' => some .closeArray
  | '\x7b' => some .openObject
  | '\x7d' => some .closeObject
  | ',' => some .comma
  | ':' => some .colon
  | _ => none

/-- Blanks between tokens. -/
def isSpace (c : Char) : Bool := c == ' ' || c == '\n' || c == '\t' || c == '\r'

/-- The characters that a number is made of. -/
def isNumeral (c : Char) : Bool := isDigit c || c == '-' || c == '+' || c == '.' || c == 'e' || c == 'E'

/-- The character that a simple escape stands for. -/
def unescape? : Char → Option Char
  | '"' => some '"'
  | '\\' => some '\\'
  | '/' => some '/'
  | 'b' => some '\x08'
  | 'f' => some '\x0c'
  | 'n' => some '\n'
  | 'r' => some '\r'
  | 't' => some '\t'
  | _ => none

/-- The word that a run of letters stands for. -/
def word? (letters : List Char) : Option Token :=
  if letters = ['n', 'u', 'l', 'l'] then some .null
  else if letters = ['t', 'r', 'u', 'e'] then some (.bool true)
  else if letters = ['f', 'a', 'l', 's', 'e'] then some (.bool false)
  else none

/-- The token that an unfinished one becomes where no further character belongs to it. -/
def Pending.finish? : Pending → Option (List Token)
  | .nothing => some []
  | .word seen => (word? seen.reverse).map ([·])
  | .number seen => (number? seen.reverse).map fun n => [.number n]
  | _ => none

/-- The first character of a token, or a blank between tokens. -/
def start? (c : Char) : Option (List Token × Pending) :=
  if isSpace c then some ([], .nothing)
  else if c = '"' then some ([], .string [])
  else if isDigit c || c = '-' then some ([], .number [c])
  else if 'a' ≤ c && c ≤ 'z' then some ([], .word [c])
  else (mark? c).map fun token => ([token], .nothing)

/-- A further character: the tokens it finishes and what is pending after it. -/
def Pending.step? (pending : Pending) (c : Char) : Option (List Token × Pending) :=
  match pending with
  | .nothing => start? c
  | .word seen => if 'a' ≤ c && c ≤ 'z' then some ([], .word (c :: seen)) else afterToken
  | .number seen => if isNumeral c then some ([], .number (c :: seen)) else afterToken
  | .string seen =>
      if c = '"' then some ([.string (String.ofList seen.reverse)], .nothing)
      else if c = '\\' then some ([], .escape seen)
      else if c.toNat < 0x20 then none
      else some ([], .string (c :: seen))
  | .escape seen =>
      if c = 'u' then some ([], .unicode seen none 4 0)
      else (unescape? c).map fun d => ([], .string (d :: seen))
  | .unicode seen high digits value =>
      (hexValue? c).bind fun digit =>
        let value := 16 * value + digit
        if digits != 1 then some ([], .unicode seen high (digits - 1) value)
        else match high with
          | none =>
              if 0xD800 ≤ value && value < 0xDC00 then some ([], .lowMark seen value)
              else if 0xDC00 ≤ value && value < 0xE000 then none
              else some ([], .string (Char.ofNat value :: seen))
          | some high =>
              if 0xDC00 ≤ value && value < 0xE000 then
                let code := 0x10000 + (high - 0xD800) * 0x400 + (value - 0xDC00)
                some ([], .string (Char.ofNat code :: seen))
              else none
  | .lowMark seen high => if c = '\\' then some ([], .lowEscape seen high) else none
  | .lowEscape seen high => if c = 'u' then some ([], .unicode seen (some high) 4 0) else none
where
  /-- The character does not belong to the pending token, which is finished before it. -/
  afterToken : Option (List Token × Pending) :=
    pending.finish?.bind fun done => (start? c).map fun (tokens, next) => (done ++ tokens, next)

/-- The tokens read so far, in reverse order, and the unfinished one, after a further character. -/
def Token.next? (state : List Token × Pending) (c : Char) : Option (List Token × Pending) :=
  (state.2.step? c).map fun (done, pending) => (done.reverse ++ state.1, pending)

/-- The tokens of a text. -/
def Token.all? (text : List Char) : Option (List Token) :=
  (text.foldlM Token.next? ([], .nothing)).bind fun (seen, pending) =>
    pending.finish?.map fun done => seen.reverse ++ done

end Converge.Json
