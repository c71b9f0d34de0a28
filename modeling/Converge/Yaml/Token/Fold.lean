import Converge.Yaml.Token

/-!
# Scalars over several lines

Inside a plain or quoted scalar a line break counts as a space; further line breaks count as themselves.
The text is read one character at a time.

## Main Definitions

* `Fold` — the text so far and the gap behind it.
* `plain` — the text of a plain scalar.
* `singleQuoted`, `doubleQuoted` — the text of a quoted scalar.
-/

namespace Converge.Yaml

open Chars

/-- The text of a scalar so far, in reverse order, and the gap behind it: spaces on the same line, or the
first line break and the further ones. -/
structure Fold where
  text : List Char
  spaces : List Char
  broken : Bool
  lead : Option Char
  breaks : List Char
  /-- Whether the last character read belongs to the gap. -/
  inGap : Bool

namespace Fold

/-- Nothing has been read yet. -/
def start : Fold := ⟨[], [], false, none, [], false⟩

/-- Adds a space or a tab to the gap. -/
def space (f : Fold) (c : Char) : Fold :=
  if f.broken then { f with inGap := true } else { f with spaces := c :: f.spaces, inGap := true }

/-- Adds a line break to the gap. -/
def lineBreak (f : Fold) (c : Char) : Fold :=
  if f.broken then { f with breaks := c :: f.breaks, inGap := true }
  else { f with spaces := [], broken := true, lead := some c, inGap := true }

/-- A line break that is escaped is left out, and so are the spaces behind it. -/
def escapedBreak (f : Fold) : Fold := { f with broken := true, lead := none, inGap := true }

/-- Puts the gap into the text: spaces as they are, a single line feed as a space. -/
def close (f : Fold) : Fold :=
  if f.broken then
    let joined := match f.lead with
      | none => f.breaks ++ f.text
      | some '\n' => if f.breaks.isEmpty then ' ' :: f.text else f.breaks ++ f.text
      | some c => f.breaks ++ c :: f.text
    ⟨joined, [], false, none, [], false⟩
  else ⟨f.spaces ++ f.text, [], false, none, [], false⟩

/-- Adds a character behind the gap. -/
def add (f : Fold) (c : Char) : Fold :=
  let closed := f.close
  { closed with text := c :: closed.text }

end Fold

/-! ### Plain scalars -/

/-- A character that ends a plain scalar in a flow collection. -/
def isFlowMark (c : Char) : Bool := c == ',' || c == '[' || c == ']' || c == '\x7b' || c == '\x7d'

/-- Whether a plain scalar ends before a character that is no gap: at a colon with a gap behind it, and in a
flow collection at its marks. -/
def endsPlain (flow : Bool) (c : Char) (rest : List Char) : Bool :=
  (c == ':' && atGap rest) || (flow && isFlowMark c)

/-- Whether a colon is followed by what cannot follow it in a flow collection. -/
def badColon (flow : Bool) (c : Char) : List Char → Bool
  | d :: _ => flow && c == ':' && (d == '?' || isFlowMark d)
  | [] => false

/-- What a plain scalar was: its text, whether a line break was passed behind it, and the cursor behind. -/
structure PlainText where
  text : List Char
  brokenAfter : Bool
  cursor : Cursor

/-- Reads a plain scalar in a flow collection or in a block whose content stands at `indent` or deeper. -/
def plain (flow : Bool) (indent : Int) (fold : Fold) (mark : Mark) :
    List Char → Except Error PlainText
  | [] => .ok ⟨fold.text.reverse, fold.broken, ⟨[], mark⟩⟩
  | c :: rest =>
      let stop : Except Error PlainText := .ok ⟨fold.text.reverse, fold.broken, ⟨c :: rest, mark⟩⟩
      if isSpace c then
        if fold.broken && (mark.column : Int) < indent && c == '\t' then .error .tab
        else plain flow indent (fold.space c) (mark.next c) rest
      else if isBreak c then plain flow indent (fold.lineBreak c) (mark.newLine c) rest
      else if fold.inGap && !flow && (mark.column : Int) < indent then stop
      else if mark.column == 0 && (fold.inGap || fold.text.isEmpty) && atDocumentMark (c :: rest) then stop
      else if fold.inGap && c == '#' then stop
      else if badColon flow c rest then .error .unexpectedColon
      else if endsPlain flow c rest then stop
      else plain flow indent (fold.add c) (mark.next c) rest

/-! ### Quoted scalars -/

/-- Reads a scalar in single quotes, in which a quote is written twice. -/
def singleQuoted (fold : Fold) (mark : Mark) : List Char → Except Error (List Char × Cursor)
  | [] => .error .openQuote
  | '\'' :: '\'' :: rest => singleQuoted (fold.add '\'') ((mark.next '\'').next '\'') rest
  | c :: rest =>
      if isSpace c then singleQuoted (fold.space c) (mark.next c) rest
      else if isBreak c then singleQuoted (fold.lineBreak c) (mark.newLine c) rest
      else if mark.column == 0 && atDocumentMark (c :: rest) then .error .markInQuotes
      else if c == '\'' then .ok (fold.close.text.reverse, ⟨rest, mark.next c⟩)
      else singleQuoted (fold.add c) (mark.next c) rest

/-- What an escape in double quotes stands for: a character, or a count of digits of base 16. -/
def escape? : Char → Option (Char ⊕ Nat)
  | '0' => some (.inl '\x00')
  | 'a' => some (.inl '\x07')
  | 'b' => some (.inl '\x08')
  | 't' | '\t' => some (.inl '\t')
  | 'n' => some (.inl '\n')
  | 'v' => some (.inl '\x0b')
  | 'f' => some (.inl '\x0c')
  | 'r' => some (.inl '\r')
  | 'e' => some (.inl '\x1b')
  | ' ' => some (.inl ' ')
  | '"' => some (.inl '"')
  | '/' => some (.inl '/')
  | '\\' => some (.inl '\\')
  | 'N' => some (.inl '\u0085')
  | '_' => some (.inl '\u00a0')
  | 'L' => some (.inl '\u2028')
  | 'P' => some (.inl '\u2029')
  | 'x' => some (.inr 2)
  | 'u' => some (.inr 4)
  | 'U' => some (.inr 8)
  | _ => none

/-- The character of a code, if it is one. -/
def charOfCode? (code : Nat) : Option Char := if h : code.isValidChar then some (Char.ofNatAux code h) else none

/-- Digits of base 16 that are still to be read, and their value so far. -/
structure PendingCode where
  left : Nat
  value : Nat

/-- Reads a scalar in double quotes, which may contain escapes. -/
def doubleQuoted (fold : Fold) (code : Option PendingCode) (mark : Mark) :
    List Char → Except Error (List Char × Cursor)
  | [] => .error .openQuote
  | '\\' :: d :: rest =>
      -- A backslash is no digit, so it cannot stand inside of a code.
      if code.isSome then .error .badEscape
      else if mark.column == 0 && atDocumentMark ('\\' :: d :: rest) then .error .markInQuotes
      else if isBreak d then
        doubleQuoted fold.close.escapedBreak none ((mark.next '\\').newLine d) rest
      else match escape? d with
        | some (.inl c) => doubleQuoted (fold.add c) none ((mark.next '\\').next d) rest
        | some (.inr count) =>
            doubleQuoted fold.close (some ⟨count, 0⟩) ((mark.next '\\').next d) rest
        | none => .error .badEscape
  | c :: rest =>
      match code with
      | some pending =>
          match hexValue? c with
          | none => .error .badEscape
          | some digit =>
              let value := 16 * pending.value + digit
              if pending.left == 1 then
                match charOfCode? value with
                | some d => doubleQuoted (fold.add d) none (mark.next c) rest
                | none => .error .badEscape
              else doubleQuoted fold (some ⟨pending.left - 1, value⟩) (mark.next c) rest
      | none =>
          if isSpace c then doubleQuoted (fold.space c) none (mark.next c) rest
          else if isBreak c then doubleQuoted (fold.lineBreak c) none (mark.newLine c) rest
          else if mark.column == 0 && atDocumentMark (c :: rest) then .error .markInQuotes
          else if c == '"' then .ok (fold.close.text.reverse, ⟨rest, mark.next c⟩)
          else if c == '\\' then .error .badEscape
          else doubleQuoted (fold.add c) none (mark.next c) rest

end Converge.Yaml
