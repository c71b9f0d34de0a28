import Converge.Yaml.Token

/-!
# Block scalars

A block scalar is introduced by `|` or `>` and a head, and goes on as long as its lines are indented.

## Main Definitions

* `BlockHead` — chomping and indentation as the head gives them.
* `blockScalar` — the text of a block scalar.
-/

namespace Converge.Yaml

open Chars

/-- What becomes of the line breaks at the end of a block scalar. -/
inductive Chomp where
  | clip
  | strip
  | keep
  deriving Repr, DecidableEq

/-- The head of a block scalar: chomping, and how much deeper than its parent it is indented, if given. -/
structure BlockHead where
  chomp : Chomp
  increment : Option Nat

/-- The chomping that a character asks for. -/
def chomp? (c : Char) : Option Chomp :=
  if c == '+' then some .keep else if c == '-' then some .strip else none

/-- Reads the two signs of a head, in either order; an indentation of zero is none. -/
def BlockHead.ofChars : List Char → Except Error (BlockHead × Nat)
  | [] => .ok (⟨.clip, none⟩, 0)
  | c :: rest =>
      match chomp? c with
      | some chomp =>
          match rest with
          | d :: _ =>
              if d == '0' then .error .badBlockHead
              else if isDigit d then .ok (⟨chomp, some (digitValue d)⟩, 2)
              else .ok (⟨chomp, none⟩, 1)
          | [] => .ok (⟨chomp, none⟩, 1)
      | none =>
          if c == '0' then .error .badBlockHead
          else if isDigit c then
            match rest.head?.bind chomp? with
            | some chomp => .ok (⟨chomp, some (digitValue c)⟩, 2)
            | none => .ok (⟨.clip, some (digitValue c)⟩, 1)
          else .ok (⟨.clip, none⟩, 0)

/-- Reads a head up to the end of its line, which may hold a comment. -/
def blockHead (cursor : Cursor) : Except Error (BlockHead × Cursor) := do
  let (head, length) ← BlockHead.ofChars cursor.rest
  let spaces := (cursor.skip length).skipWhile isSpace
  let behind := match spaces.rest with
    | '#' :: _ => spaces.skipWhile (!isBreak ·)
    | _ => spaces
  if atLineEnd behind.rest then return (head, behind.skip 1) else throw .badBlockHead

/-- The text of a block scalar so far, in reverse order. The break behind the last line and the empty lines
behind it are kept apart until it is known what follows. -/
structure BlockText where
  text : List Char
  lead : Option Char
  breaks : List Char
  /-- The indentation of the lines; zero as long as it is not known. -/
  indent : Nat
  /-- The deepest column that an empty line has reached. -/
  deepest : Nat
  /-- Whether the last line began with a space. -/
  spaced : Bool

namespace BlockText

/-- The indentation, which the first line that is not empty decides if the head does not give it. -/
def settle (b : BlockText) (parent : Int) (column : Nat) : BlockText :=
  if b.indent = 0 then { b with indent := max (max b.deepest column) (max (parent + 1).toNat 1) } else b

/-- Begins a line. A single break between two lines that begin with no space is folded into a space. -/
def beginLine (b : BlockText) (literal : Bool) (c : Char) : BlockText :=
  let folds := !literal && b.lead = some '\n' && !b.spaced && !isSpace c
  let joined :=
    if folds then (if b.breaks.isEmpty then ' ' :: b.text else b.text)
    else match b.lead with
      | some d => d :: b.text
      | none => b.text
  { b with text := b.breaks ++ joined, lead := none, breaks := [], spaced := isSpace c }

/-- The text with the line breaks at its end chomped. -/
def finish (b : BlockText) (chomp : Chomp) : List Char :=
  let withLead := match chomp, b.lead with
    | .strip, _ | _, none => b.text
    | _, some d => d :: b.text
  (if chomp = .keep then b.breaks ++ withLead else withLead).reverse

end BlockText

/-- Reads the lines of a block scalar below a parent. `inLine` tells whether a line has been begun. -/
def blockLines (literal : Bool) (parent : Int) (b : BlockText) (inLine : Bool) (mark : Mark) :
    List Char → Except Error (BlockText × Cursor)
  | [] => .ok (b.settle parent mark.column, ⟨[], mark⟩)
  | c :: rest =>
      if inLine then
        if isBreak c then
          blockLines literal parent { b with lead := some c } false (mark.newLine c) rest
        else blockLines literal parent { b with text := c :: b.text } true (mark.next c) rest
      else
        -- Spaces count as indentation up to the column of the block; those behind it belong to the line.
        let free := b.indent = 0 || mark.column < b.indent
        if free && c == ' ' then blockLines literal parent b false (mark.next c) rest
        else if free && c == '\t' then .error .tab
        else if isBreak c then
          blockLines literal parent { b with breaks := c :: b.breaks, deepest := max b.deepest mark.column }
            false (mark.newLine c) rest
        else
          let b := b.settle parent mark.column
          if mark.column = b.indent then
            let line := b.beginLine literal c
            blockLines literal parent { line with text := c :: line.text } true (mark.next c) rest
          else .ok (b, ⟨c :: rest, mark⟩)

/-- Reads a block scalar behind its sign, below a parent that is indented by `parent`. -/
def blockScalar (literal : Bool) (parent : Int) (cursor : Cursor) :
    Except Error (List Char × Cursor) := do
  let (head, start) ← blockHead cursor
  let indent := match head.increment with
    | some increment => increment + parent.toNat
    | none => 0
  let (b, behind) ← blockLines literal parent ⟨[], none, [], indent, 0, false⟩ false start.mark start.rest
  return (b.finish head.chomp, behind)

end Converge.Yaml
