import Converge.Bindings
import Converge.Json.Writer
import Converge.Text.Chars

/-!
# Expressions in texts

A text of a template may refer to bindings by expressions between `${{` and `}}`. An expression is a name
or a path of names with dots between them, also with `bindings.` in front. A text that is one expression
and nothing else becomes the value itself; in any other text the values are written in place.

## Main Definitions

* `Fault` — why a text has no value.
* `Expression.resolve` — the value of an expression.
* `pieces` — a text cut into literal parts and expressions.
* `whole?` — the expression that a text consists of.
* `valueOfText` — the value of a text.

## Design Notes

Values are put in place after the text was cut, so nothing in a value is taken for an expression.
-/

namespace Converge.Template

open Chars

/-- What opens an expression. -/
def opening : List Char := ['$', '\x7b', '\x7b']

/-- What closes an expression. -/
def closing : List Char := ['\x7d', '\x7d']

/-- Why a text has no value. -/
inductive Fault where
  /-- An expression that is not closed. -/
  | unterminated
  /-- An expression that is no path of names. -/
  | malformed (expression : String)
  /-- A path that leads to no value. -/
  | undefined (path : String)
  deriving Repr, DecidableEq

namespace Expression

/-- The path of an expression, without `bindings.` in front. -/
def path (expression : List Char) : List Char :=
  (afterStart "bindings.".toList expression).getD expression

/-- Whether every name of a path has a character that is no blank. -/
def isPath (path : List Char) : Bool := (splitAt '.' path).all fun name => !allBlank name

/-- The value that one step leads to: a member of an object or an item of an array. -/
def step? (value : Document) (name : List Char) : Option Document :=
  match value with
  | .object members => Members.lookup (String.ofList name) members
  | .array items => (unsigned? wordBound name).bind (items[·]?)
  | _ => none

/-- The value that the names of a path lead to, from a binding on. -/
def follow? (bindings : Bindings) : List (List Char) → Option Document
  | [] => none
  | name :: names => (bindings.get? (String.ofList name)).bind fun value => names.foldlM step? value

/-- The value of an expression. -/
def resolve (bindings : Bindings) (expression : List Char) : Except Fault Document :=
  let path := path expression
  if !isPath path then .error (.malformed (String.ofList expression))
  else match follow? bindings (splitAt '.' path) with
    | some value => .ok value
    | none => .error (.undefined (String.ofList path))

end Expression

/-- A value written inside of a text: strings as they are, null as nothing, all else as compact JSON. -/
def written : Document → List Char
  | .string text => text.toList
  | .null => []
  | value => (Json.write value).toList

/-! ### Cutting texts -/

/-- A part of a text. -/
inductive Piece where
  | literal (text : List Char)
  | expression (text : List Char)
  | unclosed
  deriving Repr, DecidableEq

/-- Cuts a text: an expression starts at the next opening and ends at the first closing after it. -/
def pieces (text : List Char) : List Piece :=
  match _h : breakOn opening text with
  | none => [.literal text]
  | some (before, inside) =>
      match _h' : breakOn closing inside with
      | none => [.literal before, .unclosed]
      | some (expression, rest) => .literal before :: .expression (trim expression) :: pieces rest
termination_by text.length
decreasing_by
  have := length_lt_of_breakOn (by simp [opening]) _h
  have := length_lt_of_breakOn (by simp [closing]) _h'
  omega

/-- The expression of a text that is one expression and blanks around it. -/
def whole? (text : List Char) : Option (List Char) :=
  (((afterStart opening (trim text)).bind (beforeEnd closing)).filter fun inside =>
    !contains opening inside && !contains closing inside).map trim

/-! ### Values of texts -/

/-- The text of a piece. -/
def Piece.text (bindings : Bindings) : Piece → Except Fault (List Char)
  | .literal text => .ok text
  | .expression text => (Expression.resolve bindings text).map written
  | .unclosed => .error .unterminated

/-- The value of a text. -/
def valueOfText (bindings : Bindings) (text : String) : Except Fault Document :=
  if !contains opening text.toList then .ok (.string text)
  else match whole? text.toList with
    | some expression => Expression.resolve bindings expression
    | none => ((pieces text.toList).mapM (Piece.text bindings)).map fun parts =>
        .string (String.ofList parts.flatten)

end Converge.Template
