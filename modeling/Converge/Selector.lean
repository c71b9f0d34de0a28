import Converge.Identity
import Converge.Table

/-!
# Selectors

A selector picks the objects of one type, of one namespace if it names one, that carry all of its labels.

## Main Definitions

* `Selector` — type, namespace and labels.
* `Selector.withExpression?` — adds the labels of an expression such as `app=web,tier=front`.
* `Selector.expression` — the labels as an expression.
* `Selector.accepts` — whether a document is picked.
-/

namespace Converge

open Chars

/-- What to pick: a type, a namespace if only one is wanted, and labels. -/
structure Selector where
  type : ResourceType
  scope : Option String
  labels : Table String String

namespace Selector

/-- All objects of a type. -/
def ofType (type : ResourceType) : Selector := ⟨type, none, Table.empty⟩

/-- Only objects of a namespace. -/
def inScope (selector : Selector) (scope : String) : Selector := { selector with scope := some scope }

/-- Only objects with a label. -/
def withLabel (selector : Selector) (name value : String) : Selector :=
  { selector with labels := selector.labels.insert name value }

/-- The label that a clause `name=value` asks for; the name may not be blank. -/
def clause? (text : List Char) : Option (String × String) :=
  (splitFirst '=' text).bind fun (name, value) =>
    let name := trim name
    if name.isEmpty then none else some (String.ofList name, String.ofList (trim value))

/-- The clauses of an expression that are not blank. -/
def clauses (expression : List Char) : List (List Char) :=
  ((splitAt ',' expression).map trim).filter (!·.isEmpty)

/-- Adds the labels of an expression, if each of its clauses is one. -/
def withExpression? (selector : Selector) (expression : String) : Option Selector :=
  ((clauses expression.toList).mapM clause?).map fun labels =>
    { selector with labels := selector.labels.insertAll labels }

/-- The labels as an expression. -/
def expression (selector : Selector) : String :=
  joined "," (selector.labels.entries.map fun (name, value) => name ++ "=" ++ value)

/-- Whether the labels of a document have a value under a name. -/
def carries (document : Document) (label : String × String) : Bool :=
  (((document.get? "metadata").bind (·.get? "labels")).bind (·.get? label.1)).bind Document.string?
    = some label.2

/-- Whether a document is picked. -/
def accepts (selector : Selector) (document : Document) : Bool :=
  match ObjectKey.ofDocument document with
  | .error _ => false
  | .ok key =>
      key.type = selector.type
        && (selector.scope.isNone || key.scope = selector.scope)
        && selector.labels.entries.all (carries document)

/-- The text of a selector in messages. -/
def describe (selector : Selector) : String :=
  selector.type.display
    ++ (match selector.scope with
        | some scope => " in " ++ scope
        | none => "")
    ++ (if selector.labels.isEmpty then "" else " with labels " ++ selector.expression)

end Selector

end Converge
