/-!
# Operations and their slots

An operation takes its arguments in any order; each of them fills a slot. The profile of an operation says
which slots it has, of which it needs at least one, and which exclude each other.

## Main Definitions

* `Slot` — what an argument can be used for.
* `Operation` — the operations on resources.
* `Operation.profile` — the slots of an operation.
-/

namespace Converge

/-- What an argument can be used for. -/
inductive Slot where
  | template
  | bindings
  | object
  | objects
  | timeout
  | interval
  | selector
  deriving Repr, DecidableEq

namespace Slot

/-- All slots, in the order in which they are looked at. -/
def all : List Slot := [.template, .bindings, .object, .objects, .timeout, .interval, .selector]

/-- The name of a slot. -/
def name : Slot → String
  | .template => "template"
  | .bindings => "bindings"
  | .object => "object"
  | .objects => "objects"
  | .timeout => "timeout"
  | .interval => "interval"
  | .selector => "selector"

/-- The name of a slot with a capital. -/
def title : Slot → String
  | .template => "Template"
  | .bindings => "Bindings"
  | .object => "Object"
  | .objects => "Objects"
  | .timeout => "Timeout"
  | .interval => "Interval"
  | .selector => "Selector"

/-- Some slots of which one is asked for. -/
def describeAny : List Slot → String
  | [] => ""
  | [only] => only.title
  | [first, second] => first.title ++ " or " ++ second.title
  | slots =>
      ", ".intercalate (slots.dropLast.map title) ++ ", or " ++ ((slots.getLast?.map title).getD "")

end Slot

/-- The operations on resources. -/
inductive Operation where
  | create
  | createAndWait
  | update
  | updateAndWait
  | delete
  | deleteAndWait
  | get
  | list
  | render
  deriving Repr, DecidableEq

/-- Which slots an operation has, of which groups it needs one each, and which pairs exclude each other. -/
structure Profile where
  permitted : List Slot
  required : List (List Slot)
  exclusive : List (Slot × Slot)
  deriving Repr, DecidableEq

namespace Operation

/-- All operations. -/
def all : List Operation :=
  [.create, .createAndWait, .update, .updateAndWait, .delete, .deleteAndWait, .get, .list, .render]

/-- The name of an operation. -/
def name : Operation → String
  | .create => "create"
  | .createAndWait => "create_and_wait"
  | .update => "update"
  | .updateAndWait => "update_and_wait"
  | .delete => "delete"
  | .deleteAndWait => "delete_and_wait"
  | .get => "get"
  | .list => "list"
  | .render => "render"

/-- The operation of a name. -/
def named? (name : String) : Option Operation := all.find? (·.name = name)

/-- Whether the operation waits until its effect is seen. -/
def waits : Operation → Bool
  | .createAndWait | .updateAndWait | .deleteAndWait => true
  | _ => false

/-- The slots that documents come from and go to. -/
def sources : List Slot := [.template, .bindings, .object, .objects]

/-- The slots of an operation. One object and several objects always exclude each other. -/
def profile (operation : Operation) : Profile :=
  let exclusive := [(Slot.object, Slot.objects)]
  match operation with
  | .create | .update | .delete | .get => ⟨sources, [[.template, .object, .objects]], exclusive⟩
  | .createAndWait | .updateAndWait | .deleteAndWait =>
      ⟨sources ++ [.timeout, .interval], [[.template, .object, .objects]], exclusive⟩
  | .list => ⟨[.objects, .selector], [[.objects], [.selector]], exclusive⟩
  | .render => ⟨sources, [[.template]], exclusive⟩

end Operation

end Converge
