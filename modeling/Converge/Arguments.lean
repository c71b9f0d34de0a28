import Converge.Config
import Converge.Files
import Converge.Handle
import Converge.Operation
import Converge.Selector
import Converge.Text.Block

/-!
# Arguments of calls

The arguments of a call stand in any order. What an argument is follows from its kind and, for a text, from
what it says: a duration, the path of a template file, or a template. Every argument then goes
to its slot, and the slots that are in use are checked against the profile of the operation.

## Main Definitions

* `Argument` — what a caller may pass.
* `ArgumentError` — why a call is refused before anything is done.
* `Item`, `Argument.item` — what an argument turns out to be.
* `Draft` — the slots while arguments are placed.
* `Options`, `resolve` — the slots of a call that is accepted.

## Design Notes

Arguments are placed one by one, so of several faults the first argument's counts. Durations without a slot
of their own are kept until all arguments are placed; they take the timeout first, then the interval.
-/

namespace Converge

/-- Where the text of a template comes from. -/
inductive TemplateSource where
  | inline (text : String)
  | file (path : String)
  deriving Repr, DecidableEq

/-- What a caller may pass. A text or a dynamic value is told apart by what it says, a duration without a
slot by its position. -/
inductive Argument where
  | text (text : String)
  | template (source : TemplateSource)
  | bindings (bindings : Bindings)
  | object (handle : Handle)
  | objects (handles : List Handle)
  | duration (duration : Duration)
  | timeout (duration : Duration)
  | interval (duration : Duration)
  | selector (selector : Selector)
  | value (document : Document)

/-- Why a call is refused before anything is done. -/
inductive ArgumentError where
  | unexpectedType (typeName : String)
  | emptyTemplate
  | repeated (slot : Slot)
  | conflicting (first second : Slot)
  | unsupported (slot : Slot) (operation : Operation)
  | missing (operation : Operation) (group : List Slot)
  | bindingsWithoutTemplate
  | emptyInterval
  | shortTimeout (timeout interval : Duration)
  | unreadableTemplate (path : String) (cause : FileError)
  | noHandles
  | noState (position : Nat)
  | notAddressable (position : Nat) (cause : IdentityError)
  | notMutating (operation : Operation)
  | other (message : String)
  deriving DecidableEq

/-- The words for a refused call. -/
def ArgumentError.message : ArgumentError → String
  | .unexpectedType typeName => "unexpected argument type: " ++ typeName
  | .emptyTemplate => "empty template argument"
  | .repeated slot => "multiple " ++ slot.name ++ " arguments provided"
  | .conflicting first second => "conflicting arguments: " ++ first.title ++ " and " ++ second.title
  | .unsupported slot operation => slot.name ++ " argument is not supported by " ++ operation.name
  | .missing operation group => operation.name ++ " requires one of: " ++ Slot.describeAny group
  | .bindingsWithoutTemplate => "bindings require a template argument"
  | .emptyInterval => "interval must be greater than zero"
  | .shortTimeout timeout interval =>
      "timeout (" ++ timeout.display ++ ") must be greater than interval (" ++ interval.display ++ ")"
  | .unreadableTemplate path cause => "cannot read template file " ++ path ++ ": " ++ cause.message
  | .noHandles => "objects argument contains no resource handles"
  | .noState position => "object handle " ++ position.repr ++ " has no state"
  | .notAddressable position cause =>
      "object handle " ++ position.repr ++ " cannot be addressed: " ++ cause.message
  | .notMutating operation => operation.name ++ " does not mutate the store"
  | .other message => message

/-! ### What an argument is -/

/-- An argument that goes to a slot. -/
inductive Item where
  | template (source : TemplateSource)
  | bindings (bindings : Bindings)
  | object (handle : Handle)
  | objects (handles : List Handle)
  | duration (duration : Duration)
  | timeout (duration : Duration)
  | interval (duration : Duration)
  | selector (selector : Selector)

namespace Item

/-- A template given as text: its common indentation is taken away. -/
def ofTemplate (text : String) : Except ArgumentError Item :=
  let document := Text.dedent text
  if document.isEmpty then .error .emptyTemplate else .ok (.template (.inline document))

/-- What a text is: a duration, a path, or else a template. -/
def ofText (text : String) : Except ArgumentError Item :=
  match Duration.ofLiteral? text with
  | some span => .ok (.duration span)
  | none =>
      if Path.looksLikeDocument text then .ok (.template (.file (Chars.trimmed text)))
      else ofTemplate text

/-- What a dynamic value is: an object is bindings, a string is a text. -/
def ofValue : Document → Except ArgumentError Item
  | .object members => .ok (.bindings (Table.ofList members))
  | .string text => ofText text
  | document => .error (.unexpectedType document.typeName)

end Item

/-- What an argument turns out to be. -/
def Argument.item : Argument → Except ArgumentError Item
  | .text given => Item.ofText given
  | .template (.inline given) => Item.ofTemplate given
  | .template source => .ok (.template source)
  | .bindings layer => .ok (.bindings layer)
  | .object handle => .ok (.object handle)
  | .objects handles => .ok (.objects handles)
  | .duration span => .ok (.duration span)
  | .timeout span => .ok (.timeout span)
  | .interval span => .ok (.interval span)
  | .selector picked => .ok (.selector picked)
  | .value document => Item.ofValue document

/-! ### Placing arguments -/

/-- The slots while arguments are placed, with the durations that have no slot yet. -/
structure Draft where
  template : Option TemplateSource
  bindings : List Bindings
  object : Option Handle
  objects : Option (List Handle)
  timeout : Option Duration
  interval : Option Duration
  selector : Option Selector
  durations : List Duration

namespace Draft

/-- No argument was placed. -/
def empty : Draft := ⟨none, [], none, none, none, none, none, []⟩

/-- Fills a slot that must be free. -/
def place {α : Type} (slot : Slot) (held : Option α) (value : α) : Except ArgumentError (Option α) :=
  match held with
  | none => .ok (some value)
  | some _ => .error (.repeated slot)

/-- Places an argument. -/
def add (draft : Draft) : Item → Except ArgumentError Draft
  | .template source => (place .template draft.template source).map ({ draft with template := · })
  | .bindings layer => .ok { draft with bindings := draft.bindings ++ [layer] }
  | .object handle => (place .object draft.object handle).map ({ draft with object := · })
  | .objects handles => (place .objects draft.objects handles).map ({ draft with objects := · })
  | .duration duration => .ok { draft with durations := draft.durations ++ [duration] }
  | .timeout duration => (place .timeout draft.timeout duration).map ({ draft with timeout := · })
  | .interval duration => (place .interval draft.interval duration).map ({ draft with interval := · })
  | .selector selector => (place .selector draft.selector selector).map ({ draft with selector := · })

/-- Places a duration without a slot: the timeout if it is open, else the interval. -/
def addDuration (draft : Draft) (duration : Duration) : Except ArgumentError Draft :=
  match draft.timeout with
  | none => .ok { draft with timeout := some duration }
  | some _ => (place .interval draft.interval duration).map ({ draft with interval := · })

/-- The draft of a list of arguments. -/
def ofArguments (arguments : List Argument) : Except ArgumentError Draft := do
  -- Durations wait for the end, so a slot that is named later in the list is no longer open to them.
  let draft ← arguments.foldlM (fun draft argument => argument.item.bind draft.add) empty
  draft.durations.foldlM addDuration { draft with durations := [] }

/-- Whether a slot is in use. -/
def has (draft : Draft) : Slot → Bool
  | .template => draft.template.isSome
  | .bindings => !draft.bindings.isEmpty
  | .object => draft.object.isSome
  | .objects => draft.objects.isSome
  | .timeout => draft.timeout.isSome
  | .interval => draft.interval.isSome
  | .selector => draft.selector.isSome

/-- The first fault of the slots in use: a pair that excludes each other, a slot the operation does not
have, a group of which it has none, bindings without a template. -/
def fault? (draft : Draft) (operation : Operation) : Option ArgumentError :=
  let profile := operation.profile
  match profile.exclusive.find? fun (first, second) => draft.has first && draft.has second with
  | some (first, second) => some (.conflicting first second)
  | none =>
      match Slot.all.find? fun slot => draft.has slot && !profile.permitted.contains slot with
      | some slot => some (.unsupported slot operation)
      | none =>
          match profile.required.find? fun group => !group.any draft.has with
          | some group => some (.missing operation group)
          | none =>
              if draft.has .bindings && !draft.has .template then some .bindingsWithoutTemplate else none

end Draft

/-! ### Accepted calls -/

/-- The slots of a call that is accepted. The configured bindings come before those of the call. -/
structure Options where
  template : Option TemplateSource
  bindings : List Bindings
  object : Option Handle
  objects : Option (List Handle)
  timeout : Option Duration
  interval : Option Duration
  selector : Option Selector

namespace Draft

/-- The slots with what is configured for those that are open. -/
def options (draft : Draft) (operation : Operation) (config : Config) : Options :=
  let waiting (given : Option Duration) (configured : Duration) :=
    if operation.waits then some (given.getD configured) else given
  { template := draft.template
    bindings := (if config.bindings.isEmpty then [] else [config.bindings]) ++ draft.bindings
    object := draft.object
    objects := draft.objects
    timeout := waiting draft.timeout config.timeout
    interval := waiting draft.interval config.interval
    selector := draft.selector }

end Draft

/-- The slots of a call, if its arguments are those of the operation. -/
def resolve (operation : Operation) (arguments : List Argument) (config : Config) :
    Except ArgumentError Options := do
  let draft ← Draft.ofArguments arguments
  match draft.fault? operation with
  | some fault => throw fault
  | none => return draft.options operation config

end Converge
