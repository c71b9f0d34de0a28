import Converge.Destinations

/-!
# Plans

Before a store is called, a call is made into a plan: its targets come from a rendered template or from the
handles themselves, every target has a key, there are as many as the handles ask for, and every
handle accepts its document.

## Main Definitions

* `Driver` — what the documents come from.
* `Plan` — targets and destinations.
* `Plan.of` — the plan of a call.
-/

namespace Converge

/-- What the documents of a call come from. -/
inductive Driver where
  | template
  | handles
  deriving Repr, DecidableEq

/-- What is done to the store for each target of an operation: a template patches, a handle replaces. -/
def Mutation.of? (operation : Operation) (driver : Driver) : Option Mutation :=
  match operation, driver with
  | .create, _ | .createAndWait, _ => some .create
  | .update, .template | .updateAndWait, .template => some .patch
  | .update, .handles | .updateAndWait, .handles => some .replace
  | .delete, _ | .deleteAndWait, _ => some .delete
  | _, _ => none

/-- The targets of a call, and the handles that its results go to. -/
structure Plan where
  driver : Driver
  targets : List Target
  destinations : Destinations

namespace Plan

/-- The text of a template. -/
def load (files : Files) : TemplateSource → Except Failure String
  | .inline text => .ok text
  | .file path => (files.read path).mapError fun cause => .arguments (.unreadableTemplate path cause)

/-- The target that a handle stands for; handles are counted from one. -/
def targetOfHandle (position : Nat) (handle : Handle) : Except Failure Target :=
  match handle.document with
  | none => .error (.arguments (.noState position))
  | some document =>
      match ObjectKey.ofDocument document with
      | .ok key => .ok ⟨key, document⟩
      | .error cause => .error (.arguments (.notAddressable position cause))

/-- The targets that handles stand for. -/
def targetsOfHandles (destinations : Destinations) : Except Failure (List Target) :=
  if destinations.handles.isEmpty then .error (.arguments .noHandles)
  else (destinations.handles.zipIdx 1).mapM fun (handle, position) => targetOfHandle position handle

/-- The targets of rendered documents, if they are as many as asked for and every handle accepts its own. -/
def targetsOfDocuments (copier : Copier) (destinations : Destinations) (documents : List Document) :
    Except Failure (List Target) := do
  if !destinations.wanted.admits documents.length then
    throw (.template (.wrongCount destinations.wanted documents.length))
  let keys ← (Template.keys documents).mapError Failure.template
  let targets := (keys.zip documents).map fun (key, document) => ⟨key, document⟩
  destinations.check copier targets
  return targets

/-- The plan of a call. -/
def of (files : Files) (renderer : Renderer) (copier : Copier) (options : Options) : Except Failure Plan := do
  let destinations := Destinations.ofOptions options
  match options.template with
  | none => return ⟨.handles, ← targetsOfHandles destinations, destinations⟩
  | some source =>
      let text ← load files source
      let documents ← (renderer.render text (Bindings.merge options.bindings)).mapError Failure.template
      return ⟨.template, ← targetsOfDocuments copier destinations documents, destinations⟩

end Plan

end Converge
