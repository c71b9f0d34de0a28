import Converge.Orchestrator
import Converge.Store.Scripted

/-!
# Sessions

A session is a sequence of steps on one scripted store. Its handles and lists of handles have names, under
which one step finds what another left; a handle that was never named before is empty.

## Main Definitions

* `Named` — handles and lists of handles under their names.
* `SessionStep`, `StepResult` — what is done, and what comes of it.
* `Session.step` — a step of a session.
-/

namespace Converge

/-- Handles and lists of handles under their names. -/
structure Named where
  handles : Table String Handle
  lists : Table String (List Handle)

/-- An argument of a step. Handles are given by name. -/
inductive StepArgument where
  | value (argument : Argument)
  | object (name : String)
  | objects (name : String)

namespace Named

/-- No handles. -/
def empty : Named := ⟨Table.empty, Table.empty⟩

/-- The handle of a name. -/
def handle (named : Named) (name : String) : Handle := (named.handles.get? name).getD .empty

/-- The list of handles of a name. -/
def list (named : Named) (name : String) : List Handle := (named.lists.get? name).getD []

/-- An argument with the handles that it names. -/
def argument (named : Named) : StepArgument → Argument
  | .value argument => argument
  | .object name => .object (named.handle name)
  | .objects name => .objects (named.list name)

/-- Keeps a handle or a list that was given back. -/
def keep (named : Named) (given : StepArgument × Argument) : Named :=
  match given with
  | (.object name, .object handle) => { named with handles := named.handles.insert name handle }
  | (.objects name, .objects handles) => { named with lists := named.lists.insert name handles }
  | _ => named

end Named

/-- What is done in a step: an operation; a change of the context; an edit of the state of a handle; a look
into the store; a call to the store. -/
inductive SessionStep where
  | mutate (operation : Operation) (arguments : List StepArgument)
  | get (arguments : List StepArgument)
  | list (arguments : List StepArgument)
  | render (arguments : List StepArgument)
  | cancel
  | freshContext
  | edit (name : String) (patch : Document)
  | look (key : ObjectKey)
  | call (c : StoreCall)

/-- What comes of a step. -/
inductive StepResult where
  | nothing
  | done
  | documents (documents : List Document)
  | failed (failure : Failure)
  | state (document : Document)
  | stored (found : Bool)
  | answered (c : StoreCall) (answer : Except StoreError c.Answer)

/-- A session: what its calls depend on, the store with the calls it received, the context of the calls, and
the handles. -/
structure Session where
  orchestrator : Orchestrator (ScriptedStore × List StoreCall)
  world : ScriptedStore × List StoreCall
  context : Context
  named : Named

namespace Session

/-- What comes of an operation. -/
def resultOf {α : Type} (success : α → StepResult) : Except Failure α → StepResult
  | .ok value => success value
  | .error failure => .failed failure

/-- The session after an operation. -/
def after {α : Type} (session : Session) (given : List StepArgument)
    (outcome : Outcome (ScriptedStore × List StoreCall) α) : Session :=
  { session with
    world := outcome.state
    named := (given.zip outcome.arguments).foldl Named.keep session.named }

/-- The arguments of an operation. -/
def arguments (session : Session) (given : List StepArgument) : List Argument :=
  given.map session.named.argument

/-- The contexts of the session. -/
def contexts (session : Session) : Cancellations := session.world.1.world.contexts

/-- The session with other contexts. -/
def withContexts (session : Session) (contexts : Cancellations) : Session :=
  { session with
    world := ({ session.world.1 with world := { session.world.1.world with contexts := contexts } },
      session.world.2) }

/-- A step of a session. -/
def step (session : Session) : SessionStep → StepResult × Session
  | .mutate operation given =>
      let outcome := session.orchestrator.mutate operation session.context (session.arguments given) session.world
      (resultOf (fun _ => .done) outcome.result, session.after given outcome)
  | .get given =>
      let outcome := session.orchestrator.get session.context (session.arguments given) session.world
      (resultOf (fun _ => .done) outcome.result, session.after given outcome)
  | .list given =>
      let outcome := session.orchestrator.list session.context (session.arguments given) session.world
      (resultOf (fun _ => .done) outcome.result, session.after given outcome)
  | .render given =>
      let outcome := session.orchestrator.render (session.arguments given) session.world
      (resultOf .documents outcome.result, session.after given outcome)
  | .cancel => (.nothing, session.withContexts (session.contexts.cancel session.context))
  | .freshContext =>
      let (context, contexts) := session.contexts.background
      (.nothing, { session.withContexts contexts with context := context })
  | .edit name patch =>
      let handle := session.named.handle name
      let edited := (handle.state.getD .null).mergePatch patch
      let handles := session.named.handles.insert name (handle.withState edited)
      (.state edited, { session with named := { session.named with handles := handles } })
  | .look key => (.stored (session.world.1.world.memory.objects.contains key), session)
  | .call c =>
      let (answer, world) := session.orchestrator.store.call session.context c session.world
      (.answered c answer, { session with world := world })

/-- The session with no calls received. -/
def fresh (session : Session) : Session := { session with world := (session.world.1, []) }

end Session

end Converge
