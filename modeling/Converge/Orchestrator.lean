import Converge.Plan
import Converge.Wait

/-!
# Operations on resources

An orchestrator carries out the operations on a store. Every operation goes through the same phases and starts
none before the one ahead of it succeeded: its arguments are resolved, a plan is made, the
targets are written one by one, the results go to the caller's handles, and a waiting operation waits until
the store shows the change.

## Main Definitions

* `Orchestrator` — a store and what calls depend on besides.
* `Outcome` — how a call ended: its result, the caller's arguments, the state of the store.
* `Orchestrator.mutate`, `get`, `list`, `render` — the operations.

## Design Notes

A call returns its arguments with the handles as it leaves them. A call that fails before it has results
returns them as they were given.
-/

namespace Converge

/-- A store and what calls depend on besides: what is configured, where template files are, how templates are
rendered, what handles accept, and the clock of each wait. -/
structure Orchestrator (σ : Type) where
  store : ObjectStore σ
  config : Config
  files : Files
  renderer : Renderer
  copier : Copier
  clock : (interval : Nat) → Stopwatch interval

/-- How a call ended: its result, the caller's arguments with the handles as it leaves them, and the state of
the store. -/
structure Outcome (σ α : Type) where
  result : Except Failure α
  arguments : List Argument
  state : σ

namespace Orchestrator

variable {σ : Type}

/-- An orchestrator of YAML templates with the standard configuration and without files. -/
def standard (store : ObjectStore σ) : Orchestrator σ where
  store := store
  config := .standard
  files := .none
  renderer := .yaml
  copier := .byShape
  clock := .exact

/-- The plan of a call. -/
def plan (o : Orchestrator σ) (options : Options) : Except Failure Plan :=
  Plan.of o.files o.renderer o.copier options

/-! ### Writing -/

/-- A target that has been written: its key, what the store answered, and what reads have to show from
then on. -/
structure Applied where
  key : ObjectKey
  stored : Option Document
  predicate : Predicate

/-- What reads have to show after a write: the object, at the version of the answer if it has one, or no
object. -/
def predicateAfter (kind : Mutation) (stored : Option Document) : Predicate :=
  match kind with
  | .create => .present
  | .delete => .absent
  | .patch | .replace =>
      match stored.bind Version.ofDocument? with
      | some version => .atLeast version
      | none => .present

/-- Writes a target. -/
def writeTarget (o : Orchestrator σ) (context : Context) (kind : Mutation) (target : Target) (state : σ) :
    Except StoreError (Option Document) × σ :=
  match kind with
  | .create =>
      let (answer, state) := o.store.call context (.create target.document) state
      (answer.map some, state)
  | .patch =>
      let (answer, state) := o.store.call context (.patch target.key target.document) state
      (answer.map some, state)
  | .replace =>
      let (answer, state) := o.store.call context (.update target.document) state
      (answer.map some, state)
  | .delete =>
      let (answer, state) := o.store.call context (.delete target.key) state
      (answer.map fun _ => none, state)

/-- Writes the targets in order up to the first that fails. -/
def writeAll (o : Orchestrator σ) (context : Context) (kind : Mutation) :
    List Target → σ → Except Failure (List Applied) × σ
  | [], state => (.ok [], state)
  | target :: targets, state =>
      match o.writeTarget context kind target state with
      | (.error cause, state) => (.error (.mutation kind target.key cause), state)
      | (.ok stored, state) =>
          let (rest, state) := o.writeAll context kind targets state
          (rest.map (⟨target.key, stored, predicateAfter kind stored⟩ :: ·), state)

/-! ### Operations -/

/-- A call that is ready to write. -/
structure Ready where
  plan : Plan
  kind : Mutation
  spec : Option WaitSpec

/-- Timeout and interval of a waiting operation. -/
def waitSpec (operation : Operation) (options : Options) : Except Failure (Option WaitSpec) :=
  match options.timeout, options.interval with
  | some timeout, some interval =>
      if operation.waits then ((WaitSpec.of timeout interval).map some).mapError .arguments else .ok none
  | _, _ => .ok none

/-- Everything that is done before the store is called. -/
def ready (o : Orchestrator σ) (operation : Operation) (arguments : List Argument) :
    Except Failure Ready := do
  let options ← (resolve operation arguments o.config).mapError Failure.arguments
  let spec ← waitSpec operation options
  let plan ← o.plan options
  match Mutation.of? operation plan.driver with
  | none => throw (.arguments (.notMutating operation))
  | some kind => return ⟨plan, kind, spec⟩

/-- The documents that go to the handles after the writes. -/
def documentsOf (targets : List Target) (applied : List Applied) : List Document :=
  (applied.zip targets).map fun (applied, target) => applied.stored.getD target.document

/-- The handles after the writes. A deletion leaves them as they were. -/
def keep (o : Orchestrator σ) (ready : Ready) (applied : List Applied) : Except Failure Unit × Destinations :=
  if ready.kind = .delete then (.ok (), ready.plan.destinations)
  else ready.plan.destinations.store o.copier ready.plan.targets (documentsOf ready.plan.targets applied)

/-- Waits until the store shows the writes. -/
def confirm (o : Orchestrator σ) (context : Context) (spec : WaitSpec) (applied : List Applied) (state : σ) :
    WaitRun σ :=
  wait o.store context spec (o.clock spec.interval.nanos) (applied.map fun a => ⟨a.key, a.predicate⟩) state

/-- Creates, updates or deletes every target; a waiting operation then waits until the store shows it. -/
def mutate (o : Orchestrator σ) (operation : Operation) (context : Context) (arguments : List Argument)
    (state : σ) : Outcome σ Unit :=
  match o.ready operation arguments with
  | .error failure => ⟨.error failure, arguments, state⟩
  | .ok ready =>
      match o.writeAll context ready.kind ready.plan.targets state with
      -- The targets before the one that failed stay written.
      | (.error failure, state) => ⟨.error failure, arguments, state⟩
      | (.ok applied, state) =>
          match o.keep ready applied, ready.spec with
          | (.error failure, destinations), _ => ⟨.error failure, destinations.putBack arguments, state⟩
          | (.ok (), destinations), none => ⟨.ok (), destinations.putBack arguments, state⟩
          | (.ok (), destinations), some spec =>
              -- The handles take what every round has read, also if the wait fails.
              let run := o.confirm context spec applied state
              let destinations := run.seen.foldl Destinations.refresh destinations
              ⟨run.result.map fun _ => (), destinations.putBack arguments, run.state⟩

/-- Reads the targets in order up to the first that fails. -/
def readTargets (o : Orchestrator σ) (context : Context) :
    List Target → σ → Except Failure (List Document) × σ
  | [], state => (.ok [], state)
  | target :: targets, state =>
      match o.store.call context (.get target.key) state with
      | (.error cause, state) => (.error (.read target.key.display cause), state)
      | (.ok document, state) =>
          let (rest, state) := o.readTargets context targets state
          (rest.map (document :: ·), state)

/-- Reads every target into the handles. -/
def get (o : Orchestrator σ) (context : Context) (arguments : List Argument) (state : σ) : Outcome σ Unit :=
  match ((resolve .get arguments o.config).mapError Failure.arguments).bind o.plan with
  | .error failure => ⟨.error failure, arguments, state⟩
  | .ok plan =>
      match o.readTargets context plan.targets state with
      | (.error failure, state) => ⟨.error failure, arguments, state⟩
      | (.ok documents, state) =>
          let (result, destinations) := plan.destinations.store o.copier plan.targets documents
          ⟨result, destinations.putBack arguments, state⟩

/-- Puts a handle for each object that the selector picks into the list of handles. -/
def list (o : Orchestrator σ) (context : Context) (arguments : List Argument) (state : σ) : Outcome σ Unit :=
  match (resolve .list arguments o.config).mapError Failure.arguments with
  | .error failure => ⟨.error failure, arguments, state⟩
  | .ok options =>
      match options.selector, options.objects with
      | some selector, some _ =>
          match o.store.call context (.list selector) state with
          | (.error cause, state) => ⟨.error (.read selector.describe cause), arguments, state⟩
          | (.ok documents, state) =>
              ⟨.ok (), (Destinations.objects (documents.map Handle.ofDocument)).putBack arguments, state⟩
      | _, _ => ⟨.error (.arguments (.missing .list [.objects])), arguments, state⟩

/-- Renders the template into the handles, without any call to the store. -/
def render (o : Orchestrator σ) (arguments : List Argument) (state : σ) : Outcome σ (List Document) :=
  match ((resolve .render arguments o.config).mapError Failure.arguments).bind o.plan with
  | .error failure => ⟨.error failure, arguments, state⟩
  | .ok plan =>
      let documents := plan.targets.map Target.document
      let (result, destinations) := plan.destinations.store o.copier plan.targets documents
      ⟨result.map fun _ => documents, destinations.putBack arguments, state⟩

end Orchestrator

end Converge
