import Converge.Orchestrator
import Converge.Proofs.Except
import Converge.Proofs.Operation.Delivery
import Converge.Proofs.Wait.Decision

/-!
# Calls phase by phase

A call that writes goes through its phases in order and ends in the first that fails. The failures tell the
phases apart: before the store is called it is the arguments, the template or a handle; then a write; then a
handle again; then the wait. So the result of a call says how far it got.

## Main Definitions

* `Mutation.call`, `Target.read` — the calls that are made for a target.
* `Orchestrator.recorded` — the same orchestrator on a store that keeps the calls it receives.
* `Orchestrator.planned` — everything that is done before a call that does not write.
* `Orchestrator.Course`, `Orchestrator.GetCourse` — how a call ends, by the phase that it has reached.

## Main Statements

* `Orchestrator.writeAll_eq_visit`, `Orchestrator.readTargets_eq_visit` — the writes are one call for each
  target, up to the first that fails; likewise the reads.
* `Orchestrator.mutate_course`, `Orchestrator.get_course` — every call takes such a course.
-/

namespace Converge

/-- The call that is made to write a target. -/
def Mutation.call (kind : Mutation) (target : Target) : StoreCall :=
  match kind with
  | .create => .create target.document
  | .patch => .patch target.key target.document
  | .replace => .update target.document
  | .delete => .delete target.key

/-- The call that is made to read a target. -/
@[reducible] def Target.read (target : Target) : StoreCall := .get target.key

/-- The document in the answer to a call for one object; a deletion answers none. -/
def StoreCall.document? : (c : StoreCall) → c.Answer → Option Document
  | .get _, document | .create _, document | .update _, document | .patch _ _, document => some document
  | .delete _, _ | .list _, _ => none

namespace Orchestrator

variable {σ : Type} (o : Orchestrator σ) (context : Context)

/-- The same orchestrator on a store that keeps the calls it receives. -/
def recorded : Orchestrator (σ × List StoreCall) := { o with store := o.store.recorded }

/-- Everything that is done before a call that does not write. -/
def planned (operation : Operation) (arguments : List Argument) : Except Failure Plan :=
  ((resolve operation arguments o.config).mapError Failure.arguments).bind o.plan

/-! ### Writes and reads -/

/-- The writes are one call for each target. -/
theorem writeAll_eq_visit (kind : Mutation) (targets : List Target) (state : σ) :
    o.writeAll context kind targets state =
      o.store.visit context kind.call (fun target cause => .mutation kind target.key cause)
        (fun target answer =>
          let stored := (kind.call target).document? answer
          ⟨target.key, stored, predicateAfter kind stored⟩)
        targets state := by
  induction targets generalizing state with
  | nil => rfl
  | cons target targets ih =>
      rw [writeAll, ObjectStore.visit]
      have hwrite : o.writeTarget context kind target state =
          ((o.store.call context (kind.call target) state).1.map (kind.call target).document?,
            (o.store.call context (kind.call target) state).2) := by
        cases kind <;> rfl
      rw [hwrite]
      rcases o.store.call context (kind.call target) state with ⟨_ | answer, next⟩
      case error => rfl
      case ok => simp only [Except.map, ih]

/-- The reads are one call for each target. -/
theorem readTargets_eq_visit (targets : List Target) (state : σ) :
    o.readTargets context targets state =
      o.store.visit context Target.read (fun target cause => Failure.read target.key.display cause)
        (fun _ document => document) targets state := by
  induction targets generalizing state with
  | nil => rfl
  | cons target targets ih =>
      rw [readTargets, ObjectStore.visit]
      rcases o.store.call context (.get target.key) state with ⟨_ | answer, next⟩
      case error => rfl
      case ok => simp only [Except.map, ih]

/-! ### What fails in a phase -/

variable {o context}

theorem ready_eq_ok_iff {operation : Operation} {arguments : List Argument} {ready : Ready} :
    o.ready operation arguments = .ok ready ↔
      ∃ options, resolve operation arguments o.config = .ok options ∧
        waitSpec operation options = .ok ready.spec ∧ o.plan options = .ok ready.plan ∧
        Mutation.of? operation ready.plan.driver = some ready.kind := by
  simp only [Orchestrator.ready, bind_eq_ok_iff, mapError_eq_ok_iff]
  constructor
  · rintro ⟨options, hresolve, spec, hspec, plan, hplan, hkind⟩
    cases hof : Mutation.of? operation plan.driver with
    | none => simp [hof, throw, throwThe, MonadExceptOf.throw] at hkind
    | some kind =>
        rw [hof, pure_eq_ok_iff] at hkind
        cases hkind
        exact ⟨options, hresolve, hspec, hplan, hof⟩
  · rintro ⟨options, hresolve, hspec, hplan, hof⟩
    exact ⟨options, hresolve, ready.spec, hspec, ready.plan, hplan, by rw [hof]; rfl⟩

theorem planned_eq_ok_iff {operation : Operation} {arguments : List Argument} {plan : Plan} :
    o.planned operation arguments = .ok plan ↔
      ∃ options, resolve operation arguments o.config = .ok options ∧ o.plan options = .ok plan := by
  unfold planned
  cases resolve operation arguments o.config <;> simp [Except.bind]

/-- A plan delivers to the handles among the slots. -/
theorem destinations_of_plan {options : Options} {plan : Plan} (h : o.plan options = .ok plan) :
    plan.destinations = Destinations.ofOptions options := by
  unfold Orchestrator.plan Plan.of at h
  cases htemplate : options.template with
  | none =>
      rw [htemplate] at h
      obtain ⟨targets, -, hplan⟩ := bind_eq_ok_iff.1 h
      cases hplan
      rfl
  | some source =>
      rw [htemplate] at h
      obtain ⟨text, -, htext⟩ := bind_eq_ok_iff.1 h
      obtain ⟨documents, -, hdocuments⟩ := bind_eq_ok_iff.1 htext
      obtain ⟨targets, -, hplan⟩ := bind_eq_ok_iff.1 hdocuments
      cases hplan
      rfl

theorem exists_mutation_of_writeAll {kind : Mutation} {targets : List Target} {state left : σ}
    {failure : Failure} (h : o.writeAll context kind targets state = (.error failure, left)) :
    ∃ key cause, failure = .mutation kind key cause := by
  rw [writeAll_eq_visit] at h
  obtain ⟨-, target, cause, -, rfl⟩ := ObjectStore.stops_of_visit_eq_error h
  exact ⟨target.key, cause, rfl⟩

theorem exists_read_of_readTargets {targets : List Target} {state left : σ} {failure : Failure}
    (h : o.readTargets context targets state = (.error failure, left)) :
    ∃ target cause, failure = .read target cause := by
  rw [readTargets_eq_visit] at h
  obtain ⟨-, target, cause, -, rfl⟩ := ObjectStore.stops_of_visit_eq_error h
  exact ⟨target.key.display, cause, rfl⟩

/-- Only the delivery of documents can fail after the writes. -/
theorem store_of_keep {ready : Ready} {applied : List Applied} {failure : Failure}
    {destinations : Destinations} (h : o.keep ready applied = (.error failure, destinations)) :
    ready.plan.destinations.store o.copier ready.plan.targets (documentsOf ready.plan.targets applied) =
      (.error failure, destinations) := by
  unfold keep at h
  split at h
  · cases h
  · exact h

theorem exists_copy_of_keep {ready : Ready} {applied : List Applied} {failure : Failure}
    {destinations : Destinations} (h : o.keep ready applied = (.error failure, destinations)) :
    ∃ target cause, failure = .copy target cause := by
  obtain ⟨target, cause, -, -, rfl, -, -⟩ := Destinations.fillsUpTo_of_store (store_of_keep h)
  exact ⟨target, cause, rfl⟩

theorem exists_timeout_of_confirm {spec : WaitSpec} {applied : List Applied} {state : σ} {failure : Failure}
    (h : (o.confirm context spec applied state).result = .error failure) :
    ∃ pending elapsed ticks cause, failure = .timeout pending elapsed ticks cause := by
  obtain ⟨tick, -, hends⟩ := wait_endsAt o.store context spec (o.clock spec.interval.nanos)
    (applied.map fun a => ⟨a.key, a.predicate⟩) state
  exact hends.exists_timeout h

variable (o context)

/-! ### The course of a call -/

/-- How a call that writes ends, by the phase that it has reached. -/
inductive Course (operation : Operation) (arguments : List Argument) (state : σ) : Outcome σ Unit → Prop
  /-- The call is refused before anything is done. -/
  | refused {failure : Failure} (refuses : o.ready operation arguments = .error failure) :
      Course operation arguments state ⟨.error failure, arguments, state⟩
  /-- A write fails. -/
  | stopped {ready : Ready} {failure : Failure} {left : σ}
      (prepared : o.ready operation arguments = .ok ready)
      (fails : o.writeAll context ready.kind ready.plan.targets state = (.error failure, left)) :
      Course operation arguments state ⟨.error failure, arguments, left⟩
  /-- All is written, and a handle refuses its document. -/
  | undelivered {ready : Ready} {applied : List Applied} {reached : σ} {failure : Failure}
      {destinations : Destinations} (prepared : o.ready operation arguments = .ok ready)
      (written : o.writeAll context ready.kind ready.plan.targets state = (.ok applied, reached))
      (refuses : o.keep ready applied = (.error failure, destinations)) :
      Course operation arguments state ⟨.error failure, destinations.putBack arguments, reached⟩
  /-- All is written and delivered, and the call does not wait. -/
  | delivered {ready : Ready} {applied : List Applied} {reached : σ} {destinations : Destinations}
      (prepared : o.ready operation arguments = .ok ready)
      (written : o.writeAll context ready.kind ready.plan.targets state = (.ok applied, reached))
      (kept : o.keep ready applied = (.ok (), destinations)) (noWait : ready.spec = none) :
      Course operation arguments state ⟨.ok (), destinations.putBack arguments, reached⟩
  /-- All is written and delivered, and the call ends as its wait does. -/
  | waited {ready : Ready} {applied : List Applied} {reached : σ} {destinations : Destinations}
      {spec : WaitSpec} {run : WaitRun σ} (prepared : o.ready operation arguments = .ok ready)
      (written : o.writeAll context ready.kind ready.plan.targets state = (.ok applied, reached))
      (kept : o.keep ready applied = (.ok (), destinations)) (waits : ready.spec = some spec)
      (confirmed : o.confirm context spec applied reached = run) :
      Course operation arguments state
        ⟨run.result.map fun _ => (), (run.seen.foldl Destinations.refresh destinations).putBack arguments,
          run.state⟩

/-- How a call that reads ends. -/
inductive GetCourse (arguments : List Argument) (state : σ) : Outcome σ Unit → Prop
  | refused {failure : Failure} (refuses : o.planned .get arguments = .error failure) :
      GetCourse arguments state ⟨.error failure, arguments, state⟩
  | stopped {plan : Plan} {failure : Failure} {left : σ} (prepared : o.planned .get arguments = .ok plan)
      (fails : o.readTargets context plan.targets state = (.error failure, left)) :
      GetCourse arguments state ⟨.error failure, arguments, left⟩
  | delivered {plan : Plan} {documents : List Document} {reached : σ} {result : Except Failure Unit}
      {destinations : Destinations} (prepared : o.planned .get arguments = .ok plan)
      (read : o.readTargets context plan.targets state = (.ok documents, reached))
      (stored : plan.destinations.store o.copier plan.targets documents = (result, destinations)) :
      GetCourse arguments state ⟨result, destinations.putBack arguments, reached⟩

theorem mutate_course (operation : Operation) (arguments : List Argument) (state : σ) :
    o.Course context operation arguments state (o.mutate operation context arguments state) := by
  unfold mutate
  cases hready : o.ready operation arguments with
  | error failure => exact .refused hready
  | ok ready =>
      rcases hwrite : o.writeAll context ready.kind ready.plan.targets state with ⟨failure | applied, next⟩
      · simp only [hwrite]
        exact .stopped hready hwrite
      · rcases hkeep : o.keep ready applied with ⟨failure | ⟨⟩, destinations⟩
        · simp only [hwrite, hkeep]
          exact .undelivered hready hwrite hkeep
        · cases hspec : ready.spec with
          | none =>
              simp only [hwrite, hkeep, hspec]
              exact .delivered hready hwrite hkeep hspec
          | some spec =>
              simp only [hwrite, hkeep, hspec]
              exact .waited hready hwrite hkeep hspec rfl

theorem get_course (arguments : List Argument) (state : σ) :
    o.GetCourse context arguments state (o.get context arguments state) := by
  have hplanned : ((resolve .get arguments o.config).mapError Failure.arguments).bind o.plan =
      o.planned .get arguments := rfl
  unfold get
  rw [hplanned]
  cases hplan : o.planned .get arguments with
  | error failure => exact .refused hplan
  | ok plan =>
      rcases hread : o.readTargets context plan.targets state with ⟨failure | documents, next⟩
      · simp only [hread]
        exact .stopped hplan hread
      · simp only [hread]
        exact .delivered hplan hread rfl

end Orchestrator

end Converge
