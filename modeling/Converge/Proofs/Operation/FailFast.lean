import Converge.Proofs.Operation.Phases
import Converge.Proofs.Store.Run

/-!
# Batches fail fast

The targets of a call are written in order, each by one call to the store. The first write that fails is the
last call that the store receives: nothing is tried again, nothing is read, and the handles are as they were.
Only after all writes went through may the call go on to read. A call that reads its targets stops in the same
way.

## Main Statements

* `Orchestrator.mutate_of_stops`, `Orchestrator.get_of_stops` — a batch that stops at a target.
* `Orchestrator.mutate_of_completes`, `Orchestrator.get_of_completes` — a batch that does not.
* `Orchestrator.batches_fail_fast` — all four together.
-/

namespace Converge.Orchestrator

variable {σ : Type} {o : Orchestrator σ} {context : Context} {arguments : List Argument} {state : σ}

/-! ### Writing -/

/-- The call that fails is the last one, and nothing but the store has changed. -/
theorem mutate_of_stops {operation : Operation} {ready : Ready}
    (hready : o.ready operation arguments = .ok ready)
    {done : List Target} {target : Target} {cause : StoreError} {left : σ}
    (h : o.store.Stops context ready.kind.call ready.plan.targets state done target cause left) :
    o.recorded.mutate operation context arguments (state, []) =
      ⟨.error (.mutation ready.kind target.key cause), arguments, left,
        (done ++ [target]).map ready.kind.call⟩ := by
  have hready' : o.recorded.ready operation arguments = .ok ready := hready
  have hwrite : o.recorded.writeAll context ready.kind ready.plan.targets (state, []) =
      (.error (.mutation ready.kind target.key cause), left, (done ++ [target]).map ready.kind.call) := by
    rw [writeAll_eq_visit]
    exact ObjectStore.visit_of_stops (h.recorded [])
  simp only [mutate, hready', hwrite]

/-- The calls of a wait are reads. -/
theorem confirm_recorded (spec : WaitSpec) (applied : List Applied) (log : List StoreCall) :
    ∃ reads, (o.recorded.confirm context spec applied (state, log)).state.2 = log ++ reads ∧
      ∀ call ∈ reads, ∃ key, call = .get key := by
  let checks := applied.map fun a => Check.mk a.key a.predicate
  let run := wait o.store context spec (o.clock spec.interval.nanos) checks state
  refine ⟨run.rounds.flatMap fun _ => checks.map Check.read, ?_, ?_⟩
  · exact congrArg (fun run => run.state.2)
      (wait_recorded o.store context spec (o.clock spec.interval.nanos) checks state log)
  · intro call hcall
    obtain ⟨round, -, hround⟩ := List.mem_flatMap.1 hcall
    obtain ⟨check, -, rfl⟩ := List.mem_map.1 hround
    exact ⟨check.key, rfl⟩

/-- If no write fails there is one for each target, and all calls after them are reads. -/
theorem mutate_of_completes {operation : Operation} {ready : Ready}
    (hready : o.ready operation arguments = .ok ready) {reached : σ}
    (h : o.store.Completes context (ready.plan.targets.map ready.kind.call) state reached) :
    ∃ reads, (o.recorded.mutate operation context arguments (state, [])).state.2 =
        ready.plan.targets.map ready.kind.call ++ reads ∧
      ∀ call ∈ reads, ∃ key, call = .get key := by
  have hready' : o.recorded.ready operation arguments = .ok ready := hready
  obtain ⟨applied, hwrite⟩ : ∃ applied,
      o.recorded.writeAll context ready.kind ready.plan.targets (state, []) =
        (.ok applied, reached, ready.plan.targets.map ready.kind.call) := by
    simp only [writeAll_eq_visit]
    exact ObjectStore.visit_of_completes (h.recorded [])
  have hcourse := mutate_course o.recorded context operation arguments (state, [])
  generalize o.recorded.mutate operation context arguments (state, []) = outcome at hcourse ⊢
  cases hcourse with
  | refused refuses => cases hready'.symm.trans refuses
  | stopped prepared fails =>
      cases hready'.symm.trans prepared
      cases hwrite.symm.trans fails
  | undelivered prepared written | delivered prepared written =>
      cases hready'.symm.trans prepared
      cases hwrite.symm.trans written
      exact ⟨[], (List.append_nil _).symm, List.forall_mem_nil _⟩
  | waited prepared written kept waits confirmed =>
      cases hready'.symm.trans prepared
      cases hwrite.symm.trans written
      subst confirmed
      exact confirm_recorded ..

/-! ### Reading -/

theorem get_of_stops {plan : Plan} (hplan : o.planned .get arguments = .ok plan)
    {done : List Target} {target : Target} {cause : StoreError} {left : σ}
    (h : o.store.Stops context Target.read plan.targets state done target cause left) :
    o.recorded.get context arguments (state, []) =
      ⟨.error (.read target.key.display cause), arguments, left, (done ++ [target]).map Target.read⟩ := by
  have hplan' : o.recorded.planned .get arguments = .ok plan := hplan
  have hread : o.recorded.readTargets context plan.targets (state, []) =
      (.error (.read target.key.display cause), left, (done ++ [target]).map Target.read) := by
    rw [readTargets_eq_visit]
    exact ObjectStore.visit_of_stops (h.recorded [])
  have hcourse := get_course o.recorded context arguments (state, [])
  generalize o.recorded.get context arguments (state, []) = outcome at hcourse ⊢
  cases hcourse with
  | refused refuses => cases hplan'.symm.trans refuses
  | stopped prepared fails =>
      cases hplan'.symm.trans prepared
      cases hread.symm.trans fails
      rfl
  | delivered prepared read =>
      cases hplan'.symm.trans prepared
      cases hread.symm.trans read

theorem get_of_completes {plan : Plan} (hplan : o.planned .get arguments = .ok plan) {reached : σ}
    (h : o.store.Completes context (plan.targets.map Target.read) state reached) :
    (o.recorded.get context arguments (state, [])).state = (reached, plan.targets.map Target.read) := by
  have hplan' : o.recorded.planned .get arguments = .ok plan := hplan
  obtain ⟨documents, hread⟩ : ∃ documents, o.recorded.readTargets context plan.targets (state, []) =
      (.ok documents, reached, plan.targets.map Target.read) := by
    simp only [readTargets_eq_visit]
    exact ObjectStore.visit_of_completes (h.recorded [])
  have hcourse := get_course o.recorded context arguments (state, [])
  generalize o.recorded.get context arguments (state, []) = outcome at hcourse ⊢
  cases hcourse with
  | refused refuses => cases hplan'.symm.trans refuses
  | stopped prepared fails =>
      cases hplan'.symm.trans prepared
      cases hread.symm.trans fails
  | delivered prepared read =>
      cases hplan'.symm.trans prepared
      cases hread.symm.trans read
      rfl

/-- **Batches fail fast.** Take any call that gets as far as the store. If the write of a target fails after
those of the targets before it went through, that was the last call: the result names the kind of write, the
target and the cause, and the caller's handles are as they were. If there is no such target, there was one
write for each target, in order, and every call after them is a read. A call that reads its targets reads them
in order up to the first that fails, which it names, with the handles as they were. -/
theorem batches_fail_fast (o : Orchestrator σ) (context : Context) (arguments : List Argument) (state : σ) :
    (∀ operation ready, o.ready operation arguments = .ok ready →
      (∀ done target cause left,
        o.store.Stops context ready.kind.call ready.plan.targets state done target cause left →
          o.recorded.mutate operation context arguments (state, []) =
            ⟨.error (.mutation ready.kind target.key cause), arguments, left,
              (done ++ [target]).map ready.kind.call⟩) ∧
      ((¬ ∃ done target cause left,
          o.store.Stops context ready.kind.call ready.plan.targets state done target cause left) →
        ∃ reads, (o.recorded.mutate operation context arguments (state, [])).state.2 =
            ready.plan.targets.map ready.kind.call ++ reads ∧
          ∀ call ∈ reads, ∃ key, call = .get key)) ∧
    ∀ plan, o.planned .get arguments = .ok plan →
      (∀ done target cause left,
        o.store.Stops context Target.read plan.targets state done target cause left →
          o.recorded.get context arguments (state, []) =
            ⟨.error (.read target.key.display cause), arguments, left, (done ++ [target]).map Target.read⟩) ∧
      ((¬ ∃ done target cause left,
          o.store.Stops context Target.read plan.targets state done target cause left) →
        (o.recorded.get context arguments (state, [])).state.2 = plan.targets.map Target.read) := by
  refine ⟨fun operation ready hready => ⟨?_, ?_⟩, fun plan hplan => ⟨?_, ?_⟩⟩
  · intro done target cause left hstops
    exact mutate_of_stops hready hstops
  · intro hnone
    obtain ⟨reached, hcompletes⟩ :=
      (ObjectStore.completes_or_stops ready.kind.call ready.plan.targets state).resolve_right hnone
    exact mutate_of_completes hready hcompletes
  · intro done target cause left hstops
    exact get_of_stops hplan hstops
  · intro hnone
    obtain ⟨reached, hcompletes⟩ :=
      (ObjectStore.completes_or_stops Target.read plan.targets state).resolve_right hnone
    rw [get_of_completes hplan hcompletes]

section StopsAtSecond

open MemoryStore

/-- Three handles are to be created and waited for. The second object is there already: the third is not asked
for, and no read is made. -/
theorem batches_fail_fast_at_second :
    let o := standard MemoryStore.objectStore
    let world : World := ⟨empty.run [atNoon (.create (configMap "b" []))], .none, "2024-05-01T12:00:00Z"⟩
    let documents := ["a", "b", "c"].map fun name => configMap name []
    let arguments := [Argument.objects (documents.map Handle.ofDocument), .timeout .tenSeconds]
    ∃ ready, o.ready .createAndWait arguments = .ok ready ∧
      o.recorded.mutate .createAndWait ⟨0, []⟩ arguments (world, []) =
        ⟨.error (.mutation .create (configMapKey "b") (.alreadyExists (configMapKey "b"))), arguments,
          ⟨world.memory.step (atNoon (.create (configMap "a" []))), .none, world.now⟩,
          [.create (configMap "a" []), .create (configMap "b" [])]⟩ := by
  intro o world documents arguments
  let target (name : String) : Target := ⟨configMapKey name, configMap name []⟩
  have hready : o.ready .createAndWait arguments =
      .ok ⟨⟨.handles, ["a", "b", "c"].map target, .objects (documents.map Handle.ofDocument)⟩, .create,
        some ⟨.tenSeconds, .quarterSecond, by decide, by decide⟩⟩ := by rfl
  have hstops : o.store.Stops ⟨0, []⟩ (Mutation.call .create) (["a", "b", "c"].map target) world [target "a"]
      (target "b") (.alreadyExists (configMapKey "b"))
      ⟨world.memory.step (atNoon (.create (configMap "a" []))), .none, world.now⟩ :=
    ⟨⟨[target "c"], rfl⟩, _, .cons rfl (.nil _), rfl⟩
  exact ⟨_, hready, ((batches_fail_fast o ⟨0, []⟩ arguments world).1 .createAndWait _ hready).1 _ _ _ _ hstops⟩

end StopsAtSecond

end Converge.Orchestrator
