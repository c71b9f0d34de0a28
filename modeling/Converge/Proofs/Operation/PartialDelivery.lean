import Converge.Handle.Kinds
import Converge.Proofs.Operation.Handles
import Converge.Proofs.Operation.Phases
import Converge.Proofs.Store.Run

/-!
# Handles that are filled in part

Before a document of a template goes to the store, its handle is asked whether it accepts it. What the store
answers can differ from that document, and the answers are copied handle by handle without asking all handles
first. If one of them is refused, the handles before it have taken theirs and the call fails all the same.

## Main Statements

* `Orchestrator.filled_up_to_refusal` — a call that fails to copy has done nothing at all, or has filled the
  handles up to the one that refuses.
* `Orchestrator.get_fills_in_part` — a read that fails and leaves its first handle changed.
-/

namespace Converge.Orchestrator

variable {σ : Type} {o : Orchestrator σ} {context : Context} {arguments : List Argument} {state : σ}
  {target : String} {cause : CopyError}

/-- The caller finds his handles filled up to the one that refuses. -/
theorem heldBy_of_store {operation : Operation} {options : Options} {plan : Plan} {targets : List Target}
    {documents : List Document} {next : Destinations}
    (hresolve : resolve operation arguments o.config = .ok options) (hplan : o.plan options = .ok plan)
    (h : plan.destinations.store o.copier targets documents = (.error (.copy target cause), next)) :
    ∃ taken, taken <+: documents ∧
      FillsUpTo o.copier cause taken (heldBy arguments) (heldBy (next.putBack arguments)) := by
  obtain ⟨_, _, taken, after, hfailure, htaken, hfills, rfl⟩ := Destinations.fillsUpTo_of_store h
  cases hfailure
  rw [destinations_of_plan hplan] at hfills ⊢
  have hbefore : heldBy arguments = (Destinations.ofOptions options).handles := heldBy_of_resolve hresolve
  have hafter : heldBy (((Destinations.ofOptions options).withHandles after).putBack arguments) = after := by
    rw [heldBy_putBack hresolve (Destinations.withHandles_alike _ _),
      Destinations.handles_withHandles hfills.length_eq]
  rw [hbefore, hafter]
  exact ⟨taken, htaken, hfills⟩

theorem Course.eq_or_fills {operation : Operation} {outcome : Outcome σ Unit}
    (course : o.Course context operation arguments state outcome)
    (h : outcome.result = .error (.copy target cause)) :
    outcome = ⟨.error (.copy target cause), arguments, state⟩ ∨
      ∃ ready applied taken, o.ready operation arguments = .ok ready ∧
        (o.writeAll context ready.kind ready.plan.targets state).1 = .ok applied ∧
        taken <+: documentsOf ready.plan.targets applied ∧
        FillsUpTo o.copier cause taken (heldBy arguments) (heldBy outcome.arguments) := by
  cases course with
  | refused refuses =>
      cases h
      exact .inl rfl
  | stopped prepared fails =>
      cases h
      obtain ⟨_, _, hfailure⟩ := exists_mutation_of_writeAll fails
      cases hfailure
  | undelivered prepared written refuses =>
      cases h
      obtain ⟨options, hresolve, -, hplan, -⟩ := ready_eq_ok_iff.1 prepared
      obtain ⟨taken, htaken, hfills⟩ := heldBy_of_store hresolve hplan (store_of_keep refuses)
      exact .inr ⟨_, _, taken, prepared, congrArg Prod.fst written, htaken, hfills⟩
  | delivered => cases h
  | waited prepared written kept waits confirmed =>
      subst confirmed
      obtain ⟨_, _, _, _, hfailure⟩ := exists_timeout_of_confirm (map_eq_error_iff.1 h)
      cases hfailure

theorem GetCourse.eq_or_fills {outcome : Outcome σ Unit}
    (course : o.GetCourse context arguments state outcome)
    (h : outcome.result = .error (.copy target cause)) :
    outcome = ⟨.error (.copy target cause), arguments, state⟩ ∨
      ∃ plan documents taken, o.planned .get arguments = .ok plan ∧
        (o.readTargets context plan.targets state).1 = .ok documents ∧ taken <+: documents ∧
        FillsUpTo o.copier cause taken (heldBy arguments) (heldBy outcome.arguments) := by
  cases course with
  | refused refuses =>
      cases h
      exact .inl rfl
  | stopped prepared fails =>
      cases h
      obtain ⟨_, _, hfailure⟩ := exists_read_of_readTargets fails
      cases hfailure
  | delivered prepared read stored =>
      cases h
      obtain ⟨options, hresolve, hplan⟩ := planned_eq_ok_iff.1 prepared
      obtain ⟨taken, htaken, hfills⟩ := heldBy_of_store hresolve hplan stored
      exact .inr ⟨_, _, taken, prepared, congrArg Prod.fst read, htaken, hfills⟩

/-- **A call that fails to copy has done nothing at all, or has filled the handles up to the one that refuses.**
In the second case every target was written or read, the handles before the one that refuses have taken what
the store answered, and it and those after it are as they were. So the handles are all as they were only if
those before the one that refuses held their documents already. -/
theorem filled_up_to_refusal (o : Orchestrator σ) (context : Context) (arguments : List Argument) (state : σ)
    (target : String) (cause : CopyError) :
    (∀ operation,
      let outcome := o.mutate operation context arguments state
      outcome.result = .error (.copy target cause) →
        outcome = ⟨.error (.copy target cause), arguments, state⟩ ∨
          ∃ ready applied taken, o.ready operation arguments = .ok ready ∧
            (o.writeAll context ready.kind ready.plan.targets state).1 = .ok applied ∧
            taken <+: documentsOf ready.plan.targets applied ∧
            FillsUpTo o.copier cause taken (heldBy arguments) (heldBy outcome.arguments) ∧
            (heldBy outcome.arguments = heldBy arguments ↔
              ((heldBy arguments).take taken.length).map Handle.state = taken.map some)) ∧
      let outcome := o.get context arguments state
      outcome.result = .error (.copy target cause) →
        outcome = ⟨.error (.copy target cause), arguments, state⟩ ∨
          ∃ plan documents taken, o.planned .get arguments = .ok plan ∧
            (o.readTargets context plan.targets state).1 = .ok documents ∧ taken <+: documents ∧
            FillsUpTo o.copier cause taken (heldBy arguments) (heldBy outcome.arguments) ∧
            (heldBy outcome.arguments = heldBy arguments ↔
              ((heldBy arguments).take taken.length).map Handle.state = taken.map some) := by
  constructor
  · intro operation outcome h
    obtain unchanged | ⟨ready, applied, taken, hready, hwritten, htaken, hfills⟩ :=
      (mutate_course o context operation arguments state).eq_or_fills h
    · exact .inl unchanged
    · exact .inr ⟨ready, applied, taken, hready, hwritten, htaken, hfills, hfills.eq_iff⟩
  · intro outcome h
    obtain unchanged | ⟨plan, documents, taken, hplan, hread, htaken, hfills⟩ :=
      (get_course o context arguments state).eq_or_fills h
    · exact .inl unchanged
    · exact .inr ⟨plan, documents, taken, hplan, hread, htaken, hfills, hfills.eq_iff⟩

/-! ### A read that fails and leaves its first handle changed -/

section HalfFilled

open MemoryStore

/-- A deployment of one replica. -/
def deployment (name : String) : Document :=
  .ofEntries [("apiVersion", .string "apps/v1"), ("kind", .string "Deployment"),
    ("metadata", .ofEntries [("name", .string name)]),
    ("spec", .ofEntries [("replicas", .number (.integer 1))])]

/-- Two objects are created and read again, and the second of their handles refuses what the store answers both times.
Then just one document was taken: the first handle holds the stored object, and the second one is as it was. -/
theorem filled_up_to_refusal_of_second :
    let o := standard MemoryStore.objectStore
    let handles := [Handle.ofDocument (configMap "a" []), ⟨some (deployment "d"), some Kinds.deployment⟩]
    let arguments := [Argument.objects handles]
    let world : World := ⟨empty, .none, "2024-05-01T12:00:00Z"⟩
    let created := o.mutate .create ⟨0, []⟩ arguments world
    let read := o.get ⟨0, []⟩ arguments created.state
    let cause := CopyError.conversion "Deployment" "invalid type: number, expected a string"
    created.state.memory.revision = 2 ∧ ∀ outcome ∈ [created, read],
      outcome.result = .error (.copy "apps/v1, Kind=Deployment d" cause) ∧
        ∃ first, created.state.memory.objects.get? (configMapKey "a") = some first ∧
          FillsUpTo o.copier cause [first] handles (heldBy outcome.arguments) ∧
          (heldBy outcome.arguments).map Handle.state = [some first, some (deployment "d")] := by
  intro o handles arguments world created read cause
  have hresult : ∀ outcome ∈ [created, read],
      outcome.result = .error (.copy "apps/v1, Kind=Deployment d" cause) := by decide +kernel
  have hstates : ∀ outcome ∈ [created, read], (heldBy outcome.arguments).map Handle.state =
      [created.state.memory.objects.get? (configMapKey "a"), some (deployment "d")] := by decide +kernel
  have hstored : created.state.memory.objects.get? (configMapKey "a") ≠ some (configMap "a" []) := by decide +kernel
  have hchanged : ∀ outcome ∈ [created, read], heldBy outcome.arguments ≠ handles := by
    intro outcome houtcome hsame
    have hfirst := hstates outcome houtcome
    rw [hsame] at hfirst
    exact hstored (List.cons.inj hfirst).1.symm
  -- A handle has changed, so neither call was refused before it began.
  have hbegun : ∀ outcome ∈ [created, read], ∀ failure state, outcome ≠ ⟨.error failure, arguments, state⟩ := by
    intro outcome houtcome failure state hsame
    have hheld : heldBy arguments = handles := rfl
    rw [← hheld] at hchanged
    apply hchanged outcome houtcome
    rw [hsame]
  have hfills : ∀ outcome ∈ [created, read],
      ∃ taken, FillsUpTo o.copier cause taken handles (heldBy outcome.arguments) := by
    rw [List.forall_mem_cons, List.forall_mem_singleton] at hresult hbegun ⊢
    constructor
    · obtain unchanged | ⟨_, _, taken, -, -, -, hfills, -⟩ :=
        (filled_up_to_refusal o ⟨0, []⟩ arguments world "apps/v1, Kind=Deployment d" cause).1 .create hresult.1
      · exact absurd unchanged (hbegun.1 _ _)
      · exact ⟨taken, hfills⟩
    · obtain unchanged | ⟨_, _, taken, -, -, -, hfills, -⟩ :=
        (filled_up_to_refusal o ⟨0, []⟩ arguments created.state "apps/v1, Kind=Deployment d" cause).2 hresult.2
      · exact absurd unchanged (hbegun.2 _ _)
      · exact ⟨taken, hfills⟩
  refine ⟨by decide +kernel, fun outcome houtcome => ⟨hresult outcome houtcome, ?_⟩⟩
  obtain ⟨taken, hfills⟩ := hfills outcome houtcome
  obtain ⟨first, rfl, hafter⟩ := hfills.eq_of_pair (hchanged outcome houtcome)
  have hheld := hstates outcome houtcome
  have hfirst : created.state.memory.objects.get? (configMapKey "a") = some first := by
    rw [hafter] at hheld
    exact (List.cons.inj hheld).1.symm
  rw [hfirst] at hheld
  exact ⟨first, hfirst, hfills, hheld⟩

/-- Two objects are read, the second into a typed handle. The store numbers the generations of an object, and
the metadata of the type hold texts only: the second handle refuses what the store answers. By then the first
one has taken the stored object. -/
theorem get_fills_in_part :
    let o := standard MemoryStore.objectStore
    let world : World :=
      ⟨empty.run [atNoon (.create (configMap "a" [])), atNoon (.create (deployment "d"))], .none,
        "2024-05-01T12:00:00Z"⟩
    let arguments :=
      [Argument.objects [.ofDocument (configMap "a" []), ⟨some (deployment "d"), some Kinds.deployment⟩]]
    let outcome := o.get ⟨0, []⟩ arguments world
    outcome.result = .error (.copy "apps/v1, Kind=Deployment d"
        (.conversion "Deployment" "invalid type: number, expected a string")) ∧
      (heldBy outcome.arguments).map Handle.state ≠ (heldBy arguments).map Handle.state := by
  decide +kernel

end HalfFilled

end Converge.Orchestrator
