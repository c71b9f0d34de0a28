import Converge.Proofs.Operation.Handles
import Converge.Proofs.Operation.Phases

/-!
# Validation comes before any effect

A call whose arguments or template are refused has done nothing: no call has reached the store, and the
caller's handles are as they were. Only the first phase of a call refuses for these reasons, and in this phase
neither the store nor a handle is touched.

## Main Definitions

* `Failure.IsRefusal` — the failures of the first phase that are about arguments or the template.
* `Outcome.Untouched`, `Outcome.ValidatedFirst` — the call has done nothing; it has not if it is refused.
* `Orchestrator.timing`, `Orchestrator.TooShort` — the time of a wait, and when it is too short.

## Main Statements

* `Orchestrator.Course.eq_of_isRefusal` — a call that writes is refused in its first phase or not at all; the
  same for the other calls.
* `Orchestrator.ready_of_tooShort` — a waiting call without room for two rounds is refused.
* `Orchestrator.validated_before_any_effect` — every call that is refused has done nothing.
-/

namespace Converge

/-- The failure is about the arguments, or about the template and its bindings. -/
def Failure.IsRefusal (failure : Failure) : Prop :=
  failure.category = "InvalidArguments" ∨ failure.category = "InvalidTemplateOrBindings"

theorem Failure.isRefusal_iff {failure : Failure} :
    failure.IsRefusal ↔ (∃ cause, failure = .arguments cause) ∨ ∃ cause, failure = .template cause := by
  cases failure <;> simp [IsRefusal, category]

/-- The call ended with a failure. The store has received no call and is as it was, and so are the arguments
with the handles. -/
def Outcome.Untouched {σ α : Type} (outcome : Outcome (σ × List StoreCall) α) (failure : Failure)
    (arguments : List Argument) (state : σ) : Prop :=
  outcome = ⟨.error failure, arguments, state, []⟩

/-- A call that is refused has done nothing. -/
def Outcome.ValidatedFirst {σ α : Type} (outcome : Outcome (σ × List StoreCall) α) (arguments : List Argument)
    (state : σ) : Prop :=
  ∀ failure : Failure, failure.IsRefusal → outcome.result = .error failure →
    outcome.Untouched failure arguments state

namespace Orchestrator

variable {σ : Type} {o : Orchestrator σ} {context : Context} {arguments : List Argument} {state : σ}
  {failure : Failure}

/-! ### Refusals end the first phase -/

theorem Course.eq_of_isRefusal {operation : Operation} {outcome : Outcome σ Unit}
    (course : o.Course context operation arguments state outcome) (hrefusal : failure.IsRefusal)
    (h : outcome.result = .error failure) : outcome = ⟨.error failure, arguments, state⟩ := by
  rw [Failure.isRefusal_iff] at hrefusal
  cases course with
  | refused refuses =>
      cases h
      rfl
  | stopped prepared fails =>
      cases h
      obtain ⟨key, cause, rfl⟩ := exists_mutation_of_writeAll fails
      simp at hrefusal
  | undelivered prepared written refuses =>
      cases h
      obtain ⟨target, cause, rfl⟩ := exists_copy_of_keep refuses
      simp at hrefusal
  | delivered => cases h
  | waited prepared written kept waits confirmed =>
      subst confirmed
      obtain ⟨pending, elapsed, ticks, cause, rfl⟩ := exists_timeout_of_confirm (map_eq_error_iff.1 h)
      simp at hrefusal

theorem GetCourse.eq_of_isRefusal {outcome : Outcome σ Unit}
    (course : o.GetCourse context arguments state outcome) (hrefusal : failure.IsRefusal)
    (h : outcome.result = .error failure) : outcome = ⟨.error failure, arguments, state⟩ := by
  rw [Failure.isRefusal_iff] at hrefusal
  cases course with
  | refused refuses =>
      cases h
      rfl
  | stopped prepared fails =>
      cases h
      obtain ⟨target, cause, rfl⟩ := exists_read_of_readTargets fails
      simp at hrefusal
  | delivered prepared read stored =>
      cases h
      obtain ⟨target, cause, -, -, rfl, -, -⟩ := Destinations.fillsUpTo_of_store stored
      simp at hrefusal

theorem list_eq_of_isRefusal (hrefusal : failure.IsRefusal)
    (h : (o.list context arguments state).result = .error failure) :
    o.list context arguments state = ⟨.error failure, arguments, state⟩ := by
  rw [Failure.isRefusal_iff] at hrefusal
  unfold list at h ⊢
  split at h
  · cases h
    rfl
  · split at h
    · split at h
      · cases h
        simp at hrefusal
      · cases h
    · cases h
      rfl

theorem render_eq_of_isRefusal (hrefusal : failure.IsRefusal)
    (h : (o.render arguments state).result = .error failure) :
    o.render arguments state = ⟨.error failure, arguments, state⟩ := by
  rw [Failure.isRefusal_iff] at hrefusal
  have hplanned : ((resolve .render arguments o.config).mapError Failure.arguments).bind o.plan =
      o.planned .render arguments := rfl
  unfold render at h ⊢
  rw [hplanned] at h ⊢
  cases hplan : o.planned .render arguments with
  | error failed =>
      rw [hplan] at h
      cases h
      rfl
  | ok plan =>
      rw [hplan] at h
      rcases hstore : plan.destinations.store o.copier plan.targets (plan.targets.map Target.document) with
        ⟨failed | ⟨⟩, destinations⟩
      · simp only [hstore, Except.map] at h
        cases h
        obtain ⟨target, cause, -, -, rfl, -, -⟩ := Destinations.fillsUpTo_of_store hstore
        simp at hrefusal
      · simp only [hstore, Except.map] at h
        cases h

/-! ### Waits that are too short -/

theorem WaitSpec.exists_error_of_short {timeout interval : Duration}
    (h : timeout.nanos ≤ interval.nanos ∨ interval.nanos = 0) :
    ∃ cause, WaitSpec.of timeout interval = .error cause := by
  unfold WaitSpec.of
  split
  · split
    · omega
    · exact ⟨_, rfl⟩
  · exact ⟨_, rfl⟩

/-- The timeout and the interval of a waiting call: those that its arguments give, else those configured. -/
def timing (config : Config) (draft : Draft) : Duration × Duration :=
  (draft.timeout.getD config.timeout, draft.interval.getD config.interval)

/-- A wait that leaves no room for two rounds. -/
def TooShort (timing : Duration × Duration) : Prop :=
  timing.1.nanos ≤ timing.2.nanos ∨ timing.2.nanos = 0

theorem ready_of_tooShort {operation : Operation} (hwaits : operation.waits = true)
    (hshort : ∀ draft, Draft.ofArguments arguments = .ok draft → TooShort (timing o.config draft)) :
    ∃ cause, o.ready operation arguments = .error (.arguments cause) := by
  unfold Orchestrator.ready
  cases hresolve : resolve operation arguments o.config with
  | error cause => exact ⟨cause, rfl⟩
  | ok options =>
      obtain ⟨draft, hdraft, -, rfl⟩ := resolve_eq_ok_iff.1 hresolve
      obtain ⟨cause, hspec⟩ := WaitSpec.exists_error_of_short (hshort draft hdraft)
      have hwaitSpec : waitSpec operation (draft.options operation o.config) =
          ((WaitSpec.of (timing o.config draft).1 (timing o.config draft).2).map some).mapError .arguments := by
        simp [waitSpec, Draft.options, hwaits, timing]
      rw [hspec] at hwaitSpec
      refine ⟨cause, ?_⟩
      simp only [mapError_ok, mapError_error, bind, Except.bind, hwaitSpec, Except.map]

/-- **Validation comes before any effect.** Whatever is asked of an orchestrator with whatever collaborators: if
a call is refused for its arguments or its template, it has done nothing. A waiting call whose timeout does not
exceed its interval, or whose interval is zero, is always refused in this way. And rendering never calls the
store, however it ends. -/
theorem validated_before_any_effect (o : Orchestrator σ) (context : Context) (arguments : List Argument)
    (state : σ) :
    (∀ operation,
      (o.recorded.mutate operation context arguments (state, [])).ValidatedFirst arguments state) ∧
      (o.recorded.get context arguments (state, [])).ValidatedFirst arguments state ∧
      (o.recorded.list context arguments (state, [])).ValidatedFirst arguments state ∧
      (o.recorded.render arguments (state, [])).ValidatedFirst arguments state ∧
      (∀ operation : Operation, operation.waits = true →
        (∀ draft, Draft.ofArguments arguments = .ok draft → TooShort (timing o.config draft)) →
        ∃ cause, (o.recorded.mutate operation context arguments (state, [])).Untouched (.arguments cause)
          arguments state) ∧
      (o.recorded.render arguments (state, [])).state = (state, []) := by
  refine ⟨?_, ?_, ?_, ?_, ?_, ?_⟩
  · intro operation failure hrefusal h
    exact (mutate_course o.recorded context operation arguments (state, [])).eq_of_isRefusal hrefusal h
  · intro failure hrefusal h
    exact (get_course o.recorded context arguments (state, [])).eq_of_isRefusal hrefusal h
  · intro failure hrefusal h
    exact list_eq_of_isRefusal hrefusal h
  · intro failure hrefusal h
    exact render_eq_of_isRefusal hrefusal h
  · intro operation hwaits hshort
    obtain ⟨cause, hready⟩ := ready_of_tooShort hwaits hshort
    have hready' : o.recorded.ready operation arguments = .error (.arguments cause) := hready
    refine ⟨cause, ?_⟩
    simp only [Outcome.Untouched, mutate, hready']
  · unfold render
    split <;> rfl

end Orchestrator

end Converge
