import Converge.Proofs.Operation.Phases
import Converge.Proofs.Wait.Seen
import Mathlib.Data.List.Induction

/-!
# Handles and exchanges of a waiting call

Once everything is written and delivered, a waiting call only reads. The handles take what is read, each the
documents of its own target, and whatever it held before is given up for the last of them. On a store that keeps
its exchanges, the call is the writes of all targets and then round after round of reads.

## Main Definitions

* `Handle.refreshed` — a handle after a read that may have failed.
* `Orchestrator.transcribed` — the same orchestrator on a store that keeps its exchanges.
* `Orchestrator.Answered` — the targets with the answers to their writes.
* `Orchestrator.Spans` — what a call adds to the exchanges with the store.

## Main Statements

* `Destinations.handles_foldl_refresh` — each handle takes the last document that was read for it.
* `Orchestrator.heldBy_of_waited` — so the caller finds in each handle what a wait has last seen there.
* `Orchestrator.exists_answered_of_writeAll` — the exchanges of the writes.
* `Orchestrator.Course.exists_calls` — however a call ends, all it has done to the store is to call it.
-/

namespace Converge

/-! ### Fresh states -/

/-- A handle after a read: with the document that was read, if there is one. -/
def Handle.refreshed (handle : Handle) (read : Option Document) : Handle := read.elim handle handle.withState

@[simp] theorem Handle.refreshed_none (handle : Handle) : handle.refreshed none = handle := rfl

@[simp] theorem Handle.refreshed_some (handle : Handle) (document : Document) :
    handle.refreshed (some document) = handle.withState document := rfl

namespace Destinations

theorem handles_refresh (destinations : Destinations) (read : Nat × Document) :
    (destinations.refresh read).handles = destinations.handles.modify read.1 (·.withState read.2) :=
  handles_withHandles (List.length_modify ..)

/-- **Each handle takes the last document that was read for it.** -/
theorem handles_foldl_refresh (reads : List (Nat × Document)) (destinations : Destinations) :
    (reads.foldl refresh destinations).handles =
      destinations.handles.mapIdx fun index handle => handle.refreshed (latest index reads) := by
  induction reads using List.reverseRecOn with
  | nil => exact List.ext_getElem? fun index => by simp [latest]
  | append_singleton reads read ih =>
      rw [List.foldl_append, List.foldl_cons, List.foldl_nil, handles_refresh, ih]
      refine List.ext_getElem? fun index => ?_
      rw [List.getElem?_modify, List.getElem?_mapIdx, List.getElem?_mapIdx]
      cases destinations.handles[index]? with
      | none => rfl
      | some handle =>
          rw [Option.map_some, Option.map_some, latest_concat]
          by_cases h : read.1 = index
          · cases latest index reads <;> simp [h, Handle.withState]
          · simp [h]

theorem foldl_refresh_alike (reads : List (Nat × Document)) (destinations : Destinations) :
    (reads.foldl refresh destinations).Alike destinations := by
  induction reads generalizing destinations with
  | nil => exact Alike.refl destinations
  | cons read reads ih => exact (ih _).trans (withHandles_alike _ _)

end Destinations

namespace Orchestrator

variable {σ : Type} {o : Orchestrator σ} {context : Context} {operation : Operation}
  {arguments : List Argument}

/-! ### Handles after a call -/

section Handles

variable {ready : Ready} {applied : List Applied} {result : Except Failure Unit} {destinations : Destinations}

theorem keep_alike (h : o.keep ready applied = (result, destinations)) :
    destinations.Alike ready.plan.destinations := by
  have hdestinations : destinations = (o.keep ready applied).2 := (congrArg Prod.snd h).symm
  rw [hdestinations, keep]
  split
  · exact Destinations.Alike.refl _
  · exact Destinations.store_alike ..

theorem heldBy_of_ready (h : o.ready operation arguments = .ok ready) :
    heldBy arguments = ready.plan.destinations.handles := by
  obtain ⟨options, hresolve, -, hplan, -⟩ := ready_eq_ok_iff.1 h
  rw [destinations_of_plan hplan, heldBy_of_resolve hresolve]

theorem given_of_ready (h : o.ready operation arguments = .ok ready) :
    given arguments = ready.plan.destinations.toList := by
  obtain ⟨options, hresolve, -, hplan, -⟩ := ready_eq_ok_iff.1 h
  rw [given_of_resolve hresolve, destinations_of_plan hplan]

/-- The caller finds what is put back in the place of the plan's handles. -/
theorem heldBy_putBack_of_ready (h : o.ready operation arguments = .ok ready)
    (alike : destinations.Alike ready.plan.destinations) :
    heldBy (destinations.putBack arguments) = destinations.handles := by
  obtain ⟨options, hresolve, -, hplan, -⟩ := ready_eq_ok_iff.1 h
  rw [destinations_of_plan hplan] at alike
  exact heldBy_putBack hresolve alike

/-- **The caller finds in each handle what the wait has last seen for it**, or else what was delivered. -/
theorem heldBy_of_waited (h : o.ready operation arguments = .ok ready)
    (kept : o.keep ready applied = (result, destinations)) (run : WaitRun σ) :
    heldBy ((run.seen.foldl Destinations.refresh destinations).putBack arguments) =
      destinations.handles.mapIdx fun index handle => handle.refreshed (lastSeen run.rounds index) := by
  have alike := (Destinations.foldl_refresh_alike run.seen destinations).trans (keep_alike kept)
  rw [heldBy_putBack_of_ready h alike, Destinations.handles_foldl_refresh]
  simp only [WaitRun.seen, latest_seen]

/-- However the handles are filled after the writes, each takes a document that it accepts, or none. -/
theorem exists_taken_of_keep (h : o.ready operation arguments = .ok ready)
    (kept : o.keep ready applied = (result, destinations)) {index : Nat} {before : Handle}
    (hbefore : (heldBy arguments)[index]? = some before) :
    ∃ after, destinations.handles[index]? = some after ∧ before.Takes o.copier after := by
  rw [heldBy_of_ready h] at hbefore
  unfold keep at kept
  split at kept
  · cases kept
    exact ⟨before, hbefore, .inl rfl⟩
  · have htaken := Destinations.exists_taken_of_store o.copier _ ready.plan.targets
      (documentsOf ready.plan.targets applied) hbefore
    rwa [kept] at htaken

/-- A call without a wait has no time for one. -/
theorem spec_of_not_waits (h : o.ready operation arguments = .ok ready) (hwaits : operation.waits = false) :
    ready.spec = none := by
  obtain ⟨options, -, hspec, -, -⟩ := ready_eq_ok_iff.1 h
  unfold waitSpec at hspec
  split at hspec
  · rw [hwaits, if_neg Bool.false_ne_true] at hspec
    exact (Except.ok.inj hspec).symm
  · exact (Except.ok.inj hspec).symm

end Handles

/-! ### Calls to the store -/

/-- The same orchestrator on a store that keeps its exchanges. -/
def transcribed (o : Orchestrator σ) : Orchestrator (σ × List Exchange) := { o with store := o.store.transcribed }

section Calls

variable {kind : Mutation} {targets : List Target}

theorem exists_calls_of_writeAll {result : Except Failure (List Applied)} {state left : σ}
    (h : o.writeAll context kind targets state = (result, left)) :
    ∃ calls, calls <+: targets.map kind.call ∧ left = o.store.after context calls state := by
  rw [writeAll_eq_visit] at h
  exact ObjectStore.exists_calls_of_visit h

theorem exists_calls_of_readTargets {result : Except Failure (List Document)} {state left : σ}
    (h : o.readTargets context targets state = (result, left)) :
    ∃ calls, calls <+: targets.map Target.read ∧ left = o.store.after context calls state := by
  rw [readTargets_eq_visit] at h
  exact ObjectStore.exists_calls_of_visit h

/-- The wait of a call ends at some round. -/
theorem confirm_endsAt (o : Orchestrator σ) (context : Context) (spec : WaitSpec) (applied : List Applied)
    (state : σ) :
    ∃ tick, EndsAt o.store context (applied.map fun a => ⟨a.key, a.predicate⟩) state spec.timeout
      (o.clock spec.interval.nanos).elapsed tick (o.confirm context spec applied state) := by
  obtain ⟨tick, -, hends⟩ := wait_endsAt o.store context spec (o.clock spec.interval.nanos)
    (applied.map fun a => ⟨a.key, a.predicate⟩) state
  exact ⟨tick, hends⟩

/-- However a call ends, all it has done to the store is to call it. -/
theorem Course.exists_calls {state : σ} {outcome : Outcome σ Unit}
    (course : o.Course context operation arguments state outcome) :
    ∃ calls, outcome.state = o.store.after context calls state := by
  cases course with
  | refused refuses => exact ⟨[], rfl⟩
  | stopped prepared fails =>
      obtain ⟨calls, -, hleft⟩ := exists_calls_of_writeAll fails
      exact ⟨calls, hleft⟩
  | undelivered prepared written | delivered prepared written =>
      obtain ⟨calls, -, hreached⟩ := exists_calls_of_writeAll written
      exact ⟨calls, hreached⟩
  | waited prepared written kept waits confirmed =>
      obtain ⟨calls, -, rfl⟩ := exists_calls_of_writeAll written
      subst confirmed
      obtain ⟨tick, hends⟩ := confirm_endsAt ..
      obtain ⟨reads, hreads⟩ := hends.exists_calls
      exact ⟨calls ++ reads, hreads.trans (ObjectStore.after_append ..).symm⟩

theorem GetCourse.exists_calls {state : σ} {outcome : Outcome σ Unit}
    (course : o.GetCourse context arguments state outcome) :
    ∃ calls, outcome.state = o.store.after context calls state := by
  cases course with
  | refused refuses => exact ⟨[], rfl⟩
  | stopped prepared fails =>
      obtain ⟨calls, -, hleft⟩ := exists_calls_of_readTargets fails
      exact ⟨calls, hleft⟩
  | delivered prepared read =>
      obtain ⟨calls, -, hreached⟩ := exists_calls_of_readTargets read
      exact ⟨calls, hreached⟩

theorem exists_calls_of_list (o : Orchestrator σ) (context : Context) (arguments : List Argument) (state : σ) :
    ∃ calls, (o.list context arguments state).state = o.store.after context calls state := by
  unfold list
  split
  · exact ⟨[], rfl⟩
  · split
    · rename_i options hresolve selector objects hselector hobjects
      refine ⟨[.list selector], ?_⟩
      rw [ObjectStore.after_cons, ObjectStore.after_nil]
      split <;> rename_i hcall <;> rw [hcall]
    · exact ⟨[], rfl⟩

/-! ### Exchanges of a call -/

/-- The targets of a call with the answers to their writes. -/
abbrev Answered (kind : Mutation) := List ((target : Target) × (kind.call target).Answer)

namespace Answered

/-- What is known of a target after its write. -/
def applied (answered : Answered kind) : List Applied :=
  answered.map fun a =>
    let stored := (kind.call a.1).document? a.2
    ⟨a.1.key, stored, predicateAfter kind stored⟩

/-- What the rounds of a wait look for after the writes. -/
def checks (answered : Answered kind) : List Check := answered.applied.map fun a => ⟨a.key, a.predicate⟩

/-- The writes as exchanges with the store. -/
def exchanges (answered : Answered kind) : List Exchange := answered.map fun a => ⟨kind.call a.1, .ok a.2⟩

theorem map_key_checks (answered : Answered kind) :
    answered.checks.map Check.key = (answered.map Sigma.fst).map Target.key := by
  simp [checks, applied]

theorem getElem?_checks (answered : Answered kind) (index : Nat) :
    answered.checks[index]? = answered[index]?.map fun a =>
      ⟨a.1.key, predicateAfter kind ((kind.call a.1).document? a.2)⟩ := by
  simp [checks, applied, Function.comp_def]

theorem map_call_exchanges (answered : Answered kind) :
    answered.exchanges.map Exchange.call = (answered.map Sigma.fst).map kind.call := by
  simp [exchanges]

end Answered

/-- **If all writes go through, there is one exchange for each target.** -/
theorem exists_answered_of_writeAll {applied : List Applied} {state reached : σ × List Exchange}
    (h : o.transcribed.writeAll context kind targets state = (.ok applied, reached)) :
    ∃ answered : Answered kind, answered.map Sigma.fst = targets ∧ answered.applied = applied ∧
      reached.2 = state.2 ++ answered.exchanges := by
  rw [writeAll_eq_visit] at h
  exact ObjectStore.exists_answered_of_visit h

/-- However the writes end, there is one exchange for each of the first targets. -/
theorem exists_written_of_writeAll {result : Except Failure (List Applied)} {state left : σ × List Exchange}
    (h : o.transcribed.writeAll context kind targets state = (result, left)) :
    ∃ written : List Exchange, left.2 = state.2 ++ written ∧
      written.map Exchange.call <+: targets.map kind.call := by
  obtain ⟨calls, hcalls, rfl⟩ := exists_calls_of_writeAll h
  obtain ⟨written, hlog, rfl⟩ := ObjectStore.exists_exchanges_of_after o.store context calls state
  exact ⟨written, hlog, hcalls⟩

/-- A round for the checks reads every target that was written. -/
theorem map_key_of_checks {answered : Answered kind} {round : Round}
    (htargets : answered.map Sigma.fst = targets) (hchecks : round.map Prod.fst = answered.checks) :
    round.map (·.1.key) = targets.map Target.key := by
  rw [← htargets, ← answered.map_key_checks, ← hchecks, List.map_map]
  rfl

/-- Every round of the wait is one for the checks. -/
theorem checks_of_confirm {spec : WaitSpec} {answered : Answered kind} {state : σ} {round : Round}
    (hround : round ∈ (o.confirm context spec answered.applied state).rounds) :
    round.map Prod.fst = answered.checks := by
  obtain ⟨tick, hends⟩ := confirm_endsAt o context spec answered.applied state
  exact hends.map_fst_of_mem hround

theorem confirm_transcript (o : Orchestrator σ) (context : Context) (spec : WaitSpec) (applied : List Applied)
    (state : σ × List Exchange) :
    (o.transcribed.confirm context spec applied state).state.2 =
      state.2 ++ (o.transcribed.confirm context spec applied state).rounds.flatMap Round.exchanges := by
  obtain ⟨tick, hends⟩ := confirm_endsAt o.transcribed context spec applied state
  exact hends.transcript

/-- What a call adds to the exchanges: a write for each target, up to one that fails, and if it waits rounds in
which every target is read. A call that is refused adds nothing. -/
inductive Spans (o : Orchestrator σ) (operation : Operation) (arguments : List Argument) :
    List Exchange → List Round → Prop
  | refused {failure : Failure} (refuses : o.ready operation arguments = .error failure) :
      Spans o operation arguments [] []
  | ready {ready : Ready} {written : List Exchange} {rounds : List Round}
      (prepared : o.ready operation arguments = .ok ready)
      (writes : written.map Exchange.call <+: ready.plan.targets.map ready.kind.call)
      (reads : ∀ round ∈ rounds, round.map (·.1.key) = ready.plan.targets.map Target.key)
      (waits : operation.waits = false → rounds = []) : Spans o operation arguments written rounds

/-- Before anything is read there are no rounds. -/
theorem Spans.of_writes {ready : Ready} {written : List Exchange}
    (prepared : o.ready operation arguments = .ok ready)
    (writes : written.map Exchange.call <+: ready.plan.targets.map ready.kind.call) :
    o.Spans operation arguments written [] :=
  .ready prepared writes (List.forall_mem_nil _) fun _ => rfl

end Calls

end Orchestrator

end Converge
