import Converge.Proofs.Arguments.Timing
import Converge.Proofs.Operation.Alone
import Converge.Proofs.Operation.Validation

/-!
# Waiting where writes are seen at once

On the store in memory there is nothing to wait for, as long as nobody else writes to it. There a waiting call does
what the same call does that does not wait, and then reads every target once. It cannot run out of time.

Several targets may have one key, which a batch then writes several times. The handles of a waiting call are left
with the last of these documents, those of the plain call each with its own, so they agree only if the keys differ.

## Main Definitions

* `Orchestrator.ValidTiming` — durations that leave room for two rounds.
* `Orchestrator.Agrees` — a waiting call has ended like a plain one, but for one round of reads.

## Main Statements

* `Orchestrator.ready_plain` — both calls prepare the same writes, or both are refused alike.
* `Orchestrator.handles_of_round` — what the round reads is what the handles hold already.
* `Orchestrator.waiting_agrees` — a waiting call on the store in memory agrees with the plain one.
-/

namespace Converge

/-- The failure with this operation in the place of the one that it names, if it names any. -/
def Failure.inTermsOf (operation : Operation) : Failure → Failure
  | .arguments cause => .arguments (cause.inTermsOf operation)
  | failure => failure

namespace Orchestrator

open MemoryStore

/-! ### The same preparation -/

/-- The durations among arguments can all be placed, and with what is configured for those that are not given they
leave room for two rounds. -/
structure ValidTiming (config : Config) (arguments : List Argument) : Prop where
  timeout : (supplied .timeout arguments).length ≤ 1
  interval : (supplied .interval arguments).length ≤ 1
  durations : (supplied .timeout arguments).length + (supplied .interval arguments).length +
    (supplied .duration arguments).length ≤ 2
  roomy : ¬ TooShort ((timeoutOf arguments).getD config.timeout, (intervalOf arguments).getD config.interval)

instance (timing : Duration × Duration) : Decidable (TooShort timing) := inferInstanceAs (Decidable (_ ∨ _))

namespace ValidTiming

variable {config : Config} {arguments : List Argument}

/-- Without the other arguments the durations can be placed. -/
theorem exists_draft (valid : ValidTiming config arguments) :
    ∃ timing, Draft.ofArguments (durationsOf arguments) = .ok timing := by
  have htimeout : supplied .timeout (durationsOf arguments) = supplied .timeout arguments :=
    supplied_durationsOf trivial
  have hinterval : supplied .interval (durationsOf arguments) = supplied .interval arguments :=
    supplied_durationsOf trivial
  have hdurations : supplied .duration (durationsOf arguments) = supplied .duration arguments :=
    supplied_durationsOf trivial
  refine ⟨_, Draft.ofArguments_eq_ok_iff.2 ⟨?_, ?_, ?_, rfl⟩⟩
  · intro argument hargument
    obtain ⟨-, hduration⟩ := List.mem_filter.1 hargument
    cases hitem : argument.item with
    | ok item => exact Argument.classifies_iff.2 ⟨item, hitem⟩
    | error cause =>
        rw [Argument.isDuration_of_error hitem] at hduration
        cases hduration
  · intro kind honce
    cases kind with
    | timeout =>
        rw [htimeout]
        exact valid.timeout
    | interval =>
        rw [hinterval]
        exact valid.interval
    | bindings | duration => cases honce
    | template | object | objects | selector =>
        rw [supplied_durationsOf_eq_nil id]
        exact Nat.zero_le 1
  · rw [htimeout, hinterval, hdurations]
    exact valid.durations

/-- A waiting call with such durations has time to wait. -/
theorem exists_spec (valid : ValidTiming config arguments) {operation : Operation} (waits : operation.waits = true)
    {options : Options} (h : resolve operation arguments config = .ok options) :
    ∃ spec, waitSpec operation options = .ok (some spec) := by
  obtain ⟨-, rfl⟩ := accepted_of_resolve h
  have htimeout :
      (optionsOf operation config arguments).timeout = some ((timeoutOf arguments).getD config.timeout) := by
    cases htimeout : timeoutOf arguments <;> simp [optionsOf, htimeout, waits]
  have hinterval :
      (optionsOf operation config arguments).interval = some ((intervalOf arguments).getD config.interval) := by
    cases hinterval : intervalOf arguments <;> simp [optionsOf, hinterval, waits]
  have hroomy := valid.roomy
  rw [TooShort, not_or, not_le] at hroomy
  obtain ⟨hlt, hne⟩ := hroomy
  rw [waitSpec, htimeout, hinterval]
  simp only [waits, if_true, WaitSpec.of, Nat.pos_of_ne_zero hne, hlt, dif_pos]
  exact ⟨_, rfl⟩

end ValidTiming

/-- A call that is ready to write, without the wait after it. -/
def Ready.untimed (ready : Ready) : Ready := { ready with spec := none }

variable {σ : Type} {o : Orchestrator σ} {operation : Operation} {arguments : List Argument}

/-- **A waiting call and the plain one prepare the same writes, or both are refused alike.** -/
theorem ready_plain (waits : operation.waits = true) (valid : ValidTiming o.config arguments) (named : Operation) :
    (o.ready operation.plain (withoutDurations arguments)).mapError (Failure.inTermsOf named) =
      ((o.ready operation arguments).map Ready.untimed).mapError (Failure.inTermsOf named) := by
  obtain ⟨timing, htiming⟩ := valid.exists_draft
  have hresolve := resolve_plain waits htiming o.config named
  unfold ready
  cases hoptions : resolve operation arguments o.config with
  | error cause =>
      cases hplain : resolve operation.plain (withoutDurations arguments) o.config with
      | ok options =>
          rw [hoptions, hplain] at hresolve
          cases hresolve
      | error cause' =>
          rw [hoptions, hplain] at hresolve
          have hcause : cause'.inTermsOf named = cause.inTermsOf named := Except.error.inj hresolve
          simp [bind, Except.bind, Except.map, Failure.inTermsOf, hcause]
  | ok options =>
      rw [hoptions] at hresolve
      have hplain : resolve operation.plain (withoutDurations arguments) o.config = .ok options.untimed :=
        mapError_eq_ok_iff.1 hresolve
      obtain ⟨spec, hspec⟩ := valid.exists_spec waits hoptions
      have huntimed : waitSpec operation.plain options.untimed = .ok none := rfl
      have hplan : o.plan options.untimed = o.plan options := rfl
      have hkind : ∀ driver, Mutation.of? operation driver = Mutation.of? operation.plain driver := by
        intro driver
        cases operation <;> first | (cases waits; done) | (cases driver <;> rfl)
      simp only [hplain, mapError_ok, bind, Except.bind, hspec, huntimed, hplan, hkind]
      cases o.plan options with
      | error failure => rfl
      | ok plan =>
          simp only
          cases Mutation.of? operation.plain plan.driver <;> rfl

/-! ### The same handles -/

/-- Durations carry no handles. -/
theorem heldBy_withoutDurations (arguments : List Argument) :
    heldBy (withoutDurations arguments) = heldBy arguments := by
  have hgiven : given (withoutDurations arguments) = given arguments := by
    rw [given, given, withoutDurations, List.filterMap_filter]
    congr 1
    funext argument
    cases hduration : argument.isDuration with
    | false => rfl
    | true =>
        unfold Argument.isDuration at hduration
        split at hduration
        · rename_i item hitem
          rw [← Argument.destinations?_item hitem]
          cases item <;> first | (cases hduration; done) | rfl
        · cases hduration
  rw [heldBy, heldBy, hgiven]

namespace Batch

variable {kind : Mutation} {now : String} {store final : MemoryStore} {targets : List Target}
  {applied : List Applied}

/-- Only a deletion leaves nothing. -/
theorem stored_eq_none_iff (batch : Batch kind now store targets applied final) :
    ∀ a ∈ applied, a.stored = none ↔ kind = .delete := by
  induction batch with
  | nil => exact List.forall_mem_nil _
  | cons commit rest ih => exact List.forall_mem_cons.2 ⟨commit.left_eq_none_iff, ih⟩

variable {ready : Ready} {destinations : Destinations} {index : Nat} {handle : Handle}

/-- A handle is left with what the write of its target has left. -/
theorem state_of_keep (batch : Batch ready.kind now store ready.plan.targets applied final)
    (kept : o.keep ready applied = (.ok (), destinations)) {a : Applied} {document : Document}
    (happlied : applied[index]? = some a) (hstored : a.stored = some document)
    (hhandle : destinations.handles[index]? = some handle) : handle.state = some document := by
  have hkind : ready.kind ≠ .delete := by
    rw [ne_eq, ← batch.stored_eq_none_iff a (List.mem_of_getElem? happlied), hstored]
    nofun
  rw [keep, if_neg hkind] at kept
  obtain ⟨target, htarget⟩ : ∃ target, ready.plan.targets[index]? = some target := by
    have hkeys := congrArg (·[index]?) batch.map_key
    simp only [List.getElem?_map, happlied, Option.map_some] at hkeys
    obtain ⟨target, htarget, -⟩ := Option.map_eq_some_iff.1 hkeys.symm
    exact ⟨target, htarget⟩
  have hzip : (applied.zip ready.plan.targets)[index]? = some (a, target) :=
    List.getElem?_zip_eq_some.2 ⟨happlied, htarget⟩
  have hdocument : (documentsOf ready.plan.targets applied)[index]? = some document := by
    rw [documentsOf, List.getElem?_map, hzip, Option.map_some]
    simp only [hstored, Option.getD_some]
  exact Destinations.state_of_store_ok kept htarget hdocument hhandle

/-- **What a round reads after the writes is what the handles hold already**, if no two targets have the same key. -/
theorem handles_of_round (batch : Batch ready.kind now store ready.plan.targets applied final)
    (nodup : (ready.plan.targets.map Target.key).Nodup) (kept : o.keep ready applied = (.ok (), destinations)) :
    (destinations.handles.mapIdx fun index handle =>
        handle.refreshed (lastSeen [applied.map fun a => (⟨a.key, a.predicate⟩, final.find a.key)] index)) =
      destinations.handles := by
  refine List.ext_getElem? fun index => ?_
  rw [List.getElem?_mapIdx]
  cases hhandle : destinations.handles[index]? with
  | none => rfl
  | some handle =>
      rw [Option.map_some]
      cases happlied : applied[index]? with
      | none => simp [lastSeen, happlied]
      | some a =>
          have hget := batch.get?_of_nodup nodup a (List.mem_of_getElem? happlied)
          cases hstored : a.stored with
          | none =>
              rw [hstored] at hget
              simp [lastSeen, happlied, MemoryStore.find_of_get?_eq_none hget, Except.toOption]
          | some document =>
              rw [hstored] at hget
              have hstate := batch.state_of_keep kept happlied hstored hhandle
              have hsame : handle.withState document = handle := by
                cases handle
                cases hstate
                rfl
              simp [lastSeen, happlied, MemoryStore.find_of_get?_eq_some hget, Except.toOption, hsame]

end Batch

/-! ### The same end -/

/-- A waiting call has ended like a plain one: both well, or with the same failure but for the operation that it may
name, and with the store as the other one has left it. It has not run out of time. If it has ended well, it has read
every target once after all writes, and nothing else. If no two targets have the same key, the caller is left with the
same handles. -/
structure Agrees (o : Orchestrator World) (operation : Operation) (arguments : List Argument)
    (waiting plain : Outcome (World × List StoreCall) Unit) : Prop where
  result : waiting.result.mapError (Failure.inTermsOf operation) = plain.result.mapError (Failure.inTermsOf operation)
  store : waiting.state.1 = plain.state.1
  inTime : ∀ failure, waiting.result = .error failure → failure.category ≠ "ConsistencyTimeoutError"
  reads : waiting.result = .ok () → ∃ ready, o.ready operation arguments = .ok ready ∧
    waiting.state.2 = plain.state.2 ++ ready.plan.targets.map Target.read
  handles : (∀ ready, o.ready operation arguments = .ok ready → (ready.plan.targets.map Target.key).Nodup) →
    heldBy waiting.arguments = heldBy plain.arguments

/-- Calls that fail before they may wait agree. -/
theorem Agrees.of_error {o : Orchestrator World} {failure failure' : Failure} {held held' : List Argument}
    {state : World × List StoreCall}
    (hfailure : failure.inTermsOf operation = failure'.inTermsOf operation)
    (hcategory : failure.category ≠ "ConsistencyTimeoutError") (hheld : heldBy held = heldBy held') :
    o.Agrees operation arguments ⟨.error failure, held, state⟩ ⟨.error failure', held', state⟩ where
  result := congrArg Except.error hfailure
  store := rfl
  inTime := by
    rintro _ ⟨⟩
    exact hcategory
  reads := nofun
  handles _ := hheld

/-- Calls that end well agree if the waiting one has read the targets besides. -/
theorem Agrees.of_ok {o : Orchestrator World} {ready : Ready} (prepared : o.ready operation arguments = .ok ready)
    {held held' : List Argument} {world : World} {log reads : List StoreCall}
    (hreads : reads = ready.plan.targets.map Target.read)
    (hheld : (ready.plan.targets.map Target.key).Nodup → heldBy held = heldBy held') :
    o.Agrees operation arguments ⟨.ok (), held, world, log ++ reads⟩ ⟨.ok (), held', world, log⟩ where
  result := rfl
  store := rfl
  inTime failure hfailure := by cases hfailure
  reads _ := ⟨ready, prepared, by rw [hreads]⟩
  handles nodup := hheld (nodup ready prepared)

section Agreement

variable {o : Orchestrator World} {context : Context} {world : World} {ready : Ready} {spec : WaitSpec}
  {applied : List Applied} {reached : World} {log : List StoreCall} {destinations : Destinations}

/-- A plain call ends when its results have gone to the handles. -/
theorem mutate_plain_eq (plain : o.ready operation.plain (withoutDurations arguments) = .ok ready.untimed)
    (written : o.recorded.writeAll context ready.kind ready.plan.targets (world, []) = (.ok applied, reached, log))
    (kept : o.recorded.keep ready applied = (.ok (), destinations)) :
    o.recorded.mutate operation.plain context (withoutDurations arguments) (world, []) =
      ⟨.ok (), destinations.putBack (withoutDurations arguments), reached, log⟩ := by
  have hplain : o.recorded.ready operation.plain (withoutDurations arguments) = .ok ready.untimed := plain
  have hwrite : o.recorded.writeAll context ready.untimed.kind ready.untimed.plan.targets (world, []) =
      (.ok applied, reached, log) := written
  have hkeep : o.recorded.keep ready.untimed applied = (.ok (), destinations) := kept
  have hspec : ready.untimed.spec = none := rfl
  simp only [mutate, hplain, hwrite, hkeep, hspec]

/-- The waiting call reads one round besides, which shows the handles what they hold. -/
theorem agrees_of_kept (memory : o.store = objectStore) (active : world.contexts.isCancelled context = false)
    (sound : Sound world.memory) (waiting : o.ready operation arguments = .ok ready) (waits : ready.spec = some spec)
    (plain : o.ready operation.plain (withoutDurations arguments) = .ok ready.untimed)
    (written : o.recorded.writeAll context ready.kind ready.plan.targets (world, []) = (.ok applied, reached, log))
    (kept : o.recorded.keep ready applied = (.ok (), destinations))
    (fits : reached.memory.revision < Chars.wordBound) :
    o.Agrees operation arguments (o.recorded.mutate operation context arguments (world, []))
      (o.recorded.mutate operation.plain context (withoutDurations arguments) (world, [])) := by
  have hwaiting : o.recorded.ready operation arguments = .ok ready := waiting
  obtain ⟨hbatch, hreached⟩ : Batch ready.kind world.now world.memory ready.plan.targets applied reached.memory ∧
      reached = { world with memory := reached.memory } :=
    batch_of_writeAll memory active (keyed_of_ready waiting) (writeAll_of_recorded written)
  have hactive : reached.contexts.isCancelled context = false := by
    rw [hreached]
    exact active
  have hrun := confirm_of_settled memory hactive spec (hbatch.settled sound) fits log
  have hreads : applied.map (fun a => StoreCall.get a.key) = ready.plan.targets.map Target.read := by
    have hkeys := congrArg (List.map StoreCall.get) hbatch.map_key
    rwa [List.map_map, List.map_map] at hkeys
  have hheld := heldBy_of_waited hwaiting kept (o.recorded.confirm context spec applied (reached, log))
  rw [hrun] at hheld
  rw [mutate_plain_eq plain written kept]
  simp only [mutate, hwaiting, written, kept, waits, hrun, Except.map]
  refine .of_ok waiting hreads fun nodup => ?_
  rw [hheld, heldBy_putBack_of_ready plain (keep_alike kept)]
  exact hbatch.handles_of_round nodup kept

/-- The two calls go through the same writes. If one of them fails, or a handle refuses its document, both end. If
not, the wait reads one round. -/
theorem agrees_of_ready (memory : o.store = objectStore) (active : world.contexts.isCancelled context = false)
    (sound : Sound world.memory) (waiting : o.ready operation arguments = .ok ready) (waits : ready.spec = some spec)
    (plain : o.ready operation.plain (withoutDurations arguments) = .ok ready.untimed)
    (fits : (o.recorded.mutate operation.plain context (withoutDurations arguments) (world, [])).state.1.memory.revision <
      Chars.wordBound) :
    o.Agrees operation arguments (o.recorded.mutate operation context arguments (world, []))
      (o.recorded.mutate operation.plain context (withoutDurations arguments) (world, [])) := by
  have hwaiting : o.recorded.ready operation arguments = .ok ready := waiting
  have hplain : o.recorded.ready operation.plain (withoutDurations arguments) = .ok ready.untimed := plain
  rcases hwrite : o.recorded.writeAll context ready.kind ready.plan.targets (world, []) with
    ⟨failure | applied, reached, log⟩
  · obtain ⟨key, cause, rfl⟩ := exists_mutation_of_writeAll hwrite
    have hcategory : (Failure.mutation ready.kind key cause).category ≠ "ConsistencyTimeoutError" := by
      simp [Failure.category]
    simp only [mutate, hwaiting, hplain, Ready.untimed, hwrite]
    exact .of_error rfl hcategory (heldBy_withoutDurations arguments).symm
  rcases hkeep : o.recorded.keep ready applied with ⟨failure | done, destinations⟩
  · obtain ⟨target, cause, rfl⟩ := exists_copy_of_keep hkeep
    have hwrite' : o.recorded.writeAll context ready.untimed.kind ready.untimed.plan.targets (world, []) =
        (.ok applied, reached, log) := hwrite
    have hkeep' : o.recorded.keep ready.untimed applied = (.error (.copy target cause), destinations) := hkeep
    have hcategory : (Failure.copy target cause).category ≠ "ConsistencyTimeoutError" := by simp [Failure.category]
    have hheld :
        heldBy (destinations.putBack arguments) = heldBy (destinations.putBack (withoutDurations arguments)) := by
      rw [heldBy_putBack_of_ready waiting (keep_alike hkeep), heldBy_putBack_of_ready plain (keep_alike hkeep')]
    simp only [mutate, hwaiting, hplain, hwrite, hwrite', hkeep, hkeep']
    exact .of_error rfl hcategory hheld
  · rw [mutate_plain_eq plain hwrite hkeep] at fits
    exact agrees_of_kept memory active sound waiting waits plain hwrite hkeep fits

end Agreement

/-- **Waiting agrees with not waiting on the store in memory**, whatever has been done to it before, as long as its
count of writes fits the word that it is kept in. -/
theorem waiting_agrees (o : Orchestrator World) (memory : o.store = objectStore) (requests : List Request)
    (contexts : Cancellations) (now : String) (context : Context) (active : contexts.isCancelled context = false)
    (operation : Operation) (waits : operation.waits = true) (arguments : List Argument)
    (valid : ValidTiming o.config arguments) :
    let world : World := ⟨empty.run requests, contexts, now⟩
    let waiting := o.recorded.mutate operation context arguments (world, [])
    let plain := o.recorded.mutate operation.plain context (withoutDurations arguments) (world, [])
    plain.state.1.memory.revision < Chars.wordBound → o.Agrees operation arguments waiting plain := by
  intro world waiting plain fits
  have hready := ready_plain waits valid operation
  rcases hwaiting : o.ready operation arguments with failure | ready
  · rw [hwaiting] at hready
    obtain ⟨failure', hplain, hnamed⟩ := mapError_eq_error_iff.1 hready
    have hwaiting' : o.recorded.ready operation arguments = .error failure := hwaiting
    have hplain' : o.recorded.ready operation.plain (withoutDurations arguments) = .error failure' := hplain
    simp only [waiting, plain, mutate, hwaiting', hplain']
    refine .of_error hnamed.symm ?_ (heldBy_withoutDurations arguments).symm
    have hpreparation := ofPreparation_of_ready hwaiting
    cases failure <;> first | (cases hpreparation; done) | simp [Failure.category]
  · rw [hwaiting] at hready
    have hplain : o.ready operation.plain (withoutDurations arguments) = .ok ready.untimed :=
      mapError_eq_ok_iff.1 hready
    obtain ⟨spec, hspec⟩ := exists_spec_of_waits hwaiting waits
    exact agrees_of_ready memory active (sound_run requests) hwaiting hspec hplain fits

/-- Two objects are updated, and one is created that is there already. The timeout is given as a text. -/
theorem waiting_agrees_on_config_maps :
    let o := standard MemoryStore.objectStore
    let requests := [atNoon (.create (configMap "a" [])), atNoon (.create (configMap "b" []))]
    let world : World := ⟨empty.run requests, .none, "2024-05-01T12:00:00Z"⟩
    let noted (name : String) := Handle.ofDocument (configMap name [("note", .string "new")])
    let arguments := [Argument.text "30", .objects [noted "a", noted "b"]]
    let waiting (operation : Operation) := o.recorded.mutate operation ⟨0, []⟩ arguments (world, [])
    let plain (operation : Operation) :=
      o.recorded.mutate operation ⟨0, []⟩ (withoutDurations arguments) (world, [])
    ValidTiming o.config arguments ∧
      (waiting .updateAndWait).result = .ok () ∧ (waiting .updateAndWait).state.2.length = 4 ∧
      (plain .update).state.2.length = 2 ∧ (plain .create).result ≠ .ok () ∧
      o.Agrees .updateAndWait arguments (waiting .updateAndWait) (plain .update) ∧
      o.Agrees .createAndWait arguments (waiting .createAndWait) (plain .create) := by
  intro o requests world noted arguments waiting plain
  have hupdated : (waiting .updateAndWait).result = .ok () := by decide +kernel +revert
  have hfour : (waiting .updateAndWait).state.2.length = 4 := by decide +kernel +revert
  have htwo : (plain .update).state.2.length = 2 := by decide +kernel +revert
  have hcreated : (plain .create).result ≠ .ok () := by decide +kernel +revert
  have hupdateFits : (plain .update).state.1.memory.revision < Chars.wordBound := by decide +kernel +revert
  have hcreateFits : (plain .create).state.1.memory.revision < Chars.wordBound := by decide +kernel +revert
  have valid : ValidTiming o.config arguments := ⟨by decide, by decide, by decide, by decide⟩
  refine ⟨valid, hupdated, hfour, htwo, hcreated, ?_, ?_⟩
  · exact waiting_agrees o rfl requests .none _ ⟨0, []⟩ rfl .updateAndWait rfl arguments valid hupdateFits
  · exact waiting_agrees o rfl requests .none _ ⟨0, []⟩ rfl .createAndWait rfl arguments valid hcreateFits

end Orchestrator

end Converge
