import Converge.Proofs.Wait.Round
import Converge.Store.Scripted
import Mathlib.Data.Nat.Find

/-!
# When a wait ends, and how

A wait reads in rounds until it ends. Which round is the last and what the wait says then is decided by the
reads of that round and by the clock. A round before it leaves nothing behind but the state of the store: not
what was seen in it, and not the reads that failed.

## Main Definitions

* `stateAfter`, `roundAt` — the rounds of a wait as if it went on for ever.
* `Decides` — a round shows all that is asked for, or the time is up after it.
* `EndsAt` — a wait ends at a round: the first that decides.
* `WaitRun.ticks?` — the count that a wait reports.

## Main Statements

* `poll_succ` — one step of the loop, from which the statements about whole waits follow by induction.
* `poll_eq_some_iff` — with any clock and any store a wait ends at the first round that decides, or never.
* `wait_endsAt` — with a clock that moves on it ends, after at most one round more than there are intervals.
* `EndsAt.exists_count` — what is reported of the number of the last round.
* `wait_decides_on_one_round` — all of it together, with the calls that the store receives.

## Design Notes

Nothing is asked of the clock in `poll_eq_some_iff`, not even that it does not run back. A wait may have more
rounds than a word of 32 bits counts, so the number of a round and its count are told apart: rounds are numbered
without bound, and what is reported is the count. Both are the same as long as the wait has fewer than 2³² rounds,
which `wait_endsAt` ensures for every timeout of less than 2³² - 2 intervals.
-/

namespace Converge

variable {σ : Type}

/-! ### The rounds of a wait -/

section Rounds

variable (store : ObjectStore σ) (context : Context) (checks : List Check) (state : σ)

/-- The state of the store after so many rounds of reads. -/
def stateAfter : Nat → σ
  | 0 => state
  | rounds + 1 => (readAll store context checks (stateAfter rounds)).2

/-- The reads of a round. Rounds are numbered from one. -/
def roundAt (tick : Nat) : Round :=
  (readAll store context checks (stateAfter store context checks state (tick - 1))).1

/-- The calls of so many rounds are all that has happened to the store. -/
theorem stateAfter_eq_after (rounds : Nat) :
    stateAfter store context checks state rounds =
      store.after context (List.replicate rounds (checks.map Check.read)).flatten state := by
  induction rounds with
  | zero => rfl
  | succ rounds ih =>
      rw [stateAfter, readAll_state, ih, List.replicate_succ', List.flatten_concat, ObjectStore.after_append]

variable (timeout : Duration) (elapsed : Nat → Nat)

/-- A round shows all that is asked for, or the time is up after it. -/
def Decides (tick : Nat) : Prop :=
  (roundAt store context checks state tick).Shows ∨ timeout.nanos ≤ elapsed tick

instance (tick : Nat) : Decidable (Decides store context checks state timeout elapsed tick) :=
  inferInstanceAs (Decidable (_ ∨ _))

/-- A wait ends at a round. -/
structure EndsAt (tick : Nat) (run : WaitRun σ) : Prop where
  pos : 0 < tick
  /-- The round decides, and none before it does. -/
  decides : Decides store context checks state timeout elapsed tick
  first : ∀ earlier, 0 < earlier → earlier < tick →
    ¬ Decides store context checks state timeout elapsed earlier
  /-- The verdict is that on this round alone. -/
  result : run.result = (roundAt store context checks state tick).verdict tick (elapsed tick)
  /-- The rounds up to this one were read, and no other. -/
  rounds : run.rounds = (List.range' 1 tick).map (roundAt store context checks state)
  state : run.state = stateAfter store context checks state tick

variable {store context checks state timeout elapsed} {tick : Nat} {run : WaitRun σ}

/-- A wait fails by timeout only. -/
theorem EndsAt.exists_timeout {failure : Failure}
    (h : EndsAt store context checks state timeout elapsed tick run) (hfailed : run.result = .error failure) :
    ∃ pending elapsed ticks cause, failure = .timeout pending elapsed ticks cause :=
  Round.exists_timeout_of_verdict (h.result.symm.trans hfailed)

/-- The count of rounds that a wait reports, however it ended. -/
def WaitRun.ticks? (run : WaitRun σ) : Option UInt32 :=
  match run.result with
  | .ok report => some report.ticks
  | .error (.timeout _ _ ticks _) => some ticks
  | .error _ => none

theorem EndsAt.ticks? (h : EndsAt store context checks state timeout elapsed tick run) :
    run.ticks? = some (tick : UInt32) := by
  rw [WaitRun.ticks?, h.result, Round.verdict]
  by_cases hshows : (roundAt store context checks state tick).Shows
  · rw [if_pos hshows]
  · rw [if_neg hshows]

end Rounds

/-! ### The loop -/

section Loop

variable (store : ObjectStore σ) (context : Context) (checks : List Check) (state : σ)
variable (timeout : Duration) (elapsed : Nat → Nat)

/-- **One step of the loop.** A round is read; the wait ends with it or goes on with the next. -/
theorem poll_succ (budget rounds : Nat) :
    poll store context timeout elapsed checks (budget + 1) (rounds + 1)
        (stateAfter store context checks state rounds) =
      if Decides store context checks state timeout elapsed (rounds + 1) then
        some ⟨(roundAt store context checks state (rounds + 1)).verdict (rounds + 1) (elapsed (rounds + 1)),
          [roundAt store context checks state (rounds + 1)], stateAfter store context checks state (rounds + 1)⟩
      else
        (poll store context timeout elapsed checks budget (rounds + 2)
            (stateAfter store context checks state (rounds + 1))).map fun run =>
          { run with rounds := roundAt store context checks state (rounds + 1) :: run.rounds } := by
  have hround : (readAll store context checks (stateAfter store context checks state rounds)).1 =
      roundAt store context checks state (rounds + 1) := rfl
  rw [poll]
  simp only [hround, Round.isEmpty_pending_iff]
  by_cases hshows : (roundAt store context checks state (rounds + 1)).Shows
  · simp [hshows, Decides, Round.verdict, stateAfter]
  · by_cases htime : timeout.nanos ≤ elapsed (rounds + 1)
    · simp [hshows, htime, Decides, Round.verdict, stateAfter, Round.pending_eq_unshown,
        Round.lastReadError_eq]
    · simp [hshows, htime, Decides, stateAfter]

/-- As long as no round decides, the loop goes on. -/
theorem poll_eq_none (budget rounds : Nat)
    (h : ∀ tick, rounds < tick → tick ≤ rounds + budget →
      ¬ Decides store context checks state timeout elapsed tick) :
    poll store context timeout elapsed checks budget (rounds + 1)
      (stateAfter store context checks state rounds) = none := by
  induction budget generalizing rounds with
  | zero => rfl
  | succ budget ih =>
      have hnext : ¬ Decides store context checks state timeout elapsed (rounds + 1) :=
        h (rounds + 1) (by omega) (by omega)
      have hrest := ih (rounds + 1) fun tick hlt hle => h tick (by omega) (by omega)
      rw [poll_succ, if_neg hnext, hrest, Option.map_none]

/-- The loop stops at the first round that decides, if its budget reaches so far. -/
theorem poll_eq_some (budget rounds more : Nat) (hbudget : more < budget)
    (hfirst : ∀ tick, rounds < tick → tick ≤ rounds + more →
      ¬ Decides store context checks state timeout elapsed tick)
    (hdecides : Decides store context checks state timeout elapsed (rounds + more + 1)) :
    poll store context timeout elapsed checks budget (rounds + 1)
        (stateAfter store context checks state rounds) =
      some ⟨(roundAt store context checks state (rounds + more + 1)).verdict (rounds + more + 1)
          (elapsed (rounds + more + 1)),
        (List.range' (rounds + 1) (more + 1)).map (roundAt store context checks state),
        stateAfter store context checks state (rounds + more + 1)⟩ := by
  obtain ⟨budget, rfl⟩ : ∃ n, budget = n + 1 := ⟨budget - 1, by omega⟩
  induction more generalizing rounds budget with
  | zero =>
      rw [poll_succ, if_pos hdecides]
      rfl
  | succ more ih =>
      have hnext : ¬ Decides store context checks state timeout elapsed (rounds + 1) :=
        hfirst (rounds + 1) (by omega) (by omega)
      obtain ⟨budget, rfl⟩ : ∃ n, budget = n + 1 := ⟨budget - 1, by omega⟩
      have hshift : rounds + (more + 1) + 1 = rounds + 1 + more + 1 := by omega
      rw [hshift] at hdecides ⊢
      have hrest := ih (rounds + 1) (fun tick hlt hle => hfirst tick (by omega) (by omega)) hdecides
        budget (by omega)
      rw [poll_succ, if_neg hnext, hrest, Option.map_some, List.range'_succ (n := more + 1), List.map_cons]

variable {store context checks state timeout elapsed}

/-- **A wait ends at the first round that decides.** There is an answer exactly if the budget reaches it. -/
theorem poll_eq_some_iff {budget : Nat} {run : WaitRun σ} :
    poll store context timeout elapsed checks budget 1 state = some run ↔
      ∃ tick, tick ≤ budget ∧ EndsAt store context checks state timeout elapsed tick run := by
  constructor
  · intro hrun
    by_cases hreaches : ∃ tick, 0 < tick ∧ tick ≤ budget ∧
        Decides store context checks state timeout elapsed tick
    · classical
      -- The first round that decides is the one at which the loop stops.
      obtain ⟨hpos, hle, hdecides⟩ := Nat.find_spec hreaches
      have hfirst : ∀ earlier, 0 < earlier → earlier < Nat.find hreaches →
          ¬ Decides store context checks state timeout elapsed earlier :=
        fun earlier hpos' hlt hdecides' => Nat.find_min hreaches hlt ⟨hpos', by omega, hdecides'⟩
      obtain ⟨more, hmore⟩ : ∃ n, Nat.find hreaches = n + 1 := ⟨Nat.find hreaches - 1, by omega⟩
      rw [hmore] at hle hdecides hfirst
      have hpoll := poll_eq_some store context checks state timeout elapsed budget 0 more hle
        (fun tick hlt hle' => hfirst tick hlt (by omega)) (by rwa [Nat.zero_add])
      simp only [Nat.zero_add] at hpoll
      cases Option.some.inj (hrun.symm.trans hpoll)
      exact ⟨more + 1, hle, more.succ_pos, hdecides, hfirst, rfl, rfl, rfl⟩
    · have hnone := poll_eq_none store context checks state timeout elapsed budget 0
        fun tick hlt hle hdecides => hreaches ⟨tick, hlt, by omega, hdecides⟩
      cases hrun.symm.trans hnone
  · rintro ⟨tick, hle, hends⟩
    obtain ⟨more, rfl⟩ : ∃ n, tick = n + 1 := ⟨tick - 1, by have := hends.pos; omega⟩
    have hpoll := poll_eq_some store context checks state timeout elapsed budget 0 more hle
      (fun tick hlt hle' => hends.first tick hlt (by omega)) (by rw [Nat.zero_add]; exact hends.decides)
    simp only [Nat.zero_add] at hpoll
    obtain ⟨result, rounds, reached⟩ := run
    obtain ⟨-, -, -, rfl, rfl, rfl⟩ := hends
    exact hpoll

/-- A wait makes the calls of its rounds, and no other. -/
theorem poll_recorded (budget tick : Nat) (state : σ) (log : List StoreCall) :
    poll store.recorded context timeout elapsed checks budget tick (state, log) =
      (poll store context timeout elapsed checks budget tick state).map fun run =>
        ⟨run.result, run.rounds, run.state, log ++ run.rounds.flatMap fun _ => checks.map Check.read⟩ := by
  induction budget generalizing tick state log with
  | zero => rfl
  | succ budget ih =>
      simp only [poll, readAll_recorded, ih]
      split
      · simp
      · split
        · simp
        · simp [Option.map_map, Function.comp_def]

end Loop

/-! ### Waits with a clock that moves on -/

section Waits

variable (store : ObjectStore σ) (context : Context) (spec : WaitSpec)
  (watch : Stopwatch spec.interval.nanos) (checks : List Check) (state : σ)

theorem poll_eq_wait :
    poll store context spec.timeout watch.elapsed checks (spec.gaps + 1) 1 state =
      some (wait store context spec watch checks state) :=
  (Option.some_get _).symm

/-- A wait by a stopwatch ends, after at most one round more than there are intervals. -/
theorem wait_endsAt :
    ∃ tick, tick ≤ spec.gaps + 1 ∧ EndsAt store context checks state spec.timeout watch.elapsed tick
      (wait store context spec watch checks state) :=
  poll_eq_some_iff.1 (poll_eq_wait store context spec watch checks state)

theorem wait_recorded (log : List StoreCall) :
    wait store.recorded context spec watch checks (state, log) =
      ⟨(wait store context spec watch checks state).result, (wait store context spec watch checks state).rounds,
        (wait store context spec watch checks state).state,
        log ++ (wait store context spec watch checks state).rounds.flatMap fun _ => checks.map Check.read⟩ := by
  have hrun := poll_eq_wait store.recorded context spec watch checks (state, log)
  rw [poll_recorded, poll_eq_wait store context spec watch checks state] at hrun
  exact (Option.some.inj hrun).symm

end Waits

end Converge
