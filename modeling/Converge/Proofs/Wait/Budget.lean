import Converge.Proofs.Wait.Seen
import Mathlib.Algebra.Order.Floor.Div

/-!
# How long a wait may take

Nothing in the loop of a wait counts its rounds. It ends because the clock moves on: between the reads of two rounds
lies a pause that is at least as long as the interval, and reads take no negative time. So there are at most as many
pauses as intervals fit into the timeout, rounded up, and one round more than pauses.

## Main Definitions

* `spent` — the time that has passed when the reads of a round are done.
* `Stopwatch.ofPauses` — the clock of a wait whose pauses are long enough.

## Main Statements

* `WaitSpec.of_eq_ok_iff` — what a timeout and an interval are checked for.
* `EndsAt.of_timeout` — a wait that runs out of time names what its last round has not shown.
* `wait_ends_within_budget` — a wait ends within its budget, whatever the store answers and however long it takes.
* `length_rounds_of_never_shown` — no smaller budget suffices.

## Design Notes

The time of reads is given for each round as a whole, since the clock is read only after the last of them. What ends
a wait is the clock alone: the count of rounds, a word of 32 bits, is never compared with anything. It tells how many
rounds there were as long as fewer than 2³² - 1 intervals fit into the timeout. Then no sum overflows either, so the
count is the same whether sums are checked or not.
-/

namespace Converge

namespace WaitSpec

/-- A wait needs an interval that is not empty, and a timeout that is longer. -/
theorem of_eq_ok_iff {timeout interval : Duration} {spec : WaitSpec} :
    of timeout interval = .ok spec ↔ spec.timeout = timeout ∧ spec.interval = interval := by
  unfold of
  constructor
  · intro h
    split at h
    · split at h
      · cases h
        exact ⟨rfl, rfl⟩
      · cases h
    · cases h
  · rintro ⟨rfl, rfl⟩
    rw [dif_pos spec.interval_pos, dif_pos spec.interval_lt_timeout]

theorem gaps_eq (spec : WaitSpec) : spec.gaps = spec.timeout.nanos ⌈/⌉ spec.interval.nanos :=
  (Nat.ceilDiv_eq_add_pred_div ..).symm

end WaitSpec

variable {σ : Type} {store : ObjectStore σ} {context : Context} {checks : List Check} {state : σ}

/-! ### How a wait that has ended looks -/

namespace EndsAt

variable {timeout : Duration} {elapsed : Nat → Nat} {tick : Nat} {run : WaitRun σ}

theorem length_rounds (h : EndsAt store context checks state timeout elapsed tick run) : run.rounds.length = tick := by
  rw [h.rounds, List.length_map, List.length_range']

/-- A wait that ends well reports how often it has read and how long that took. -/
theorem of_report (h : EndsAt store context checks state timeout elapsed tick run) {report : WaitReport}
    (hresult : run.result = .ok report) : report = ⟨(tick : UInt32), elapsed tick⟩ := by
  have hverdict := h.result.symm.trans hresult
  unfold Round.verdict at hverdict
  split at hverdict
  · exact (Except.ok.inj hverdict).symm
  · cases hverdict

/-- A wait that runs out of time has used it up, and it names what its last round has not shown. -/
theorem of_timeout (h : EndsAt store context checks state timeout elapsed tick run) {failure : Failure}
    (hresult : run.result = .error failure) :
    ∃ earlier last, run.rounds = earlier ++ [last] ∧
      failure = .timeout last.unshown (elapsed tick) (tick : UInt32) last.failures.getLast? ∧
      timeout.nanos ≤ elapsed tick ∧
      ∃ entry ∈ last, ¬ entry.1.predicate.Shown entry.2 ∧ entry.1.key ∈ last.unshown := by
  obtain ⟨earlier, hrounds⟩ := h.exists_last_round
  have hverdict := h.result.symm.trans hresult
  unfold Round.verdict at hverdict
  split at hverdict
  · cases hverdict
  · rename_i hshows
    have htime : timeout.nanos ≤ elapsed tick := h.decides.resolve_left hshows
    obtain ⟨entry, hentry, hunshown⟩ : ∃ entry ∈ roundAt store context checks state tick,
        ¬ entry.1.predicate.Shown entry.2 := by
      simpa [Round.Shows] using hshows
    have hkey : entry.1.key ∈ (roundAt store context checks state tick).unshown :=
      List.mem_map_of_mem (List.mem_filter.2 ⟨hentry, by simpa using hunshown⟩)
    exact ⟨earlier, _, hrounds, (Except.error.inj hverdict).symm, htime, entry, hentry, hunshown, hkey⟩

/-- A wait ends at one round only. -/
theorem unique {tick' : Nat} {run' : WaitRun σ} (h : EndsAt store context checks state timeout elapsed tick run)
    (h' : EndsAt store context checks state timeout elapsed tick' run') : tick = tick' := by
  apply Nat.le_antisymm
  · apply Nat.le_of_not_lt
    intro hlt
    exact h.first tick' h'.pos hlt h'.decides
  · apply Nat.le_of_not_lt
    intro hlt
    exact h'.first tick h.pos hlt h.decides

end EndsAt

/-! ### Reads and pauses -/

/-- The time that has passed when the reads of a round are done, from how long the reads of each round take and how
long the pause after each. -/
def spent (reads pauses : Nat → Nat) : Nat → Nat
  | 0 => 0
  | 1 => reads 1
  | tick + 2 => spent reads pauses (tick + 1) + pauses (tick + 1) + reads (tick + 2)

/-- From round to round the time of a pause passes, and more if reads take their time. -/
theorem spent_add_le {interval : Nat} (reads : Nat → Nat) {pauses : Nat → Nat}
    (slept : ∀ tick, interval ≤ pauses tick) (tick : Nat) (hpos : 0 < tick) :
    spent reads pauses tick + interval ≤ spent reads pauses (tick + 1) := by
  obtain ⟨before, rfl⟩ : ∃ n, tick = n + 1 := ⟨tick - 1, by omega⟩
  have hpause := slept (before + 1)
  show spent reads pauses (before + 1) + interval ≤ spent reads pauses (before + 2)
  rw [spent]
  omega

/-- The clock of a wait whose pauses are at least as long as its interval. -/
def Stopwatch.ofPauses {interval : Nat} (reads : Nat → Nat) {pauses : Nat → Nat}
    (slept : ∀ tick, interval ≤ pauses tick) : Stopwatch interval where
  elapsed := spent reads pauses
  advances := spent_add_le reads slept

/-! ### The budget -/

/-- **A wait ends within its budget.** Take any timeout and interval that a wait accepts, any store and checks, and any
times for the reads and the pauses, as long as no pause is shorter than the interval. The wait reads in at most one
round more than intervals fit into the timeout, rounded up: the loop has an answer as soon as it is allowed that many
rounds. It reports the count of rounds and the time. The count is the number of rounds as far as a word of 32 bits
holds it, and so in any case if less than 2³² - 1 intervals fit into the timeout. If the wait fails then by timeout,
after at least the timeout, and some check of the last round does not show what is asked for. -/
theorem wait_ends_within_budget {timeout interval : Duration} {spec : WaitSpec}
    (built : WaitSpec.of timeout interval = .ok spec) (store : ObjectStore σ) (context : Context)
    (checks : List Check) (state : σ) (reads : Nat → Nat) {pauses : Nat → Nat}
    (slept : ∀ tick, spec.interval.nanos ≤ pauses tick) :
    let run := wait store context spec (.ofPauses reads slept) checks state
    let ticks := run.rounds.length
    ticks ≤ timeout.nanos ⌈/⌉ interval.nanos + 1 ∧
      (∀ budget, poll store context timeout (spent reads pauses) checks budget 1 state =
        if ticks ≤ budget then some run else none) ∧
      ∃ count : UInt32, (count : Nat) = ticks % UInt32.size ∧
        (timeout.nanos ⌈/⌉ interval.nanos + 1 < UInt32.size → (count : Nat) = ticks) ∧
        (∀ report, run.result = .ok report → report = ⟨count, spent reads pauses ticks⟩) ∧
        ∀ failure, run.result = .error failure →
          ∃ earlier last elapsed, run.rounds = earlier ++ [last] ∧
            failure = .timeout last.unshown elapsed count last.failures.getLast? ∧
            elapsed = spent reads pauses ticks ∧ timeout.nanos ≤ elapsed ∧
            ∃ entry ∈ last, ¬ entry.1.predicate.Shown entry.2 ∧ entry.1.key ∈ last.unshown := by
  intro run ticks
  obtain ⟨rfl, rfl⟩ := WaitSpec.of_eq_ok_iff.1 built
  obtain ⟨tick, hle, hends⟩ := wait_endsAt store context spec (.ofPauses reads slept) checks state
  obtain rfl : ticks = tick := hends.length_rounds
  have hbudget : ticks ≤ spec.timeout.nanos ⌈/⌉ spec.interval.nanos + 1 := by rwa [← spec.gaps_eq]
  refine ⟨hbudget, ?_, (ticks : UInt32), UInt32.toNat_ofNat', ?_, fun report hresult => hends.of_report hresult, ?_⟩
  · intro budget
    split
    · rename_i hbudget
      exact poll_eq_some_iff.2 ⟨ticks, hbudget, hends⟩
    · rename_i hbudget
      apply Option.eq_none_iff_forall_ne_some.2
      intro run' hrun'
      obtain ⟨tick', hle', hends'⟩ := poll_eq_some_iff.1 hrun'
      exact hbudget (hends.unique hends' ▸ hle')
  · intro hfits
    exact UInt32.toNat_ofNat_of_lt' (Nat.lt_of_le_of_lt hbudget hfits)
  · intro failure hresult
    obtain ⟨earlier, last, hrounds, hfailure, htime, hentry⟩ := hends.of_timeout hresult
    exact ⟨earlier, last, _, hrounds, hfailure, rfl, htime, hentry⟩

/-- A second, in intervals of 300 milliseconds. -/
def secondByParts : WaitSpec :=
  ⟨⟨1000 * nanosPerMilli, by decide⟩, ⟨300 * nanosPerMilli, by decide⟩, by decide, by decide⟩

/-- Pauses of which the second takes twice as long as it should. -/
def pausesWithDelay (tick : Nat) : Nat :=
  if tick = 2 then 600 * nanosPerMilli else 300 * nanosPerMilli

theorem le_pausesWithDelay (tick : Nat) : secondByParts.interval.nanos ≤ pausesWithDelay tick := by
  unfold pausesWithDelay
  split <;> decide

/-- An object that is not there is waited for. Because of the delay the time is up after four rounds, not after five. -/
theorem wait_ends_within_budget_with_delay :
    let key : ObjectKey := ⟨⟨"", "v1", "ConfigMap"⟩, none, "a"⟩
    let missing : MemoryStore.World := ⟨.empty, .none, ""⟩
    let run := wait MemoryStore.objectStore ⟨0, []⟩ secondByParts (.ofPauses (fun _ => 0) le_pausesWithDelay)
      [⟨key, .present⟩] missing
    WaitSpec.of secondByParts.timeout secondByParts.interval = .ok secondByParts ∧
      secondByParts.timeout.nanos ⌈/⌉ secondByParts.interval.nanos + 1 = 5 ∧
      run.rounds.length = 4 ∧ run.result = .error (.timeout [key] (1200 * nanosPerMilli) 4 none) ∧
      (∃ count : UInt32, run.ticks? = some count ∧ (count : Nat) = run.rounds.length) ∧
      ∀ budget, poll MemoryStore.objectStore ⟨0, []⟩ secondByParts.timeout (spent (fun _ => 0) pausesWithDelay)
        [⟨key, .present⟩] budget 1 missing = if run.rounds.length ≤ budget then some run else none := by
  intro key missing run
  have built : WaitSpec.of secondByParts.timeout secondByParts.interval = .ok secondByParts :=
    WaitSpec.of_eq_ok_iff.2 ⟨rfl, rfl⟩
  have hgaps : secondByParts.timeout.nanos ⌈/⌉ secondByParts.interval.nanos + 1 = 5 := by decide +kernel
  have hresult : run.result = .error (.timeout [key] (1200 * nanosPerMilli) 4 none) := by rfl
  obtain ⟨-, hpoll, count, -, hfits, -, htimeout⟩ := wait_ends_within_budget built MemoryStore.objectStore ⟨0, []⟩
    [⟨key, .present⟩] missing (fun _ => 0) le_pausesWithDelay
  obtain ⟨_, _, _, -, hfailure, -⟩ := htimeout _ hresult
  have hcount : 4 = count := (Failure.timeout.inj hfailure).2.2.1
  have hreported : run.ticks? = some count := by
    rw [WaitRun.ticks?, hresult, ← hcount]
  exact ⟨built, hgaps, by rfl, hresult, ⟨count, hreported, hfits (by rw [hgaps]; decide)⟩, hpoll⟩

/-- **No smaller budget suffices.** If reads take no time and pauses take just the interval, a wait for what is never
shown uses all of it. -/
theorem length_rounds_of_never_shown {spec : WaitSpec}
    (never : ∀ tick, ¬ (roundAt store context checks state tick).Shows) :
    (wait store context spec (.exact _) checks state).rounds.length =
      spec.timeout.nanos ⌈/⌉ spec.interval.nanos + 1 := by
  obtain ⟨tick, hle, hends⟩ := wait_endsAt store context spec (.exact _) checks state
  rw [hends.length_rounds]
  apply Nat.le_antisymm
  · rwa [← spec.gaps_eq]
  · have htime : spec.timeout.nanos ≤ (tick - 1) * spec.interval.nanos := hends.decides.resolve_left (never tick)
    rw [Nat.mul_comm] at htime
    have hgaps : spec.timeout.nanos ⌈/⌉ spec.interval.nanos ≤ tick - 1 :=
      (ceilDiv_le_iff_le_mul spec.interval_pos).2 htime
    have hpos := hends.pos
    omega

end Converge
