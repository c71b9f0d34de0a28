import Converge.Failure

/-!
# Waiting for changes

After a write a store may go on showing the old state for a while. A wait reads all keys again and again until
one round of reads shows what was asked for, or the time is up. A round is judged by its own reads: what was
seen in an earlier round does not count.

## Main Definitions

* `WaitSpec` — timeout and interval, of which the first is the longer.
* `Predicate`, `Predicate.observe` — what a read has to show, and whether it does.
* `Check`, `readAll` — what is looked for, and one round of reads.
* `Round.pending`, `Round.lastReadError`, `Round.seen` — what a round of reads says.
* `poll` — rounds of reads up to a budget, with any clock.
* `Stopwatch` — a clock that moves on by at least the interval from round to round.
* `wait` — a wait with such a clock, which always ends.

## Design Notes

The clock is a function from the number of a round to the time that has passed when its reads are done. With
a `Stopwatch` the intervals of the wait are a budget that suffices, so `wait` needs none.

Rounds are numbered without bound, since the clock has to tell them apart. A wait that has ended reports the
number in a word of 32 bits, as it is counted where sums are not checked for overflow. Where they are checked a
wait comes to the same end as long as it has fewer than 2³² rounds, and is broken off at the first round that
has no count.
-/

namespace Converge

/-! ### Timeout and interval -/

/-- How long and how often is waited. -/
structure WaitSpec where
  timeout : Duration
  interval : Duration
  interval_pos : 0 < interval.nanos
  interval_lt_timeout : interval.nanos < timeout.nanos

namespace WaitSpec

/-- The timeout has to leave room for more than one round. -/
def of (timeout interval : Duration) : Except ArgumentError WaitSpec :=
  if hpos : 0 < interval.nanos then
    if hlt : interval.nanos < timeout.nanos then .ok ⟨timeout, interval, hpos, hlt⟩
    else .error (.shortTimeout timeout interval)
  else .error .emptyInterval

/-- How many intervals it takes to cover the timeout. -/
def gaps (spec : WaitSpec) : Nat :=
  (spec.timeout.nanos + spec.interval.nanos - 1) / spec.interval.nanos

theorem timeout_le_gaps (spec : WaitSpec) :
    spec.timeout.nanos ≤ spec.gaps * spec.interval.nanos := by
  have hdiv := Nat.div_add_mod (spec.timeout.nanos + spec.interval.nanos - 1) spec.interval.nanos
  have hmod := Nat.mod_lt (spec.timeout.nanos + spec.interval.nanos - 1) spec.interval_pos
  have hpos := spec.interval_pos
  rw [gaps, Nat.mul_comm]
  omega

end WaitSpec

/-! ### What reads have to show -/

/-- What a read has to show. -/
inductive Predicate where
  /-- There is an object. -/
  | present
  /-- The store knows no such object. -/
  | absent
  /-- There is an object at a version, or past it. -/
  | atLeast (version : Version)
  deriving Repr, DecidableEq

/-- What a read says about a predicate. -/
inductive Observation where
  | satisfied
  /-- The store answered, but not with what is asked for. -/
  | pending
  /-- The store did not answer. -/
  | unreadable (cause : StoreError)
  deriving Repr, DecidableEq

/-- An answer of the store to a read. -/
abbrev Read := Except StoreError Document

/-- What a failed read says: that there is no object, or nothing. -/
def Predicate.observeError (predicate : Predicate) (error : StoreError) : Observation :=
  if !error.isNotFound then .unreadable error
  else if predicate = .absent then .satisfied
  else .pending

/-- What a read says. -/
def Predicate.observe (predicate : Predicate) : Read → Observation
  | .error error => predicate.observeError error
  | .ok document =>
      match predicate with
      | .present => .satisfied
      | .absent => .pending
      | .atLeast version =>
          match Version.ofDocument? document with
          | some actual => if actual.isAtLeast version then .satisfied else .pending
          | none => .pending

/-- A key and what reads of it have to show. -/
structure Check where
  key : ObjectKey
  predicate : Predicate
  deriving Repr, DecidableEq

/-! ### Rounds of reads -/

section Rounds

variable {σ : Type}

/-- The reads of a round, each with its check. -/
abbrev Round := List (Check × Read)

/-- Reads the keys of all checks in order. -/
def readAll (store : ObjectStore σ) (context : Context) : List Check → σ → Round × σ
  | [], state => ([], state)
  | check :: checks, state =>
      let (read, state) := store.call context (.get check.key) state
      let (reads, state) := readAll store context checks state
      ((check, read) :: reads, state)

namespace Round

/-- What the read of a check says. -/
def observation (entry : Check × Read) : Observation := entry.1.predicate.observe entry.2

/-- The keys whose read does not show what is asked for. -/
def pending (round : Round) : List ObjectKey :=
  (round.filter fun entry => observation entry ≠ .satisfied).map (·.1.key)

/-- The last read the store did not answer. -/
def lastReadError (round : Round) : Option StoreError :=
  (round.filterMap fun entry =>
    match observation entry with
    | .unreadable cause => some cause
    | _ => none).getLast?

/-- The documents that were read, with the positions of their checks. -/
def seen (round : Round) : List (Nat × Document) :=
  round.zipIdx.filterMap fun ((_, read), index) => read.toOption.map fun document => (index, document)

end Round

/-! ### Waiting -/

/-- How a wait ended well: after how many rounds and how much time. -/
structure WaitReport where
  ticks : UInt32
  elapsed : Nat
  deriving Repr, DecidableEq

/-- A wait that has ended: how, the rounds of reads, and the state of the store. -/
structure WaitRun (σ : Type) where
  result : Except Failure WaitReport
  rounds : List Round
  state : σ

/-- The documents that were read in all rounds, with the positions of their checks. -/
def WaitRun.seen (run : WaitRun σ) : List (Nat × Document) := run.rounds.flatMap Round.seen

/-- Rounds of reads from a given number on, until one of them shows all that is asked for or the time is up
after it. What is reported of the number is its count. There is no answer if the budget does not suffice. -/
def poll (store : ObjectStore σ) (context : Context) (timeout : Duration) (elapsed : Nat → Nat)
    (checks : List Check) : (budget : Nat) → (tick : Nat) → σ → Option (WaitRun σ)
  | 0, _, _ => none
  | budget + 1, tick, state =>
      let (round, state) := readAll store context checks state
      -- A round that shows everything counts even if the time was up before its reads were done.
      if round.pending.isEmpty then some ⟨.ok ⟨(tick : UInt32), elapsed tick⟩, [round], state⟩
      else if timeout.nanos ≤ elapsed tick then
        some ⟨.error (.timeout round.pending (elapsed tick) (tick : UInt32) round.lastReadError), [round], state⟩
      else (poll store context timeout elapsed checks budget (tick + 1) state).map fun run =>
        { run with rounds := round :: run.rounds }

/-- Once the budget reaches a round at which the time is up, there is an answer. -/
theorem isSome_poll (store : ObjectStore σ) (context : Context) (timeout : Duration)
    (elapsed : Nat → Nat) (checks : List Check) (budget tick : Nat) (state : σ)
    (h : timeout.nanos ≤ elapsed (tick + budget)) :
    (poll store context timeout elapsed checks (budget + 1) tick state).isSome := by
  induction budget generalizing tick state with
  | zero =>
      unfold poll
      simp only
      split
      · rfl
      · rw [if_pos (by simpa using h)]; rfl
  | succ budget ih =>
      unfold poll
      simp only
      split
      · rfl
      · split
        · rfl
        · rw [Option.isSome_map]
          exact ih (tick + 1) _ (by rwa [Nat.add_right_comm, Nat.add_assoc])

/-- A clock that moves on by at least an interval from round to round. Rounds are numbered from one. -/
structure Stopwatch (interval : Nat) where
  elapsed : Nat → Nat
  advances : ∀ tick, 0 < tick → elapsed tick + interval ≤ elapsed (tick + 1)

namespace Stopwatch

/-- The clock on which reads take no time. -/
def exact (interval : Nat) : Stopwatch interval where
  elapsed tick := (tick - 1) * interval
  advances tick h := by
    obtain ⟨n, rfl⟩ : ∃ n, tick = n + 1 := ⟨tick - 1, by omega⟩
    simp [Nat.succ_mul]

/-- So many rounds after the first at least so many intervals have passed. -/
theorem mul_le_elapsed {interval : Nat} (watch : Stopwatch interval) (count : Nat) :
    count * interval ≤ watch.elapsed (1 + count) := by
  induction count with
  | zero => simp
  | succ count ih =>
      have := watch.advances (1 + count) (by omega)
      rw [Nat.succ_mul]
      rw [Nat.add_assoc] at this
      omega

end Stopwatch

/-- A wait by a stopwatch: one round at the start, and one for each interval. -/
def wait (store : ObjectStore σ) (context : Context) (spec : WaitSpec)
    (watch : Stopwatch spec.interval.nanos) (checks : List Check) (state : σ) : WaitRun σ :=
  (poll store context spec.timeout watch.elapsed checks (spec.gaps + 1) 1 state).get
    (isSome_poll store context spec.timeout watch.elapsed checks spec.gaps 1 state
      (Nat.le_trans spec.timeout_le_gaps (watch.mul_le_elapsed spec.gaps)))

end Rounds

end Converge
