import Converge.Proofs.Store.Transcript
import Converge.Proofs.Wait.Decision
import Mathlib.Data.List.Basic

/-!
# What a wait has seen

A wait passes every document that it reads on under the position of its check. What counts in the end is, for
each position, the last of them. And a store that keeps its exchanges keeps, of a wait, the reads of its rounds
one round after the other, so the reads of the last round are the last exchanges of all.

## Main Definitions

* `Round.exchanges` — the reads of a round as exchanges with the store.
* `lastSeen` — the last document that rounds have read for the check at a position.
* `lastRead?` — the last read of a key among exchanges.

## Main Statements

* `EndsAt.transcript` — the exchanges of a wait are the reads of its rounds.
* `Round.filter_seen`, `latest_seen` — what a wait passes on for a position is what its rounds have read there.
* `EndsAt.exists_last_round` — the round that ends a wait is the last one that was read.
-/

namespace Converge

/-! ### Rounds as exchanges -/

/-- The reads of a round as exchanges with the store. -/
def Round.exchanges (round : Round) : List Exchange :=
  round.map fun entry => ⟨.get entry.1.key, entry.2⟩

/-- What an exchange has read of a key. -/
def Exchange.readOf? (key : ObjectKey) : Exchange → Option Read
  | ⟨.get asked, read⟩ => if asked = key then some read else none
  | _ => none

/-- The last read of a key among exchanges. -/
def lastRead? (key : ObjectKey) (exchanges : List Exchange) : Option Read :=
  (exchanges.filterMap (Exchange.readOf? key)).getLast?

/-- Where the last exchanges are a round in which a key is read, the last read of the key is one of it. -/
theorem exists_lastRead?_of_round {earlier : List Exchange} {round : Round} {key : ObjectKey}
    (hkey : key ∈ round.map (·.1.key)) :
    ∃ entry ∈ round, entry.1.key = key ∧ lastRead? key (earlier ++ round.exchanges) = some entry.2 := by
  have hreads : round.exchanges.filterMap (Exchange.readOf? key) =
      (round.filter fun entry => entry.1.key = key).map Prod.snd := by
    rw [Round.exchanges, List.filterMap_map, ← List.filterMap_eq_map, List.filterMap_filter]
    congr 1
    funext entry
    simp [Exchange.readOf?]
  obtain ⟨entry, hentry, rfl⟩ := List.mem_map.1 hkey
  have hne : (round.filter fun other => other.1.key = entry.1.key) ≠ [] :=
    List.ne_nil_of_mem (List.mem_filter.2 ⟨hentry, by simp⟩)
  obtain ⟨hmem, hlast⟩ := List.mem_filter.1 (List.getLast_mem hne)
  refine ⟨_, hmem, by simpa using hlast, ?_⟩
  rw [lastRead?, List.filterMap_append, hreads, List.getLast?_append, List.getLast?_map,
    List.getLast?_eq_some_getLast hne]
  rfl

section Waits

variable {σ : Type} {store : ObjectStore σ} {context : Context}

/-- A round adds its reads to the exchanges. -/
theorem readAll_transcript (checks : List Check) (state : σ × List Exchange) :
    (readAll store.transcribed context checks state).2.2 =
      state.2 ++ (readAll store.transcribed context checks state).1.exchanges := by
  induction checks generalizing state with
  | nil => exact (List.append_nil _).symm
  | cons check checks ih =>
      rw [readAll]
      simp only [ih, ObjectStore.transcribed_call, Round.exchanges, List.map_cons, List.append_assoc,
        List.singleton_append]

variable {checks : List Check} {state : σ × List Exchange} {timeout : Duration} {elapsed : Nat → Nat}
  {tick : Nat} {run : WaitRun (σ × List Exchange)}

theorem stateAfter_transcript (rounds : Nat) :
    (stateAfter store.transcribed context checks state rounds).2 =
      state.2 ++ ((List.range' 1 rounds).map
        (roundAt store.transcribed context checks state)).flatMap Round.exchanges := by
  induction rounds with
  | zero => exact (List.append_nil _).symm
  | succ rounds ih =>
      have hround : roundAt store.transcribed context checks state (1 + rounds) =
          (readAll store.transcribed context checks
            (stateAfter store.transcribed context checks state rounds)).1 := by
        rw [roundAt, Nat.add_sub_cancel_left]
      rw [stateAfter, readAll_transcript, ih, List.range'_concat, Nat.one_mul, List.map_append,
        List.flatMap_append, List.map_singleton, List.flatMap_singleton, hround, List.append_assoc]

/-- **The exchanges of a wait are the reads of its rounds.** -/
theorem EndsAt.transcript (h : EndsAt store.transcribed context checks state timeout elapsed tick run) :
    run.state.2 = state.2 ++ run.rounds.flatMap Round.exchanges := by
  rw [h.state, h.rounds, stateAfter_transcript]

end Waits

section Ends

variable {σ : Type} {store : ObjectStore σ} {context : Context} {checks : List Check} {state : σ}
  {timeout : Duration} {elapsed : Nat → Nat} {tick : Nat} {run : WaitRun σ}

/-- Every round of a wait reads for every check, in order. -/
theorem EndsAt.map_fst_of_mem (h : EndsAt store context checks state timeout elapsed tick run) {round : Round}
    (hround : round ∈ run.rounds) : round.map Prod.fst = checks := by
  rw [h.rounds] at hround
  obtain ⟨tick', -, rfl⟩ := List.mem_map.1 hround
  exact map_fst_readAll ..

/-- The round that ends a wait is the last one that was read. -/
theorem EndsAt.exists_last_round (h : EndsAt store context checks state timeout elapsed tick run) :
    ∃ earlier, run.rounds = earlier ++ [roundAt store context checks state tick] := by
  obtain ⟨before, rfl⟩ : ∃ n, tick = n + 1 := ⟨tick - 1, by have := h.pos; omega⟩
  refine ⟨(List.range' 1 before).map (roundAt store context checks state), ?_⟩
  rw [h.rounds, List.range'_concat, List.map_append, List.map_singleton, Nat.one_mul, Nat.add_comm 1 before]

/-- A wait that ends well has seen in its last round all that was asked for. -/
theorem EndsAt.shows_of_ok (h : EndsAt store context checks state timeout elapsed tick run)
    {report : WaitReport} (hok : run.result = .ok report) : (roundAt store context checks state tick).Shows := by
  have hverdict := h.result.symm.trans hok
  unfold Round.verdict at hverdict
  split at hverdict
  · assumption
  · cases hverdict

/-- A wait leaves the store as its reads do. -/
theorem EndsAt.exists_calls (h : EndsAt store context checks state timeout elapsed tick run) :
    ∃ calls, run.state = store.after context calls state :=
  ⟨_, h.state.trans (stateAfter_eq_after ..)⟩

end Ends

/-! ### The last document at a position -/

/-- The last document that rounds have read for the check at a position. -/
def lastSeen (rounds : List Round) (index : Nat) : Option Document :=
  (rounds.filterMap fun round => round[index]?.bind fun entry => entry.2.toOption).getLast?

/-- What the last round has read counts before what earlier rounds have. -/
theorem lastSeen_concat (earlier : List Round) (last : Round) (index : Nat) :
    lastSeen (earlier ++ [last]) index =
      (last[index]?.bind fun entry => entry.2.toOption).or (lastSeen earlier index) := by
  rw [lastSeen, List.filterMap_append, List.filterMap_cons, List.filterMap_nil]
  cases last[index]?.bind fun entry => entry.2.toOption with
  | none => rw [List.append_nil, Option.none_or, lastSeen]
  | some document => rw [List.getLast?_concat, Option.some_or]

/-- The last document under a position. -/
def latest (index : Nat) (reads : List (Nat × Document)) : Option Document :=
  ((reads.filter (·.1 = index)).map Prod.snd).getLast?

theorem latest_concat (index : Nat) (reads : List (Nat × Document)) (read : Nat × Document) :
    latest index (reads ++ [read]) = if read.1 = index then some read.2 else latest index reads := by
  by_cases h : read.1 = index <;> simp [latest, h]

namespace Round

/-- The documents that a round has read, with positions counted from a start. -/
def seenFrom (start : Nat) (round : Round) : List (Nat × Document) :=
  (round.zipIdx start).filterMap fun entry => entry.1.2.toOption.map fun document => (entry.2, document)

theorem seen_eq_seenFrom (round : Round) : round.seen = round.seenFrom 0 := rfl

theorem seenFrom_cons (start : Nat) (entry : Check × Read) (round : Round) :
    seenFrom start (entry :: round) =
      (entry.2.toOption.map fun document => (start, document)).toList ++ round.seenFrom (start + 1) := by
  rw [seenFrom, List.zipIdx_cons, List.filterMap_cons]
  cases entry.2.toOption <;> rfl

theorem le_of_mem_seenFrom {start : Nat} {round : Round} {read : Nat × Document}
    (h : read ∈ round.seenFrom start) : start ≤ read.1 := by
  obtain ⟨⟨⟨check, answer⟩, position⟩, hmem, hsome⟩ := List.mem_filterMap.1 h
  obtain ⟨document, -, rfl⟩ := Option.map_eq_some_iff.1 hsome
  exact List.le_snd_of_mem_zipIdx hmem

theorem filter_seenFrom (round : Round) (start index : Nat) :
    ((round.seenFrom start).filter (·.1 = start + index)).map Prod.snd =
      (round[index]?.bind fun entry => entry.2.toOption).toList := by
  -- Positions are counted from any start, so that the induction can go on behind the first entry.
  induction round generalizing start index with
  | nil => rfl
  | cons entry round ih =>
      rw [seenFrom_cons, List.filter_append, List.map_append]
      cases index with
      | zero =>
          have hrest : (seenFrom (start + 1) round).filter (·.1 = start + 0) = [] := by
            refine List.filter_eq_nil_iff.2 fun read hread => ?_
            have hle := le_of_mem_seenFrom hread
            rw [decide_eq_true_eq]
            omega
          rw [hrest, List.getElem?_cons_zero, Option.bind_some]
          cases entry.2.toOption <;> simp
      | succ index =>
          have hfirst : (entry.2.toOption.map fun document => (start, document)).toList.filter
              (·.1 = start + (index + 1)) = [] := by
            cases entry.2.toOption <;> simp
          have hshift : start + (index + 1) = start + 1 + index := by omega
          rw [hfirst, hshift, ih (start + 1) index]
          rfl

/-- A round passes on at most one document for a position: the one it has read there. -/
theorem filter_seen (round : Round) (index : Nat) :
    (round.seen.filter (·.1 = index)).map Prod.snd =
      (round[index]?.bind fun entry => entry.2.toOption).toList := by
  rw [seen_eq_seenFrom, ← filter_seenFrom round 0 index, Nat.zero_add]

end Round

theorem latest_seen (rounds : List Round) (index : Nat) :
    latest index (rounds.flatMap Round.seen) = lastSeen rounds index := by
  rw [latest, lastSeen, List.filter_flatMap, List.map_flatMap, List.filterMap_eq_flatMap_toList]
  simp only [Round.filter_seen]

end Converge
