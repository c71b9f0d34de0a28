import Converge.Proofs.Operation.Confirmation
import Converge.Proofs.Store.Lagging

/-!
# The only client of the store in memory

The store in memory shows a write at once. If nobody else writes to it, what a call has written is still there when
it reads, or a later write of the same call is there in its place. Either is what a wait asks for, so a wait ends
with its first round of reads.

## Main Definitions

* `Orchestrator.Batch` — the writes of a call that go through, one after the other, with what they leave behind.
* `MemoryStore.Settled` — a store shows what is asked for, whatever is written by later writes of the same kind.

## Main Statements

* `MemoryStore.call_eq` — a call through a context that is not cancelled is a request.
* `Orchestrator.batch_of_writeAll` — the writes of a call are a batch.
* `MemoryStore.Settled.set`, `Orchestrator.Batch.settled` — a write keeps what is settled, so after a batch all its
  writes are.
* `Orchestrator.confirm_of_settled` — a wait for what is settled reads one round.

## Design Notes

Versions are compared as numbers only as long as they fit a 64-bit word. In a store that keeps its count of writes
in such a word they always do; here it is a hypothesis on the count.
-/

namespace Converge

/-- A wait ends with its first round if that shows all that is asked for. -/
theorem EndsAt.eq_one_of_shows {σ : Type} {store : ObjectStore σ} {context : Context} {checks : List Check}
    {state : σ} {timeout : Duration} {elapsed : Nat → Nat} {tick : Nat} {run : WaitRun σ}
    (h : EndsAt store context checks state timeout elapsed tick run)
    (hshows : (roundAt store context checks state 1).Shows) : tick = 1 := by
  have hpos := h.pos
  by_contra hne
  exact h.first 1 Nat.one_pos (by omega) (.inl hshows)

namespace MemoryStore

/-! ### Calls as requests -/

section Calls

variable {store : MemoryStore} {request : Request} {key : ObjectKey} {left : Option Document} {world : World}
  {context : Context}

/-- A call through a context that is not cancelled is a request to the memory. -/
theorem call_eq (active : world.contexts.isCancelled context = false) (call : StoreCall) :
    objectStore.call context call world =
      ((world.memory.serve ⟨false, world.now, call⟩).1,
        { world with memory := world.memory.step ⟨false, world.now, call⟩ }) := by
  simp only [objectStore, active]
  rfl

/-- What a write answers is what it leaves in the store. -/
theorem commit_of_answer {answer : request.call.Answer} (writes : request.call.writes = true)
    (h : (store.serve request).1 = .ok answer) :
    ∃ key, Commit store request key (request.call.document? answer) := by
  obtain ⟨cancelled, now, call⟩ := request
  cases call with
  | get | list => cases writes
  | create | update | patch => exact commit_of_documents writes h (List.mem_singleton.2 rfl)
  | delete key =>
      have hcommits : store.commits ⟨cancelled, now, .delete key⟩ := by
        simp [commits, h, StoreCall.writes, Except.isOk, Except.toBool]
      obtain ⟨key', left, hcommit⟩ := exists_commit hcommits
      cases hcommit with
      | delete found => exact ⟨_, .delete found⟩

/-- A write that goes through has an answer. -/
theorem Commit.exists_answer (h : Commit store request key left) :
    ∃ answer, store.serve request = (.ok answer, store.set key left) ∧ request.call.document? answer = left := by
  have hstep : (store.serve request).2 = store.set key left := h.step_eq
  have hcommits := h.commits_and_step_eq.1
  rw [commits, Bool.and_eq_true] at hcommits
  obtain ⟨hwrites, hok⟩ := hcommits
  rcases hserve : store.serve request with ⟨_ | answer, next⟩
  · rw [hserve] at hok
    cases hok
  · rw [hserve] at hstep
    obtain ⟨key', hcommit⟩ := commit_of_answer hwrites (congrArg Prod.fst hserve)
    obtain rfl : key' = key := Option.some.inj (hcommit.key?_eq.symm.trans h.key?_eq)
    refine ⟨answer, Prod.ext rfl hstep, ?_⟩
    have hset : store.set key' (request.call.document? answer) = store.set key' left :=
      hcommit.step_eq.symm.trans h.step_eq
    rw [← get?_set_self store key' (request.call.document? answer), hset, get?_set_self]

theorem Sound.set (sound : Sound store) (h : Commit store request key left) : Sound (store.set key left) := by
  rw [← h.step_eq]
  exact sound.step request

/-- Only a deletion leaves nothing. -/
theorem Commit.left_eq_none_iff {kind : Mutation} {target : Target} {cancelled : Bool} {now : String}
    (h : Commit store ⟨cancelled, now, kind.call target⟩ key left) : left = none ↔ kind = .delete := by
  cases kind <;> cases h <;> simp

/-- The reads of a round are those of one state of the memory. -/
theorem readAll_eq (active : world.contexts.isCancelled context = false) (checks : List Check) :
    readAll objectStore context checks world =
      (checks.map fun check => (check, world.memory.find check.key), world) := by
  induction checks with
  | nil => rfl
  | cons check checks ih =>
      have hcall : objectStore.call context (.get check.key) world = (world.memory.find check.key, world) :=
        call_eq active _
      rw [readAll, hcall]
      simp only [ih, List.map_cons]

end Calls

/-! ### Writes that stay -/

/-- The store shows what is asked for, and a version that is asked for is none of the future. -/
def Settled (store : MemoryStore) (key : ObjectKey) : Predicate → Prop
  | .present => ∃ document, store.objects.get? key = some document
  | .absent => store.objects.get? key = none
  | .atLeast version =>
      ∃ document number asked, store.objects.get? key = some document ∧ Numbered document number ∧
        version = ⟨asked.repr⟩ ∧ asked ≤ number ∧ number ≤ store.revision

section Settled

variable {store : MemoryStore} {request : Request} {key other : ObjectKey} {left : Option Document}
  {predicate : Predicate}

theorem find_of_get?_eq_some {document : Document} (h : store.objects.get? key = some document) :
    store.find key = .ok document := find_eq_ok_iff.2 h

theorem find_of_get?_eq_none (h : store.objects.get? key = none) : store.find key = .error (.notFound key) := by
  rw [find, h]

/-- What is settled is shown by a read. -/
theorem Settled.shown (settled : Settled store key predicate) (fits : store.revision < Chars.wordBound) :
    predicate.Shown (store.find key) := by
  cases predicate with
  | present =>
      obtain ⟨document, hdocument⟩ := settled
      exact ⟨document, find_of_get?_eq_some hdocument⟩
  | absent => exact ⟨key, find_of_get?_eq_none settled⟩
  | atLeast version =>
      obtain ⟨document, number, asked, hdocument, hnumbered, rfl, hasked, hnumber⟩ := settled
      have hreached := Version.isAtLeast_of_le hasked (Nat.lt_of_le_of_lt hnumber fits)
      exact ⟨document, _, find_of_get?_eq_some hdocument, hnumbered, hreached⟩

/-- What a write leaves is settled. -/
theorem settled_of_commit {kind : Mutation} {target : Target} {cancelled : Bool} {now : String}
    (sound : Sound store) (h : Commit store ⟨cancelled, now, kind.call target⟩ key left) :
    Settled (store.set key left) key (Orchestrator.predicateAfter kind left) := by
  cases left with
  | none =>
      obtain rfl := h.left_eq_none_iff.1 rfl
      exact get?_set_self ..
  | some document =>
      have hnumbered := h.numbered sound
      have hpresent : Settled (store.set key (some document)) key .present := ⟨document, get?_set_self ..⟩
      have hatLeast : Settled (store.set key (some document)) key (.atLeast ⟨(store.revision + 1).repr⟩) :=
        ⟨document, _, _, get?_set_self .., hnumbered, rfl, Nat.le_refl _, Nat.le_of_eq (revision_set ..).symm⟩
      have hversion : Version.ofDocument? document = some ⟨(store.revision + 1).repr⟩ := hnumbered
      cases kind with
      | create => exact hpresent
      | patch | replace =>
          rw [Orchestrator.predicateAfter, Option.bind_some, hversion]
          exact hatLeast
      | delete => cases h.left_eq_none_iff.2 rfl

/-- **A write keeps what is settled**, if it leaves an object where one is asked for, and none where none is. -/
theorem Settled.set (settled : Settled store key predicate) (sound : Sound store)
    (h : Commit store request other left) (hleft : left = none ↔ predicate = .absent) :
    Settled (store.set other left) key predicate := by
  by_cases hkey : key = other
  · subst hkey
    cases predicate with
    | present =>
        obtain ⟨document, rfl⟩ := Option.ne_none_iff_exists'.1 (mt hleft.1 nofun)
        exact ⟨document, get?_set_self ..⟩
    | absent => exact (get?_set_self ..).trans (hleft.2 rfl)
    | atLeast version =>
        obtain ⟨document, rfl⟩ := Option.ne_none_iff_exists'.1 (mt hleft.1 nofun)
        obtain ⟨-, number, asked, -, -, hversion, hasked, hnumber⟩ := settled
        refine ⟨document, store.revision + 1, asked, get?_set_self .., h.numbered sound, hversion, ?_, ?_⟩
        · omega
        · exact Nat.le_of_eq (revision_set ..).symm
  · have hget := get?_set_of_ne store hkey left
    cases predicate with
    | present | absent => rwa [Settled, hget]
    | atLeast version =>
        obtain ⟨document, number, asked, hdocument, hnumbered, hversion, hasked, hnumber⟩ := settled
        refine ⟨document, number, asked, hget.trans hdocument, hnumbered, hversion, hasked, ?_⟩
        rw [revision_set]
        omega

end Settled

end MemoryStore

open MemoryStore

theorem Target.Keyed.key?_eq {target : Target} (keyed : target.Keyed) (kind : Mutation) :
    (kind.call target).key? = some target.key := by
  cases kind with
  | create | replace => rw [Mutation.call, StoreCall.key?, keyed, Except.toOption]
  | patch | delete => rfl

namespace Orchestrator

/-! ### Batches of writes -/

/-- The writes of a call go through one after the other, from the first store to the last, and each leaves under the
key of its target what is known of it then. -/
inductive Batch (kind : Mutation) (now : String) :
    MemoryStore → List Target → List Applied → MemoryStore → Prop
  | nil (store : MemoryStore) : Batch kind now store [] [] store
  | cons {store final : MemoryStore} {target : Target} {left : Option Document} {targets : List Target}
      {applied : List Applied} (commit : Commit store ⟨false, now, kind.call target⟩ target.key left)
      (rest : Batch kind now (store.set target.key left) targets applied final) :
      Batch kind now store (target :: targets) (⟨target.key, left, predicateAfter kind left⟩ :: applied) final

namespace Batch

variable {kind : Mutation} {now : String} {store final : MemoryStore} {targets : List Target}
  {applied : List Applied} {key : ObjectKey} {predicate : Predicate}

theorem sound (batch : Batch kind now store targets applied final) (sound : Sound store) : Sound final := by
  induction batch with
  | nil => exact sound
  | cons commit rest ih => exact ih (sound.set commit)

theorem map_key (batch : Batch kind now store targets applied final) :
    applied.map Applied.key = targets.map Target.key := by
  induction batch with
  | nil => rfl
  | cons commit rest ih => rw [List.map_cons, List.map_cons, ih]

/-- What a batch asks for is that there is no object exactly if it deletes. -/
theorem settled_of_settled (batch : Batch kind now store targets applied final) (sound : Sound store)
    (settled : Settled store key predicate) (hpredicate : predicate = .absent ↔ kind = .delete) :
    Settled final key predicate := by
  induction batch with
  | nil => exact settled
  | cons commit rest ih =>
      have hleft := commit.left_eq_none_iff.trans hpredicate.symm
      exact ih (sound.set commit) (settled.set sound commit hleft)

/-- **After a batch all its writes are settled.** -/
theorem settled (batch : Batch kind now store targets applied final) (sound : Sound store) :
    ∀ a ∈ applied, Settled final a.key a.predicate := by
  induction batch with
  | nil => exact List.forall_mem_nil _
  | cons commit rest ih =>
      have hnext := sound.set commit
      refine List.forall_mem_cons.2 ⟨?_, ih hnext⟩
      exact rest.settled_of_settled hnext (settled_of_commit sound commit) predicateAfter_eq_absent_iff

/-- Objects under other keys stay. -/
theorem get?_of_notMem (batch : Batch kind now store targets applied final)
    (h : key ∉ targets.map Target.key) : final.objects.get? key = store.objects.get? key := by
  induction batch with
  | nil => rfl
  | cons commit rest ih =>
      rw [List.map_cons, List.mem_cons, not_or] at h
      rw [ih h.2, get?_set_of_ne _ h.1]

/-- If no two targets have the same key, each is stored as its own write has left it. -/
theorem get?_of_nodup (batch : Batch kind now store targets applied final)
    (h : (targets.map Target.key).Nodup) : ∀ a ∈ applied, final.objects.get? a.key = a.stored := by
  induction batch with
  | nil => exact List.forall_mem_nil _
  | cons commit rest ih =>
      rw [List.map_cons, List.nodup_cons] at h
      refine List.forall_mem_cons.2 ⟨?_, ih h.2⟩
      rw [rest.get?_of_notMem h.1, get?_set_self]

end Batch

/-- One write, and then the others. -/
theorem writeAll_cons_eq_ok_iff {σ : Type} {o : Orchestrator σ} {context : Context} {kind : Mutation}
    {target : Target} {targets : List Target} {state reached : σ} {applied : List Applied} :
    o.writeAll context kind (target :: targets) state = (.ok applied, reached) ↔
      ∃ answer next rest, o.store.call context (kind.call target) state = (.ok answer, next) ∧
        o.writeAll context kind targets next = (.ok rest, reached) ∧
        applied = ⟨target.key, (kind.call target).document? answer,
          predicateAfter kind ((kind.call target).document? answer)⟩ :: rest := by
  simp only [writeAll_eq_visit, ObjectStore.visit]
  rcases o.store.call context (kind.call target) state with ⟨_ | answer, next⟩
  case error => simp
  case ok =>
    simp only [Prod.mk.injEq, Except.ok.injEq, map_eq_ok_iff]
    constructor
    · rintro ⟨⟨rest, hrest, rfl⟩, hreached⟩
      exact ⟨answer, next, rest, ⟨rfl, rfl⟩, Prod.ext hrest hreached, rfl⟩
    · rintro ⟨_, _, rest, ⟨rfl, rfl⟩, hrest, rfl⟩
      exact ⟨⟨rest, congrArg Prod.fst hrest, rfl⟩, congrArg Prod.snd hrest⟩

/-- Writes that go through on a store that keeps its calls go through without keeping them. -/
theorem writeAll_of_recorded {σ : Type} {o : Orchestrator σ} {context : Context} {kind : Mutation}
    {targets : List Target} {state reached : σ × List StoreCall} {applied : List Applied}
    (h : o.recorded.writeAll context kind targets state = (.ok applied, reached)) :
    o.writeAll context kind targets state.1 = (.ok applied, reached.1) := by
  induction targets generalizing state applied with
  | nil =>
      cases h
      rfl
  | cons target targets ih =>
      obtain ⟨answer, next, rest, hcall, hrest, rfl⟩ := writeAll_cons_eq_ok_iff.1 h
      have hanswer : (o.store.call context (kind.call target) state.1).1 = .ok answer := congrArg Prod.fst hcall
      have hnext : (o.store.call context (kind.call target) state.1).2 = next.1 := congrArg (·.2.1) hcall
      exact writeAll_cons_eq_ok_iff.2 ⟨answer, next.1, rest, Prod.ext hanswer hnext, ih hrest, rfl⟩

section Alone

variable {o : Orchestrator World} {context : Context} {kind : Mutation} {targets : List Target} {world : World}

/-- **The writes of a call that gets through are a batch**, and they change nothing besides the memory. -/
theorem batch_of_writeAll (memory : o.store = objectStore) (active : world.contexts.isCancelled context = false)
    (keyed : ∀ target ∈ targets, target.Keyed) {applied : List Applied} {reached : World}
    (h : o.writeAll context kind targets world = (.ok applied, reached)) :
    Batch kind world.now world.memory targets applied reached.memory ∧
      reached = { world with memory := reached.memory } := by
  induction targets generalizing world applied with
  | nil =>
      cases h
      exact ⟨.nil _, rfl⟩
  | cons target targets ih =>
      obtain ⟨hfirst, hothers⟩ := List.forall_mem_cons.1 keyed
      obtain ⟨answer, next, rest, hcall, hrest, rfl⟩ := writeAll_cons_eq_ok_iff.1 h
      rw [memory, call_eq active] at hcall
      have hserve := congrArg Prod.fst hcall
      obtain ⟨key, hcommit⟩ := commit_of_answer (by cases kind <;> rfl) hserve
      obtain rfl : target.key = key := Option.some.inj ((hfirst.key?_eq kind).symm.trans hcommit.key?_eq)
      have hnext :
          next = { world with memory := world.memory.set target.key ((kind.call target).document? answer) } := by
        rw [← hcommit.step_eq]
        exact (congrArg Prod.snd hcall).symm
      have hactive : next.contexts.isCancelled context = false := by
        rw [hnext]
        exact active
      obtain ⟨hbatch, hreached⟩ := ih hactive hothers hrest
      rw [hnext] at hbatch hreached
      exact ⟨.cons hcommit hbatch, hreached⟩

/-- **A wait for what is settled reads one round**, which shows the memory as it is. -/
theorem confirm_of_settled (memory : o.store = objectStore) (active : world.contexts.isCancelled context = false)
    (spec : WaitSpec) {applied : List Applied}
    (settled : ∀ a ∈ applied, Settled world.memory a.key a.predicate)
    (fits : world.memory.revision < Chars.wordBound) (log : List StoreCall) :
    o.recorded.confirm context spec applied (world, log) =
      ⟨.ok ⟨1, (o.clock spec.interval.nanos).elapsed 1⟩,
        [applied.map fun a => (⟨a.key, a.predicate⟩, world.memory.find a.key)],
        world, log ++ applied.map fun a => .get a.key⟩ := by
  obtain ⟨tick, hends⟩ := confirm_endsAt o context spec applied world
  rw [memory] at hends
  have hreads := readAll_eq active (applied.map fun a => ⟨a.key, a.predicate⟩)
  rw [List.map_map] at hreads
  have hround : roundAt objectStore context (applied.map fun a => ⟨a.key, a.predicate⟩) world 1 =
      applied.map fun a => (⟨a.key, a.predicate⟩, world.memory.find a.key) := congrArg Prod.fst hreads
  have hshows : (roundAt objectStore context (applied.map fun a => ⟨a.key, a.predicate⟩) world 1).Shows := by
    rw [hround]
    rintro entry hentry
    obtain ⟨a, ha, rfl⟩ := List.mem_map.1 hentry
    exact (settled a ha).shown fits
  obtain rfl : tick = 1 := hends.eq_one_of_shows hshows
  have hresult := hends.result
  rw [Round.verdict, if_pos hshows] at hresult
  have hrounds := hends.rounds
  rw [List.range'_one, List.map_singleton, hround] at hrounds
  have hstate : (o.confirm context spec applied world).state = world := hends.state.trans (congrArg Prod.snd hreads)
  have hrecorded := wait_recorded o.store context spec (o.clock spec.interval.nanos)
    (applied.map fun a => ⟨a.key, a.predicate⟩) world log
  refine hrecorded.trans ?_
  simp only [confirm] at hresult hrounds hstate
  rw [hresult, hrounds, hstate, List.flatMap_singleton, List.map_map]
  rfl

end Alone

end Orchestrator

end Converge
