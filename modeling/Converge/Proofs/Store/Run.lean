import Converge.Proofs.Except
import Converge.Proofs.Store.Stamp

/-!
# Runs of the store in memory

Every call takes the store for itself, so what any number of clients do to it is one list of requests: those
of all clients, in the order in which the store takes them.

## Main Definitions

* `Request` — a call with what it finds outside the store: its context and the clock.
* `step`, `run` — the store after a request, and after requests one after the other.
* `commits` — whether a request is a write that goes through.
* `Commit` — the writes that go through: under which key, and what they leave there.
* `count` — how many requests of a run have a property, each seen at the store it reaches.

## Main Statements

* `commit_or_idle` — a request is a `Commit`, or the store stays as it was. All later statements about
  runs come from this one.
* `all_or_nothing` — what fails or only reads changes nothing, and a write changes one key.

## Design Notes

The count of writes is not bounded. One that is kept in a 64-bit word agrees with it as long as fewer than
2⁶⁴ writes went through, and so does the generation of an object, which counts some of them.
-/

namespace Converge.MemoryStore

/-- A call as it reaches the store: whether its context is cancelled, the time of the clock, and what is
called. -/
structure Request where
  cancelled : Bool
  now : String
  call : StoreCall

/-- The answer to a request, and the store it leaves behind. -/
def serve (store : MemoryStore) (request : Request) :
    Except StoreError request.call.Answer × MemoryStore :=
  store.answer request.cancelled request.now request.call

/-- The store after a request. -/
def step (store : MemoryStore) (request : Request) : MemoryStore := (store.serve request).2

/-- The store after requests, one after the other. -/
def run (store : MemoryStore) (requests : List Request) : MemoryStore := requests.foldl step store

/-- Whether a request is a write that goes through. -/
def commits (store : MemoryStore) (request : Request) : Bool :=
  request.call.writes && (store.serve request).1.isOk

/-- How many requests of a run have a property at the store they reach. -/
def count (property : MemoryStore → Request → Bool) : MemoryStore → List Request → Nat
  | _, [] => 0
  | store, request :: requests =>
      (if property store request then 1 else 0) + count property (store.step request) requests

@[simp] theorem run_nil (store : MemoryStore) : store.run [] = store := rfl

@[simp] theorem run_cons (store : MemoryStore) (request : Request) (requests : List Request) :
    store.run (request :: requests) = (store.step request).run requests := rfl

theorem run_append (store : MemoryStore) (first second : List Request) :
    store.run (first ++ second) = (store.run first).run second := List.foldl_append

theorem count_append (property : MemoryStore → Request → Bool) (store : MemoryStore)
    (first second : List Request) :
    store.count property (first ++ second) =
      store.count property first + (store.run first).count property second := by
  induction first generalizing store with
  | nil => exact (Nat.zero_add _).symm
  | cons request first ih =>
      rw [List.cons_append, count, count, ih, run_cons, Nat.add_assoc]

/-- No request of a run has a property. -/
theorem count_cons_eq_zero_iff {property : MemoryStore → Request → Bool} {store : MemoryStore}
    {request : Request} {requests : List Request} :
    store.count property (request :: requests) = 0 ↔
      property store request = false ∧ (store.step request).count property requests = 0 := by
  rw [count]
  cases property store request <;> simp

/-! ### Operations that succeed -/

section Operations

variable {store next : MemoryStore} {now : String} {key : ObjectKey} {document stored : Document}

theorem keyOf_eq_ok_iff :
    ObjectStore.keyOf document = .ok key ↔ ObjectKey.ofDocument document = .ok key := by
  unfold ObjectStore.keyOf
  exact mapError_eq_ok_iff

theorem find_eq_ok_iff : store.find key = .ok document ↔ store.objects.get? key = some document := by
  unfold find
  cases store.objects.get? key <;> simp

theorem create_eq_ok_iff :
    store.create now document = .ok (stored, next) ↔
      ∃ key, ObjectKey.ofDocument document = .ok key ∧ store.objects.get? key = none ∧
        stored = stampNew now (store.revision + 1) document ∧ next = store.write key stored := by
  simp only [create, bind_eq_ok_iff, keyOf_eq_ok_iff, throw_or_eq_ok_iff, pure_eq_ok_iff, Prod.mk.injEq]
  simp only [Table.contains, Option.not_isSome_iff_eq_none]
  constructor
  · rintro ⟨key, named, free, rfl, rfl⟩
    exact ⟨key, named, free, rfl, rfl⟩
  · rintro ⟨key, named, free, rfl, rfl⟩
    exact ⟨key, named, free, rfl, rfl⟩

theorem update_eq_ok_iff :
    store.update document = .ok (stored, next) ↔
      ∃ key current, ObjectKey.ofDocument document = .ok key ∧
        store.objects.get? key = some current ∧ checkVersion key current document = .ok () ∧
        stored = stampNext current (store.revision + 1) document ∧ next = store.write key stored := by
  simp only [update, bind_eq_ok_iff, keyOf_eq_ok_iff, find_eq_ok_iff, pure_eq_ok_iff, Prod.mk.injEq]
  constructor
  · rintro ⟨key, named, current, found, _, fresh, rfl, rfl⟩
    exact ⟨key, current, named, found, fresh, rfl, rfl⟩
  · rintro ⟨key, current, named, found, fresh, rfl, rfl⟩
    exact ⟨key, named, current, found, (), fresh, rfl, rfl⟩

theorem patch_eq_ok_iff {patch : Document} :
    store.patch key patch = .ok (stored, next) ↔
      ∃ current, store.objects.get? key = some current ∧ checkVersion key current patch = .ok () ∧
        ObjectKey.ofDocument (current.mergePatch patch) = .ok key ∧
        stored = stampNext current (store.revision + 1) (current.mergePatch patch) ∧
        next = store.write key stored := by
  simp only [MemoryStore.patch, bind_eq_ok_iff, keyOf_eq_ok_iff, find_eq_ok_iff, throw_or_eq_ok_iff,
    pure_eq_ok_iff, Prod.mk.injEq, ne_eq, Decidable.not_not]
  constructor
  · rintro ⟨current, found, _, fresh, _, named, rfl, rfl, rfl⟩
    exact ⟨current, found, fresh, named, rfl, rfl⟩
  · rintro ⟨current, found, fresh, named, rfl, rfl⟩
    exact ⟨current, found, (), fresh, key, named, rfl, rfl, rfl⟩

theorem delete_eq_ok_iff :
    store.delete key = .ok next ↔
      ∃ current, store.objects.get? key = some current ∧
        next = ⟨store.objects.erase key, store.revision + 1⟩ := by
  unfold delete Table.contains
  cases store.objects.get? key <;> simp [eq_comm]

end Operations

/-! ### Writes that go through -/

/-- The store after a write that leaves a document under a key, or none. -/
def set (store : MemoryStore) (key : ObjectKey) : Option Document → MemoryStore
  | some document => store.write key document
  | none => ⟨store.objects.erase key, store.revision + 1⟩

@[simp] theorem revision_set (store : MemoryStore) (key : ObjectKey) (left : Option Document) :
    (store.set key left).revision = store.revision + 1 := by
  cases left <;> rfl

theorem others_set (store : MemoryStore) (key : ObjectKey) (left : Option Document) :
    (store.set key left).objects.others key = store.objects.others key := by
  cases left with
  | none => exact Table.others_erase store.objects key
  | some document => exact Table.others_insert store.objects key document

theorem get?_set_self (store : MemoryStore) (key : ObjectKey) (left : Option Document) :
    (store.set key left).objects.get? key = left := by
  cases left with
  | none => exact Table.get?_erase_self store.objects key
  | some document => exact Table.get?_insert_self store.objects key document

/-- Objects under other keys stay. -/
theorem get?_set_of_ne (store : MemoryStore) {key other : ObjectKey} (h : other ≠ key)
    (left : Option Document) : (store.set key left).objects.get? other = store.objects.get? other :=
  Table.get?_congr_of_others h (others_set store key left)

/-- The document that an update or a patch makes of a stored one. -/
def rewritten? (current : Document) : StoreCall → Option Document
  | .update document => some document
  | .patch _ patch => some (current.mergePatch patch)
  | _ => none

/-- The writes that go through, each with its key and with what it leaves under it. -/
inductive Commit (store : MemoryStore) : Request → ObjectKey → Option Document → Prop
  | create {now : String} {document : Document} {key : ObjectKey}
      (named : ObjectKey.ofDocument document = .ok key) (free : store.objects.get? key = none) :
      Commit store ⟨false, now, .create document⟩ key
        (some (stampNew now (store.revision + 1) document))
  | update {now : String} {document current : Document} {key : ObjectKey}
      (named : ObjectKey.ofDocument document = .ok key)
      (found : store.objects.get? key = some current)
      (fresh : checkVersion key current document = .ok ()) :
      Commit store ⟨false, now, .update document⟩ key
        (some (stampNext current (store.revision + 1) document))
  | patch {now : String} {patch current : Document} {key : ObjectKey}
      (named : ObjectKey.ofDocument (current.mergePatch patch) = .ok key)
      (found : store.objects.get? key = some current)
      (fresh : checkVersion key current patch = .ok ()) :
      Commit store ⟨false, now, .patch key patch⟩ key
        (some (stampNext current (store.revision + 1) (current.mergePatch patch)))
  | delete {now : String} {current : Document} {key : ObjectKey}
      (found : store.objects.get? key = some current) :
      Commit store ⟨false, now, .delete key⟩ key none

theorem of_get?_set {store : MemoryStore} {key other : ObjectKey} {left : Option Document}
    {document : Document} (h : (store.set key left).objects.get? other = some document) :
    other = key ∧ left = some document ∨
      other ≠ key ∧ store.objects.get? other = some document := by
  by_cases hother : other = key
  · subst hother
    exact .inl ⟨rfl, (get?_set_self store other left).symm.trans h⟩
  · exact .inr ⟨hother, (get?_set_of_ne store hother left).symm.trans h⟩

namespace Commit

variable {store : MemoryStore} {request : Request} {key : ObjectKey} {left : Option Document}

/-- The key of a write that goes through is that of its call. -/
theorem key?_eq (h : Commit store request key left) : request.call.key? = some key := by
  cases h with
  | create named | update named => simp [StoreCall.key?, named, Except.toOption]
  | patch | delete => rfl

/-- A document is left either by the creation of an object or by a change of the one that was there. -/
theorem created_or_rewritten {document : Document} (h : Commit store request key (some document)) :
    (store.objects.get? key = none ∧ ∃ source, request.call = .create source ∧
        ObjectKey.ofDocument source = .ok key ∧
        document = stampNew request.now (store.revision + 1) source) ∨
      ∃ current source, store.objects.get? key = some current ∧
        rewritten? current request.call = some source ∧ ObjectKey.ofDocument source = .ok key ∧
        document = stampNext current (store.revision + 1) source := by
  cases h with
  | create named free => exact .inl ⟨free, _, rfl, named, rfl⟩
  | update named found fresh | patch named found fresh => exact .inr ⟨_, _, found, rfl, named, rfl⟩

/-- What a write that goes through answers counts as a success, and the store is left as it says. -/
theorem commits_and_step_eq (h : Commit store request key left) :
    store.commits request ∧ store.step request = store.set key left := by
  cases h with
  | @create now document key named free =>
      have hok : store.create now document = .ok (_, _) :=
        create_eq_ok_iff.2 ⟨key, named, free, rfl, rfl⟩
      simp [commits, step, serve, answer, hok, settle, StoreCall.writes, set, Except.isOk, Except.toBool]
  | @update now document current key named found fresh =>
      have hok : store.update document = .ok (_, _) :=
        update_eq_ok_iff.2 ⟨key, current, named, found, fresh, rfl, rfl⟩
      simp [commits, step, serve, answer, hok, settle, StoreCall.writes, set, Except.isOk, Except.toBool]
  | @patch now patch current key named found fresh =>
      have hok : store.patch key patch = .ok (_, _) :=
        patch_eq_ok_iff.2 ⟨current, found, fresh, named, rfl, rfl⟩
      simp [commits, step, serve, answer, hok, settle, StoreCall.writes, set, Except.isOk, Except.toBool]
  | @delete now current key found =>
      have hok : store.delete key = .ok _ := delete_eq_ok_iff.2 ⟨current, found, rfl⟩
      simp [commits, step, serve, answer, hok, settle, StoreCall.writes, set, Except.isOk, Except.toBool,
        Except.map]

theorem step_eq (h : Commit store request key left) : store.step request = store.set key left :=
  h.commits_and_step_eq.2

end Commit

/-- An operation that may write fails and changes nothing, or it succeeds. -/
theorem settle_cases {α : Type} (store : MemoryStore) (outcome : Except StoreError (α × MemoryStore)) :
    (∃ e, store.settle outcome = (.error e, store)) ∨ ∃ a next, outcome = .ok (a, next) := by
  rcases outcome with e | ⟨a, next⟩
  · exact .inl ⟨e, rfl⟩
  · exact .inr ⟨a, next, rfl⟩

theorem of_settle_eq_ok {α : Type} {store : MemoryStore} {outcome : Except StoreError (α × MemoryStore)}
    {a : α} (h : (store.settle outcome).1 = .ok a) :
    ∃ next, outcome = .ok (a, next) ∧ (store.settle outcome).2 = next := by
  rcases store.settle_cases outcome with ⟨e, he⟩ | ⟨a', next, rfl⟩
  · rw [he] at h
    cases h
  · cases h
    exact ⟨next, rfl, rfl⟩

/-- A request that fails with the store as it was is no write that goes through. -/
theorem idle_of_serve_eq {store : MemoryStore} {request : Request} {e : StoreError}
    (h : store.serve request = (.error e, store)) :
    store.commits request = false ∧ store.step request = store := by
  simp [commits, step, h, Except.isOk, Except.toBool]

/-- **Every request is a write that goes through, or it leaves the store as it was.** -/
theorem commit_or_idle (store : MemoryStore) (request : Request) :
    (∃ key left, Commit store request key left) ∨
      store.commits request = false ∧ store.step request = store := by
  obtain ⟨cancelled, now, call⟩ := request
  cases cancelled with
  | true => exact .inr (idle_of_serve_eq rfl)
  | false =>
      cases call with
      | get key => exact .inr ⟨rfl, rfl⟩
      | list selector => exact .inr ⟨rfl, rfl⟩
      | create document =>
          rcases store.settle_cases (store.create now document) with ⟨e, h⟩ | ⟨stored, next, hok⟩
          · exact .inr (idle_of_serve_eq h)
          · obtain ⟨key, named, free, -, -⟩ := create_eq_ok_iff.1 hok
            exact .inl ⟨key, _, .create named free⟩
      | update document =>
          rcases store.settle_cases (store.update document) with ⟨e, h⟩ | ⟨stored, next, hok⟩
          · exact .inr (idle_of_serve_eq h)
          · obtain ⟨key, current, named, found, fresh, -, -⟩ := update_eq_ok_iff.1 hok
            exact .inl ⟨key, _, .update named found fresh⟩
      | patch key patch =>
          rcases store.settle_cases (store.patch key patch) with ⟨e, h⟩ | ⟨stored, next, hok⟩
          · exact .inr (idle_of_serve_eq h)
          · obtain ⟨current, found, fresh, named, -, -⟩ := patch_eq_ok_iff.1 hok
            exact .inl ⟨key, _, .patch named found fresh⟩
      | delete key =>
          rcases store.settle_cases ((store.delete key).map fun next => ((), next)) with
            ⟨e, h⟩ | ⟨_, next, hok⟩
          · exact .inr (idle_of_serve_eq h)
          · cases hdelete : store.delete key with
            | error e => simp [hdelete, Except.map] at hok
            | ok next =>
                obtain ⟨current, found, -⟩ := delete_eq_ok_iff.1 hdelete
                exact .inl ⟨key, none, .delete found⟩

theorem exists_commit {store : MemoryStore} {request : Request} (h : store.commits request) :
    ∃ key left, Commit store request key left := by
  rcases store.commit_or_idle request with hcommit | ⟨hidle, -⟩
  · exact hcommit
  · rw [hidle] at h
    cases h

theorem step_eq_self {store : MemoryStore} {request : Request} (h : store.commits request = false) :
    store.step request = store := by
  rcases store.commit_or_idle request with ⟨key, left, hcommit⟩ | ⟨-, hstep⟩
  · rw [hcommit.commits_and_step_eq.1] at h
    cases h
  · exact hstep

/-! ### Requests at a fixed time -/

/-- The key of a config map. -/
def configMapKey (name : String) : ObjectKey := ⟨⟨"", "v1", "ConfigMap"⟩, none, name⟩

/-- A config map with further fields in its metadata. -/
def configMap (name : String) (fields : List (String × Document)) : Document :=
  .ofEntries [("apiVersion", .string "v1"), ("kind", .string "ConfigMap"),
    ("metadata", .ofEntries (("name", .string name) :: fields))]

/-- A call at noon, through a context that is not cancelled. -/
def atNoon (call : StoreCall) : Request := ⟨false, "2024-05-01T12:00:00Z", call⟩

/-! ### All or nothing -/

/-- A run raises the count of writes by the writes in it that go through. -/
theorem revision_run (store : MemoryStore) (requests : List Request) :
    (store.run requests).revision = store.revision + store.count commits requests := by
  induction requests generalizing store with
  | nil => rfl
  | cons request requests ih =>
      rw [run_cons, ih, count]
      cases h : store.commits request with
      | false => simp [step_eq_self h]
      | true =>
          obtain ⟨key, left, hcommit⟩ := exists_commit h
          rw [hcommit.step_eq, revision_set, if_pos rfl, Nat.add_assoc]

/-- **All or nothing.** In every state of a run, a request that fails or only reads leaves the objects, their
order and the count of writes as they were. A write that succeeds raises the count by one and leaves the
objects under the other keys, in their order, as they were. So the count is that of the writes that went
through. -/
theorem all_or_nothing (requests : List Request) (request : Request) :
    let store := empty.run requests
    (∀ e, (store.serve request).1 = .error e → store.step request = store) ∧
      (request.call.writes = false → store.step request = store) ∧
      (∀ answer, (store.serve request).1 = .ok answer → request.call.writes = true →
        ∃ key, request.call.key? = some key ∧
          (store.step request).revision = store.revision + 1 ∧
          (store.step request).objects.others key = store.objects.others key ∧
          ∀ other, other ≠ key →
            (store.step request).objects.get? other = store.objects.get? other) ∧
      store.revision = empty.count commits requests := by
  intro store
  refine ⟨?_, ?_, ?_, ?_⟩
  · intro e hfailed
    exact step_eq_self (by simp [commits, hfailed, Except.isOk, Except.toBool])
  · intro hreads
    exact step_eq_self (by simp [commits, hreads])
  · intro answer hanswer hwrites
    have hcommits : store.commits request := by
      simp [commits, hanswer, hwrites, Except.isOk, Except.toBool]
    obtain ⟨key, left, hcommit⟩ := exists_commit hcommits
    refine ⟨key, hcommit.key?_eq, ?_⟩
    rw [hcommit.step_eq]
    exact ⟨revision_set store key left, others_set store key left,
      fun other hother => get?_set_of_ne store hother left⟩
  · exact (revision_run empty requests).trans (Nat.zero_add _)

end Converge.MemoryStore
