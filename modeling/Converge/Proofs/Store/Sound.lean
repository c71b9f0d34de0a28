import Converge.Proofs.Store.Run

/-!
# What every reachable store satisfies

A stored document names the key it is stored under, and it carries the fields of the store: a unique name
made of the count at its creation, and the count of its last write as version. Both counts lie between one
and the count of writes so far, which is why the next write uses neither of them again.

## Main Definitions

* `Distinct` — no two objects agree in a field of the metadata.
* `Kept` — what the fields of a stored document say about its past.
* `Sound` — the invariant.

## Main Statements

* `Sound.step`, `sound_run` — a request keeps the invariant, so it holds in every state of a run.
* `stored_objects_identified` — keys, versions and unique names identify the stored objects.
-/

namespace Converge.MemoryStore

/-- No two objects agree in a field of the metadata. -/
def Distinct (store : MemoryStore) (field : String) : Prop :=
  ∀ ⦃key other : ObjectKey⦄ ⦃document document' : Document⦄,
    store.objects.get? key = some document → store.objects.get? other = some document' →
    metadata? document field = metadata? document' field → key = other

/-- What is written must differ from the objects under the other keys. -/
theorem Distinct.set {store : MemoryStore} {field : String} (h : Distinct store field) {key : ObjectKey}
    {left : Option Document}
    (differs : ∀ document, left = some document → ∀ other, other ≠ key → ∀ document',
      store.objects.get? other = some document' →
      metadata? document field ≠ metadata? document' field) :
    Distinct (store.set key left) field := by
  intro first second document document' hfirst hsecond hfield
  rcases of_get?_set hfirst with ⟨rfl, hleft⟩ | ⟨hne, hold⟩ <;>
    rcases of_get?_set hsecond with ⟨rfl, hleft'⟩ | ⟨hne', hold'⟩
  · rfl
  · exact absurd hfield (differs document hleft second hne' document' hold')
  · exact absurd hfield.symm (differs document' hleft' first hne document hold)
  · exact h hold hold' hfield

/-- A document as the store keeps it: its unique name is that of the write that created the object, its
version that of the last one. -/
structure Kept (document : Document) (birth version : Nat) : Prop where
  stamped : ∃ created generation, Stamped document (.string (uid birth)) created generation version
  birth_pos : 1 ≤ birth
  birth_le : birth ≤ version

namespace Kept

variable {document : Document} {birth version : Nat}

theorem version_eq (h : Kept document birth version) :
    metadata? document "resourceVersion" = some (.string version.repr) :=
  let ⟨_, _, stamped⟩ := h.stamped
  stamped.version

theorem uid_eq (h : Kept document birth version) :
    metadata? document "uid" = some (.string (uid birth)) :=
  let ⟨_, _, stamped⟩ := h.stamped
  stamped.uid

end Kept

/-- The invariant of the store. -/
structure Sound (store : MemoryStore) : Prop where
  /-- Every object is stored under the key that its document states. -/
  named : ∀ {key document}, store.objects.get? key = some document →
    ObjectKey.ofDocument document = .ok key
  /-- Every object carries the fields of the store, and its version is a count of the past. -/
  kept : ∀ {key document}, store.objects.get? key = some document →
    ∃ birth version, Kept document birth version ∧ version ≤ store.revision
  versions : Distinct store "resourceVersion"
  uids : Distinct store "uid"

theorem sound_empty : Sound empty where
  named h := by cases h
  kept h := by cases h
  versions _ _ _ _ h := by cases h
  uids _ _ _ _ h := by cases h

namespace Commit

variable {store : MemoryStore} {request : Request} {key : ObjectKey} {document : Document}

/-- What is written states the key it is written under. -/
theorem named (h : Commit store request key (some document)) : ObjectKey.ofDocument document = .ok key := by
  rcases h.created_or_rewritten with ⟨-, source, -, hnamed, rfl⟩ | ⟨current, source, -, -, hnamed, rfl⟩
  · exact ofDocument_stampNew _ _ hnamed
  · exact ofDocument_stampNext _ _ hnamed

/-- The version of what is written is the count of the write. -/
theorem version_eq (h : Commit store request key (some document)) :
    metadata? document "resourceVersion" = some (.string (store.revision + 1).repr) := by
  rcases h.created_or_rewritten with ⟨-, source, -, -, rfl⟩ | ⟨current, source, -, -, -, rfl⟩
  · exact (stamped_stampNew _ _ _).version
  · exact metadata?_stampNext_version _ _

/-- What is written has a unique name of its own, or that of the object that was there. -/
theorem kept (sound : Sound store) (h : Commit store request key (some document)) :
    ∃ birth, Kept document birth (store.revision + 1) ∧
      (birth = store.revision + 1 ∨
        ∃ current, store.objects.get? key = some current ∧
          metadata? current "uid" = some (.string (uid birth))) := by
  rcases h.created_or_rewritten with ⟨-, source, -, -, rfl⟩ | ⟨current, source, found, -, -, rfl⟩
  · refine ⟨store.revision + 1, ⟨⟨_, _, stamped_stampNew _ _ _⟩, ?_, Nat.le_refl _⟩, .inl rfl⟩
    exact Nat.le_add_left 1 store.revision
  · obtain ⟨birth, version, kept, hle⟩ := sound.kept found
    obtain ⟨created, generation, stamped⟩ := kept.stamped
    have hbirth : birth ≤ store.revision + 1 := Nat.le_succ_of_le (Nat.le_trans kept.birth_le hle)
    exact ⟨birth, ⟨⟨created, _, stamped.stampNext _ _⟩, kept.birth_pos, hbirth⟩,
      .inr ⟨current, found, kept.uid_eq⟩⟩

end Commit

namespace Sound

variable {store : MemoryStore} {request : Request} {key : ObjectKey} {left : Option Document}

/-- The version of a write is that of no object so far. -/
theorem versions_set (sound : Sound store) (h : Commit store request key left) :
    Distinct (store.set key left) "resourceVersion" := by
  refine sound.versions.set ?_
  rintro document rfl other - document' hother heq
  obtain ⟨birth, version, kept, hle⟩ := sound.kept hother
  have hversion := version_unique h.version_eq (heq.trans kept.version_eq)
  omega

/-- A unique name that is given is new, and one that is kept stays under its key. -/
theorem uids_set (sound : Sound store) (h : Commit store request key left) :
    Distinct (store.set key left) "uid" := by
  refine sound.uids.set ?_
  rintro document rfl other hne document' hother heq
  obtain ⟨birth', version', kept', hle⟩ := sound.kept hother
  obtain ⟨birth, kept, hbirth | ⟨current, found, hcurrent⟩⟩ := h.kept sound
  · have hsame := birth_unique kept.uid_eq (heq.trans kept'.uid_eq)
    have hpast := kept'.birth_le
    omega
  · exact hne (sound.uids hother found (heq.symm.trans (kept.uid_eq.trans hcurrent.symm)))

/-- **A request keeps the invariant.** -/
theorem step (sound : Sound store) (request : Request) : Sound (store.step request) := by
  rcases store.commit_or_idle request with ⟨key, left, hcommit⟩ | ⟨-, hidle⟩
  · rw [hcommit.step_eq]
    refine ⟨?_, ?_, sound.versions_set hcommit, sound.uids_set hcommit⟩
    · intro other document hstored
      rcases of_get?_set hstored with ⟨rfl, rfl⟩ | ⟨-, hold⟩
      · exact hcommit.named
      · exact sound.named hold
    · intro other document hstored
      rw [revision_set]
      rcases of_get?_set hstored with ⟨rfl, rfl⟩ | ⟨-, hold⟩
      · obtain ⟨birth, kept, -⟩ := hcommit.kept sound
        exact ⟨birth, _, kept, Nat.le_refl _⟩
      · obtain ⟨birth, version, kept, hle⟩ := sound.kept hold
        exact ⟨birth, version, kept, Nat.le_succ_of_le hle⟩
  · rw [hidle]
    exact sound

theorem run (sound : Sound store) (requests : List Request) : Sound (store.run requests) := by
  induction requests generalizing store with
  | nil => exact sound
  | cons request requests ih => exact ih (sound.step request)

end Sound

/-- The invariant holds in every state of a run. -/
theorem sound_run (requests : List Request) : Sound (empty.run requests) := sound_empty.run requests

/-- **Keys, versions and unique names identify the stored objects.** Whatever documents and patches a run
brings, every stored document states the key it is stored under, its version is the decimal text of a number
between one and the count of writes, and no two of them share their version or their unique name. -/
theorem stored_objects_identified (requests : List Request) :
    let store := empty.run requests
    (∀ entry ∈ store.objects.entries,
        ObjectKey.ofDocument entry.2 = .ok entry.1 ∧
        (∃ version, 1 ≤ version ∧ version ≤ store.revision ∧
          metadata? entry.2 "resourceVersion" = some (.string version.repr)) ∧
        ∃ text, metadata? entry.2 "uid" = some (.string text)) ∧
      store.objects.entries.Pairwise fun a b =>
        metadata? a.2 "resourceVersion" ≠ metadata? b.2 "resourceVersion" ∧
          metadata? a.2 "uid" ≠ metadata? b.2 "uid" := by
  intro store
  have sound := sound_run requests
  constructor
  · rintro ⟨key, document⟩ hentry
    have hstored := Table.get?_eq_some_iff.2 hentry
    obtain ⟨birth, version, kept, hle⟩ := sound.kept hstored
    have hversion : 1 ≤ version := Nat.le_trans kept.birth_pos kept.birth_le
    exact ⟨sound.named hstored, ⟨version, hversion, hle, kept.version_eq⟩, _, kept.uid_eq⟩
  · have hkeys : store.objects.entries.Pairwise fun a b => a.1 ≠ b.1 :=
      List.pairwise_map.1 store.objects.nodup
    refine hkeys.imp_of_mem ?_
    intro a b ha hb hne
    have hstored := Table.get?_eq_some_iff.2 ha
    have hstored' := Table.get?_eq_some_iff.2 hb
    exact ⟨fun heq => hne (sound.versions hstored hstored' heq),
      fun heq => hne (sound.uids hstored hstored' heq)⟩

end Converge.MemoryStore
