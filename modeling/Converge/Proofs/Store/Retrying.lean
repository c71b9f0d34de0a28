import Converge.Proofs.Store.Lifetime
import Converge.Proofs.Store.Patching

/-!
# Patches that are sent again

A client that does not learn whether its patch went through sends it again. By then the document is stamped, so the
patch meets other fields of the store than before, and it may set or remove these itself. Neither matters: the stamp
writes them anew, and the rest of the document already is what the patch makes of it.

## Main Definitions

* `MemoryStore.recounted` — a document with another generation and another version.
* `MemoryStore.Retriable` — a store that has taken a patch.

## Main Statements

* `MemoryStore.Retriable.step`, `MemoryStore.Retriable.run` — what others request of other objects changes nothing of it.
* `MemoryStore.Retriable.patch_eq` — a patch that was taken goes through again, and moves the two counts only.
* `MemoryStore.retried_patch_moves_counts_only` — so sending a patch again is harmless.
-/

namespace Converge.MemoryStore

variable {document document' patch : Document} {key : ObjectKey}

/-! ### Documents with other counts -/

/-- The document with another generation and another version. -/
def recounted (document : Document) (generation version : Nat) : Document :=
  withMetadata (fun fields =>
    (fields.insert "generation" (Document.ofNat generation)).insert "resourceVersion" (.string version.repr)) document

theorem stamps_recounted (document : Document) (generation version : Nat) :
    ∃ change, Stamps change ∧ recounted document generation version = withMetadata change document := by
  have unchanged : Stamps id := fun _ => rfl
  have hgeneration := unchanged.insert "generation" (Document.ofNat generation) (by decide)
  exact ⟨_, hgeneration.insert "resourceVersion" (.string version.repr) (by decide), rfl⟩

/-- Other counts are counts of the store: the two other fields of the store stay. -/
theorem Stamped.recounted {uid created : Document} {generation version : Nat}
    (h : Stamped document uid created generation version) (generation' version' : Nat) :
    Stamped (recounted document generation' version') uid created generation' version' := by
  have hfield (field : String) : metadata? (MemoryStore.recounted document generation' version') field =
      (((metadata document).insert "generation" (Document.ofNat generation')).insert "resourceVersion"
        (.string version'.repr)).lookup field := metadata?_withMetadata ..
  obtain ⟨huid, hcreated, -, -⟩ := h
  rw [metadata?_eq_lookup] at huid hcreated
  constructor <;>
    simp (disch := decide) only [hfield, huid, hcreated, Members.lookup_insert_self, Members.lookup_insert_of_ne]

theorem ordered_recounted (ordered : document.Ordered) (generation version : Nat) :
    (recounted document generation version).Ordered := by
  have metadata : (Document.object (metadata document)).Ordered := ordered.getD_null.members
  have hgeneration := metadata.insert "generation" (Document.ordered_ofNat generation)
  exact ordered.members.insert "metadata"
    (hgeneration.insert "resourceVersion" (Document.ordered_string version.repr))

/-- A stored document whose next state differs in the fields of the store only is stamped with other counts. -/
theorem Stamped.stampNext_eq_recounted {uid created : Document} {generation version : Nat}
    (stamped : Stamped document uid created generation version) (ordered : document.Ordered)
    (ordered' : document'.Ordered) (named : ObjectKey.ofDocument document = .ok key)
    (named' : ObjectKey.ofDocument document' = .ok key) (same : unstamped document' = unstamped document)
    (revision : Nat) : MemoryStore.stampNext document revision document' =
      MemoryStore.recounted document (generation + 1) revision := by
  obtain ⟨change, stamps, heq⟩ := stamps_recounted document (generation + 1) revision
  have hnamed : ObjectKey.ofDocument (MemoryStore.recounted document (generation + 1) revision) = .ok key := by
    rw [heq, stamps.ofDocument_withMetadata named]
  have hrest : unstamped (MemoryStore.recounted document (generation + 1) revision) = unstamped document := by
    rw [heq, stamps.unstamped_withMetadata named]
  refine Stamped.eq (ordered_stampNext ordered ordered' revision) (ordered_recounted ordered _ _)
    (ofDocument_stampNext _ _ named') hnamed (stamped.stampNext _ _) (stamped.recounted _ _) ?_
  rw [unstamped_stampNext _ _ named', same, hrest]

/-! ### Stores that have taken a patch -/

/-- The store holds a document under a key that absorbs a patch. -/
structure Retriable (store : MemoryStore) (key : ObjectKey) (patch document : Document) (generation : Nat) :
    Prop where
  found : store.objects.get? key = some document
  ordered : document.Ordered
  named : ObjectKey.ofDocument document = .ok key
  stamped : ∃ uid created version, Stamped document uid created generation version
  absorbs : Absorbs document patch key

namespace Retriable

variable {store next : MemoryStore} {generation : Nat}

/-- After a patch has gone through, the store has taken it. -/
theorem of_patch (sound : Sound store) (inOrder : InOrder store) (hpatch : patch.Ordered)
    (succeeds : store.patch key patch = .ok (document, next)) :
    ∃ generation, metadata? document "generation" = some (Document.ofNat generation) ∧
      Retriable next key patch document generation := by
  obtain ⟨current, found, -, patched, rfl, rfl⟩ := patch_eq_ok_iff.1 succeeds
  obtain ⟨birth, version, kept, -⟩ := sound.kept found
  obtain ⟨created, generation, stamped⟩ := kept.stamped
  have hnext := stamped.stampNext (store.revision + 1) (current.mergePatch patch)
  have hpatched := (inOrder found).mergePatch hpatch
  have hordered := ordered_stampNext (inOrder found) hpatched (store.revision + 1)
  have hnamed := ofDocument_stampNext (store.revision + 1) current patched
  -- What the patch has made of the document it does not change again, and the stamp leaves it so.
  have hagain := absorbs_of_mergePatch_eq (Document.mergePatch_mergePatch (inOrder found) hpatch) patched
  have habsorbs := hagain.congr hpatched hordered hpatch patched hnamed (unstamped_stampNext _ _ patched).symm
  exact ⟨generation + 1, hnext.generation, Table.get?_insert_self .., hordered, hnamed, ⟨_, _, _, hnext⟩, habsorbs⟩

/-- What is requested of other objects changes nothing of it. -/
theorem step (h : Retriable store key patch document generation) {request : Request}
    (untouched : store.touches key request = false) :
    Retriable (store.step request) key patch document generation :=
  { h with found := (get?_step_of_not_touches untouched).trans h.found }

/-- The induction is on the requests, none of which touches the object. -/
theorem run (h : Retriable store key patch document generation) {requests : List Request}
    (untouched : store.count (touches key) requests = 0) :
    Retriable (store.run requests) key patch document generation := by
  induction requests generalizing store with
  | nil => exact h
  | cons request requests ih =>
      obtain ⟨hrequest, hrest⟩ := count_cons_eq_zero_iff.1 untouched
      exact ih (h.step hrequest) hrest

/-- **A patch that was taken goes through again, and moves the two counts only.** -/
theorem patch_eq (h : Retriable store key patch document generation) (hpatch : patch.Ordered)
    (unversioned : Version.ofDocument? patch = none) :
    store.patch key patch = .ok (recounted document (generation + 1) (store.revision + 1),
      store.write key (recounted document (generation + 1) (store.revision + 1))) := by
  obtain ⟨uid, created, version, stamped⟩ := h.stamped
  have hstored := stamped.stampNext_eq_recounted h.ordered (h.ordered.mergePatch hpatch) h.named h.absorbs.named
    h.absorbs.same (store.revision + 1)
  have fresh : checkVersion key document patch = .ok () := by rw [checkVersion, unversioned]
  rw [← hstored]
  exact patch_eq_ok_iff.2 ⟨document, h.found, fresh, h.absorbs.named, rfl, rfl⟩

end Retriable

/-- **Sending a patch again is harmless.** Take a patch without a version that has gone through, in any state that the
store reaches. It goes through again, at once or after any requests that do not touch the object, and answers the
document that it answered the first time, with a generation that is higher by one and with the version of the new
write, whatever the patch says about the key or the fields of the store. -/
theorem retried_patch_moves_counts_only {requests : List Request}
    (brought : ∀ request ∈ requests, request.call.Ordered) {key : ObjectKey} {patch stored : Document}
    {next : MemoryStore} (ordered : patch.Ordered) (unversioned : Version.ofDocument? patch = none)
    (succeeds : (empty.run requests).patch key patch = .ok (stored, next)) :
    ∃ generation, metadata? stored "generation" = some (Document.ofNat generation) ∧
      ∀ between, next.count (touches key) between = 0 →
        let later := next.run between
        let again := recounted stored (generation + 1) (later.revision + 1)
        later.patch key patch = .ok (again, later.write key again) := by
  obtain ⟨generation, hgeneration, hretriable⟩ :=
    Retriable.of_patch (sound_run requests) (inOrder_run brought) ordered succeeds
  refine ⟨generation, hgeneration, fun between untouched => ?_⟩
  exact (hretriable.run untouched).patch_eq ordered unversioned

/-- The patch writes blanks around the name, an empty namespace, a blank version and a generation, and removes the
unique name. Another object is created before it is sent again. -/
theorem retried_patch_moves_counts_only_of_forgeries :
    let requests := [atNoon (.create (configMap "a" []))]
    let patch := Document.object [("metadata", .object [("generation", .string "9"), ("name", .string " a "),
      ("namespace", .string ""), ("resourceVersion", .string " "), ("uid", .null)])]
    let current := stampNew "2024-05-01T12:00:00Z" 1 (configMap "a" [])
    let stored := stampNext current 2 (current.mergePatch patch)
    let next := (empty.run requests).write (configMapKey "a") stored
    let between := [atNoon (.create (configMap "b" []))]
    let again := recounted stored 3 4
    (∀ request ∈ requests, request.call.Ordered) ∧ patch.Ordered ∧ Version.ofDocument? patch = none ∧
      (empty.run requests).patch (configMapKey "a") patch = .ok (stored, next) ∧
      next.count (touches (configMapKey "a")) between = 0 ∧
      (next.run between).patch (configMapKey "a") patch =
        .ok (again, (next.run between).write (configMapKey "a") again) := by
  intro requests patch current stored next between again
  have brought : ∀ request ∈ requests, request.call.Ordered := by
    intro request hrequest
    obtain rfl := List.mem_singleton.1 hrequest
    show (configMap "a" []).Ordered
    decide +kernel
  have ordered : patch.Ordered := by decide +kernel
  have unversioned : Version.ofDocument? patch = none := by decide +kernel
  have succeeds : (empty.run requests).patch (configMapKey "a") patch = .ok (stored, next) := by
    have found : (empty.run requests).objects.get? (configMapKey "a") = some current := by decide +kernel
    have fresh : checkVersion (configMapKey "a") current patch = .ok () := by rw [checkVersion, unversioned]
    have named : ObjectKey.ofDocument (current.mergePatch patch) = .ok (configMapKey "a") := by decide +kernel
    exact patch_eq_ok_iff.2 ⟨current, found, fresh, named, rfl, rfl⟩
  have untouched : next.count (touches (configMapKey "a")) between = 0 := by decide +kernel
  obtain ⟨generation, hgeneration, hagain⟩ := retried_patch_moves_counts_only brought ordered unversioned succeeds
  have hsecond : metadata? stored "generation" = some (Document.ofNat 2) := by decide +kernel
  obtain rfl : generation = 2 := by
    have hsame : Document.ofNat generation = Document.ofNat 2 := Option.some.inj (hgeneration.symm.trans hsecond)
    exact Int.ofNat.inj (Number.integer.inj (Document.number.inj hsame))
  exact ⟨brought, ordered, unversioned, succeeds, untouched, hagain between untouched⟩

end Converge.MemoryStore
