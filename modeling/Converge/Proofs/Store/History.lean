import Converge.Proofs.Store.Sound

/-!
# Versions over a run

A version is given to one write only: once a document was stored, no other document carries its version, not
even after the object was removed and created again. A client that sends back the version of a document it
has seen therefore writes on top of exactly that document, or not at all.

## Main Definitions

* `Returns` — a request is answered with a document, stored under a key.
* `touches` — a write under a key goes through.
* `Spent` — from now on a version is carried by certain documents only.

## Main Statements

* `Spent.step`, `Spent.run` — a version that was given is given to nothing else.
* `Spent.count_touches_eq_zero` — an object that is still there was not written in between.
* `no_lost_update` — a write that carries a version replaces the document that the client has seen.
-/

namespace Converge.MemoryStore

/-! ### What clients see -/

/-- The answer of a call shows a document under a key: a list under the key that the document states, any
other call under the key it is about. -/
def Shows (key : ObjectKey) (document : Document) : (c : StoreCall) → c.Answer → Prop
  | .get asked, answer | .patch asked _, answer => asked = key ∧ answer = document
  | .create source, answer | .update source, answer =>
      ObjectKey.ofDocument source = .ok key ∧ answer = document
  | .list _, answer => document ∈ answer ∧ ObjectKey.ofDocument document = .ok key
  | .delete _, _ => False

/-- A request succeeds with an answer that shows a document under a key. -/
def Returns (store : MemoryStore) (request : Request) (key : ObjectKey) (document : Document) : Prop :=
  ∃ answer, (store.serve request).1 = .ok answer ∧ Shows key document request.call answer

/-- A write under a key goes through. -/
def touches (key : ObjectKey) (store : MemoryStore) (request : Request) : Bool :=
  store.commits request && request.call.key? = some key

/-- The document that an update or a patch brings. -/
def brought? : StoreCall → Option Document
  | .update document | .patch _ document => some document
  | _ => none

/-- What a request shows under a key is stored there when it is done. -/
theorem stored_of_returns {store : MemoryStore} (sound : Sound store) {request : Request}
    {key : ObjectKey} {document : Document} (h : store.Returns request key document) :
    (store.step request).objects.get? key = some document := by
  obtain ⟨answer, hserve, hshows⟩ := h
  obtain ⟨cancelled, now, call⟩ := request
  cases cancelled with
  | true => cases hserve
  | false =>
      cases call with
      | get asked =>
          obtain ⟨rfl, rfl⟩ := hshows
          exact find_eq_ok_iff.1 hserve
      | create source =>
          obtain ⟨hnamed, rfl⟩ := hshows
          obtain ⟨next, hcreate, hstep⟩ := of_settle_eq_ok hserve
          obtain ⟨key', named, -, rfl, rfl⟩ := create_eq_ok_iff.1 hcreate
          cases hnamed.symm.trans named
          show (store.settle (store.create now source)).2.objects.get? key = _
          rw [hstep]
          exact Table.get?_insert_self _ _ _
      | update source =>
          obtain ⟨hnamed, rfl⟩ := hshows
          obtain ⟨next, hupdate, hstep⟩ := of_settle_eq_ok hserve
          obtain ⟨key', current, named, -, -, rfl, rfl⟩ := update_eq_ok_iff.1 hupdate
          cases hnamed.symm.trans named
          show (store.settle (store.update source)).2.objects.get? key = _
          rw [hstep]
          exact Table.get?_insert_self _ _ _
      | patch asked source =>
          obtain ⟨rfl, rfl⟩ := hshows
          obtain ⟨next, hpatch, hstep⟩ := of_settle_eq_ok hserve
          obtain ⟨current, -, -, -, rfl, rfl⟩ := patch_eq_ok_iff.1 hpatch
          show (store.settle (store.patch asked source)).2.objects.get? asked = _
          rw [hstep]
          exact Table.get?_insert_self _ _ _
      | delete asked => cases hshows
      | list selector =>
          obtain ⟨hmem, hnamed⟩ := hshows
          cases hserve
          obtain ⟨entry, hentry, rfl⟩ := List.mem_map.1 (List.mem_filter.1 hmem).1
          have hstored := Table.get?_eq_some_iff.2 hentry
          cases (sound.named hstored).symm.trans hnamed
          exact hstored

theorem Commit.touches {store : MemoryStore} {request : Request} {key : ObjectKey} {left : Option Document}
    (h : Commit store request key left) : store.touches key request := by
  simp [MemoryStore.touches, h.commits_and_step_eq.1, h.key?_eq]

theorem commit_of_touches {store : MemoryStore} {request : Request} {key : ObjectKey}
    (h : store.touches key request) : ∃ left, Commit store request key left := by
  obtain ⟨hcommits, hkey⟩ := Bool.and_eq_true_iff.1 h
  obtain ⟨key', left, hcommit⟩ := exists_commit hcommits
  have : some key' = some key := hcommit.key?_eq.symm.trans (of_decide_eq_true hkey)
  cases this
  exact ⟨left, hcommit⟩

/-! ### Versions are given once -/

/-- The version was given, and no object carries it but the documents that own it. -/
structure Spent (store : MemoryStore) (version : Nat) (owner : ObjectKey → Document → Prop) : Prop where
  le_revision : version ≤ store.revision
  owned : ∀ {key document}, store.objects.get? key = some document →
    metadata? document "resourceVersion" = some (.string version.repr) → owner key document

namespace Spent

variable {store : MemoryStore} {version : Nat} {owner : ObjectKey → Document → Prop}
variable {request : Request} {key : ObjectKey} {document : Document} {left : Option Document}

/-- What a write leaves does not carry a version that was given before. -/
theorem ne_of_commit (spent : Spent store version owner) (h : Commit store request key (some document)) :
    metadata? document "resourceVersion" ≠ some (.string version.repr) := by
  intro heq
  have hle := spent.le_revision
  have hversion := version_unique h.version_eq heq
  omega

/-- **A version that was given is given to nothing else.** -/
theorem step (spent : Spent store version owner) (request : Request) :
    Spent (store.step request) version owner := by
  rcases store.commit_or_idle request with ⟨key, left, hcommit⟩ | ⟨-, hidle⟩
  · rw [hcommit.step_eq]
    refine ⟨?_, ?_⟩
    · rw [revision_set]
      exact Nat.le_succ_of_le spent.le_revision
    · intro other document hstored hversion
      rcases of_get?_set hstored with ⟨rfl, rfl⟩ | ⟨-, hold⟩
      · exact absurd hversion (spent.ne_of_commit hcommit)
      · exact spent.owned hold hversion
  · rw [hidle]
    exact spent

theorem run (spent : Spent store version owner) (requests : List Request) :
    Spent (store.run requests) version owner := by
  induction requests generalizing store with
  | nil => exact spent
  | cons request requests ih => exact ih (spent.step request)

/-- Once the key of its only owner is written, nothing carries the version any more. -/
theorem gone (spent : Spent store version fun other document' => other = key ∧ document' = document)
    (h : Commit store request key left) : Spent (store.step request) version fun _ _ => False := by
  rw [h.step_eq]
  refine ⟨?_, ?_⟩
  · rw [revision_set]
    exact Nat.le_succ_of_le spent.le_revision
  · intro other document' hstored hversion
    rcases of_get?_set hstored with ⟨rfl, rfl⟩ | ⟨hne, hold⟩
    · exact spent.ne_of_commit h hversion
    · exact hne (spent.owned hold hversion).1

/-- **An object that is still there was not written in between.** -/
theorem count_touches_eq_zero (requests : List Request)
    (spent : Spent store version fun other document' => other = key ∧ document' = document)
    (hversion : metadata? document "resourceVersion" = some (.string version.repr))
    (hstored : (store.run requests).objects.get? key = some document) :
    store.count (touches key) requests = 0 := by
  induction requests generalizing store with
  | nil => rfl
  | cons request requests ih =>
      have hrest := ih (spent.step request) hstored
      cases htouches : store.touches key request with
      | false => simp [count, htouches, hrest]
      | true =>
          -- A write under the key would have taken the version away for good.
          obtain ⟨left, hcommit⟩ := commit_of_touches htouches
          exact ((spent.gone hcommit).run requests).owned hstored hversion |>.elim

end Spent

/-- The version of a stored document is given, and the document owns it. -/
theorem Sound.spent {store : MemoryStore} (sound : Sound store) {key : ObjectKey} {document : Document}
    (h : store.objects.get? key = some document) :
    ∃ version, metadata? document "resourceVersion" = some (.string version.repr) ∧
      Version.ofDocument? document = some ⟨version.repr⟩ ∧
      Spent store version fun other document' => other = key ∧ document' = document := by
  obtain ⟨birth, version, kept, hle⟩ := sound.kept h
  obtain ⟨created, generation, stamped⟩ := kept.stamped
  refine ⟨version, stamped.version, stamped.version_ofDocument?, hle, ?_⟩
  intro other document' hstored hversion
  cases sound.versions hstored h (hversion.trans stamped.version.symm)
  exact ⟨rfl, Option.some.inj (hstored.symm.trans h)⟩

/-! ### No lost update -/

/-- A write that carries a version goes through on top of that version only. -/
theorem eq_of_checkVersion {key : ObjectKey} {current incoming : Document} {expected : Version}
    (hcarried : Version.ofDocument? incoming = some expected)
    (h : checkVersion key current incoming = .ok ()) : Version.ofDocument? current = some expected := by
  unfold checkVersion at h
  rw [hcarried] at h
  by_cases heq : Version.ofDocument? current = some expected
  · exact heq
  · simp [heq] at h

theorem found_of_touches {store : MemoryStore} {request : Request} {key : ObjectKey} {incoming : Document}
    (h : store.touches key request) (hbrought : brought? request.call = some incoming) :
    ∃ current, store.objects.get? key = some current ∧ checkVersion key current incoming = .ok () := by
  obtain ⟨left, hcommit⟩ := commit_of_touches h
  cases hcommit with
  | create | delete => cases hbrought
  | update named found fresh | patch named found fresh =>
      cases hbrought
      exact ⟨_, found, fresh⟩

/-- **No lost update.** Over any run of any clients: an update or a patch that goes through with the version
of a document that was returned under its key finds exactly that document stored. Nothing was written under
the key since the document was stored there, neither a removal nor a creation. -/
theorem no_lost_update (before between : List Request) (observation write : Request) (key : ObjectKey)
    (seen incoming : Document) (returned : (empty.run before).Returns observation key seen)
    (goes : (empty.run (before ++ observation :: between)).touches key write)
    (brings : brought? write.call = some incoming)
    (version : Version.ofDocument? incoming = Version.ofDocument? seen) :
    (empty.run (before ++ observation :: between)).objects.get? key = some seen ∧
      ∀ earlier later, before ++ observation :: between = earlier ++ later →
        (empty.run earlier).objects.get? key = some seen →
        (empty.run earlier).count (touches key) later = 0 := by
  have hseen := stored_of_returns (sound_run before) returned
  have hsound : Sound ((empty.run before).step observation) := (sound_run before).step observation
  obtain ⟨number, hversion, hofDocument, spent⟩ := hsound.spent hseen
  have hrun : empty.run (before ++ observation :: between) =
      ((empty.run before).step observation).run between := run_append _ _ _
  have hstored : (empty.run (before ++ observation :: between)).objects.get? key = some seen := by
    obtain ⟨current, hfound, hcheck⟩ := found_of_touches goes brings
    have hcurrent := eq_of_checkVersion (version.trans hofDocument) hcheck
    obtain ⟨number', hversion', hofDocument', -⟩ := (sound_run _).spent hfound
    -- The stored document carries the version of the one that was seen, which owns it.
    have hnumber : number'.repr = number.repr :=
      congrArg Version.text (Option.some.inj (hofDocument'.symm.trans hcurrent))
    rw [hnumber] at hversion'
    rw [hrun] at hfound ⊢
    obtain ⟨-, rfl⟩ := (spent.run between).owned hfound hversion'
    exact hfound
  refine ⟨hstored, ?_⟩
  intro earlier later hsplit hearlier
  obtain ⟨number', hversion', -, spent'⟩ := (sound_run earlier).spent hearlier
  refine spent'.count_touches_eq_zero later hversion' ?_
  rw [← run_append, ← hsplit]
  exact hstored

/-- One client lists an object that another one has created. A write with an old version fails and another
object is created before it sends back the version it has seen, as a number and in a patch. -/
theorem no_lost_update_after_list :
    let created := [atNoon (.create (configMap "a" []))]
    let listing := atNoon (.list (.ofType (configMapKey "a").type))
    let between :=
      [atNoon (.update (configMap "a" [("resourceVersion", .string "7")])),
        atNoon (.create (configMap "b" []))]
    let incoming := Document.ofEntries
      [("metadata", .ofEntries [("resourceVersion", .number (.integer 1))])]
    let patching := atNoon (.patch (configMapKey "a") incoming)
    let seen := stampNew "2024-05-01T12:00:00Z" 1 (configMap "a" [])
    (empty.run created).Returns listing (configMapKey "a") seen ∧
      (empty.run (created ++ listing :: between)).touches (configMapKey "a") patching = true ∧
      brought? patching.call = some incoming ∧
      Version.ofDocument? incoming = Version.ofDocument? seen ∧
      (empty.run (created ++ listing :: between)).objects.get? (configMapKey "a") = some seen ∧
      (empty.run created).count (touches (configMapKey "a")) (listing :: between) = 0 := by
  intro created listing between incoming patching seen
  have returned : (empty.run created).Returns listing (configMapKey "a") seen :=
    ⟨[seen], rfl, List.mem_singleton_self seen, rfl⟩
  have goes : (empty.run (created ++ listing :: between)).touches (configMapKey "a") patching := by
    decide +kernel
  have version : Version.ofDocument? incoming = Version.ofDocument? seen := rfl
  obtain ⟨hstored, huntouched⟩ :=
    no_lost_update created between listing patching (configMapKey "a") seen incoming returned goes rfl version
  exact ⟨returned, goes, rfl, version, hstored, huntouched created (listing :: between) rfl rfl⟩

end Converge.MemoryStore
