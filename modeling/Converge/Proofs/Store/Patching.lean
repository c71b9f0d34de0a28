import Converge.Proofs.Identity
import Converge.Proofs.Store.Sound
import Converge.Proofs.Table

/-!
# Patches of a stored object

The store patches an object, tests whether its key is still the same, and stamps it. The stamp overwrites four fields
of the metadata, whatever the patch made of them, and a patch that keeps the key of one document keeps that of every
document with this key. So two patches that say nothing of the same place do not come into each other's way, neither
in what they write nor in whether they are accepted.

## Main Definitions

* `StoreCall.Ordered` — the document that a call brings has its members in order.
* `MemoryStore.InOrder` — all stored documents have.
* `MemoryStore.Absorbs` — a patch keeps the key of a document, and all of it but the fields of the store.
* `MemoryStore.Apart`, `MemoryStore.Reflects` — a place apart from the fields of the store, and what a document has at such
  places if it reflects a patch.
* `MemoryStore.patchAll` — patches of one object, one after the other.

## Main Statements

* `MemoryStore.unstamped_mergePatch` — what a patch makes of the rest of a document does not depend on the fields of
  the store.
* `MemoryStore.Absorbs.congr` — whether a patch is absorbed does not depend on the fields of the store.
* `MemoryStore.Absorbs.reflects` — a document that a patch does not change reflects it.
* `MemoryStore.inOrder_run` — stored documents have their members in order.
* `MemoryStore.independent_patches_commute` — independent patches may be sent in either order.
-/

namespace Converge

theorem Members.lookup_without_of_mem {name : String} {names : List String} (h : name ∈ names) (members : Members) :
    (members.without names).lookup name = none := by
  rw [Option.eq_none_iff_forall_ne_some]
  intro value hvalue
  have hmember := List.of_mem_filter (mem_of_lookup hvalue)
  rw [List.contains_iff_mem.2 h] at hmember
  cases hmember

/-- The document that a call brings has its members in order. -/
def StoreCall.Ordered : StoreCall → Prop
  | .create document | .update document | .patch _ document => document.Ordered
  | .get _ | .delete _ | .list _ => True

namespace MemoryStore

/-! ### Documents by their metadata -/

section Metadata

variable {document document' : Document} {fields fields' : Members} (ordered : document.Ordered)
  (ordered' : document'.Ordered) (h : document.get? "metadata" = some (.object fields))
  (h' : document'.get? "metadata" = some (.object fields'))

include h in
theorem metadata?_eq_lookup_of_get? (field : String) : metadata? document field = fields.lookup field := by
  rw [metadata?_eq_lookup, metadata_eq h]

include h in
theorem unstamped_eq : unstamped document =
    .object (document.members.insert "metadata" (.object (Members.without serverFields fields))) := by
  rw [unstamped, h]

include h in
theorem get?_unstamped :
    (unstamped document).get? "metadata" = some (.object (Members.without serverFields fields)) := by
  rw [unstamped_eq h]
  exact Members.lookup_insert_self ..

include h in
theorem get?_unstamped_of_ne {name : String} (hname : name ≠ "metadata") :
    (unstamped document).get? name = document.get? name := by
  rw [unstamped_eq h]
  exact Members.lookup_insert_of_ne hname ..

include ordered h in
theorem ordered_unstamped : (unstamped document).Ordered := by
  rw [unstamped_eq h]
  exact ordered.members.insert "metadata" ((ordered.get? h).filter _)

include ordered ordered' h h'

/-- Documents in order are the same if the same stands in them, inside their metadata and outside. -/
theorem eq_of_metadata (outside : ∀ name, name ≠ "metadata" → document.get? name = document'.get? name)
    (inside : ∀ field, metadata? document field = metadata? document' field) : document = document' := by
  have hfields : Document.object fields = .object fields' := by
    refine (ordered.get? h).object_eq (ordered'.get? h') fun field => ?_
    have hinside := inside field
    rwa [metadata?_eq_lookup_of_get? h, metadata?_eq_lookup_of_get? h'] at hinside
  obtain ⟨members, rfl, -⟩ := Document.exists_object_of_get? h
  obtain ⟨members', rfl, -⟩ := Document.exists_object_of_get? h'
  refine ordered.object_eq ordered' fun name => ?_
  by_cases hname : name = "metadata"
  · subst hname
    rw [h, h', hfields]
  · exact outside name hname

/-- Two documents agree but for the fields of the store exactly if all else in them does. -/
theorem unstamped_eq_iff :
    unstamped document = unstamped document' ↔
      (∀ name, name ≠ "metadata" → document.get? name = document'.get? name) ∧
        ∀ field, field ∉ serverFields → metadata? document field = metadata? document' field := by
  constructor
  · intro heq
    refine ⟨fun name hname => ?_, fun field hfield => ?_⟩
    · rw [← get?_unstamped_of_ne h hname, heq, get?_unstamped_of_ne h' hname]
    · have hinside : metadata? (unstamped document) field = metadata? (unstamped document') field := by rw [heq]
      rwa [metadata?_eq_lookup_of_get? (get?_unstamped h), metadata?_eq_lookup_of_get? (get?_unstamped h'),
        Members.lookup_without hfield, Members.lookup_without hfield, ← metadata?_eq_lookup_of_get? h,
        ← metadata?_eq_lookup_of_get? h'] at hinside
  · rintro ⟨outside, inside⟩
    refine eq_of_metadata (ordered_unstamped ordered h) (ordered_unstamped ordered' h') (get?_unstamped h)
      (get?_unstamped h') ?_ ?_
    · intro name hname
      rw [get?_unstamped_of_ne h hname, get?_unstamped_of_ne h' hname, outside name hname]
    · intro field
      rw [metadata?_eq_lookup_of_get? (get?_unstamped h), metadata?_eq_lookup_of_get? (get?_unstamped h')]
      by_cases hfield : field ∈ serverFields
      · rw [Members.lookup_without_of_mem hfield, Members.lookup_without_of_mem hfield]
      · rw [Members.lookup_without hfield, Members.lookup_without hfield, ← metadata?_eq_lookup_of_get? h,
          ← metadata?_eq_lookup_of_get? h', inside field hfield]

end Metadata

/-! ### Patches and stamps -/

variable {document document' patch : Document} {key : ObjectKey}

/-- A patch that says something of the metadata, and keeps a key, patches their fields. -/
theorem metadata?_mergePatch {members : Members} (ordered : (Document.object members).Ordered)
    (named : ObjectKey.ofDocument (document.mergePatch (.object members)) = .ok key) {value : Document}
    (hvalue : members.lookup "metadata" = some value) (field : String) :
    metadata? (document.mergePatch (.object members)) field =
      Document.patchedMember (metadata? document field) (value.get? field) := by
  obtain ⟨fields, hfields⟩ := metadata_of_ofDocument named
  rw [Document.get?_mergePatch ordered, hvalue] at hfields
  have hnull : value ≠ .null := by
    rintro rfl
    cases hfields
  rw [Document.patchedMember_some hnull, Option.some.injEq] at hfields
  cases value with
  | object patch =>
      rw [metadata?, Document.get?_mergePatch ordered, hvalue, Document.patchedMember_some hnull, Option.bind_some,
        Document.get?_mergePatch (ordered.get? hvalue)]
      unfold metadata?
      cases document.get? "metadata" <;> rfl
  | null | bool | number | string | array => cases hfields

/-- **What a patch makes of the rest of a document does not depend on the fields of the store.** -/
theorem unstamped_mergePatch (ordered : document.Ordered) (ordered' : document'.Ordered) (hpatch : patch.Ordered)
    (hobject : patch.isObject) (named : ObjectKey.ofDocument document = .ok key)
    (named' : ObjectKey.ofDocument document' = .ok key)
    (patched : ObjectKey.ofDocument (document.mergePatch patch) = .ok key)
    (same : unstamped document = unstamped document') :
    unstamped (document.mergePatch patch) = unstamped (document'.mergePatch patch) := by
  have patched' := (ObjectKey.ofDocument_mergePatch_iff hpatch hobject named named').1 patched
  obtain ⟨fields, h⟩ := metadata_of_ofDocument named
  obtain ⟨fields', h'⟩ := metadata_of_ofDocument named'
  obtain ⟨outside, inside⟩ := (unstamped_eq_iff ordered ordered' h h').1 same
  obtain ⟨next, hnext⟩ := metadata_of_ofDocument patched
  obtain ⟨next', hnext'⟩ := metadata_of_ofDocument patched'
  obtain ⟨members, rfl⟩ := Document.exists_object_of_isObject hobject
  refine (unstamped_eq_iff (ordered.mergePatch hpatch) (ordered'.mergePatch hpatch) hnext hnext').2 ⟨?_, ?_⟩
  · intro name hname
    rw [Document.get?_mergePatch hpatch, Document.get?_mergePatch hpatch, outside name hname]
  · intro field hfield
    cases hvalue : Members.lookup "metadata" members with
    | none =>
        simp only [metadata?, Document.get?_mergePatch hpatch, hvalue, Document.patchedMember_none]
        exact inside field hfield
    | some value =>
        rw [metadata?_mergePatch hpatch patched hvalue, metadata?_mergePatch hpatch patched' hvalue,
          inside field hfield]

/-- Stored documents are the same if their fields of the store are, and the rest of them is. -/
theorem Stamped.eq {uid created : Document} {generation version : Nat} (ordered : document.Ordered)
    (ordered' : document'.Ordered) (named : ObjectKey.ofDocument document = .ok key)
    (named' : ObjectKey.ofDocument document' = .ok key) (stamped : Stamped document uid created generation version)
    (stamped' : Stamped document' uid created generation version) (same : unstamped document = unstamped document') :
    document = document' := by
  obtain ⟨fields, h⟩ := metadata_of_ofDocument named
  obtain ⟨fields', h'⟩ := metadata_of_ofDocument named'
  obtain ⟨outside, inside⟩ := (unstamped_eq_iff ordered ordered' h h').1 same
  refine eq_of_metadata ordered ordered' h h' outside fun field => ?_
  by_cases hfield : field ∈ serverFields
  · simp only [serverFields, List.mem_cons, List.not_mem_nil, or_false] at hfield
    rcases hfield with rfl | rfl | rfl | rfl
    · exact stamped.uid.trans stamped'.uid.symm
    · exact stamped.created.trans stamped'.created.symm
    · exact stamped.generation.trans stamped'.generation.symm
    · exact stamped.version.trans stamped'.version.symm
  · exact inside field hfield

/-! ### Patches that leave a document as it is -/

/-- A patch keeps the key of a document, and all of it but the fields of the store. -/
structure Absorbs (document patch : Document) (key : ObjectKey) : Prop where
  named : ObjectKey.ofDocument (document.mergePatch patch) = .ok key
  same : unstamped (document.mergePatch patch) = unstamped document

/-- Only an object can be merged into a document that has a key afterwards. -/
theorem isObject_of_patched (patched : ObjectKey.ofDocument (document.mergePatch patch) = .ok key) :
    patch.isObject := by
  cases hobject : patch.isObject with
  | true => rfl
  | false =>
      rw [Document.mergePatch_of_not_object hobject] at patched
      exact absurd (ObjectKey.ofDocument_eq_ok_iff.1 patched).isObject (by rw [hobject]; exact Bool.false_ne_true)

/-- A document that a patch does not change absorbs the patch. -/
theorem absorbs_of_mergePatch_eq (h : document.mergePatch patch = document)
    (named : ObjectKey.ofDocument document = .ok key) : Absorbs document patch key :=
  ⟨by rwa [h], by rw [h]⟩

/-- Whether a patch is absorbed does not depend on the fields of the store. -/
theorem Absorbs.congr (absorbs : Absorbs document patch key) (ordered : document.Ordered)
    (ordered' : document'.Ordered) (hpatch : patch.Ordered) (named : ObjectKey.ofDocument document = .ok key)
    (named' : ObjectKey.ofDocument document' = .ok key) (same : unstamped document = unstamped document') :
    Absorbs document' patch key := by
  have hobject := isObject_of_patched absorbs.named
  have hsame := unstamped_mergePatch ordered ordered' hpatch hobject named named' absorbs.named same
  exact ⟨(ObjectKey.ofDocument_mergePatch_iff hpatch hobject named named').1 absorbs.named,
    hsame.symm.trans (absorbs.same.trans same)⟩

/-! ### What stands in a document -/

/-- A place that is neither in a field of the store nor on the way to one. -/
def Apart (names : List String) : Prop :=
  ∀ field ∈ serverFields, ¬ names <+: ["metadata", field] ∧ ¬ ["metadata", field] <+: names

instance (names : List String) : Decidable (Apart names) :=
  inferInstanceAs (Decidable (∀ field ∈ serverFields, _))

/-- Documents that agree but for the fields of the store have the same at every place that is apart from these. -/
theorem under?_eq_of_unstamped_eq (ordered : document.Ordered) (ordered' : document'.Ordered)
    (named : ObjectKey.ofDocument document = .ok key) (named' : ObjectKey.ofDocument document' = .ok key)
    (same : unstamped document = unstamped document') {names : List String} (apart : Apart names) :
    document.under? names = document'.under? names := by
  obtain ⟨fields, h⟩ := metadata_of_ofDocument named
  obtain ⟨fields', h'⟩ := metadata_of_ofDocument named'
  obtain ⟨outside, inside⟩ := (unstamped_eq_iff ordered ordered' h h').1 same
  obtain ⟨hshort, -⟩ := apart "uid" (by decide)
  cases names with
  | nil => exact absurd List.nil_prefix hshort
  | cons name names =>
      by_cases hname : name = "metadata"
      · subst hname
        cases names with
        | nil => exact absurd ⟨["uid"], rfl⟩ hshort
        | cons field names =>
            have hfield : field ∉ serverFields := fun hmem => (apart field hmem).2 ⟨names, rfl⟩
            have hbelow : ∀ {document : Document}, document.under? ("metadata" :: field :: names) =
                (metadata? document field).bind (·.under? names) := by
              intro document
              rw [Document.under?_cons, metadata?, Option.bind_assoc]
              simp only [Document.under?_cons]
            rw [hbelow, hbelow, inside field hfield]
      · rw [Document.under?_cons, Document.under?_cons, outside name hname]

/-- A document reflects a patch at the places that are apart from the fields of the store: what the patch sets stands
there, with all that is below it, where the patch has an object an object stands, and where it has null nothing stands,
and nothing below. -/
structure Reflects (document patch : Document) : Prop where
  set : ∀ names rest value, patch.under? names = some value → value.isObject = false → value ≠ .null →
    Apart (names ++ rest) → document.under? (names ++ rest) = value.under? rest
  object : ∀ names members, patch.under? names = some (.object members) → Apart names →
    ∃ members', document.under? names = some (.object members')
  gone : ∀ names rest, names ≠ [] → patch.under? names = some .null → Apart (names ++ rest) →
    document.under? (names ++ rest) = none

/-- A patch that is absorbed changes no place that is apart from the fields of the store. -/
theorem Absorbs.under?_mergePatch (absorbs : Absorbs document patch key) (ordered : document.Ordered)
    (hpatch : patch.Ordered) (named : ObjectKey.ofDocument document = .ok key) {names : List String}
    (apart : Apart names) : (document.mergePatch patch).under? names = document.under? names :=
  under?_eq_of_unstamped_eq (ordered.mergePatch hpatch) ordered absorbs.named named absorbs.same apart

/-- **A document that a patch does not change reflects the patch.** -/
theorem Absorbs.reflects (absorbs : Absorbs document patch key) (ordered : document.Ordered) (hpatch : patch.Ordered)
    (named : ObjectKey.ofDocument document = .ok key) : Reflects document patch where
  set names rest value hvalue hobject hnull apart := by
    rw [← absorbs.under?_mergePatch ordered hpatch named apart]
    exact Document.under?_mergePatch_of_value hpatch document hvalue hobject hnull rest
  object names members hobject apart := by
    rw [← absorbs.under?_mergePatch ordered hpatch named apart]
    exact Document.under?_mergePatch_of_object hpatch document hobject
  gone names rest hnames hnull apart := by
    rw [← absorbs.under?_mergePatch ordered hpatch named apart]
    exact Document.under?_mergePatch_of_null hpatch document hnames hnull rest

/-! ### Stored documents in order -/

theorem ordered_stampNew (ordered : document.Ordered) (now : String) (revision : Nat) :
    (stampNew now revision document).Ordered := by
  have metadata : (Document.object (metadata document)).Ordered := ordered.getD_null.members
  have version := metadata.insert "resourceVersion" (Document.ordered_string revision.repr)
  have uid := version.insert "uid" (Document.ordered_string (uid revision))
  have generation := uid.insert "generation" (Document.ordered_ofNat 1)
  exact ordered.members.insert "metadata" (generation.insert "creationTimestamp" (Document.ordered_string now))

theorem ordered_carry {members : Members} (ordered : (Document.object members).Ordered) {current : Document}
    (hcurrent : current.Ordered) (field : String) :
    (Document.object (carry field (metadata? current field) members)).Ordered := by
  cases hvalue : metadata? current field with
  | none => exact ordered
  | some value =>
      obtain ⟨metadata, hmetadata, hfield⟩ := Option.bind_eq_some_iff.1 hvalue
      exact ordered.insert field ((hcurrent.get? hmetadata).get? hfield)

theorem ordered_stampNext {current : Document} (hcurrent : current.Ordered) (ordered : document.Ordered)
    (revision : Nat) : (stampNext current revision document).Ordered := by
  have metadata : (Document.object (metadata document)).Ordered := ordered.getD_null.members
  have uid := ordered_carry metadata hcurrent "uid"
  have created := ordered_carry uid hcurrent "creationTimestamp"
  have generation := created.insert "generation"
    (Document.ordered_ofNat (((metadata? current "generation").bind Document.natural?).getD 0 + 1))
  exact ordered.members.insert "metadata"
    (generation.insert "resourceVersion" (Document.ordered_string revision.repr))

/-- All stored documents have their members in order. -/
def InOrder (store : MemoryStore) : Prop :=
  ∀ ⦃key document⦄, store.objects.get? key = some document → document.Ordered

namespace InOrder

variable {store : MemoryStore}

/-- What goes through leaves a document in order if its call brings one. -/
theorem ordered_of_commit (inOrder : InOrder store) {request : Request} (brought : request.call.Ordered)
    (h : Commit store request key (some document)) : document.Ordered := by
  cases h with
  | create named free => exact ordered_stampNew brought ..
  | update named found fresh => exact ordered_stampNext (inOrder found) brought _
  | patch named found fresh => exact ordered_stampNext (inOrder found) ((inOrder found).mergePatch brought) _

theorem step (inOrder : InOrder store) {request : Request} (brought : request.call.Ordered) :
    InOrder (store.step request) := by
  obtain ⟨key, left, hcommit⟩ | ⟨-, hidle⟩ := store.commit_or_idle request
  · intro other document hstored
    rw [hcommit.step_eq] at hstored
    obtain ⟨rfl, rfl⟩ | ⟨-, hold⟩ := of_get?_set hstored
    · exact inOrder.ordered_of_commit brought hcommit
    · exact inOrder hold
  · rwa [hidle]

theorem run (inOrder : InOrder store) {requests : List Request} (brought : ∀ request ∈ requests, request.call.Ordered) :
    InOrder (store.run requests) := by
  induction requests generalizing store with
  | nil => exact inOrder
  | cons request requests ih =>
      rw [List.forall_mem_cons] at brought
      exact ih (inOrder.step brought.1) brought.2

end InOrder

/-- **Stored documents have their members in order** if the documents that are brought do. -/
theorem inOrder_run {requests : List Request} (brought : ∀ request ∈ requests, request.call.Ordered) :
    InOrder (empty.run requests) := by
  have inOrder : InOrder empty := by
    intro key document hstored
    cases hstored
  exact inOrder.run brought

/-! ### Two patches -/

/-- The store after patches of one object, each of which succeeds. -/
def patchAll (store : MemoryStore) (key : ObjectKey) (patches : List Document) : Except StoreError MemoryStore :=
  patches.foldlM (fun store patch => (store.patch key patch).map (·.2)) store

/-- A patch without a version succeeds exactly if it keeps the key. -/
theorem patch_map_eq_ok_iff {store next : MemoryStore} (unversioned : Version.ofDocument? patch = none) :
    (store.patch key patch).map (·.2) = .ok next ↔
      ∃ current, store.objects.get? key = some current ∧
        ObjectKey.ofDocument (current.mergePatch patch) = .ok key ∧
        next = store.write key (stampNext current (store.revision + 1) (current.mergePatch patch)) := by
  have fresh : ∀ current, checkVersion key current patch = .ok () := by
    intro current
    rw [checkVersion, unversioned]
  simp only [map_eq_ok_iff, Prod.exists, patch_eq_ok_iff, fresh, true_and]
  constructor
  · rintro ⟨stored, _, ⟨current, found, named, rfl, rfl⟩, rfl⟩
    exact ⟨current, found, named, rfl⟩
  · rintro ⟨current, found, named, rfl⟩
    exact ⟨_, _, ⟨current, found, named, rfl, rfl⟩, rfl⟩

/-- What two patches make of a stored document, the second of what the first one leaves. -/
def patchedTwice (current : Document) (revision : Nat) (first second : Document) : Document :=
  let next := stampNext current (revision + 1) (current.mergePatch first)
  stampNext next (revision + 2) (next.mergePatch second)

section Two

variable {store : MemoryStore} {current first second : Document} {revision : Nat}

/-- Two patches without a version succeed exactly if each of them keeps the key of the document that is stored. -/
theorem patchAll_pair_eq_ok_iff (sound : Sound store) (ordered : second.Ordered) (hobject : second.isObject)
    (unversioned : Version.ofDocument? first = none) (unversioned' : Version.ofDocument? second = none)
    {final : MemoryStore} :
    store.patchAll key [first, second] = .ok final ↔
      ∃ current, store.objects.get? key = some current ∧
        ObjectKey.ofDocument (current.mergePatch first) = .ok key ∧
        ObjectKey.ofDocument (current.mergePatch second) = .ok key ∧
        final = ⟨store.objects.insert key (patchedTwice current store.revision first second), store.revision + 2⟩ := by
  have hsteps : store.patchAll key [first, second] = .ok final ↔
      ∃ next, (store.patch key first).map (·.2) = .ok next ∧ (next.patch key second).map (·.2) = .ok final := by
    simp only [patchAll, List.foldlM_cons, List.foldlM_nil, bind_eq_ok_iff, pure_eq_ok_iff, exists_eq_right]
  simp only [hsteps, patch_map_eq_ok_iff unversioned, patch_map_eq_ok_iff unversioned']
  constructor
  · rintro ⟨_, ⟨current, found, named, rfl⟩, next, hnext, named', rfl⟩
    cases (Table.get?_insert_self ..).symm.trans hnext
    have hnext := ofDocument_stampNext (store.revision + 1) current named
    have hkeeps := ObjectKey.ofDocument_mergePatch_iff ordered hobject hnext (sound.named found)
    refine ⟨current, found, named, hkeeps.1 named', ?_⟩
    simp only [write, Table.insert_insert]
    rfl
  · rintro ⟨current, found, named, named', rfl⟩
    have hnext := ofDocument_stampNext (store.revision + 1) current named
    have hkeeps := ObjectKey.ofDocument_mergePatch_iff ordered hobject hnext (sound.named found)
    refine ⟨_, ⟨current, found, named, rfl⟩, _, Table.get?_insert_self .., hkeeps.2 named', ?_⟩
    simp only [write, Table.insert_insert]
    rfl

/-- What two patches leave is, but for the fields of the store, what they make of the document that was stored. -/
theorem unstamped_patchedTwice (hcurrent : current.Ordered) (ordered : first.Ordered) (ordered' : second.Ordered)
    (hobject : second.isObject) (named : ObjectKey.ofDocument current = .ok key)
    (patched : ObjectKey.ofDocument (current.mergePatch first) = .ok key)
    (patched' : ObjectKey.ofDocument (current.mergePatch second) = .ok key) :
    ObjectKey.ofDocument ((current.mergePatch first).mergePatch second) = .ok key ∧
      ObjectKey.ofDocument (patchedTwice current revision first second) = .ok key ∧
      (patchedTwice current revision first second).Ordered ∧
      unstamped (patchedTwice current revision first second) =
        unstamped ((current.mergePatch first).mergePatch second) := by
  have hfirst := hcurrent.mergePatch ordered
  have hnext := ordered_stampNext hcurrent hfirst (revision + 1)
  have hnamed := ofDocument_stampNext (revision + 1) current patched
  have hkeeps := (ObjectKey.ofDocument_mergePatch_iff ordered' hobject named patched).1 patched'
  have hnext' := (ObjectKey.ofDocument_mergePatch_iff ordered' hobject named hnamed).1 patched'
  refine ⟨hkeeps, ofDocument_stampNext _ _ hnext', ordered_stampNext hnext (hnext.mergePatch ordered') _, ?_⟩
  -- The second patch is of a document that is stamped, which the rest of its result does not show.
  have hsame := unstamped_mergePatch hnext hfirst ordered' hobject hnamed patched hnext'
    (unstamped_stampNext _ _ patched)
  exact (unstamped_stampNext _ _ hnext').trans hsame

variable (independent : first.Independent second) (ordered : first.Ordered) (ordered' : second.Ordered)
include independent ordered ordered'

/-- Two independent patches leave the same document in either order. -/
theorem patchedTwice_comm {uid created : Document} {generation version : Nat}
    (hcurrent : current.Ordered) (named : ObjectKey.ofDocument current = .ok key)
    (stamped : Stamped current uid created generation version)
    (patched : ObjectKey.ofDocument (current.mergePatch first) = .ok key)
    (patched' : ObjectKey.ofDocument (current.mergePatch second) = .ok key) :
    patchedTwice current revision first second = patchedTwice current revision second first := by
  obtain ⟨hobject, hobject'⟩ := independent.isObject
  obtain ⟨-, hnamed, hordered, hrest⟩ :=
    unstamped_patchedTwice hcurrent ordered ordered' hobject' named patched patched'
  obtain ⟨-, hnamed', hordered', hrest'⟩ :=
    unstamped_patchedTwice hcurrent ordered' ordered hobject named patched' patched
  have hcomm := independent.mergePatch_comm hcurrent ordered ordered'
  refine Stamped.eq hordered hordered' hnamed hnamed' ((stamped.stampNext _ _).stampNext _ _)
    ((stamped.stampNext _ _).stampNext _ _) ?_
  rw [hrest, hrest', hcomm]

/-- What two independent patches leave already has what either of them says. -/
theorem absorbs_patchedTwice (hcurrent : current.Ordered) (named : ObjectKey.ofDocument current = .ok key)
    (patched : ObjectKey.ofDocument (current.mergePatch first) = .ok key)
    (patched' : ObjectKey.ofDocument (current.mergePatch second) = .ok key) :
    let last := patchedTwice current revision first second
    Absorbs last first key ∧ Absorbs last second key := by
  intro last
  obtain ⟨hobject, hobject'⟩ := independent.isObject
  obtain ⟨htwice, hnamed, hordered, hrest⟩ :=
    unstamped_patchedTwice hcurrent ordered ordered' hobject' named patched patched'
  have hcomm := independent.mergePatch_comm hcurrent ordered ordered'
  have hmerged := (hcurrent.mergePatch ordered).mergePatch ordered'
  have hfirst : Absorbs ((current.mergePatch first).mergePatch second) first key := by
    refine absorbs_of_mergePatch_eq ?_ htwice
    rw [hcomm]
    exact Document.mergePatch_mergePatch (hcurrent.mergePatch ordered') ordered
  have hsecond : Absorbs ((current.mergePatch first).mergePatch second) second key :=
    absorbs_of_mergePatch_eq (Document.mergePatch_mergePatch (hcurrent.mergePatch ordered) ordered') htwice
  exact ⟨hfirst.congr hmerged hordered ordered htwice hnamed hrest.symm,
    hsecond.congr hmerged hordered ordered' htwice hnamed hrest.symm⟩

end Two

/-- **Independent patches may be sent in either order.** Take two patches without a version that say nothing of the
same place. In every state that the store reaches, both succeed one after the other exactly if they do the other way
round, and then the store is the same in the end. What it holds then is, but for the fields of the store, what both
make of the document that was there. To send either of them again would change no other field, so the change of neither
is lost: at every place apart from the fields of the store, what either of them sets stands there, what either of them
nulls is gone, and what neither of them speaks of is as it was. -/
theorem independent_patches_commute {requests : List Request} (brought : ∀ request ∈ requests, request.call.Ordered)
    (key : ObjectKey) {first second : Document} (ordered : first.Ordered) (ordered' : second.Ordered)
    (independent : first.Independent second) (unversioned : Version.ofDocument? first = none)
    (unversioned' : Version.ofDocument? second = none) :
    let store := empty.run requests
    (∀ final, store.patchAll key [first, second] = .ok final ↔ store.patchAll key [second, first] = .ok final) ∧
      ∀ final, store.patchAll key [first, second] = .ok final →
        ∃ current last, store.objects.get? key = some current ∧ final.objects.get? key = some last ∧
          unstamped last = unstamped ((current.mergePatch first).mergePatch second) ∧
          unstamped (last.mergePatch first) = unstamped last ∧
          unstamped (last.mergePatch second) = unstamped last ∧
          Reflects last first ∧ Reflects last second ∧
          ∀ names, Apart names → first.Silent names → second.Silent names →
            last.under? names = current.under? names := by
  intro store
  have sound : Sound store := sound_run requests
  have inOrder : InOrder store := inOrder_run brought
  obtain ⟨hobject, hobject'⟩ := independent.isObject
  have hpair : ∀ {final}, store.patchAll key [first, second] = .ok final ↔ _ :=
    patchAll_pair_eq_ok_iff sound ordered' hobject' unversioned unversioned'
  have hpair' : ∀ {final}, store.patchAll key [second, first] = .ok final ↔ _ :=
    patchAll_pair_eq_ok_iff sound ordered hobject unversioned' unversioned
  have hcomm : ∀ current, store.objects.get? key = some current →
      ObjectKey.ofDocument (current.mergePatch first) = .ok key →
      ObjectKey.ofDocument (current.mergePatch second) = .ok key →
      patchedTwice current store.revision first second = patchedTwice current store.revision second first := by
    intro current found patched patched'
    obtain ⟨birth, version, kept, -⟩ := sound.kept found
    obtain ⟨created, generation, stamped⟩ := kept.stamped
    exact patchedTwice_comm independent ordered ordered' (inOrder found) (sound.named found) stamped patched patched'
  refine ⟨fun final => ?_, fun final hfinal => ?_⟩
  · rw [hpair, hpair']
    constructor
    · rintro ⟨current, found, patched, patched', rfl⟩
      exact ⟨current, found, patched', patched, by rw [hcomm current found patched patched']⟩
    · rintro ⟨current, found, patched', patched, rfl⟩
      exact ⟨current, found, patched, patched', by rw [hcomm current found patched patched']⟩
  · obtain ⟨current, found, patched, patched', rfl⟩ := hpair.1 hfinal
    have hcurrent : current.Ordered := inOrder found
    obtain ⟨htwice, hnamed, hordered, hrest⟩ :=
      unstamped_patchedTwice hcurrent ordered ordered' hobject' (sound.named found) patched patched'
    obtain ⟨absorbs, absorbs'⟩ :=
      absorbs_patchedTwice independent ordered ordered' hcurrent (sound.named found) patched patched'
    refine ⟨current, _, found, Table.get?_insert_self .., hrest, absorbs.same, absorbs'.same,
      absorbs.reflects hordered ordered hnamed, absorbs'.reflects hordered ordered' hnamed, ?_⟩
    intro names apart silent silent'
    have hmerged := (hcurrent.mergePatch ordered).mergePatch ordered'
    rw [under?_eq_of_unstamped_eq hordered hmerged hnamed htwice hrest apart, silent'.under?_mergePatch ordered',
      silent.under?_mergePatch ordered]

/-- Two clients patch the metadata of an object: one removes a label, and also the unique name; the other one adds a
label, and gives a generation of its own. -/
theorem independent_patches_commute_in_metadata :
    let labels : Document := .ofEntries [("app", .string "web"), ("tier", .string "back")]
    let requests := [atNoon (.create (configMap "a" [("labels", labels)]))]
    let first := Document.object [("metadata", .object [("labels", .object [("tier", .null)]), ("uid", .null)])]
    let second := Document.object
      [("metadata", .object [("generation", .string "9"), ("labels", .object [("zone", .string "b")])])]
    let store := empty.run requests
    (∀ request ∈ requests, request.call.Ordered) ∧ first.Ordered ∧ second.Ordered ∧ first.Independent second ∧
      Version.ofDocument? first = none ∧ Version.ofDocument? second = none ∧
      ∃ final, store.patchAll (configMapKey "a") [first, second] = .ok final ∧
        store.patchAll (configMapKey "a") [second, first] = .ok final ∧
        ∃ last, final.objects.get? (configMapKey "a") = some last ∧
          unstamped (last.mergePatch first) = unstamped last ∧
          unstamped (last.mergePatch second) = unstamped last ∧
          last.under? ["metadata", "labels", "tier"] = none ∧
          last.under? ["metadata", "labels", "zone"] = some (.string "b") ∧
          last.under? ["metadata", "labels", "app"] = some (.string "web") := by
  intro labels requests first second store
  have brought : ∀ request ∈ requests, request.call.Ordered := by
    intro request hrequest
    obtain rfl := List.mem_singleton.1 hrequest
    show (configMap "a" [("labels", labels)]).Ordered
    decide +kernel
  have ordered : first.Ordered := by decide +kernel
  have ordered' : second.Ordered := by decide +kernel
  have independent : first.Independent second := by
    refine .objects_of_mem fun member hmember other hother _ => ?_
    obtain rfl := List.mem_singleton.1 hmember
    obtain rfl := List.mem_singleton.1 hother
    refine .objects_of_mem fun member hmember other hother hname => ?_
    obtain rfl | rfl := List.mem_pair.1 hmember <;> obtain rfl | rfl := List.mem_pair.1 hother
    · exact absurd hname (by decide)
    · refine .objects_of_mem fun member hmember other hother hname => ?_
      obtain rfl := List.mem_singleton.1 hmember
      obtain rfl := List.mem_singleton.1 hother
      exact absurd hname (by decide)
    · exact absurd hname (by decide)
    · exact absurd hname (by decide)
  have unversioned : Version.ofDocument? first = none := by decide +kernel
  have unversioned' : Version.ofDocument? second = none := by decide +kernel
  obtain ⟨final, hfinal⟩ : ∃ final, store.patchAll (configMapKey "a") [first, second] = .ok final := by
    have hok : (store.patchAll (configMapKey "a") [first, second]).isOk := by decide +kernel
    cases h : store.patchAll (configMapKey "a") [first, second] with
    | error e =>
        rw [h] at hok
        cases hok
    | ok final => exact ⟨final, rfl⟩
  obtain ⟨hcomm, hkept⟩ :=
    independent_patches_commute brought (configMapKey "a") ordered ordered' independent unversioned unversioned'
  obtain ⟨current, last, hcurrent, hlast, -, hagain, hagain', hfirst, hsecond, hsilent⟩ := hkept final hfinal
  have hsame : last.under? ["metadata", "labels", "app"] = current.under? ["metadata", "labels", "app"] :=
    hsilent _ (by decide) ⟨["metadata", "labels"], "app", [], _, rfl, rfl, rfl⟩
      ⟨["metadata", "labels"], "app", [], _, rfl, rfl, rfl⟩
  have happ : (store.objects.get? (configMapKey "a")).bind (·.under? ["metadata", "labels", "app"]) =
      some (.string "web") := by decide +kernel
  rw [hcurrent, Option.bind_some] at happ
  exact ⟨brought, ordered, ordered', independent, unversioned, unversioned', final, hfinal, (hcomm final).1 hfinal,
    last, hlast, hagain, hagain', hfirst.gone ["metadata", "labels", "tier"] [] (by decide) rfl (by decide),
    hsecond.set ["metadata", "labels", "zone"] [] _ rfl rfl (by decide) (by decide), hsame.trans happ⟩

end MemoryStore

end Converge
