import Converge.Store.Memory

/-!
# What a stamp changes, and what it leaves alone

The store writes four fields of the metadata itself. Both ways of stamping, `stampNew` and `stampNext`, are
changes of the metadata that touch no other field; this one property (`Stamps`) carries everything else:
the rest of the document stays, and so does its key.

## Main Definitions

* `serverFields` — the fields that the store sets itself.
* `unstamped` — a document without them.
* `Stamps` — a change of the metadata that touches no other field.
* `Stamped` — a document that carries the fields, with their values.

## Main Statements

* `unstamped_stampNew`, `unstamped_stampNext` — the rest of the document stays.
* `ofDocument_stampNew`, `ofDocument_stampNext` — the key stays.
* `stamped_stampNew`, `Stamped.stampNext` — what the four fields are.
* `version_unique`, `birth_unique` — the counts can be read off the fields.
-/

namespace Converge.MemoryStore

/-! ### Metadata -/

/-- The members of a document's metadata. -/
def metadata (document : Document) : Members := ((document.get? "metadata").getD .null).members

theorem metadata?_eq_lookup (document : Document) (field : String) :
    metadata? document field = (metadata document).lookup field := by
  unfold metadata? metadata
  cases document.get? "metadata" <;> rfl

/-- Members outside the metadata stay. -/
theorem get?_withMetadata_of_ne {name : String} (h : name ≠ "metadata") (change : Members → Members)
    (document : Document) : (withMetadata change document).get? name = document.get? name :=
  Members.lookup_insert_of_ne h _ _

theorem get?_withMetadata (change : Members → Members) (document : Document) :
    (withMetadata change document).get? "metadata" = some (.object (change (metadata document))) :=
  Members.lookup_insert_self _ _ _

@[simp] theorem metadata_withMetadata (change : Members → Members) (document : Document) :
    metadata (withMetadata change document) = change (metadata document) := by
  rw [metadata, get?_withMetadata]
  rfl

@[simp] theorem metadata?_withMetadata (change : Members → Members) (document : Document)
    (field : String) :
    metadata? (withMetadata change document) field = (change (metadata document)).lookup field := by
  rw [metadata?_eq_lookup, metadata_withMetadata]

/-- The type of a document stays. -/
theorem type_withMetadata (change : Members → Members) {document : Document}
    (hobject : document.isObject) :
    ResourceType.ofDocument (withMetadata change document) = ResourceType.ofDocument document := by
  have hstamped : (withMetadata change document).isObject := rfl
  unfold ResourceType.ofDocument
  rw [get?_withMetadata_of_ne (by decide), get?_withMetadata_of_ne (by decide), hobject, hstamped]
  rfl

/-- A document that states a key has an object as metadata. -/
theorem metadata_of_ofDocument {document : Document} {key : ObjectKey}
    (named : ObjectKey.ofDocument document = .ok key) :
    ∃ fields, document.get? "metadata" = some (.object fields) := by
  unfold ObjectKey.ofDocument at named
  cases htype : ResourceType.ofDocument document with
  | error e => simp [htype, Except.bind] at named
  | ok type =>
      cases hmeta : document.get? "metadata" with
      | none => simp [htype, hmeta, Except.bind] at named
      | some value =>
          rw [htype, hmeta] at named
          cases value with
          | object fields => exact ⟨fields, rfl⟩
          | _ => cases named

theorem metadata_eq {document : Document} {fields : Members}
    (h : document.get? "metadata" = some (.object fields)) : metadata document = fields := by
  rw [metadata, h]
  rfl

/-! ### Fields of the store -/

/-- The fields of the metadata that the store sets itself. -/
def serverFields : List String := ["uid", "creationTimestamp", "generation", "resourceVersion"]

/-- A document without the fields that the store sets itself. A document whose metadata are no object has
none of them. -/
def unstamped (document : Document) : Document :=
  match document.get? "metadata" with
  | some (.object fields) =>
      .object (document.members.insert "metadata" (.object (Members.without serverFields fields)))
  | _ => document

/-- A change of the metadata that touches the fields of the store only. -/
def Stamps (change : Members → Members) : Prop :=
  ∀ members, (change members).without serverFields = members.without serverFields

namespace Stamps

variable {change : Members → Members}

/-- Any other field keeps its value. -/
theorem lookup_eq (h : Stamps change) {field : String} (hfield : field ∉ serverFields)
    (members : Members) : (change members).lookup field = members.lookup field := by
  rw [← Members.lookup_without hfield, h members, Members.lookup_without hfield]

theorem insert (h : Stamps change) (field : String) (value : Document) (hfield : field ∈ serverFields) :
    Stamps fun members => (change members).insert field value :=
  fun members => (Members.without_insert hfield value _).trans (h members)

theorem carry (h : Stamps change) (field : String) (value : Option Document)
    (hfield : field ∈ serverFields) : Stamps fun members => carry field value (change members) := by
  cases value with
  | none => exact h
  | some value => exact h.insert field value hfield

/-- The rest of the document stays. -/
theorem unstamped_withMetadata (h : Stamps change) {document : Document} {key : ObjectKey}
    (named : ObjectKey.ofDocument document = .ok key) :
    unstamped (withMetadata change document) = unstamped document := by
  obtain ⟨fields, hfields⟩ := metadata_of_ofDocument named
  have hmeta := metadata_eq hfields
  have hmembers : (withMetadata change document).members =
      document.members.insert "metadata" (.object (change fields)) := by
    rw [← hmeta]
    rfl
  simp only [unstamped, get?_withMetadata, hmeta, hfields, hmembers, h fields, Members.insert_insert]

/-- The key of a document stays: neither the name nor the namespace is a field of the store. -/
theorem ofDocument_withMetadata (h : Stamps change) {document : Document} {key : ObjectKey}
    (named : ObjectKey.ofDocument document = .ok key) :
    ObjectKey.ofDocument (withMetadata change document) = .ok key := by
  have hobject : document.isObject := by
    cases hno : document.isObject with
    | true => rfl
    | false => simp [ObjectKey.ofDocument, ResourceType.ofDocument, hno, Except.bind] at named
  obtain ⟨fields, hfields⟩ := metadata_of_ofDocument named
  have hmeta := metadata_eq hfields
  have hfield : ∀ field ∉ serverFields,
      (Document.object (change fields)).get? field = (Document.object fields).get? field :=
    fun field hfield => h.lookup_eq hfield fields
  rw [← named]
  unfold ObjectKey.ofDocument
  rw [type_withMetadata change hobject, get?_withMetadata, hmeta, hfields]
  simp only [hfield "name" (by decide), hfield "namespace" (by decide)]

end Stamps

/-! ### The two stamps -/

/-- A document carries the fields of the store, with these values. -/
structure Stamped (document uid created : Document) (generation version : Nat) : Prop where
  uid : metadata? document "uid" = some uid
  created : metadata? document "creationTimestamp" = some created
  generation : metadata? document "generation" = some (Document.ofNat generation)
  version : metadata? document "resourceVersion" = some (.string version.repr)

section Stamping

variable (now : String) (revision : Nat) (current document : Document)

theorem stamps_stampNew :
    ∃ change, Stamps change ∧ stampNew now revision document = withMetadata change document := by
  have unchanged : Stamps id := fun _ => rfl
  have version := unchanged.insert "resourceVersion" (.string revision.repr) (by decide)
  have uid := version.insert "uid" (.string (uid revision)) (by decide)
  have generation := uid.insert "generation" (Document.ofNat 1) (by decide)
  exact ⟨_, generation.insert "creationTimestamp" (.string now) (by decide), rfl⟩

theorem stamps_stampNext :
    ∃ change, Stamps change ∧
      stampNext current revision document = withMetadata change document := by
  have unchanged : Stamps id := fun _ => rfl
  have uid := unchanged.carry "uid" (metadata? current "uid") (by decide)
  have created := uid.carry "creationTimestamp" (metadata? current "creationTimestamp") (by decide)
  have generation := created.insert "generation"
    (Document.ofNat (((metadata? current "generation").bind Document.natural?).getD 0 + 1)) (by decide)
  exact ⟨_, generation.insert "resourceVersion" (.string revision.repr) (by decide), rfl⟩

variable {document} {key : ObjectKey} (named : ObjectKey.ofDocument document = .ok key)
include named

/-- A new object keeps all of its document but the fields of the store. -/
theorem unstamped_stampNew : unstamped (stampNew now revision document) = unstamped document := by
  obtain ⟨change, stamps, heq⟩ := stamps_stampNew now revision document
  rw [heq, stamps.unstamped_withMetadata named]

/-- A changed object keeps all of its next document but the fields of the store. -/
theorem unstamped_stampNext :
    unstamped (stampNext current revision document) = unstamped document := by
  obtain ⟨change, stamps, heq⟩ := stamps_stampNext revision current document
  rw [heq, stamps.unstamped_withMetadata named]

theorem ofDocument_stampNew : ObjectKey.ofDocument (stampNew now revision document) = .ok key := by
  obtain ⟨change, stamps, heq⟩ := stamps_stampNew now revision document
  rw [heq, stamps.ofDocument_withMetadata named]

theorem ofDocument_stampNext :
    ObjectKey.ofDocument (stampNext current revision document) = .ok key := by
  obtain ⟨change, stamps, heq⟩ := stamps_stampNext revision current document
  rw [heq, stamps.ofDocument_withMetadata named]

omit named
variable (document) {current}

/-- A new object has the unique name of its write, is of the first generation, and its version is the
count of the write. -/
theorem stamped_stampNew :
    Stamped (stampNew now revision document) (.string (uid revision)) (.string now) 1 revision := by
  constructor <;>
    simp (disch := decide) only [stampNew, metadata?_withMetadata, Members.lookup_insert_self,
      Members.lookup_insert_of_ne]

/-- A changed object keeps its unique name and its time of creation, whatever the next document says. -/
theorem Stamped.stampNext {uid created : Document} {generation version : Nat}
    (h : Stamped current uid created generation version) :
    Stamped (stampNext current revision document) uid created (generation + 1) revision := by
  obtain ⟨huid, hcreated, hgeneration, -⟩ := h
  have hnumber : ((metadata? current "generation").bind Document.natural?).getD 0 = generation := by
    rw [hgeneration]
    rfl
  constructor <;>
    simp (disch := decide) only [MemoryStore.stampNext, metadata?_withMetadata, huid, hcreated, hnumber,
      carry, Members.lookup_insert_self, Members.lookup_insert_of_ne]

/-- The version of a changed object is the count of the write, whatever the object was. -/
theorem metadata?_stampNext_version :
    metadata? (MemoryStore.stampNext current revision document) "resourceVersion" =
      some (.string revision.repr) := by
  simp only [MemoryStore.stampNext, metadata?_withMetadata, Members.lookup_insert_self]

end Stamping

/-- The version of a stamped document is its count. -/
theorem Stamped.version_ofDocument? {document uid created : Document} {generation version : Nat}
    (h : Stamped document uid created generation version) :
    Version.ofDocument? document = some ⟨version.repr⟩ := by
  have hversion := h.version
  unfold metadata? at hversion
  simp [Version.ofDocument?, hversion]

/-! ### Counts that are written out -/

/-- The digits of a unique name, in front of which zeros may stand, read back as the count. -/
theorem decimalValue_drop_uid (n : Nat) : Chars.decimalValue ((uid n).toList.drop 4) = n := by
  have htext : (uid n).toList =
      "mem-".toList ++ (List.replicate (12 - n.repr.toList.length) '0' ++ n.repr.toList) := by
    simp only [uid, String.toList_append, String.toList_ofList]
  rw [htext, List.drop_left' (by decide), Chars.decimalValue_replicate_append, Chars.decimalValue_repr]

/-- Different counts give different unique names. -/
theorem uid_injective {m n : Nat} (h : uid m = uid n) : m = n := by
  rw [← decimalValue_drop_uid m, h, decimalValue_drop_uid]

/-- A document has one version. -/
theorem version_unique {document : Document} {m n : Nat}
    (hm : metadata? document "resourceVersion" = some (.string m.repr))
    (hn : metadata? document "resourceVersion" = some (.string n.repr)) : m = n :=
  Chars.repr_injective (Document.string.inj (Option.some.inj (hm.symm.trans hn)))

/-- A document has one unique name. -/
theorem birth_unique {document : Document} {m n : Nat}
    (hm : metadata? document "uid" = some (.string (uid m)))
    (hn : metadata? document "uid" = some (.string (uid n))) : m = n :=
  uid_injective (Document.string.inj (Option.some.inj (hm.symm.trans hn)))

end Converge.MemoryStore
