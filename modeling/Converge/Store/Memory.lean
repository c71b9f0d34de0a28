import Converge.Document.MergePatch
import Converge.Store.Basic
import Converge.Version

/-!
# A store in memory

The store counts its writes and stamps each stored object with the count as its version. It gives an object
its unique name, its time of creation and its generation, and keeps them over all later writes. A write that
carries a version only applies on top of exactly that version.

## Main Definitions

* `MemoryStore` — objects in order of creation, and the count of writes.
* `MemoryStore.get`, `create`, `update`, `patch`, `delete`, `list` — the operations.
* `MemoryStore.answer` — the operation of a call, which a cancelled context keeps from happening.
* `MemoryStore.objectStore` — the store as one that is called through contexts.
-/

namespace Converge

/-- Objects under their keys, in order of creation, and the count of writes so far. -/
structure MemoryStore where
  objects : Table ObjectKey Document
  revision : Nat

namespace MemoryStore

/-- The store without objects. -/
def empty : MemoryStore := ⟨Table.empty, 0⟩

/-! ### Stamping -/

/-- A document with its metadata changed; what is no object is replaced by one. -/
def withMetadata (change : Members → Members) (document : Document) : Document :=
  .object (document.members.insert "metadata" (.object (change ((document.get? "metadata").getD .null).members)))

/-- The unique name given by a write: its count in twelve digits. -/
def uid (revision : Nat) : String :=
  let digits := revision.repr.toList
  "mem-" ++ String.ofList (List.replicate (12 - digits.length) '0' ++ digits)

/-- A new object as it is stored. -/
def stampNew (now : String) (revision : Nat) (document : Document) : Document :=
  withMetadata (fun metadata =>
    (((metadata.insert "resourceVersion" (.string revision.repr)).insert "uid" (.string (uid revision))).insert
      "generation" (Document.ofNat 1)).insert "creationTimestamp" (.string now)) document

/-- A field of the metadata of a document. -/
def metadata? (document : Document) (field : String) : Option Document :=
  (document.get? "metadata").bind (·.get? field)

/-- Sets a field to a value, if there is one. -/
def carry (field : String) (value : Option Document) (metadata : Members) : Members :=
  match value with
  | some value => metadata.insert field value
  | none => metadata

/-- The next state of a stored object as it is stored: the unique name and the time of creation stay, the
generation goes up by one. -/
def stampNext (current : Document) (revision : Nat) (next : Document) : Document :=
  let generation := ((metadata? current "generation").bind Document.natural?).getD 0 + 1
  withMetadata (fun metadata =>
    ((carry "creationTimestamp" (metadata? current "creationTimestamp")
      (carry "uid" (metadata? current "uid") metadata)).insert "generation" (Document.ofNat generation)).insert
      "resourceVersion" (.string revision.repr)) next

/-- A write that carries a version applies only on top of that version. -/
def checkVersion (key : ObjectKey) (current incoming : Document) : Except StoreError Unit :=
  match Version.ofDocument? incoming with
  | none => .ok ()
  | some expected =>
      let actual := Version.ofDocument? current
      if actual = some expected then .ok ()
      else .error (.conflict key ("object has been modified (expected version " ++ expected.text ++ ", found "
        ++ ((actual.map Version.text).getD "none") ++ ")"))

/-! ### Operations -/

/-- The object under a key. -/
def find (store : MemoryStore) (key : ObjectKey) : Except StoreError Document :=
  match store.objects.get? key with
  | some document => .ok document
  | none => .error (.notFound key)

/-- The store after a write of an object. -/
def write (store : MemoryStore) (key : ObjectKey) (document : Document) : MemoryStore :=
  ⟨store.objects.insert key document, store.revision + 1⟩

/-- Creates an object; its key must be free. -/
def create (now : String) (document : Document) (store : MemoryStore) :
    Except StoreError (Document × MemoryStore) := do
  let key ← ObjectStore.keyOf document
  if store.objects.contains key then throw (.alreadyExists key)
  let stored := stampNew now (store.revision + 1) document
  return (stored, store.write key stored)

/-- The store with objects that were created from documents. -/
def ofDocuments (now : String) (documents : List Document) : Except StoreError MemoryStore :=
  documents.foldlM (fun store document => (store.create now document).map (·.2)) empty

/-- Replaces an object by a document of the same key. -/
def update (document : Document) (store : MemoryStore) : Except StoreError (Document × MemoryStore) := do
  let key ← ObjectStore.keyOf document
  let current ← store.find key
  checkVersion key current document
  let stored := stampNext current (store.revision + 1) document
  return (stored, store.write key stored)

/-- Patches an object; the patch may not change its key. -/
def patch (key : ObjectKey) (patch : Document) (store : MemoryStore) :
    Except StoreError (Document × MemoryStore) := do
  let current ← store.find key
  -- The version is the one that the patch carries, so it is tested before the patch is merged.
  checkVersion key current patch
  let patched := current.mergePatch patch
  if (← ObjectStore.keyOf patched) ≠ key then
    throw (.invalid ("patch for " ++ key.display ++ " changes the object's identity"))
  let stored := stampNext current (store.revision + 1) patched
  return (stored, store.write key stored)

/-- Removes an object. -/
def delete (key : ObjectKey) (store : MemoryStore) : Except StoreError MemoryStore :=
  if store.objects.contains key then .ok ⟨store.objects.erase key, store.revision + 1⟩
  else .error (.notFound key)

/-- All objects that a selector picks, in order of creation. -/
def list (store : MemoryStore) (selector : Selector) : List Document :=
  store.objects.values.filter selector.accepts

/-- An operation that may write: its answer, and the store it leaves behind. A failure changes nothing. -/
def settle {α : Type} (store : MemoryStore) (outcome : Except StoreError (α × MemoryStore)) :
    Except StoreError α × MemoryStore :=
  match outcome with
  | .ok (answer, next) => (.ok answer, next)
  | .error e => (.error e, store)

/-- The operation of a call at a time of the clock. With a cancelled context nothing happens. -/
def answer (cancelled : Bool) (now : String) (store : MemoryStore) (c : StoreCall) :
    Except StoreError c.Answer × MemoryStore :=
  if cancelled then (.error .cancelled, store)
  else match c with
    | .get key => (store.find key, store)
    | .create document => store.settle (store.create now document)
    | .update document => store.settle (store.update document)
    | .patch key patch => store.settle (store.patch key patch)
    | .delete key => store.settle ((store.delete key).map fun next => ((), next))
    | .list selector => (.ok (store.list selector), store)

/-- A store in memory, the contexts through which it is called, and the time of the clock. -/
structure World where
  memory : MemoryStore
  contexts : Cancellations
  now : String

/-- The store in memory as a store. -/
def objectStore : ObjectStore World where
  call context c world :=
    let (answer, memory) := world.memory.answer (world.contexts.isCancelled context) world.now c
    (answer, { world with memory := memory })

end MemoryStore

end Converge
