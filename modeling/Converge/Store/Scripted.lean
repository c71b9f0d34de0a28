import Converge.Store.Memory

/-!
# A store that lags and fails by a script

A store in memory whose reads go on showing the state before a write for a while, and whose answers may be
replaced one by one. It stands for the stores that waiting is made for.

## Main Definitions

* `ScriptedAnswer` — what happens to a call.
* `ScriptedStore` — the store in memory, its script, and what reads still show.
* `ScriptedStore.objectStore` — the store as one that is called through contexts.

## Design Notes

Each read takes the next answer of the script for reads, each write the next of that for writes; a list is
never replaced. A write that is let through first remembers, for its key, the object as it was
and for how many reads it is still to be shown.
-/

namespace Converge

/-- What happens to a call: it is let through; it is answered without the store; or its context is cancelled
before it is let through. -/
inductive ScriptedAnswer where
  | pass
  | notFound
  | fail (error : StoreError)
  | answer (document : Document)
  | cancel

/-- An object that reads still show, or that there is none, and for how many reads. -/
structure Delayed where
  document : Option Document
  reads : Nat

/-- A store in memory with its script. -/
structure ScriptedStore where
  world : MemoryStore.World
  /-- What happens to the next reads. -/
  reads : List ScriptedAnswer
  /-- What happens to the reads after those. -/
  laterReads : ScriptedAnswer
  /-- What happens to the next writes. -/
  writes : List ScriptedAnswer
  /-- For how many reads a write stays unseen. -/
  lag : Nat
  /-- For how many reads more, for some keys. -/
  slower : Table ObjectKey Nat
  /-- What reads still show. -/
  delayed : Table ObjectKey Delayed

namespace ScriptedStore

/-- A store without a script. -/
def ofWorld (world : MemoryStore.World) : ScriptedStore :=
  ⟨world, [], .pass, [], 0, Table.empty, Table.empty⟩

/-- An answer made of a document. A deletion answers nothing. -/
def answerWith (document : Document) : (c : StoreCall) → c.Answer
  | .get _ | .create _ | .update _ | .patch _ _ => document
  | .delete _ => ()
  | .list _ => [document]

/-- Calls the store in memory. -/
def callMemory (context : Context) (c : StoreCall) (store : ScriptedStore) :
    Except StoreError c.Answer × ScriptedStore :=
  let (answer, world) := MemoryStore.objectStore.call context c store.world
  (answer, { store with world := world })

/-- The object as it is stored; none if the context is cancelled. -/
def current (context : Context) (key : ObjectKey) (store : ScriptedStore) : Option Document :=
  if store.world.contexts.isCancelled context then none else store.world.memory.objects.get? key

/-- Remembers the object under a key as what reads still show. -/
def remember (context : Context) (key : ObjectKey) (store : ScriptedStore) : ScriptedStore :=
  { store with
    delayed := store.delayed.insert key
      ⟨store.current context key, store.lag + (store.slower.get? key).getD 0⟩ }

/-- Lets a write through. -/
def write (context : Context) (c : StoreCall) (store : ScriptedStore) :
    Except StoreError c.Answer × ScriptedStore :=
  match c.key? with
  | some key => (store.remember context key).callMemory context c
  | none => store.callMemory context c

/-- Lets a read through: it shows what was remembered as often as that is due, then the store. -/
def read (context : Context) (key : ObjectKey) (store : ScriptedStore) :
    Except StoreError Document × ScriptedStore :=
  match store.delayed.get? key with
  -- What was remembered is shown even through a cancelled context: the store is not asked.
  | some ⟨document, reads + 1⟩ =>
      let store := { store with delayed := store.delayed.insert key ⟨document, reads⟩ }
      match document with
      | some document => (.ok document, store)
      | none => (.error (.notFound key), store)
  | _ => store.callMemory context (.get key)

/-- Lets a call through. -/
def pass (context : Context) (c : StoreCall) (store : ScriptedStore) :
    Except StoreError c.Answer × ScriptedStore :=
  match c with
  | .get key => store.read context key
  | .list selector => store.callMemory context (.list selector)
  | c => store.write context c

/-- The next answer of the script for a call. -/
def next (c : StoreCall) (store : ScriptedStore) : ScriptedAnswer × ScriptedStore :=
  match c with
  | .list _ => (.pass, store)
  | .get _ =>
      match store.reads with
      | answer :: rest => (answer, { store with reads := rest })
      | [] => (store.laterReads, store)
  | _ =>
      match store.writes with
      | answer :: rest => (answer, { store with writes := rest })
      | [] => (.pass, store)

/-- Answers a call as the script says. -/
def follow (context : Context) (c : StoreCall) (answer : ScriptedAnswer) (store : ScriptedStore) :
    Except StoreError c.Answer × ScriptedStore :=
  match answer with
  | .pass => store.pass context c
  | .notFound =>
      match c.key? with
      | some key => (.error (.notFound key), store)
      | none => store.pass context c
  | .fail error => (.error error, store)
  | .answer document => (.ok (answerWith document c), store)
  | .cancel =>
      let world := { store.world with contexts := store.world.contexts.cancel context }
      pass context c { store with world := world }

/-- The store as one that is called through contexts. -/
def objectStore : ObjectStore ScriptedStore where
  call context c store :=
    let (answer, store) := store.next c
    store.follow context c answer

end ScriptedStore

end Converge
