import Converge.Context
import Converge.Identity
import Converge.Selector

/-!
# Object stores

A store keeps documents under their keys and answers six kinds of calls. It is modelled as what it does to
a state: a call and a state give an answer and the next state.

## Main Definitions

* `StoreError` — why a call failed.
* `Cancellations.check` — whether a context lets calls through.
* `StoreCall`, `StoreCall.Answer` — the calls and what each of them answers.
* `StoreCall.key?`, `StoreCall.describe` — what a call is about, and its text.
* `ObjectStore` — a store over a type of states.
* `ObjectStore.keyOf` — the key of a document that is to be written.
* `ObjectStore.recorded` — the same store, keeping the calls it received.
-/

namespace Converge

/-- Why a call to a store failed. -/
inductive StoreError where
  | notFound (key : ObjectKey)
  | alreadyExists (key : ObjectKey)
  | conflict (key : ObjectKey) (message : String)
  | invalid (message : String)
  | cancelled
  | transport (message : String)
  | status (code : Nat) (message : String)
  deriving Repr, DecidableEq

namespace StoreError

/-- The words for a failed call. -/
def message : StoreError → String
  | .notFound key => key.display ++ " not found"
  | .alreadyExists key => key.display ++ " already exists"
  | .conflict key text => "conflict on " ++ key.display ++ ": " ++ text
  | .invalid text => "invalid request: " ++ text
  | .cancelled => "request cancelled"
  | .transport text => "store unreachable: " ++ text
  | .status code text => "store returned status " ++ code.repr ++ ": " ++ text

/-- Whether the store knows no such object. -/
def isNotFound : StoreError → Bool
  | .notFound _ => true
  | _ => false

/-- Whether the same call may succeed when it is repeated. -/
def isTransient : StoreError → Bool
  | .transport _ | .cancelled => true
  | .status code _ => code = 429 || 500 ≤ code
  | _ => false

end StoreError

/-- A cancelled context lets no call through. -/
def Cancellations.check (contexts : Cancellations) (context : Context) : Except StoreError Unit :=
  if contexts.isCancelled context then .error .cancelled else .ok ()

/-- A call to a store. -/
inductive StoreCall where
  | get (key : ObjectKey)
  | create (document : Document)
  | update (document : Document)
  | patch (key : ObjectKey) (patch : Document)
  | delete (key : ObjectKey)
  | list (selector : Selector)

namespace StoreCall

/-- What a call answers: the document as stored, nothing for a deletion, all documents for a list. -/
@[reducible] def Answer : StoreCall → Type
  | .delete _ => Unit
  | .list _ => List Document
  | _ => Document

/-- Whether the call may change the store. -/
def writes : StoreCall → Bool
  | .get _ | .list _ => false
  | _ => true

/-- The key of the object that a call is about; a list is about no single one, and a document without a
key about none. -/
def key? : StoreCall → Option ObjectKey
  | .get key | .patch key _ | .delete key => some key
  | .create document | .update document => (ObjectKey.ofDocument document).toOption
  | .list _ => none

/-- The text of a document's key, `?` if it has none. -/
def keyText (document : Document) : String :=
  match ObjectKey.ofDocument document with
  | .ok key => key.display
  | .error _ => "?"

/-- The text of a call. -/
def describe : StoreCall → String
  | .get key => "get " ++ key.display
  | .create document => "create " ++ keyText document
  | .update document => "update " ++ keyText document
  | .patch key _ => "patch " ++ key.display
  | .delete key => "delete " ++ key.display
  | .list selector => "list " ++ selector.type.display

end StoreCall

/-- A store over a type of states. -/
structure ObjectStore (σ : Type) where
  call : Context → (c : StoreCall) → σ → Except StoreError c.Answer × σ

namespace ObjectStore

variable {σ : Type}

/-- The key of a document that is to be written. -/
def keyOf (document : Document) : Except StoreError ObjectKey :=
  (ObjectKey.ofDocument document).mapError fun e => .invalid e.message

/-- The same store, with every call it receives added to a list. -/
def recorded (store : ObjectStore σ) : ObjectStore (σ × List StoreCall) where
  call context c state :=
    let (answer, next) := store.call context c state.1
    (answer, next, state.2 ++ [c])

end ObjectStore

end Converge
