import Converge.Arguments
import Converge.Store.Basic
import Converge.Template

/-!
# Failures of calls

A call fails in one of six ways, which tell how far it got: its arguments, its template, the writes, the
waiting, the handles, a reading.

## Main Definitions

* `coeCountOfNat`, `coeNatOfCount` — numbers as counts in a word of 32 bits.
* `Mutation` — the calls to a store that an operation makes for its targets.
* `Failure` — why a call failed.
* `Failure.category`, `Failure.message` — the words for it.
* `Failure.storeError?` — the failure of the store behind it.
* `Failure.report` — the line that ends a program whose waiting call failed.
-/

namespace Converge

/-! ### Counts -/

/-- A number is counted in a word of 32 bits, which starts again from zero when it is full. -/
instance coeCountOfNat : Coe Nat UInt32 := ⟨UInt32.ofNat⟩

/-- The number that a count stands for. -/
instance coeNatOfCount : Coe UInt32 Nat := ⟨UInt32.toNat⟩

/-! ### Failures -/

/-- What is done to the store for each target. -/
inductive Mutation where
  | create
  | patch
  | replace
  | delete
  deriving Repr, DecidableEq

/-- The name of a mutation. -/
def Mutation.name : Mutation → String
  | .create => "create"
  | .patch => "patch"
  | .replace => "update"
  | .delete => "delete"

/-- Why a call failed. -/
inductive Failure where
  /-- The arguments are no valid call. -/
  | arguments (cause : ArgumentError)
  /-- The template gives no documents, or not those wanted. -/
  | template (cause : RenderError)
  /-- A write failed. -/
  | mutation (kind : Mutation) (key : ObjectKey) (cause : StoreError)
  /-- All writes were done, but not seen in time. The time is in nanoseconds. -/
  | timeout (pending : List ObjectKey) (elapsed : Nat) (ticks : UInt32) (lastReadError : Option StoreError)
  /-- A document cannot be kept in its handle. -/
  | copy (target : String) (cause : CopyError)
  /-- A reading failed. -/
  | read (target : String) (cause : StoreError)
  deriving DecidableEq

namespace Failure

/-- The category of a failure. -/
def category : Failure → String
  | .arguments _ => "InvalidArguments"
  | .template _ => "InvalidTemplateOrBindings"
  | .mutation _ _ _ => "StoreMutationError"
  | .timeout _ _ _ _ => "ConsistencyTimeoutError"
  | .copy _ _ => "StateCopyError"
  | .read _ _ => "StoreReadError"

/-- What kept a change from being seen: the store could not be read, or it did not show the change. -/
def waitCause : Option StoreError → String
  | some error => "store unreachable, last read error: " ++ error.message
  | none => "store reachable but not yet consistent"

/-- The words for a failure. -/
def message : Failure → String
  | .arguments cause => cause.message
  | .template cause => cause.message
  | .mutation kind key cause => kind.name ++ " of " ++ key.display ++ " failed: " ++ cause.message
  | .timeout pending elapsed ticks lastReadError =>
      "change not observed after " ++ Duration.displayNanos elapsed ++ " (" ++ (ticks : Nat).repr ++ " checks) for "
        ++ ", ".intercalate (pending.map ObjectKey.display) ++ ": " ++ waitCause lastReadError
  | .copy target cause => "cannot copy " ++ target ++ " into result handle: " ++ cause.message
  | .read target cause => "reading " ++ target ++ " failed: " ++ cause.message

/-- The failure of the store behind a failure. -/
def storeError? : Failure → Option StoreError
  | .mutation _ _ cause | .read _ cause => some cause
  | .timeout _ _ _ lastReadError => lastReadError
  | _ => none

/-- The line that ends a program whose waiting call failed. -/
def report (operation : Operation) (failure : Failure) : String :=
  "[FATAL] " ++ failure.category ++ ": " ++ operation.name ++ " failed: " ++ failure.message

end Failure

end Converge
