/-!
# Call contexts

Every call to a store carries a context through which it can be cancelled. A context comes from another
one or stands alone; cancelling one cancels those that come from it, also those made later, and no other.

## Main Definitions

* `Context` — a token with the tokens it comes from.
* `Cancellations` — the tokens that were handed out and cancelled.
* `Cancellations.isCancelled` — whether a context is cancelled.
-/

namespace Converge

/-- The token of a context and those of the contexts it comes from, the nearest first. -/
structure Context where
  token : Nat
  ancestors : List Nat
  deriving Repr, DecidableEq

/-- How many tokens were handed out, and which of them were cancelled. -/
structure Cancellations where
  issued : Nat
  cancelled : List Nat
  deriving Repr, DecidableEq

namespace Cancellations

/-- No token was handed out. -/
def none : Cancellations := ⟨0, []⟩

/-- A context that comes from no other. -/
def background (c : Cancellations) : Context × Cancellations :=
  (⟨c.issued, []⟩, { c with issued := c.issued + 1 })

/-- A context that comes from another one. -/
def child (c : Cancellations) (context : Context) : Context × Cancellations :=
  (⟨c.issued, context.token :: context.ancestors⟩, { c with issued := c.issued + 1 })

/-- Cancels a context. -/
def cancel (c : Cancellations) (context : Context) : Cancellations :=
  { c with cancelled := context.token :: c.cancelled }

/-- A context is cancelled if its token or one of those it comes from was. -/
def isCancelled (c : Cancellations) (context : Context) : Bool :=
  (context.token :: context.ancestors).any fun token => c.cancelled.contains token

end Cancellations

end Converge
