import Converge.Context
import Converge.Http.Url

/-!
# Requests and replies

## Main Definitions

* `Request` — what is sent.
* `Reply` — what comes of it: an answer, a cancellation, or a failure of the network.
* `Network` — what carries requests, over a type of states.
* `Network.unreachable` — a network on which no host is found.
-/

namespace Converge.Http

/-- The methods of requests. -/
inductive Method where
  | get
  | post
  | put
  | patch
  | delete
  deriving Repr, DecidableEq

/-- A method in writing. -/
def Method.name : Method → String
  | .get => "GET"
  | .post => "POST"
  | .put => "PUT"
  | .patch => "PATCH"
  | .delete => "DELETE"

/-- A request. -/
structure Request where
  method : Method
  url : Url
  headers : List (String × String)
  body : Option String
  deriving Repr, DecidableEq

/-- What comes of a request. -/
inductive Reply where
  | answered (status : Nat) (body : String)
  /-- The context was cancelled while the request was open. -/
  | cancelled
  | failed (reason : String)
  deriving Repr, DecidableEq

/-- What carries requests, over a type of states. -/
structure Network (σ : Type) where
  isCancelled : Context → σ → Bool
  exchange : Context → Request → σ → Reply × σ

namespace Network

/-- A network on which no host is found. -/
def unreachable : Network Cancellations where
  isCancelled context contexts := contexts.isCancelled context
  exchange _ _ contexts := (.failed "no host is reachable", contexts)

end Network

end Converge.Http
