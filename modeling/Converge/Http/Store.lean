import Converge.Http.Message
import Converge.Http.Path
import Converge.Json.Reader
import Converge.Json.Writer
import Converge.Store.Basic
import Converge.Text.Preview

/-!
# Stores behind HTTP

A store that keeps its objects behind a REST interface. Each call is one request; its answer is a JSON document,
and its status says what went wrong.

## Main Definitions

* `HttpStore` — where the store is, and how requests to it are made.
* `HttpStore.of` — the store at a URL, which has to be safe to send a token to.
* `HttpStore.request` — the request of a call.
* `HttpStore.documentOf`, `HttpStore.errorOf` — what a reply says.
* `HttpStore.objectStore` — the store as one that is called through contexts.
-/

namespace Converge

open Http

/-- Why there is no store at a URL. -/
inductive HttpStoreError where
  | notUrl (text : String) (cause : UrlError)
  | noHost
  | insecure (scheme : String)
  | badToken
  | urlNotSet
  deriving Repr, DecidableEq

/-- The variable with the URL of the store. -/
def HttpStore.urlVariable : String := "SETTLE_STORE_URL"

/-- The variable with the token for the store. -/
def HttpStore.tokenVariable : String := "SETTLE_STORE_TOKEN"

/-- The words for a missing store. -/
def HttpStoreError.message : HttpStoreError → String
  | .notUrl text cause => "invalid store URL '" ++ text ++ "': " ++ cause.message
  | .noHost => "store URL must include a host"
  | .insecure scheme => "store URL must use https for non-localhost hosts; got '" ++ scheme ++ "://'"
  | .badToken => "invalid store token"
  | .urlNotSet => HttpStore.urlVariable ++ " is not set"

/-- Where a store is, and how requests to it are made: its URL, the token that they carry, and the plurals of
kinds that are not the English ones. -/
structure HttpStore where
  base : Url
  token : Option String
  plurals : Table String String

namespace HttpStore

/-! ### The place of a store -/

/-- The folder at a URL. Anything but the machine itself is only spoken to under the cover of `https`. -/
def folderAt (text : String) : Except HttpStoreError Url :=
  match Url.read (Chars.trimmed text) with
  | .error cause => .error (.notUrl text cause)
  | .ok none => .error .noHost
  | .ok (some url) =>
      if url.host.isLocal || url.scheme = "https" then .ok url.asFolder else .error (.insecure url.scheme)

/-- Whether a character may stand in a header. -/
def isHeaderCharacter (c : Char) : Bool := c = '\t' || (0x20 ≤ c.toNat && c.toNat ≠ 0x7F)

/-- A token that can be sent; a blank one is none. -/
def readToken (token : Option String) : Except HttpStoreError (Option String) :=
  match (token.map Chars.trimmed).filter (!·.isEmpty) with
  | none => .ok none
  | some token => if token.toList.all isHeaderCharacter then .ok (some token) else .error .badToken

/-- The store at a URL. -/
def of (url : String) (token : Option String) : Except HttpStoreError HttpStore := do
  let base ← folderAt url
  let token ← readToken token
  return ⟨base, token, Table.empty⟩

/-- The store that the environment names. -/
def ofEnvironment (lookup : String → Option String) : Except HttpStoreError HttpStore :=
  match lookup urlVariable with
  | none => .error .urlNotSet
  | some url => of url (lookup tokenVariable)

/-- The store with a plural for a kind. -/
def withPlural (store : HttpStore) (kind plural : String) : HttpStore :=
  { store with plurals := store.plurals.insert kind plural }

/-! ### Requests -/

/-- What a request is about. -/
inductive Subject where
  | creation (key : ObjectKey)
  | object (key : ObjectKey)
  | collection
  deriving Repr, DecidableEq

/-- The URL of a path below the folder of the store. -/
def urlOf (store : HttpStore) (path : List Char) : Url :=
  store.base.join (String.ofList (path.dropWhile (· = '/')))

/-- The URL of an object. -/
def objectUrl (store : HttpStore) (key : ObjectKey) : Url := store.urlOf (ResourcePath.object store.plurals key)

/-- The URL of all objects of a type. -/
def collectionUrl (store : HttpStore) (type : ResourceType) (scope : Option String) : Url :=
  store.urlOf (ResourcePath.collection store.plurals type scope)

/-- A request with the headers that all requests have, and the type of its body. -/
def message (store : HttpStore) (method : Method) (url : Url) (body : Option (String × String)) : Request where
  method := method
  url := url
  headers := [("accept", "application/json")]
    ++ (store.token.toList.map fun token => ("authorization", "Bearer " ++ token))
    ++ (body.toList.map fun (type, _) => ("content-type", type))
  body := body.map (·.2)

/-- A document as the body of a request. -/
def jsonBody (document : Document) : String × String := ("application/json", Json.write document)

/-- A merge patch as the body of a request. -/
def patchBody (patch : Document) : String × String := ("application/merge-patch+json", Json.write patch)

/-- The request of a call and what it is about. A document that is written has to state its key. -/
def request (store : HttpStore) : StoreCall → Except StoreError (Request × Subject)
  | .get key => .ok (store.message .get (store.objectUrl key) none, .object key)
  | .create document => do
      let key ← ObjectStore.keyOf document
      return (store.message .post (store.collectionUrl key.type key.scope) (some (jsonBody document)), .creation key)
  | .update document => do
      let key ← ObjectStore.keyOf document
      return (store.message .put (store.objectUrl key) (some (jsonBody document)), .object key)
  | .patch key patch => .ok (store.message .patch (store.objectUrl key) (some (patchBody patch)), .object key)
  | .delete key => .ok (store.message .delete (store.objectUrl key) none, .object key)
  | .list selector =>
      let url := store.collectionUrl selector.type selector.scope
      let url := if selector.labels.isEmpty then url else url.withParameter "labelSelector" selector.expression
      .ok (store.message .get url none, .collection)

/-! ### Replies -/

/-- What a body says went wrong: its message, or the beginning of the body. -/
def explanation (body : String) : String :=
  match ((Json.read? body).bind (·.get? "message")).bind Document.string? with
  | some message => message
  | none => Text.preview body 200

/-- What a status other than success says. -/
def errorOf (status : Nat) (body : String) (subject : Subject) : StoreError :=
  match status, subject with
  | 404, .object key => .notFound key
  | 409, .creation key => .alreadyExists key
  | 409, .object key => .conflict key (explanation body)
  | 400, _ | 422, _ => .invalid (explanation body)
  | status, _ => .status status (explanation body)

/-- The document of a body; a blank one is null. -/
def documentOf (body : String) : Except StoreError Document :=
  if Chars.blank body then .ok .null
  else match Json.read? body with
    | some document => .ok document
    | none => .error (.transport "invalid JSON response: the body is not one JSON value")

/-- What a reply says. -/
def outcome (subject : Subject) : Reply → Except StoreError Document
  | .failed reason => .error (.transport reason)
  | .cancelled => .error .cancelled
  | .answered status body =>
      if 200 ≤ status && status < 300 then documentOf body else .error (errorOf status body subject)

/-- An item of a list with the type that it need not repeat. -/
def withType (type : ResourceType) (item : Document) : Document :=
  match item with
  | .object members =>
      let fill (name value : String) (members : Members) : Members :=
        if (members.lookup name).isSome then members else members.insert name (.string value)
      .object (fill "kind" type.kind (fill "apiVersion" type.apiVersion members))
  | item => item

/-- The items that an answer to a list holds. -/
def itemsOf : Document → Except StoreError (List Document)
  | .null => .ok []
  | .array items => .ok items
  | .object members =>
      match members.lookup "items" with
      | some (.array items) => .ok items
      | some .null | none => .ok []
      | some _ => .error (.transport "list response 'items' is not an array")
  | _ => .error (.transport "unexpected list response")

/-- The documents of a list, of which only those count that the selector picks. -/
def listOf (selector : Selector) (response : Document) : Except StoreError (List Document) :=
  (itemsOf response).map fun items => (items.map (withType selector.type)).filter selector.accepts

/-- The answer of a call by the document of its reply. -/
def answerOf : (c : StoreCall) → Document → Except StoreError c.Answer
  | .get _, document => .ok document
  | .create _, document => .ok document
  | .update _, document => .ok document
  | .patch _ _, document => .ok document
  | .delete _, _ => .ok ()
  | .list selector, document => listOf selector document

/-- The store as one that is called through contexts. With a cancelled context nothing is sent. -/
def objectStore {σ : Type} (store : HttpStore) (network : Network σ) : ObjectStore σ where
  call context c state :=
    match store.request c with
    | .error cause => (.error cause, state)
    | .ok (request, subject) =>
        if network.isCancelled context state then (.error .cancelled, state)
        else
          let (reply, state) := network.exchange context request state
          ((outcome subject reply).bind (answerOf c), state)

end HttpStore

end Converge
