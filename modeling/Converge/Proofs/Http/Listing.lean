import Converge.Proofs.Identity.Written
import Converge.Proofs.Json.Spelling
import Converge.Proofs.Operation.Answers
import Converge.Proofs.Store.Listing
import Converge.Proofs.Store.Patching
import Converge.Proofs.Text.Splitting

/-!
# Lists over HTTP

A server may answer a list with more than was asked for, and its items need not repeat the type that all of them have.
The store behind HTTP puts the type back and then picks from the items what the store in memory picks. What is put back
is what stood there, if the documents spell their type as it is written, without blanks around it.

## Main Definitions

* `SpelledPlainly` — a document states its type without blanks around it.
* `Abridges` — an item leaves out type fields of a document.
* `HttpStore.Shows` — a server answers a list with items that show these documents.
* `MemoryStore.ofType` — the stored documents of a type, in their order.

## Main Statements

* `HttpStore.withType_of_abridges` — with the type that is put back an item is the document that it shows.
* `HttpStore.call_of_replied` — the answer to a call is what the body of the reply says.
* `MemoryStore.filter_ofType` — a selector picks from the documents of its type what it picks from all documents.
* `HttpStore.lists_as_in_memory` — the two stores list the same documents in the same order.
-/

namespace Converge

open Chars Http

/-! ### Items and the documents that they show -/

/-- A document states its type without blanks around it. -/
def SpelledPlainly (document : Document) : Prop :=
  ∀ name ∈ ["apiVersion", "kind"], (document.text? [name]).map trimmed = document.text? [name]

instance : DecidablePred SpelledPlainly := fun _ => inferInstanceAs (Decidable (∀ name ∈ _, _))

/-- An item of a list leaves out type fields of a document, one or both or none, and is otherwise the same. -/
def Abridges (item document : Document) : Prop :=
  ∃ members names, names ⊆ ["apiVersion", "kind"] ∧ document = .object members ∧
    item = .object (Members.without names members)

namespace Members

variable {members : Members} {name : String} {value : Document}

theorem lookup_insertNew (name other : String) (value : Document) (members : Members) :
    (members.insertNew name value).lookup other =
      if other = name then some ((members.lookup name).getD value) else members.lookup other := by
  rw [insertNew]
  split
  · next old hold =>
      split
      · next hname => rw [hname, hold, Option.getD_some]
      · rfl
  · next hnone =>
      split
      · next hname => rw [hname, lookup_insert_self, hnone, Option.getD_none]
      · next hname => exact lookup_insert_of_ne hname value members

theorem Ordered.insertNew (h : members.Ordered) (name : String) (value : Document) :
    (members.insertNew name value).Ordered := by
  rw [Members.insertNew]
  split
  · exact h
  · exact h.insert name value

/-- What stood under a name is there again when it is put back, whether it was left out or not. -/
theorem getD_lookup_without (found : members.lookup name = some value) (names : List String) :
    ((members.without names).lookup name).getD value = value := by
  by_cases hname : name ∈ names
  · rw [lookup_without_of_mem hname, Option.getD_none]
  · rw [lookup_without hname, found, Option.getD_some]

end Members

theorem Document.lookup_of_text? {members : Members} {name text : String}
    (h : (Document.object members).text? [name] = some text) : members.lookup name = some (.string text) := by
  rw [text?_singleton] at h
  obtain ⟨value, hvalue, htext⟩ := Option.bind_eq_some_iff.1 h
  cases value with
  | string given =>
      cases htext
      exact hvalue
  | null | bool | number | array | object => cases htext

namespace HttpStore

/-- The type is put back where it is missing. -/
theorem withType_object (type : ResourceType) (members : Members) :
    withType type (.object members) =
      .object (Members.insertNew "kind" (.string type.kind)
        (Members.insertNew "apiVersion" (.string type.apiVersion) members)) := by
  have hfill (name value : String) (members : Members) :
      (if (members.lookup name).isSome then members else members.insert name (.string value)) =
        members.insertNew name (.string value) := by
    rw [Members.insertNew]
    cases members.lookup name <;> rfl
  simp only [withType, hfill]

/-- **With the type that is put back an item is the document that it shows.** -/
theorem withType_of_abridges {type : ResourceType} {item document : Document} (ordered : document.Ordered)
    (apiVersion : document.text? ["apiVersion"] = some type.apiVersion)
    (kind : document.text? ["kind"] = some type.kind) (h : Abridges item document) : withType type item = document := by
  obtain ⟨(members : Members), names, hnames, rfl, rfl⟩ := h
  have hversion := Document.lookup_of_text? apiVersion
  have hkind := Document.lookup_of_text? kind
  have hmembers : members.Ordered := ordered.1
  have hfewer : (members.without names).Ordered := hmembers.filter _
  rw [withType_object]
  refine congrArg Document.object (((hfewer.insertNew _ _).insertNew _ _).ext hmembers fun name => ?_)
  rw [Members.lookup_insertNew]
  split
  · next hname =>
      rw [hname, Members.lookup_insertNew, if_neg (by decide), Members.getD_lookup_without hkind, hkind]
  · next hnotKind =>
      rw [Members.lookup_insertNew]
      split
      · next hname => rw [hname, Members.getD_lookup_without hversion, hversion]
      · next hnotVersion =>
          refine Members.lookup_without (fun hname => ?_) members
          have hnamed := hnames hname
          simp only [List.mem_cons, List.not_mem_nil, or_false] at hnamed
          exact hnamed.elim hnotVersion hnotKind

end HttpStore

/-- A document that spells its type plainly spells it as the type of its key is written. -/
theorem Document.States.text_of_plain {document : Document} {key : ObjectKey} (h : document.States key)
    (plain : SpelledPlainly document) :
    document.text? ["apiVersion"] = some key.type.apiVersion ∧ document.text? ["kind"] = some key.type.kind := by
  obtain ⟨version, hversion, htype⟩ := h.type
  obtain ⟨kind, hkind, -, hkindType⟩ := h.kind
  constructor
  · rw [← plain "apiVersion" (.head _), hversion, Option.map_some, ResourceType.apiVersion_of_ofApiVersion htype]
  · rw [← plain "kind" (.tail _ (.head _)), hkind, Option.map_some, hkindType]

/-! ### What is stored -/

namespace MemoryStore

/-- The stored documents of a type, in their order. -/
def ofType (store : MemoryStore) (type : ResourceType) : List Document :=
  (store.objects.entries.filter fun entry => entry.1.type = type).map (·.2)

/-- **A selector picks from the documents of its type what it picks from all documents.** -/
theorem filter_ofType {store : MemoryStore} (sound : Sound store) (selector : Selector) :
    (store.ofType selector.type).filter selector.accepts = store.list selector := by
  rw [ofType, list, Table.values, List.filter_map, List.filter_map, List.filter_filter]
  refine congrArg _ (List.filter_congr fun entry hentry => ?_)
  have named := sound.named (Table.get?_eq_some_iff.2 hentry)
  by_cases haccepts : selector.accepts entry.2 = true
  · have htype := ((Selector.accepts_iff named).1 haccepts).type
    simp [haccepts, htype]
  · simp [haccepts]

end MemoryStore

/-! ### Replies to a list -/

namespace HttpStore

variable {σ : Type} {http : HttpStore} {network : Network σ} {context : Context} {state : σ}

/-- **The answer to a call is what the body of the reply says.** -/
theorem call_of_replied {call : StoreCall} {body : String} (sent : network.isCancelled context state = false)
    (replied : http.Replied network context call state body) :
    ((http.objectStore network).call context call state).1 = (documentOf body).bind (answerOf call) := by
  obtain ⟨request, subject, status, hrequest, hreply, hlow, hhigh⟩ := replied
  simp only [objectStore, hrequest, sent, Bool.false_eq_true, if_false, hreply, outcome, hlow, hhigh, decide_true,
    Bool.and_self, if_true]

/-- A server answers the request of a list with success, and the items in the body show these documents, one each and in
order. The body is an object with the items in it, or the array of the items. -/
structure Shows (http : HttpStore) (network : Network σ) (context : Context) (selector : Selector) (state : σ)
    (documents : List Document) : Prop where
  sent : network.isCancelled context state = false
  replied : ∃ body response items, http.Replied network context (.list selector) state body ∧
    documentOf body = .ok response ∧
    (response = .array items ∨ ∃ members, response = .object members ∧ members.lookup "items" = some (.array items)) ∧
    List.Forall₂ Abridges items documents

/-- The answer to a list is made of the items: the type is put back, and the selector picks. -/
theorem Shows.call_eq {selector : Selector} {documents : List Document}
    (shows : http.Shows network context selector state documents)
    (restored : ∀ item, ∀ document ∈ documents, Abridges item document → withType selector.type item = document) :
    ((http.objectStore network).call context (.list selector) state).1 = .ok (documents.filter selector.accepts) := by
  obtain ⟨sent, body, response, items, hreplied, hbody, hitems, hshown⟩ := shows
  have hresponse : itemsOf response = .ok items := by
    obtain rfl | ⟨members, rfl, hmembers⟩ := hitems
    · rfl
    · simp only [itemsOf, hmembers]
  have hrestored : items.map (withType selector.type) = documents := by
    clear hresponse hitems hbody hreplied
    induction hshown with
    | nil => rfl
    | cons abridges _ ih =>
        rw [List.map_cons, restored _ _ (.head _) abridges,
          ih fun item document hdocument => restored item document (.tail _ hdocument)]
  rw [call_of_replied sent hreplied, hbody]
  simp only [Except.bind, answerOf, listOf, hresponse, Except.map, hrestored]

end HttpStore

/-- **The two stores list alike.** Take a store in memory, after whatever requests, whose documents have their members
in order and state their type without blanks around it, and any selector. Let a server answer the request for the list
with success, and its items show the stored documents of the selector's type in their order, whatever their namespaces
and labels are, where each item may leave out its `apiVersion` and its kind. Then the store behind HTTP lists exactly
what the store in memory lists. -/
theorem HttpStore.lists_as_in_memory {σ : Type} (requests : List MemoryStore.Request)
    (brought : ∀ request ∈ requests, request.call.Ordered)
    (plain : ∀ document ∈ (MemoryStore.empty.run requests).objects.values, SpelledPlainly document)
    (selector : Selector) {http : HttpStore} {network : Network σ} {context : Context} {state : σ}
    (shows : http.Shows network context selector state ((MemoryStore.empty.run requests).ofType selector.type)) :
    let store := MemoryStore.empty.run requests
    ((http.objectStore network).call context (.list selector) state).1 = .ok (store.list selector) ∧
      ∀ now, (store.serve ⟨false, now, .list selector⟩).1 = .ok (store.list selector) := by
  intro store
  have sound : MemoryStore.Sound store := MemoryStore.sound_run requests
  refine ⟨?_, fun now => rfl⟩
  rw [← MemoryStore.filter_ofType sound selector]
  refine shows.call_eq fun item document hdocument habridges => ?_
  obtain ⟨⟨key, stored⟩, hentry, rfl⟩ := List.mem_map.1 hdocument
  obtain ⟨hentry, htype⟩ := List.mem_filter.1 hentry
  have hstored := Table.get?_eq_some_iff.2 hentry
  obtain ⟨hversion, hkind⟩ := (ObjectKey.ofDocument_eq_ok_iff.1 (sound.named hstored)).text_of_plain
    (plain stored (List.mem_map_of_mem hentry))
  rw [of_decide_eq_true htype] at hversion hkind
  exact withType_of_abridges (MemoryStore.inOrder_run brought hstored) hversion hkind habridges

section Untyped

open MemoryStore

/-- An object in a namespace, with labels. -/
def labelled (type : ResourceType) (scope name : String) (labels : List (String × String)) : Document :=
  .ofEntries [("apiVersion", .string type.apiVersion), ("kind", .string type.kind),
    ("metadata", .ofEntries [("name", .string name), ("namespace", .string scope),
      ("labels", .ofEntries (labels.map fun (label, value) => (label, .string value)))])]

/-- An item without its kind, and in a namespace for tests without any of its type. -/
def untyped (document : Document) : Document :=
  .object (document.members.without
    (if document.text? ["metadata", "namespace"] = some "test" then ["apiVersion", "kind"] else ["kind"]))

theorem abridges_untyped {document : Document} (h : document.isObject) : Abridges (untyped document) document := by
  cases document with
  | object members =>
      refine ⟨members, _, ?_, rfl, rfl⟩
      split <;> decide
  | null | bool | number | string | array => cases h

/-- A server answers with all config maps, without their types. Of the four in the store, one is in another namespace
and one has another label; a deployment with the same label was not asked for. -/
theorem lists_as_in_memory_of_untyped :
    let maps : ResourceType := ⟨"", "v1", "ConfigMap"⟩
    let documents := [labelled maps "test" "a" [("app", "web")],
      labelled ⟨"apps", "v1", "Deployment"⟩ "test" "b" [("app", "web")], labelled maps "live" "c" [("app", "web")],
      labelled maps "test" "d" [("app", "mail")], labelled maps "test" "e" [("app", "web"), ("tier", "back")]]
    let requests := documents.map fun document => atNoon (.create document)
    let store := empty.run requests
    let selector := ((Selector.ofType maps).inScope "test").withLabel "app" "web"
    let body := Json.write (.ofEntries [("items", .array ((store.ofType selector.type).map untyped))])
    let http := HttpStore.atFolder []
    store.objects.size = 5 ∧ (store.ofType selector.type).length = 4 ∧
      (store.list selector).map ObjectKey.ofDocument =
        [.ok ⟨maps, some "test", "a"⟩, .ok ⟨maps, some "test", "e"⟩] ∧
      ((http.objectStore (Orchestrator.answering 200 body)).call ⟨0, []⟩ (.list selector) ()).1 =
        .ok (store.list selector) := by
  intro maps documents requests store selector body http
  have hordered : ∀ document ∈ documents, document.Ordered := by decide +kernel
  have hbrought : ∀ request ∈ requests, request.call.Ordered := by
    intro request hrequest
    obtain ⟨document, hdocument, rfl⟩ := List.mem_map.1 hrequest
    exact hordered document hdocument
  have hplain : ∀ document ∈ store.objects.values, SpelledPlainly document := by decide +kernel
  have hobjects : ∀ document ∈ store.ofType selector.type, document.isObject := by decide +kernel
  have hbody : HttpStore.documentOf body =
      .ok (.ofEntries [("items", .array ((store.ofType selector.type).map untyped))]) :=
    HttpStore.documentOf_write (by decide +kernel) (by decide +kernel)
  have hshown : List.Forall₂ Abridges ((store.ofType selector.type).map untyped) (store.ofType selector.type) :=
    List.forall₂_map_left_iff.2 (List.forall₂_same.2 fun document hdocument => abridges_untyped (hobjects _ hdocument))
  have shows : http.Shows (Orchestrator.answering 200 body) ⟨0, []⟩ selector () (store.ofType selector.type) :=
    ⟨rfl, body, _, _, ⟨_, _, 200, rfl, rfl, by decide, by decide⟩, hbody, .inr ⟨_, rfl, rfl⟩, hshown⟩
  exact ⟨by decide +kernel, by decide +kernel, by decide +kernel,
    (HttpStore.lists_as_in_memory requests hbrought hplain selector shows).1⟩

end Untyped

end Converge
