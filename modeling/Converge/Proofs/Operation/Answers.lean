import Converge.Proofs.Http.Addressing
import Converge.Proofs.Operation.Preparation
import Converge.Proofs.Operation.Waiting
import Converge.Proofs.Store.Run

/-!
# What a server answers, and what the handles hold

A call over HTTP that succeeds answers the document of the body of the reply, whatever it is, and a blank body counts
as null. It is this document that goes to the handle of the target, so the handle stands for the same object afterwards
exactly if the body states its key. A body that is blank states none.

## Main Definitions

* `HttpStore.Replied` — a call is answered with a success that has this body.
* `HttpStore.Filled` — a handle holds the document of the body that was answered for its target.

## Main Statements

* `ObjectStore.exists_answer_of_visit` — what a client gets for an item is the answer to its call.
* `HttpStore.exists_reply_of_call` — a call that succeeds has been replied to.
* `Orchestrator.filled_from_replies` — after each call that succeeds, the handles hold the documents that were replied.
-/

namespace Converge

open Http

/-! ### Answers to a client -/

namespace ObjectStore

variable {σ α β ε : Type} {store : ObjectStore σ} {context : Context} {call : α → StoreCall}
  {failure : α → StoreError → ε} {value : (item : α) → (call item).Answer → β}

/-- A client that gets through has got through with its first item, and then with the others. -/
theorem exists_of_visit_cons {item : α} {items : List α} {values : List β} {state reached : σ}
    (h : store.visit context call failure value (item :: items) state = (.ok values, reached)) :
    ∃ answer next rest, store.call context (call item) state = (.ok answer, next) ∧
      store.visit context call failure value items next = (.ok rest, reached) ∧
      values = value item answer :: rest := by
  rw [visit] at h
  rcases hcall : store.call context (call item) state with ⟨_ | answer, next⟩
  · rw [hcall] at h
    cases h
  · rcases hrest : store.visit context call failure value items next with ⟨_ | rest, left⟩
    · simp only [hcall, hrest, Except.map] at h
      cases h
    · simp only [hcall, hrest, Except.map] at h
      cases h
      exact ⟨answer, next, rest, rfl, hrest, rfl⟩

theorem length_of_visit {items : List α} {values : List β} {state reached : σ}
    (h : store.visit context call failure value items state = (.ok values, reached)) :
    values.length = items.length := by
  induction items generalizing values state with
  | nil =>
      cases h
      rfl
  | cons item items ih =>
      obtain ⟨answer, next, rest, -, hrest, rfl⟩ := exists_of_visit_cons h
      rw [List.length_cons, List.length_cons, ih hrest]

/-- **What a client gets for an item is made of the answer to its call**, at the state to which the calls for the items
before it have led. -/
theorem exists_answer_of_visit {items : List α} {values : List β} {state reached : σ}
    (h : store.visit context call failure value items state = (.ok values, reached)) {index : Nat} {item : α}
    (hitem : items[index]? = some item) :
    ∃ answer,
      (store.call context (call item) (store.after context ((items.take index).map call) state)).1 = .ok answer ∧
        values[index]? = some (value item answer) := by
  induction items generalizing values state index with
  | nil => cases hitem
  | cons first items ih =>
      obtain ⟨answer, next, rest, hcall, hrest, rfl⟩ := exists_of_visit_cons h
      cases index with
      | zero =>
          cases hitem
          exact ⟨answer, congrArg Prod.fst hcall, rfl⟩
      | succ index =>
          obtain ⟨other, hother, hvalue⟩ := ih hrest hitem
          refine ⟨other, ?_, hvalue⟩
          rw [List.take_succ_cons, List.map_cons, after_cons, hcall]
          exact hother

end ObjectStore

/-! ### Replies -/

namespace HttpStore

variable {σ : Type} (http : HttpStore) (network : Network σ) (context : Context)

/-- The network replies to the request of a call with a success that has this body. -/
def Replied (call : StoreCall) (state : σ) (body : String) : Prop :=
  ∃ request subject status, http.request call = .ok (request, subject) ∧
    (network.exchange context request state).1 = .answered status body ∧ 200 ≤ status ∧ status < 300

variable {http network context}

/-- **A call that succeeds has been replied to**, and what it answers is the document of the body. -/
theorem exists_reply_of_call {call : StoreCall} {state : σ} {answer : call.Answer}
    (h : ((http.objectStore network).call context call state).1 = .ok answer) :
    ∃ body document, http.Replied network context call state body ∧ documentOf body = .ok document ∧
      answerOf call document = .ok answer := by
  simp only [objectStore] at h
  split at h
  · cases h
  · next request subject hrequest =>
      split at h
      · cases h
      · simp only at h
        cases hreply : (network.exchange context request state).1 with
        | failed | cancelled =>
            rw [hreply] at h
            cases h
        | answered status body =>
            rw [hreply, outcome] at h
            split at h
            · next hstatus =>
                simp only [Bool.and_eq_true, decide_eq_true_eq] at hstatus
                obtain ⟨document, hdocument, hanswer⟩ := bind_eq_ok_iff.1 h
                exact ⟨body, document, ⟨request, subject, status, hrequest, hreply, hstatus⟩, hdocument, hanswer⟩
            · cases h

/-- The answer to a call for one object is the document itself. -/
theorem document?_of_answerOf {call : StoreCall} {document : Document} {answer : call.Answer}
    (h : answerOf call document = .ok answer) :
    call.document? answer = none ∨ call.document? answer = some document := by
  cases call with
  | get | create | update | patch =>
      cases h
      exact .inr rfl
  | delete | list => exact .inl rfl

variable (http network context)

/-- A handle holds the document of the body that was replied to the call for its target. So it has the key of the target
exactly if this document states it, with the type fields of the handle if it has a shape. For a blank body the document
is null. -/
def Filled (call : Target → StoreCall) (targets : List Target) (state : σ) (index : Nat) (handle : Handle) : Prop :=
  ∃ target body document, targets[index]? = some target ∧
    http.Replied network context (call target)
      ((http.objectStore network).after context ((targets.take index).map call) state) body ∧
    documentOf body = .ok document ∧ handle.state = some document ∧
    (handle.key = .ok target.key ↔
      ObjectKey.ofDocument (handle.shape.elim document fun shape => shape.fill document) = .ok target.key) ∧
    (Chars.blank body → handle.state = some .null)

variable {http network context}

theorem filled_of_answer {call : Target → StoreCall} {targets : List Target} {state : σ} {index : Nat} {target : Target}
    {answer : (call target).Answer} {document : Document} {handle : Handle} (htarget : targets[index]? = some target)
    (hanswer : ((http.objectStore network).call context (call target)
      ((http.objectStore network).after context ((targets.take index).map call) state)).1 = .ok answer)
    (hdocument : (call target).document? answer = some document) (hstate : handle.state = some document) :
    http.Filled network context call targets state index handle := by
  obtain ⟨body, read, hreplied, hread, hanswerOf⟩ := exists_reply_of_call hanswer
  obtain rfl : document = read := by
    obtain hnone | hsome := document?_of_answerOf hanswerOf
    · cases hdocument.symm.trans hnone
    · exact Option.some.inj (hdocument.symm.trans hsome)
  obtain ⟨_, shape⟩ := handle
  obtain rfl : _ = some document := hstate
  refine ⟨target, body, document, htarget, hreplied, hread, rfl, ?_, fun hblank => ?_⟩
  · cases shape <;> exact Iff.rfl
  · rw [documentOf, if_pos hblank] at hread
    cases hread
    rfl

end HttpStore

namespace Orchestrator

/-- A delivery that gets through leaves each handle with the document for the target at its position. -/
theorem exists_target_of_store {σ : Type} {o : Orchestrator σ} {options : Options} {plan : Plan}
    (hplan : o.plan options = .ok plan) {documents : List Document} (hlength : documents.length = plan.targets.length)
    {destinations : Destinations}
    (h : plan.destinations.store o.copier plan.targets documents = (.ok (), destinations)) {index : Nat}
    {handle : Handle} (hhandle : destinations.handles[index]? = some handle) :
    ∃ target document, plan.targets[index]? = some target ∧ documents[index]? = some document ∧
      handle.state = some document := by
  have hindex := (List.getElem?_eq_some_iff.1 hhandle).1
  have hhandles : destinations.handles.length ≤ plan.targets.length := by
    have hstored := Destinations.length_handles_store o.copier plan.destinations plan.targets documents
    rw [h] at hstored
    rw [hstored]
    split
    · exact Nat.le_of_eq hlength
    · by_cases hnil : plan.destinations.handles = []
      · rw [hnil]
        exact Nat.zero_le _
      · exact Nat.le_of_eq (length_targets_of_plan hplan hnil).symm
  have htarget := List.getElem?_eq_getElem (Nat.lt_of_lt_of_le hindex hhandles)
  have hdocument := List.getElem?_eq_getElem (hlength.symm ▸ Nat.lt_of_lt_of_le hindex hhandles)
  exact ⟨_, _, htarget, hdocument, Destinations.state_of_store_ok h htarget hdocument hhandle⟩

theorem ne_delete_of_of? {operation : Operation} {driver : Driver} {kind : Mutation}
    (h : Mutation.of? operation driver = some kind) (hoperation : operation = .create ∨ operation = .update) :
    kind ≠ .delete := by
  rintro rfl
  obtain rfl | rfl := hoperation
  · cases driver <;> cases h
  · cases driver <;> cases h

/-- A write that is no deletion answers a document. -/
theorem exists_document?_of_ne_delete {kind : Mutation} (h : kind ≠ .delete) {target : Target}
    (answer : (kind.call target).Answer) : ∃ document, (kind.call target).document? answer = some document := by
  cases kind with
  | create | patch | replace => exact ⟨answer, rfl⟩
  | delete => exact absurd rfl h

section Calls

variable {σ : Type} {o : Orchestrator σ} {http : HttpStore} {network : Network σ} {context : Context}
  {arguments : List Argument} {state : σ} {outcome : Outcome σ Unit}

theorem Course.filled (course : o.Course context operation arguments state outcome)
    (hstore : o.store = http.objectStore network) (hoperation : operation = .create ∨ operation = .update)
    (hok : outcome.result = .ok ()) :
    ∃ ready, o.ready operation arguments = .ok ready ∧
      ∀ index handle, (heldBy outcome.arguments)[index]? = some handle →
        http.Filled network context ready.kind.call ready.plan.targets state index handle := by
  cases course with
  | refused | stopped | undelivered => cases hok
  | waited prepared _ _ waits =>
      -- Neither of the two operations waits.
      have hwaits : operation.waits = false := by rcases hoperation with rfl | rfl <;> rfl
      cases (spec_of_not_waits prepared hwaits).symm.trans waits
  | @delivered ready applied reached destinations prepared written kept =>
      refine ⟨ready, prepared, fun index handle hhandle => ?_⟩
      obtain ⟨options, -, -, hplan, hkind⟩ := ready_eq_ok_iff.1 prepared
      have hdelete := ne_delete_of_of? hkind hoperation
      have hheld := heldBy_putBack_of_ready prepared (keep_alike kept)
      rw [keep, if_neg hdelete] at kept
      rw [writeAll_eq_visit, hstore] at written
      rw [hheld] at hhandle
      have hlength : (documentsOf ready.plan.targets applied).length = ready.plan.targets.length := by
        rw [documentsOf, List.length_map, List.length_zip, ObjectStore.length_of_visit written, Nat.min_self]
      obtain ⟨target, document, htarget, hdocument, hstate⟩ := exists_target_of_store hplan hlength kept hhandle
      obtain ⟨answer, hanswer, happlied⟩ := ObjectStore.exists_answer_of_visit written htarget
      obtain ⟨stored, hstored⟩ := exists_document?_of_ne_delete hdelete answer
      refine HttpStore.filled_of_answer htarget hanswer ?_ hstate
      have hpair : (applied.zip ready.plan.targets)[index]? = some (_, target) :=
        List.getElem?_zip_eq_some.2 ⟨happlied, htarget⟩
      rw [documentsOf, List.getElem?_map, hpair, Option.map_some, hstored] at hdocument
      exact hstored.trans hdocument

theorem GetCourse.filled (course : o.GetCourse context arguments state outcome)
    (hstore : o.store = http.objectStore network) (hok : outcome.result = .ok ()) :
    ∃ plan, o.planned .get arguments = .ok plan ∧
      ∀ index handle, (heldBy outcome.arguments)[index]? = some handle →
        http.Filled network context Target.read plan.targets state index handle := by
  cases course with
  | refused | stopped => cases hok
  | @delivered plan documents reached result destinations prepared read stored =>
      cases hok
      refine ⟨plan, prepared, fun index handle hhandle => ?_⟩
      obtain ⟨options, hresolve, hplan⟩ := planned_eq_ok_iff.1 prepared
      have hheld : heldBy (destinations.putBack arguments) = destinations.handles := by
        refine heldBy_putBack hresolve ?_
        have halike := Destinations.store_alike o.copier plan.destinations plan.targets documents
        rwa [stored, destinations_of_plan hplan] at halike
      rw [hheld] at hhandle
      rw [readTargets_eq_visit, hstore] at read
      obtain ⟨target, document, htarget, hdocument, hstate⟩ :=
        exists_target_of_store hplan (ObjectStore.length_of_visit read) stored hhandle
      obtain ⟨answer, hanswer, hvalue⟩ := ObjectStore.exists_answer_of_visit read htarget
      refine HttpStore.filled_of_answer htarget hanswer ?_ hstate
      exact hvalue.symm.trans hdocument

end Calls

/-- **The handles hold what was replied.** Take an orchestrator on a store behind HTTP, whatever the network is. After a
creation, an update or a read that succeeds, each handle that the caller finds holds the document of the body that was
replied, with a success, to the call for its target. So it has the key of the target exactly if the body states it, and
after a blank body it holds null. -/
theorem filled_from_replies {σ : Type} {o : Orchestrator σ} {http : HttpStore} {network : Network σ}
    (hstore : o.store = http.objectStore network) (context : Context) (arguments : List Argument) (state : σ) :
    (∀ operation, operation = .create ∨ operation = .update →
      let outcome := o.mutate operation context arguments state
      outcome.result = .ok () →
        ∃ ready, o.ready operation arguments = .ok ready ∧
          ∀ index handle, (heldBy outcome.arguments)[index]? = some handle →
            http.Filled network context ready.kind.call ready.plan.targets state index handle) ∧
      let outcome := o.get context arguments state
      outcome.result = .ok () →
        ∃ plan, o.planned .get arguments = .ok plan ∧
          ∀ index handle, (heldBy outcome.arguments)[index]? = some handle →
            http.Filled network context Target.read plan.targets state index handle := by
  constructor
  · intro operation hoperation outcome hok
    exact (mutate_course o context operation arguments state).filled hstore hoperation hok
  · intro outcome hok
    exact (get_course o context arguments state).filled hstore hok

section Replies

open MemoryStore

/-- A network on which every request gets the same reply. -/
def answering (status : Nat) (body : String) : Network Unit where
  isCancelled _ _ := false
  exchange _ _ _ := (.answered status body, ())

/-- A server that answers the object it was asked to read. -/
theorem filled_from_replies_of_stored :
    let body := Json.write (configMap "a" [("resourceVersion", .string "7")])
    let http := HttpStore.atFolder []
    let o := standard (http.objectStore (answering 200 body))
    let arguments := [Argument.object (.ofDocument (configMap "a" []))]
    let outcome := o.get ⟨0, []⟩ arguments ()
    outcome.result = .ok () ∧
      ∃ plan handle, o.planned .get arguments = .ok plan ∧ (heldBy outcome.arguments)[0]? = some handle ∧
        handle.key = .ok (configMapKey "a") ∧
        http.Filled (answering 200 body) ⟨0, []⟩ Target.read plan.targets () 0 handle := by
  intro body http o arguments outcome
  have hok : outcome.result = .ok () := by decide +kernel
  obtain ⟨plan, hplan, hfilled⟩ := (filled_from_replies (o := o) rfl ⟨0, []⟩ arguments ()).2 hok
  have hkeys : (heldBy outcome.arguments).map Handle.key = [.ok (configMapKey "a")] := by decide +kernel
  obtain ⟨handle, hhandle, hkey⟩ := List.map_eq_singleton_iff.1 hkeys
  have hheld : (heldBy outcome.arguments)[0]? = some handle := by
    rw [hhandle]
    rfl
  exact ⟨hok, plan, handle, hplan, hheld, hkey, hfilled 0 handle hheld⟩

/-- A server that answers success and nothing else. The creation, the update and the read of an object succeed, and the
handle no longer says which object it stands for. -/
theorem key_lost_to_blank_body :
    let o := standard ((HttpStore.atFolder []).objectStore (answering 200 ""))
    let arguments := [Argument.object (.ofDocument (configMap "a" []))]
    (heldBy arguments).map Handle.key = [.ok (configMapKey "a")] ∧
      ∀ outcome ∈ [o.mutate .create ⟨0, []⟩ arguments (), o.mutate .update ⟨0, []⟩ arguments (),
          o.get ⟨0, []⟩ arguments ()],
        outcome.result = .ok () ∧ (heldBy outcome.arguments).map Handle.key = [.error (.notAnObject "null")] := by
  decide +kernel

end Replies

end Orchestrator

end Converge
