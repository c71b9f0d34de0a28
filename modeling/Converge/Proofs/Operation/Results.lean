import Converge.Proofs.Operation.Answers
import Converge.Proofs.Operation.Validation

/-!
# One result for each target

A call has a target for each document of its template, or for each handle that it is given, and gets one document for
each target. They go to the caller's handles by position: nothing is cut off where targets, documents and handles are
laid side by side, since a template with another number of documents than the handles ask for is refused first. Only an
empty list of handles takes any number, and it grows by as many.

## Main Definitions

* `Orchestrator.Supplied` — the documents that a call works on.
* `ObjectStore.Answers` — a store answers the calls for targets with these documents, one after the other.
* `Delivered` — the caller's handles hold these documents, one each and in order.
* `Miscounted` — the caller's handles do not go with this number of documents.

## Main Statements

* `Orchestrator.answers_of_writeAll`, `Orchestrator.answers_of_readTargets` — the documents of a call are what the store
  has answered.
* `Orchestrator.delivered_of_store` — a delivery that gets through reaches the caller's handles.
* `Orchestrator.plan_of_miscounted` — a template with another number of documents has no plan.
* `Orchestrator.one_result_for_each_target` — every call that succeeds delivers in this way, and a template with another
  number of documents is refused before the store is called.
-/

namespace Converge

/-- The store answers the calls for targets with documents, one for each target and in order. -/
inductive ObjectStore.Answers {σ : Type} (store : ObjectStore σ) (context : Context) (call : Target → StoreCall) :
    List Target → List Document → σ → σ → Prop
  | nil (state : σ) : Answers store context call [] [] state state
  | cons {target : Target} {answer : (call target).Answer} {document : Document} {targets : List Target}
      {documents : List Document} {state next reached : σ}
      (answered : store.call context (call target) state = (.ok answer, next))
      (holds : (call target).document? answer = some document)
      (rest : Answers store context call targets documents next reached) :
      Answers store context call (target :: targets) (document :: documents) state reached

theorem ObjectStore.Answers.length_eq {σ : Type} {store : ObjectStore σ} {context : Context} {call : Target → StoreCall}
    {targets : List Target} {documents : List Document} {state reached : σ}
    (h : store.Answers context call targets documents state reached) : documents.length = targets.length := by
  induction h with
  | nil => rfl
  | cons answered holds rest ih => rw [List.length_cons, List.length_cons, ih]

/-- One handle stays one handle and a list stays a list, and the handles hold the documents, one each and in order. -/
def Delivered (arguments left : List Argument) (documents : List Document) : Prop :=
  List.Forall₂ (fun before after => after.Alike before ∧ after.handles.map Handle.state = documents.map some)
    (given arguments) (given left)

/-- The handles among arguments do not go with this number of documents: there is none, one handle is given and it is
not one, or a list that is not empty has another length. -/
inductive Miscounted (arguments : List Argument) (count : Nat) : Prop
  | none (zero : count = 0)
  | object {handle : Handle} (carried : .object handle ∈ arguments) (differs : count ≠ 1)
  | objects {handles : List Handle} (carried : .objects handles ∈ arguments) (filled : handles ≠ [])
      (differs : count ≠ handles.length)

namespace Orchestrator

variable {σ : Type} {o : Orchestrator σ} {context : Context} {operation : Operation} {arguments : List Argument}
  {options : Options} {plan : Plan} {state reached : σ}

/-- The template of a call renders to documents. -/
def Renders (o : Orchestrator σ) (options : Options) (documents : List Document) : Prop :=
  ∃ source text, options.template = some source ∧ Plan.load o.files source = .ok text ∧
    o.renderer.render text (Bindings.merge options.bindings) = .ok documents

/-- The documents that a call works on: those that its template renders to, or without a template those of the handles
that it is given. -/
inductive Supplied (o : Orchestrator σ) (options : Options) (arguments : List Argument) (documents : List Document) :
    Prop
  | rendered (renders : o.Renders options documents)
  | held (noTemplate : options.template = none)
      (states : (heldBy arguments).map Handle.document = documents.map some)

/-! ### Targets -/

theorem document_of_targetOfHandle {position : Nat} {handle : Handle} {target : Target}
    (h : Plan.targetOfHandle position handle = .ok target) : handle.document = some target.document := by
  unfold Plan.targetOfHandle at h
  split at h
  · cases h
  · next document hdocument =>
      split at h
      · cases h
        exact hdocument
      · cases h

/-- Each handle has a target, which is made of its document. -/
theorem documents_of_targetsOfHandles {destinations : Destinations} {targets : List Target}
    (h : Plan.targetsOfHandles destinations = .ok targets) :
    destinations.handles.map Handle.document = (targets.map Target.document).map some := by
  unfold Plan.targetsOfHandles at h
  split at h
  · cases h
  · have hmade := mapM_eq_ok_iff.1 h
    have hlength : destinations.handles.length = targets.length := by simpa using congrArg List.length hmade
    refine List.ext_getElem (by simpa using hlength) fun index hhandle htarget => ?_
    have hindex := congrArg (·[index]?) hmade
    simp only [List.length_map] at hhandle htarget
    simp only [List.getElem?_map, List.getElem?_zipIdx, List.getElem?_eq_getElem hhandle,
      List.getElem?_eq_getElem htarget, Option.map_some, Option.some.injEq] at hindex
    simpa only [List.getElem_map] using document_of_targetOfHandle hindex

/-- **The documents of the targets are those that the call works on**, as many and in this order. -/
theorem supplied_of_plan (hresolve : resolve operation arguments o.config = .ok options)
    (hplan : o.plan options = .ok plan) : o.Supplied options arguments (plan.targets.map Target.document) := by
  cases htemplate : options.template with
  | some source =>
      obtain ⟨text, hload, hrender, -⟩ := of_plan_template htemplate hplan
      exact .rendered ⟨source, text, htemplate, hload, hrender⟩
  | none =>
      rw [plan_of_no_template htemplate] at hplan
      obtain ⟨targets, htargets, rfl⟩ := map_eq_ok_iff.1 hplan
      refine .held htemplate ?_
      rw [heldBy_of_resolve hresolve]
      exact documents_of_targetsOfHandles htargets

/-! ### Documents of the answers -/

/-- What goes to the handles after writes is what the store has answered to them. -/
theorem answers_of_writeAll {kind : Mutation} (hkind : kind ≠ .delete) {targets : List Target} {applied : List Applied}
    (h : o.writeAll context kind targets state = (.ok applied, reached)) :
    o.store.Answers context kind.call targets (documentsOf targets applied) state reached := by
  rw [writeAll_eq_visit] at h
  induction targets generalizing applied state with
  | nil =>
      cases h
      exact .nil _
  | cons target targets ih =>
      obtain ⟨answer, next, rest, hcall, hrest, rfl⟩ := ObjectStore.exists_of_visit_cons h
      obtain ⟨document, hdocument⟩ := exists_document?_of_ne_delete hkind answer
      simp only [documentsOf, List.zip_cons_cons, List.map_cons, hdocument, Option.getD_some]
      exact .cons hcall hdocument (ih hrest)

theorem answers_of_readTargets {targets : List Target} {documents : List Document}
    (h : o.readTargets context targets state = (.ok documents, reached)) :
    o.store.Answers context Target.read targets documents state reached := by
  rw [readTargets_eq_visit] at h
  induction targets generalizing documents state with
  | nil =>
      cases h
      exact .nil _
  | cons target targets ih =>
      obtain ⟨document, next, rest, hcall, hrest, rfl⟩ := ObjectStore.exists_of_visit_cons h
      exact .cons hcall rfl (ih hrest)

/-! ### Delivery -/

/-- After a delivery that gets through there is a handle for each document, and it holds this document. An empty list of
handles has grown, other handles have been as many from the start. -/
theorem states_of_store (hplan : o.plan options = .ok plan) {documents : List Document}
    (hlength : documents.length = plan.targets.length) {destinations : Destinations}
    (h : plan.destinations.store o.copier plan.targets documents = (.ok (), destinations))
    (hdestinations : plan.destinations.toList ≠ []) :
    destinations.handles.map Handle.state = documents.map some := by
  have hhandles : destinations.handles.length = documents.length := by
    have hstored := Destinations.length_handles_store o.copier plan.destinations plan.targets documents
    rw [h] at hstored
    rw [hstored]
    split
    · rfl
    · next hfilled =>
        have hnonempty : plan.destinations.handles ≠ [] := by
          cases hgiven : plan.destinations with
          | none =>
              rw [hgiven] at hdestinations
              exact absurd rfl hdestinations
          | object handle => exact List.cons_ne_nil _ _
          | objects handles =>
              rintro rfl
              exact hfilled hgiven
        rw [hlength, length_targets_of_plan hplan hnonempty]
  refine List.ext_getElem (by simpa using hhandles) fun index hhandle _ => ?_
  rw [List.length_map] at hhandle
  obtain ⟨target, document, -, hdocument, hstate⟩ :=
    exists_target_of_store hplan hlength h (List.getElem?_eq_getElem hhandle)
  obtain ⟨hindex, rfl⟩ := List.getElem?_eq_some_iff.1 hdocument
  simpa only [List.getElem_map] using hstate

/-- **A delivery that gets through reaches the caller's handles.** -/
theorem delivered_of_store (hresolve : resolve operation arguments o.config = .ok options)
    (hplan : o.plan options = .ok plan) {documents : List Document} (hlength : documents.length = plan.targets.length)
    {destinations : Destinations}
    (h : plan.destinations.store o.copier plan.targets documents = (.ok (), destinations)) :
    Delivered arguments (destinations.putBack arguments) documents := by
  have halike : destinations.Alike plan.destinations := by
    have halike := Destinations.store_alike o.copier plan.destinations plan.targets documents
    rwa [h] at halike
  have hstates := states_of_store hplan hlength h
  rw [Delivered, Destinations.given_putBack, given_of_resolve hresolve, ← destinations_of_plan hplan]
  cases hgiven : plan.destinations with
  | none => exact .nil
  | object | objects =>
      rw [hgiven] at halike hstates
      rw [Destinations.toList, List.map_singleton, halike.inPlaceOf_eq]
      exact .cons ⟨halike, hstates (List.cons_ne_nil _ _)⟩ .nil

/-! ### Templates with another number of documents -/

theorem not_admits_of_miscounted (hresolve : resolve operation arguments o.config = .ok options) {count : Nat}
    (h : Miscounted arguments count) : (Destinations.ofOptions options).wanted.admits count = false := by
  have hgiven := given_of_resolve hresolve
  have hcarried {argument : Argument} {destinations : Destinations} (hmem : argument ∈ arguments)
      (hdestinations : argument.destinations? = some destinations) : Destinations.ofOptions options = destinations := by
    have hmem' : destinations ∈ given arguments := List.mem_filterMap.2 ⟨argument, hmem, hdestinations⟩
    rw [hgiven] at hmem'
    cases hoptions : Destinations.ofOptions options with
    | none =>
        rw [hoptions] at hmem'
        cases hmem'
    | object | objects =>
        rw [hoptions] at hmem'
        exact (List.mem_singleton.1 hmem').symm
  cases h with
  | none zero =>
      by_contra hadmits
      have := Destinations.pos_of_admits (eq_true_of_ne_false hadmits)
      omega
  | object carried differs =>
      rw [hcarried carried rfl]
      simpa [Destinations.wanted, DocumentCount.admits] using differs
  | @objects handles carried filled differs =>
      rw [hcarried carried rfl]
      by_contra hadmits
      exact differs (Destinations.length_eq_of_admits (eq_true_of_ne_false hadmits) filled)

/-- The failure that says how many documents a template has, and how many are wanted. -/
def wrongCount (options : Options) (documents : List Document) : Failure :=
  .template (.wrongCount (Destinations.ofOptions options).wanted documents.length)

/-- **A template with another number of documents has no plan.** -/
theorem plan_of_miscounted (hresolve : resolve operation arguments o.config = .ok options) {documents : List Document}
    (hrenders : o.Renders options documents) (h : Miscounted arguments documents.length) :
    o.plan options = .error (wrongCount options documents) := by
  obtain ⟨source, text, htemplate, hload, hrender⟩ := hrenders
  simp only [Orchestrator.plan, Plan.of, htemplate, hload, bind, Except.bind, hrender, mapError_ok,
    Plan.targetsOfDocuments, not_admits_of_miscounted hresolve h, Bool.not_false, if_true]
  rfl

theorem planned_of_plan_eq_error {failure : Failure} (hresolve : resolve operation arguments o.config = .ok options)
    (hplan : o.plan options = .error failure) : o.planned operation arguments = .error failure := by
  rw [planned, hresolve]
  exact hplan

/-- A call that does not wait is not ready if it has no plan. -/
theorem ready_of_plan_eq_error {failure : Failure} (hresolve : resolve operation arguments o.config = .ok options)
    (hwaits : operation.waits = false) (hplan : o.plan options = .error failure) :
    o.ready operation arguments = .error failure := by
  have hspec : waitSpec operation options = .ok none := by
    unfold waitSpec
    split
    · rw [hwaits, if_neg Bool.false_ne_true]
    · rfl
  simp only [Orchestrator.ready, hresolve, mapError_ok, bind, Except.bind, hspec, hplan]

/-! ### Calls -/

/-- What a call does that gets through: its plan has a target for each document that it works on, and the results go to
the caller's handles. -/
def Places (o : Orchestrator σ) (operation : Operation) (arguments left : List Argument) (plan : Plan)
    (documents : List Document) : Prop :=
  ∃ options, resolve operation arguments o.config = .ok options ∧ o.plan options = .ok plan ∧
    o.Supplied options arguments (plan.targets.map Target.document) ∧ Delivered arguments left documents

theorem Course.places {outcome : Outcome σ Unit} (course : o.Course context operation arguments state outcome)
    (hoperation : operation = .create ∨ operation = .update) (hok : outcome.result = .ok ()) :
    ∃ plan kind documents, Mutation.of? operation plan.driver = some kind ∧
      o.store.Answers context kind.call plan.targets documents state outcome.state ∧
      o.Places operation arguments outcome.arguments plan documents := by
  cases course with
  | refused | stopped | undelivered => cases hok
  | waited prepared _ _ waits =>
      -- Neither of the two operations waits.
      have hwaits : operation.waits = false := by rcases hoperation with rfl | rfl <;> rfl
      cases (spec_of_not_waits prepared hwaits).symm.trans waits
  | @delivered ready applied reached destinations prepared written kept =>
      obtain ⟨options, hresolve, -, hplan, hkind⟩ := ready_eq_ok_iff.1 prepared
      have hdelete := ne_delete_of_of? hkind hoperation
      rw [keep, if_neg hdelete] at kept
      have hanswers := answers_of_writeAll hdelete written
      exact ⟨ready.plan, ready.kind, documentsOf ready.plan.targets applied, hkind, hanswers, options, hresolve, hplan,
        supplied_of_plan hresolve hplan, delivered_of_store hresolve hplan hanswers.length_eq kept⟩

theorem GetCourse.places {outcome : Outcome σ Unit} (course : o.GetCourse context arguments state outcome)
    (hok : outcome.result = .ok ()) :
    ∃ plan documents, o.store.Answers context Target.read plan.targets documents state outcome.state ∧
      o.Places .get arguments outcome.arguments plan documents := by
  cases course with
  | refused | stopped => cases hok
  | @delivered plan documents reached result destinations prepared read stored =>
      cases hok
      obtain ⟨options, hresolve, hplan⟩ := planned_eq_ok_iff.1 prepared
      have hanswers := answers_of_readTargets read
      exact ⟨plan, documents, hanswers, options, hresolve, hplan, supplied_of_plan hresolve hplan,
        delivered_of_store hresolve hplan hanswers.length_eq stored⟩

theorem render_places {documents : List Document} (h : (o.render arguments state).result = .ok documents) :
    ∃ plan, plan.targets.map Target.document = documents ∧
      o.Places .render arguments (o.render arguments state).arguments plan documents := by
  have hplanned : ((resolve .render arguments o.config).mapError Failure.arguments).bind o.plan =
      o.planned .render arguments := rfl
  unfold render at h ⊢
  rw [hplanned] at h ⊢
  cases hplan : o.planned .render arguments with
  | error failure =>
      rw [hplan] at h
      cases h
  | ok plan =>
      rw [hplan] at h
      obtain ⟨options, hresolve, hplan⟩ := planned_eq_ok_iff.1 hplan
      rcases hstore : plan.destinations.store o.copier plan.targets (plan.targets.map Target.document) with
        ⟨failure | ⟨⟩, destinations⟩
      · simp only [hstore, Except.map] at h
        cases h
      · simp only [hstore, Except.map] at h ⊢
        cases h
        exact ⟨plan, rfl, options, hresolve, hplan, supplied_of_plan hresolve hplan,
          delivered_of_store hresolve hplan (List.length_map _) hstore⟩

/-- A call that writes and one that does not both end with the failure of their plan, and have then called nothing. -/
theorem untouched_of_plan_eq_error {failure : Failure} (hresolve : resolve operation arguments o.config = .ok options)
    (hplan : o.plan options = .error failure) (context : Context) (state : σ) :
    (operation.waits = false →
      (o.recorded.mutate operation context arguments (state, [])).Untouched failure arguments state) ∧
    (operation = .get → (o.recorded.get context arguments (state, [])).Untouched failure arguments state) ∧
    (operation = .render → (o.recorded.render arguments (state, [])).Untouched failure arguments state) := by
  refine ⟨fun hwaits => ?_, ?_, ?_⟩
  · have hready : o.recorded.ready operation arguments = .error failure := ready_of_plan_eq_error hresolve hwaits hplan
    simp only [Outcome.Untouched, mutate, hready]
  · rintro rfl
    have hplanned : ((resolve .get arguments o.recorded.config).mapError Failure.arguments).bind o.recorded.plan =
        .error failure := planned_of_plan_eq_error hresolve hplan
    simp only [Outcome.Untouched, get, hplanned]
  · rintro rfl
    have hplanned : ((resolve .render arguments o.recorded.config).mapError Failure.arguments).bind o.recorded.plan =
        .error failure := planned_of_plan_eq_error hresolve hplan
    simp only [Outcome.Untouched, render, hplanned]

/-- **One result for each target.** Whatever the store is: a creation, an update, a read or a rendering that succeeds
works on the documents of its template, or of the handles that it is given, with one target for each. It gets one
document for each target, in order: what the store answers to its write or to its read, or the rendered document itself.
The caller then finds these documents in the handles, one each and in order, where a list of handles that was empty has
become as long. A template with another number of documents than the handles ask for is refused, and the store has
received no call. -/
theorem one_result_for_each_target (o : Orchestrator σ) (context : Context) (arguments : List Argument) (state : σ) :
    (∀ operation, operation = .create ∨ operation = .update →
      (o.mutate operation context arguments state).result = .ok () →
        ∃ plan kind documents, Mutation.of? operation plan.driver = some kind ∧
          o.store.Answers context kind.call plan.targets documents state
            (o.mutate operation context arguments state).state ∧
          o.Places operation arguments (o.mutate operation context arguments state).arguments plan documents) ∧
      ((o.get context arguments state).result = .ok () →
        ∃ plan documents,
          o.store.Answers context Target.read plan.targets documents state (o.get context arguments state).state ∧
          o.Places .get arguments (o.get context arguments state).arguments plan documents) ∧
      (∀ documents, (o.render arguments state).result = .ok documents →
        ∃ plan, plan.targets.map Target.document = documents ∧
          o.Places .render arguments (o.render arguments state).arguments plan documents) ∧
      ∀ operation options documents, resolve operation arguments o.config = .ok options →
        o.Renders options documents → Miscounted arguments documents.length →
          (operation = .create ∨ operation = .update →
            (o.recorded.mutate operation context arguments (state, [])).Untouched (wrongCount options documents)
              arguments state) ∧
          (operation = .get →
            (o.recorded.get context arguments (state, [])).Untouched (wrongCount options documents) arguments state) ∧
          (operation = .render →
            (o.recorded.render arguments (state, [])).Untouched (wrongCount options documents) arguments state) := by
  refine ⟨?_, ?_, ?_, ?_⟩
  · intro operation hoperation hok
    exact (mutate_course o context operation arguments state).places hoperation hok
  · intro hok
    exact (get_course o context arguments state).places hok
  · intro documents hok
    exact render_places hok
  · intro operation options documents hresolve hrenders hmiscounted
    have hplan := plan_of_miscounted hresolve hrenders hmiscounted
    obtain ⟨hmutate, hget, hrender⟩ := untouched_of_plan_eq_error hresolve hplan context state
    exact ⟨fun hoperation => hmutate (by rcases hoperation with rfl | rfl <;> rfl), hget, hrender⟩

section Templates

open MemoryStore

/-- A template of one document is created into a list of handles that is empty, and a template of two documents is
refused for one handle. -/
theorem one_result_for_each_target_of_templates :
    let o := standard MemoryStore.objectStore
    let world : World := ⟨empty, .none, "2024-05-01T12:00:00Z"⟩
    let one := [Argument.template (.inline "\x7bapiVersion: v1, kind: A, metadata: \x7bname: a\x7d\x7d"), .objects []]
    let two := [Argument.template (.inline "a: 1\n---\nb: 2"), .object .empty]
    (o.mutate .create ⟨0, []⟩ one world).result = .ok () ∧
      (∃ plan kind documents, Mutation.of? .create plan.driver = some kind ∧
        o.store.Answers ⟨0, []⟩ kind.call plan.targets documents world (o.mutate .create ⟨0, []⟩ one world).state ∧
        o.Places .create one (o.mutate .create ⟨0, []⟩ one world).arguments plan documents) ∧
      ∃ options documents, o.Renders options documents ∧ Miscounted two documents.length ∧
        (o.recorded.mutate .create ⟨0, []⟩ two (world, [])).Untouched (wrongCount options documents) two world := by
  intro o world one two
  have hok : (o.mutate .create ⟨0, []⟩ one world).result = .ok () := by decide +kernel
  obtain ⟨options, hresolve, hrenders⟩ : ∃ options, resolve .create two o.config = .ok options ∧
      o.Renders options [.object [("a", .number (.integer 1))], .object [("b", .number (.integer 2))]] := by
    refine ⟨_, rfl, _, _, rfl, rfl, ?_⟩
    decide +kernel
  have hmiscounted : Miscounted two 2 := .object (.tail _ (.head _)) (by decide)
  refine ⟨hok, (one_result_for_each_target o ⟨0, []⟩ one world).1 .create (.inl rfl) hok, options, _, hrenders,
    hmiscounted, ?_⟩
  exact ((one_result_for_each_target o ⟨0, []⟩ two world).2.2.2 .create options _ hresolve hrenders hmiscounted).1
    (.inl rfl)

end Templates

end Orchestrator

end Converge
