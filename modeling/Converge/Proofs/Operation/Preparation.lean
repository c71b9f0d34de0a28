import Converge.Proofs.Operation.Handles
import Converge.Proofs.Operation.Phases

/-!
# What a plan is made of

A plan has its targets from a template or from the handles. With a template there are as many documents as the
handles ask for, and each has passed the test of its handle. Without one there is a target for each handle, and
none of them is asked whether it would accept its own state.

## Main Definitions

* `Target.Keyed` — the document of a target states its key.
* `Failure.OfPreparation` — the failures from before a store is called.

## Main Statements

* `Orchestrator.of_plan_template` — the targets of a template are its documents, which the handles accept.
* `Orchestrator.plan_of_no_template` — the plan of a call without a template does not depend on what handles
  accept.
* `Orchestrator.length_targets_of_plan`, `Orchestrator.targets_ne_nil_of_plan` — a plan has a target for each
  handle, and at least one.
* `Orchestrator.ofPreparation_of_ready` — a call that is not ready to write has a failure from before the store.
* `Orchestrator.keyed_of_plan` — the targets of a plan have the keys that their documents state.
-/

namespace Converge

/-- The document of a target states its key. -/
def Target.Keyed (target : Target) : Prop := ObjectKey.ofDocument target.document = .ok target.key

namespace Destinations

/-- Handles pass the test if each accepts the document at its position. -/
theorem check_eq_ok_iff {copier : Copier} {destinations : Destinations} {targets : List Target} :
    destinations.check copier targets = .ok () ↔
      ∀ (index : Nat) (target : Target) (handle : Handle), targets[index]? = some target →
        destinations.handles[index]? = some handle → copier.check target.document handle = .ok () := by
  simp only [check, forM_eq_ok_iff, mapError_eq_ok_iff, List.mem_iff_getElem?, Prod.forall,
    List.getElem?_zip_eq_some]
  constructor
  · intro h index target handle htarget hhandle
    exact h target handle ⟨index, htarget, hhandle⟩
  · rintro h target handle ⟨index, htarget, hhandle⟩
    exact h index target handle htarget hhandle

/-- As many documents are wanted as there are handles, if there are any. -/
theorem length_eq_of_admits {destinations : Destinations} {count : Nat}
    (h : destinations.wanted.admits count = true) (hhandles : destinations.handles ≠ []) :
    count = destinations.handles.length := by
  cases destinations with
  | none => exact (hhandles rfl).elim
  | object handle => simpa [wanted, DocumentCount.admits, handles] using h
  | objects handles =>
      cases handles with
      | nil => exact (hhandles rfl).elim
      | cons handle others => simpa [wanted, DocumentCount.admits, Destinations.handles] using h

/-- No destinations are content without any document. -/
theorem pos_of_admits {destinations : Destinations} {count : Nat}
    (h : destinations.wanted.admits count = true) : 0 < count := by
  unfold wanted at h
  split at h
  case h_1 | h_2 =>
    rw [DocumentCount.admits, beq_iff_eq] at h
    omega
  case h_3 => exact of_decide_eq_true h

end Destinations

theorem Template.length_keys {documents : List Document} {keys : List ObjectKey}
    (h : Template.keys documents = .ok keys) : keys.length = documents.length := by
  have hlength := congrArg List.length (mapM_eq_ok_iff.1 h)
  simpa using hlength.symm

/-- Each document has the key that it states. -/
theorem Template.ofDocument_of_mem_zip {documents : List Document} {keys : List ObjectKey}
    (h : Template.keys documents = .ok keys) {key : ObjectKey} {document : Document}
    (hmem : (key, document) ∈ keys.zip documents) : ObjectKey.ofDocument document = .ok key := by
  obtain ⟨index, hindex⟩ := List.mem_iff_getElem?.1 hmem
  obtain ⟨hkey, hdocument⟩ := List.getElem?_zip_eq_some.1 hindex
  have hkeys := congrArg (·[index]?) (mapM_eq_ok_iff.1 h)
  simp only [List.getElem?_map, List.getElem?_zipIdx, hkey, hdocument, Option.map_some, Option.some.injEq] at hkeys
  exact mapError_eq_ok_iff.1 hkeys

namespace Plan

theorem keyed_of_targetOfHandle {position : Nat} {handle : Handle} {target : Target}
    (h : targetOfHandle position handle = .ok target) : target.Keyed := by
  unfold targetOfHandle at h
  split at h
  · cases h
  · split at h
    · rename_i key hkey
      cases h
      exact hkey
    · cases h

theorem keyed_of_targetsOfHandles {destinations : Destinations} {targets : List Target}
    (h : targetsOfHandles destinations = .ok targets) : ∀ target ∈ targets, target.Keyed := by
  intro target htarget
  unfold targetsOfHandles at h
  split at h
  · cases h
  · obtain ⟨⟨handle, position⟩, -, hhandle⟩ := exists_of_mem_mapM h htarget
    exact keyed_of_targetOfHandle hhandle

/-- There is a target for each handle, and a handle at all. -/
theorem length_targetsOfHandles {destinations : Destinations} {targets : List Target}
    (h : targetsOfHandles destinations = .ok targets) :
    targets.length = destinations.handles.length ∧ destinations.handles ≠ [] := by
  unfold targetsOfHandles at h
  split at h
  · cases h
  · rename_i hhandles
    have hlength := congrArg List.length (mapM_eq_ok_iff.1 h)
    exact ⟨by simpa using hlength.symm, by simpa using hhandles⟩

theorem targetsOfDocuments_eq_ok {copier : Copier} {destinations : Destinations} {documents : List Document}
    {targets : List Target} (h : targetsOfDocuments copier destinations documents = .ok targets) :
    destinations.wanted.admits documents.length = true ∧ targets.map Target.document = documents ∧
      destinations.check copier targets = .ok () := by
  simp only [targetsOfDocuments, throw_or_eq_ok_iff, bind_eq_ok_iff, mapError_eq_ok_iff, pure_eq_ok_iff] at h
  obtain ⟨hadmits, keys, hkeys, ⟨⟩, hcheck, rfl⟩ := h
  refine ⟨by simpa using hadmits, ?_, hcheck⟩
  rw [List.map_map]
  exact List.map_snd_zip (Nat.le_of_eq (Template.length_keys hkeys).symm)

theorem keyed_of_targetsOfDocuments {copier : Copier} {destinations : Destinations} {documents : List Document}
    {targets : List Target} (h : targetsOfDocuments copier destinations documents = .ok targets) :
    ∀ target ∈ targets, target.Keyed := by
  simp only [targetsOfDocuments, throw_or_eq_ok_iff, bind_eq_ok_iff, mapError_eq_ok_iff, pure_eq_ok_iff] at h
  obtain ⟨-, keys, hkeys, -, -, rfl⟩ := h
  intro target htarget
  obtain ⟨⟨key, document⟩, hmem, rfl⟩ := List.mem_map.1 htarget
  exact Template.ofDocument_of_mem_zip hkeys hmem

end Plan

namespace Orchestrator

variable {σ : Type} {o : Orchestrator σ} {options : Options} {plan : Plan}

/-- **The targets of a template are its documents, and each is accepted by the handle at its position.** -/
theorem of_plan_template {source : TemplateSource} (htemplate : options.template = some source)
    (h : o.plan options = .ok plan) :
    ∃ text, Plan.load o.files source = .ok text ∧
      o.renderer.render text (Bindings.merge options.bindings) = .ok (plan.targets.map Target.document) ∧
      plan.driver = .template ∧
      plan.destinations.wanted.admits plan.targets.length = true ∧
      ∀ (index : Nat) (target : Target) (handle : Handle), plan.targets[index]? = some target →
        plan.destinations.handles[index]? = some handle → o.copier.check target.document handle = .ok () := by
  simp only [Orchestrator.plan, Plan.of, htemplate, bind_eq_ok_iff, mapError_eq_ok_iff, pure_eq_ok_iff] at h
  obtain ⟨text, hload, documents, hrender, targets, htargets, rfl⟩ := h
  obtain ⟨hadmits, rfl, hcheck⟩ := Plan.targetsOfDocuments_eq_ok htargets
  refine ⟨text, hload, hrender, rfl, ?_, Destinations.check_eq_ok_iff.1 hcheck⟩
  simpa using hadmits

theorem plan_of_no_template (htemplate : options.template = none) :
    o.plan options = (Plan.targetsOfHandles (Destinations.ofOptions options)).map fun targets =>
      ⟨.handles, targets, Destinations.ofOptions options⟩ := by
  simp only [Orchestrator.plan, Plan.of, htemplate]
  cases Plan.targetsOfHandles (Destinations.ofOptions options) <;> rfl

/-- **A plan has a target for each handle**, if there are any. -/
theorem length_targets_of_plan (h : o.plan options = .ok plan) (hhandles : plan.destinations.handles ≠ []) :
    plan.targets.length = plan.destinations.handles.length := by
  cases htemplate : options.template with
  | some source =>
      obtain ⟨text, -, -, -, hadmits, -⟩ := of_plan_template htemplate h
      exact Destinations.length_eq_of_admits hadmits hhandles
  | none =>
      rw [plan_of_no_template htemplate] at h
      obtain ⟨targets, htargets, rfl⟩ := map_eq_ok_iff.1 h
      exact (Plan.length_targetsOfHandles htargets).1

/-- No plan is without targets. -/
theorem targets_ne_nil_of_plan (h : o.plan options = .ok plan) : plan.targets ≠ [] := by
  rw [← List.length_pos_iff]
  cases htemplate : options.template with
  | some source =>
      obtain ⟨text, -, -, -, hadmits, -⟩ := of_plan_template htemplate h
      exact Destinations.pos_of_admits hadmits
  | none =>
      rw [plan_of_no_template htemplate] at h
      obtain ⟨targets, htargets, rfl⟩ := map_eq_ok_iff.1 h
      obtain ⟨hlength, hhandles⟩ := Plan.length_targetsOfHandles htargets
      rw [hlength]
      exact List.length_pos_iff.2 hhandles

/-- The targets of a plan have the keys that their documents state. -/
theorem keyed_of_plan (h : o.plan options = .ok plan) : ∀ target ∈ plan.targets, target.Keyed := by
  cases htemplate : options.template with
  | some source =>
      simp only [Orchestrator.plan, Plan.of, htemplate, bind_eq_ok_iff, mapError_eq_ok_iff, pure_eq_ok_iff] at h
      obtain ⟨text, -, documents, -, targets, htargets, rfl⟩ := h
      exact Plan.keyed_of_targetsOfDocuments htargets
  | none =>
      rw [plan_of_no_template htemplate] at h
      obtain ⟨targets, htargets, rfl⟩ := map_eq_ok_iff.1 h
      exact Plan.keyed_of_targetsOfHandles htargets

theorem keyed_of_ready {operation : Operation} {arguments : List Argument} {ready : Ready}
    (h : o.ready operation arguments = .ok ready) : ∀ target ∈ ready.plan.targets, target.Keyed := by
  obtain ⟨options, -, -, hplan, -⟩ := ready_eq_ok_iff.1 h
  exact keyed_of_plan hplan

end Orchestrator

/-! ### Failures of the preparation -/

/-- The failures from before a store is called: the arguments, the template, or a handle. -/
def Failure.OfPreparation : Failure → Prop
  | .arguments _ | .template _ | .copy _ _ => True
  | .mutation _ _ _ | .timeout _ _ _ _ | .read _ _ => False

namespace Plan

variable {failure : Failure}

theorem ofPreparation_of_load {files : Files} {source : TemplateSource} (h : load files source = .error failure) :
    failure.OfPreparation := by
  cases source with
  | inline text => cases h
  | file path =>
      obtain ⟨cause, -, rfl⟩ := mapError_eq_error_iff.1 h
      trivial

theorem ofPreparation_of_targetOfHandle {position : Nat} {handle : Handle}
    (h : targetOfHandle position handle = .error failure) : failure.OfPreparation := by
  unfold targetOfHandle at h
  split at h
  · cases h
    trivial
  · split at h
    · cases h
    · cases h
      trivial

theorem ofPreparation_of_targetsOfHandles {destinations : Destinations}
    (h : targetsOfHandles destinations = .error failure) : failure.OfPreparation := by
  unfold targetsOfHandles at h
  split at h
  · cases h
    trivial
  · obtain ⟨⟨handle, position⟩, -, hhandle⟩ := exists_of_mapM_eq_error h
    exact ofPreparation_of_targetOfHandle hhandle

theorem ofPreparation_of_check {copier : Copier} {destinations : Destinations} {targets : List Target}
    (h : destinations.check copier targets = .error failure) : failure.OfPreparation := by
  obtain ⟨⟨target, handle⟩, -, hcheck⟩ := exists_of_forM_eq_error h
  obtain ⟨cause, -, rfl⟩ := mapError_eq_error_iff.1 hcheck
  trivial

theorem ofPreparation_of_targetsOfDocuments {copier : Copier} {destinations : Destinations} {documents : List Document}
    (h : targetsOfDocuments copier destinations documents = .error failure) : failure.OfPreparation := by
  unfold targetsOfDocuments at h
  split at h
  · cases h
    trivial
  · obtain hkeys | ⟨keys, -, hkeyed⟩ := bind_eq_error_iff.1 h
    · obtain ⟨cause, -, rfl⟩ := mapError_eq_error_iff.1 hkeys
      trivial
    · obtain hcheck | ⟨_, -, hpure⟩ := bind_eq_error_iff.1 hkeyed
      · exact ofPreparation_of_check hcheck
      · cases hpure

end Plan

namespace Orchestrator

variable {σ : Type} {o : Orchestrator σ} {options : Options} {failure : Failure}

theorem ofPreparation_of_plan (h : o.plan options = .error failure) : failure.OfPreparation := by
  cases htemplate : options.template with
  | none =>
      rw [plan_of_no_template htemplate, map_eq_error_iff] at h
      exact Plan.ofPreparation_of_targetsOfHandles h
  | some source =>
      simp only [Orchestrator.plan, Plan.of, htemplate, bind_eq_error_iff] at h
      obtain hload | ⟨text, -, hrender | ⟨documents, -, htargets | ⟨targets, -, hpure⟩⟩⟩ := h
      · exact Plan.ofPreparation_of_load hload
      · obtain ⟨cause, -, rfl⟩ := mapError_eq_error_iff.1 hrender
        trivial
      · exact Plan.ofPreparation_of_targetsOfDocuments htargets
      · cases hpure

theorem ofPreparation_of_ready {operation : Operation} {arguments : List Argument}
    (h : o.ready operation arguments = .error failure) : failure.OfPreparation := by
  simp only [Orchestrator.ready, bind_eq_error_iff, mapError_eq_error_iff] at h
  obtain ⟨cause, -, rfl⟩ | ⟨options, -, hspec | ⟨spec, -, hplan | ⟨plan, -, hkind⟩⟩⟩ := h
  · trivial
  · unfold waitSpec at hspec
    split at hspec
    · split at hspec
      · obtain ⟨cause, -, rfl⟩ := mapError_eq_error_iff.1 hspec
        trivial
      · cases hspec
    · cases hspec
  · exact ofPreparation_of_plan hplan
  · split at hkind
    · cases hkind
      trivial
    · cases hkind

end Orchestrator

end Converge
