import Converge.Proofs.Arguments.Acceptance

/-!
# Durations among arguments

A waiting operation is the operation that it waits for, with a timeout and an interval besides. The arguments that
are durations go to slots of their own, so they neither help nor hinder the others: without them the other slots
are filled alike, or the same argument is refused.

## Main Definitions

* `Argument.isDuration`, `withoutDurations`, `durationsOf` — the arguments that are durations, and the others.
* `Operation.plain` — the operation that does the same without waiting.
* `ArgumentError.inTermsOf` — a refusal with another operation named in it.
* `Draft.timed` — a draft with the durations of another one.

## Main Statements

* `Draft.foldlM_add_timed` — durations and other arguments are placed independently of each other.
* `Draft.ofArguments_eq_map_timed` — the draft of arguments is the draft of those that are no durations, with the
  durations added.
* `Draft.fault?_timed` — the slots are at fault for the waiting operation as they are for the other one.
-/

namespace Converge

/-! ### Arguments that are durations -/

/-- The slots of durations, or none of its own. -/
def ItemKind.Timing : ItemKind → Prop
  | .duration | .timeout | .interval => True
  | _ => False

/-- Whether the value is a duration. -/
def Item.isDuration : Item → Bool
  | .duration _ | .timeout _ | .interval _ => true
  | _ => false

/-- Whether an argument turns out to be a duration. -/
def Argument.isDuration (argument : Argument) : Bool :=
  match argument.item with
  | .ok item => item.isDuration
  | .error _ => false

/-- The arguments less the durations. -/
def withoutDurations (arguments : List Argument) : List Argument := arguments.filter (!·.isDuration)

/-- The durations among arguments. -/
def durationsOf (arguments : List Argument) : List Argument := arguments.filter (·.isDuration)

theorem Argument.isDuration_of_item {argument : Argument} {item : Item} (h : argument.item = .ok item) :
    argument.isDuration = item.isDuration := by
  rw [isDuration, h]

theorem Argument.isDuration_of_error {argument : Argument} {cause : ArgumentError}
    (h : argument.item = .error cause) : argument.isDuration = false := by
  rw [isDuration, h]

section Supplied

variable {kind : ItemKind} {arguments : List Argument}

theorem Argument.isDuration_iff_timing {argument : Argument} {value : kind.Value}
    (h : argument.item.toOption.bind (Item.as? kind) = some value) : argument.isDuration = true ↔ kind.Timing := by
  cases hitem : argument.item with
  | error cause =>
      rw [hitem] at h
      cases h
  | ok item =>
      rw [hitem] at h
      rw [isDuration_of_item hitem]
      cases item <;> cases kind <;> first | (cases h; done) | simp [Item.isDuration, ItemKind.Timing]

theorem supplied_durationsOf (timing : kind.Timing) :
    supplied kind (durationsOf arguments) = supplied kind arguments := by
  rw [supplied, durationsOf, List.filterMap_filter]
  congr 1
  funext argument
  cases hvalue : argument.item.toOption.bind (Item.as? kind) with
  | none => exact ite_self _
  | some value => exact if_pos ((Argument.isDuration_iff_timing hvalue).2 timing)

theorem supplied_durationsOf_eq_nil (timing : ¬ kind.Timing) : supplied kind (durationsOf arguments) = [] := by
  refine List.filterMap_eq_nil_iff.2 fun argument hargument => ?_
  obtain ⟨-, hduration⟩ := List.mem_filter.1 hargument
  cases hvalue : argument.item.toOption.bind (Item.as? kind) with
  | none => rfl
  | some value => exact (timing ((Argument.isDuration_iff_timing hvalue).1 hduration)).elim

theorem supplied_withoutDurations_eq_nil (timing : kind.Timing) :
    supplied kind (withoutDurations arguments) = [] := by
  refine List.filterMap_eq_nil_iff.2 fun argument hargument => ?_
  obtain ⟨-, hother⟩ := List.mem_filter.1 hargument
  cases hvalue : argument.item.toOption.bind (Item.as? kind) with
  | none => rfl
  | some value =>
      rw [(Argument.isDuration_iff_timing hvalue).2 timing] at hother
      cases hother

end Supplied

/-! ### Drafts with the durations of another -/

namespace Draft

/-- A draft with the durations of another one. -/
def timed (draft timing : Draft) : Draft :=
  { draft with timeout := timing.timeout, interval := timing.interval, durations := timing.durations }

variable (draft : Draft) {timing next : Draft} {item : Item} {arguments : List Argument} {duration : Duration}
  {durations : List Duration}

/-- A duration is placed among the durations. -/
theorem add_timed_of_isDuration (hitem : item.isDuration = true) (h : timing.add item = .ok next) :
    (draft.timed timing).add item = .ok (draft.timed next) := by
  cases item with
  | duration =>
      cases h
      rfl
  | timeout | interval =>
      obtain ⟨filled, hplace, rfl⟩ := map_eq_ok_iff.1 h
      exact map_eq_ok_iff.2 ⟨filled, hplace, rfl⟩
  | template | bindings | object | objects | selector => cases hitem

/-- Anything else is placed as if there were no durations. -/
theorem add_timed_of_not_isDuration (timing : Draft) (hitem : item.isDuration = false) :
    (draft.timed timing).add item = (draft.add item).map (·.timed timing) := by
  cases item with
  | duration | timeout | interval => cases hitem
  | bindings => rfl
  | template | object | objects | selector =>
      simp only [add, timed]
      generalize place _ _ _ = placed
      cases placed <;> rfl

/-- **Durations and other arguments are placed independently of each other.** -/
theorem foldlM_add_timed
    (h : (durationsOf arguments).foldlM (fun draft (argument : Argument) => argument.item.bind draft.add) timing =
      .ok next) :
    arguments.foldlM (fun draft argument => argument.item.bind draft.add) (draft.timed timing) =
      ((withoutDurations arguments).foldlM (fun draft (argument : Argument) => argument.item.bind draft.add) draft).map
        (·.timed next) := by
  induction arguments generalizing draft timing with
  | nil =>
      cases h
      rfl
  | cons argument arguments ih =>
      cases hitem : argument.item with
      | error cause =>
          have hother := Argument.isDuration_of_error hitem
          rw [withoutDurations, List.filter_cons_of_pos (by simp [hother]), List.foldlM_cons, List.foldlM_cons, hitem]
          rfl
      | ok item =>
          have hargument := Argument.isDuration_of_item hitem
          cases hduration : item.isDuration with
          | true =>
              rw [durationsOf, List.filter_cons_of_pos (by simp [hargument, hduration]), List.foldlM_cons, hitem] at h
              obtain ⟨middle, hadd, hrest⟩ := bind_eq_ok_iff.1 h
              have hadded := add_timed_of_isDuration draft hduration hadd
              rw [withoutDurations, List.filter_cons_of_neg (by simp [hargument, hduration]), List.foldlM_cons, hitem]
              simp only [Except.bind, hadded]
              exact ih _ hrest
          | false =>
              rw [durationsOf, List.filter_cons_of_neg (by simp [hargument, hduration])] at h
              have hadded := add_timed_of_not_isDuration draft timing hduration
              rw [withoutDurations, List.filter_cons_of_pos (by simp [hargument, hduration]), List.foldlM_cons,
                List.foldlM_cons, hitem]
              simp only [Except.bind, hadded]
              cases draft.add item with
              | error cause => rfl
              | ok middle => exact ih _ h

theorem addDuration_timed (h : timing.addDuration duration = .ok next) :
    (draft.timed timing).addDuration duration = .ok (draft.timed next) := by
  unfold addDuration at h ⊢
  cases htimeout : timing.timeout with
  | none =>
      rw [htimeout] at h
      cases h
      simp [timed, htimeout]
  | some span =>
      rw [htimeout] at h
      obtain ⟨filled, hplace, rfl⟩ := map_eq_ok_iff.1 h
      simp [timed, htimeout, hplace, Except.map]

theorem foldlM_addDuration_timed (h : durations.foldlM addDuration timing = .ok next) :
    durations.foldlM addDuration (draft.timed timing) = .ok (draft.timed next) := by
  induction durations generalizing timing with
  | nil =>
      cases h
      rfl
  | cons duration durations ih =>
      rw [List.foldlM_cons] at h ⊢
      obtain ⟨middle, hstep, hrest⟩ := bind_eq_ok_iff.1 h
      exact bind_eq_ok_iff.2 ⟨_, addDuration_timed draft hstep, ih hrest⟩

/-- The draft of arguments that are no durations has none. -/
theorem timing_withoutDurations {placed : Draft}
    (h : (withoutDurations arguments).foldlM (fun draft argument => argument.item.bind draft.add) empty = .ok placed) :
    placed.timeout = none ∧ placed.interval = none ∧ placed.durations = [] := by
  obtain ⟨-, hheld⟩ := foldlM_add_eq_ok_iff.1 h
  have hnone : ∀ kind : ItemKind, kind.Timing → placed.held kind = [] := by
    intro kind timing
    rw [hheld kind, held_empty, supplied_withoutDurations_eq_nil timing, List.append_nil]
  exact ⟨Option.toList_eq_nil_iff.1 (hnone .timeout trivial), Option.toList_eq_nil_iff.1 (hnone .interval trivial),
    hnone .duration trivial⟩

/-- **The draft of arguments is that of those that are no durations, with the durations added.** -/
theorem ofArguments_eq_map_timed (h : ofArguments (durationsOf arguments) = .ok timing) :
    ofArguments arguments = (ofArguments (withoutDurations arguments)).map (·.timed timing) := by
  obtain ⟨placed, hplaced, hfilled⟩ := bind_eq_ok_iff.1 h
  have hfold := foldlM_add_timed empty hplaced
  have hempty : empty.timed empty = empty := rfl
  rw [hempty] at hfold
  unfold ofArguments
  rw [hfold]
  cases hothers : (withoutDurations arguments).foldlM (fun draft argument => argument.item.bind draft.add) empty with
  | error cause => rfl
  | ok others =>
      obtain ⟨-, -, hdurations⟩ := timing_withoutDurations hothers
      have htimed : placed.durations.foldlM addDuration (others.timed { placed with durations := [] }) =
          .ok (others.timed timing) := foldlM_addDuration_timed _ hfilled
      refine htimed.trans ?_
      simp only [Except.map, bind, Except.bind, hdurations]
      rfl

theorem timing_of_ofArguments {draft : Draft} (h : ofArguments (withoutDurations arguments) = .ok draft) :
    draft.timeout = none ∧ draft.interval = none := by
  obtain ⟨-, -, -, rfl⟩ := ofArguments_eq_ok_iff.1 h
  have htimeout : supplied .timeout (withoutDurations arguments) = [] := supplied_withoutDurations_eq_nil trivial
  have hinterval : supplied .interval (withoutDurations arguments) = [] := supplied_withoutDurations_eq_nil trivial
  have hdurations : supplied .duration (withoutDurations arguments) = [] := supplied_withoutDurations_eq_nil trivial
  simp [ofSupplied, timeoutOf, intervalOf, htimeout, hinterval, hdurations]

end Draft

/-! ### Waiting operations without waiting -/

/-- The operation that does the same without waiting. -/
def Operation.plain : Operation → Operation
  | .createAndWait => .create
  | .updateAndWait => .update
  | .deleteAndWait => .delete
  | operation => operation

/-- The refusal with this operation in the place of the one that it names, if it names any. -/
def ArgumentError.inTermsOf (operation : Operation) : ArgumentError → ArgumentError
  | .unsupported slot _ => .unsupported slot operation
  | .missing _ group => .missing operation group
  | .notMutating _ => .notMutating operation
  | cause => cause

namespace Draft

variable {operation : Operation} {draft : Draft} (timing : Draft)

/-- A slot of a waiting operation that the operation does not have is one that the plain operation does not have
either. The slots of durations belong to the waiting operation only. -/
theorem has_timed_and_not_permitted (waits : operation.waits = true) (htimeout : draft.timeout = none)
    (hinterval : draft.interval = none) (slot : Slot) :
    ((draft.timed timing).has slot && !operation.profile.permitted.contains slot) =
      (draft.has slot && !operation.plain.profile.permitted.contains slot) := by
  have hpermitted : operation.profile.permitted = operation.plain.profile.permitted ++ [.timeout, .interval] := by
    cases operation <;> first | (cases waits; done) | rfl
  rw [hpermitted]
  cases slot with
  | timeout => simp [has, htimeout]
  | interval => simp [has, hinterval]
  | template | bindings | object | objects | selector => simp [has, timed]

/-- **The slots are at fault for a waiting operation as they are, less the durations, for the plain one.** -/
theorem fault?_timed (waits : operation.waits = true) (htimeout : draft.timeout = none)
    (hinterval : draft.interval = none) (named : Operation) :
    ((draft.timed timing).fault? operation).map (ArgumentError.inTermsOf named) =
      (draft.fault? operation.plain).map (ArgumentError.inTermsOf named) := by
  have hpair : operation.profile.exclusive.find?
        (fun pair => (draft.timed timing).has pair.1 && (draft.timed timing).has pair.2) =
      operation.plain.profile.exclusive.find? (fun pair => draft.has pair.1 && draft.has pair.2) := by
    cases operation <;> first | (cases waits; done) | rfl
  have hgroup : operation.profile.required.find? (fun group => !group.any (draft.timed timing).has) =
      operation.plain.profile.required.find? (fun group => !group.any draft.has) := by
    cases operation <;> first | (cases waits; done) | rfl
  have hbindings : (draft.timed timing).has .bindings = draft.has .bindings := rfl
  have htemplate : (draft.timed timing).has .template = draft.has .template := rfl
  simp only [fault?, hpair, hgroup, hbindings, htemplate, has_timed_and_not_permitted timing waits htimeout hinterval]
  -- The first of the four faults that there is decides, and only the operation in it differs.
  generalize operation.plain.profile.exclusive.find? _ = pair
  generalize Slot.all.find? _ = other
  generalize operation.plain.profile.required.find? _ = group
  cases pair with
  | some pair => rfl
  | none =>
      cases other with
      | some other => rfl
      | none =>
          cases group with
          | some group => rfl
          | none => rfl

end Draft

/-- The slots without those of durations. -/
def Options.untimed (options : Options) : Options := { options with timeout := none, interval := none }

/-- **A waiting call has the slots of the plain call less the durations, or both are refused alike.** -/
theorem resolve_plain {operation : Operation} (waits : operation.waits = true) {arguments : List Argument}
    {timing : Draft} (h : Draft.ofArguments (durationsOf arguments) = .ok timing) (config : Config)
    (named : Operation) :
    (resolve operation.plain (withoutDurations arguments) config).mapError (ArgumentError.inTermsOf named) =
      ((resolve operation arguments config).map Options.untimed).mapError (ArgumentError.inTermsOf named) := by
  unfold resolve
  rw [Draft.ofArguments_eq_map_timed h]
  cases hdraft : Draft.ofArguments (withoutDurations arguments) with
  | error cause => rfl
  | ok draft =>
      obtain ⟨htimeout, hinterval⟩ := Draft.timing_of_ofArguments hdraft
      have hfault := Draft.fault?_timed timing waits htimeout hinterval named
      have hplain : operation.plain.waits = false := by cases operation <;> first | (cases waits; done) | rfl
      have hoptions : ((draft.timed timing).options operation config).untimed =
          draft.options operation.plain config := by
        simp [Draft.options, Options.untimed, Draft.timed, htimeout, hinterval, hplain]
      simp only [Except.map, bind, Except.bind]
      cases hleft : (draft.timed timing).fault? operation with
      | none =>
          rw [hleft, Option.map_none, eq_comm, Option.map_eq_none_iff] at hfault
          simp only [hfault, pure, Except.pure, hoptions]
      | some fault =>
          rw [hleft, Option.map_some, eq_comm, Option.map_eq_some_iff] at hfault
          obtain ⟨fault', hright, hnamed⟩ := hfault
          simp only [hright, throw, throwThe, MonadExceptOf.throw, mapError_error, hnamed]

end Converge
