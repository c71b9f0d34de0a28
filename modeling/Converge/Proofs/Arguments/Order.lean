import Converge.Failure
import Converge.Proofs.Arguments.Acceptance

/-!
# The order of arguments

Arguments may stand in any order, but for two kinds: bindings are laid over one another, and durations without a
slot take the slots one after the other. Placing arguments stops at the first that does not fit, so the refusals
of two orders may differ in their words. What is accepted depends only on what is supplied of each kind, and of the
kinds that are held once there is nothing to put in another order.

## Main Statements

* `Accepted.of_supplied`, `optionsOf_congr` — only what is supplied of each kind counts.
* `supplied_eq_of_perm` — the accepted arguments supply the same in every order that keeps bindings and durations.
* `resolve_of_perm` — in such an order a call has the same slots, or both are refused.
-/

namespace Converge

variable {operation : Operation} {config : Config} {first second : List Argument}

/-! ### What is supplied counts -/

theorem timeoutOf_congr (h : ∀ kind, supplied kind first = supplied kind second) :
    timeoutOf first = timeoutOf second := by
  rw [timeoutOf, timeoutOf, h, h]

theorem intervalOf_congr (h : ∀ kind, supplied kind first = supplied kind second) :
    intervalOf first = intervalOf second := by
  rw [intervalOf, intervalOf, h, h, h]

theorem inUse_congr (h : ∀ kind, supplied kind first = supplied kind second) : InUse first = InUse second := by
  funext slot
  cases slot with
  | timeout => rw [InUse, InUse, timeoutOf_congr h]
  | interval => rw [InUse, InUse, intervalOf_congr h]
  | template | bindings | object | objects | selector => rw [InUse, InUse, h]

theorem optionsOf_congr (h : ∀ kind, supplied kind first = supplied kind second) :
    optionsOf operation config first = optionsOf operation config second := by
  simp only [optionsOf, h, timeoutOf_congr h, intervalOf_congr h]

/-- Arguments that supply what accepted ones do are accepted. -/
theorem Accepted.of_supplied (h : ∀ kind, supplied kind first = supplied kind second)
    (hclassified : ∀ argument ∈ second, argument.Classifies) (haccepted : Accepted operation first) :
    Accepted operation second where
  classified := hclassified
  once kind honce := by
    rw [← h]
    exact haccepted.once kind honce
  durations := by
    rw [← h, ← h, ← h]
    exact haccepted.durations
  exclusive := by
    rw [← inUse_congr h]
    exact haccepted.exclusive
  permitted := by
    rw [← inUse_congr h]
    exact haccepted.permitted
  required := by
    rw [← inUse_congr h]
    exact haccepted.required
  template := by
    rw [← inUse_congr h]
    exact haccepted.template

/-! ### Other orders -/

theorem supplied_eq_filterMap_item (kind : ItemKind) (arguments : List Argument) :
    supplied kind arguments =
      (arguments.map Argument.item).filterMap fun item => item.toOption.bind (Item.as? kind) := by
  rw [List.filterMap_map]
  rfl

theorem classified_of_perm (hperm : (first.map Argument.item).Perm (second.map Argument.item))
    (h : ∀ argument ∈ first, argument.Classifies) : ∀ argument ∈ second, argument.Classifies := by
  intro argument hmem
  obtain ⟨other, hother, hitem⟩ := List.mem_map.1 (hperm.mem_iff.2 (List.mem_map_of_mem hmem))
  rw [Argument.classifies_iff, ← hitem, ← Argument.classifies_iff]
  exact h other hother

/-- One value at most has one order only. -/
theorem eq_of_perm_of_length_le {α : Type} {values others : List α} (hperm : values.Perm others)
    (hlength : values.length ≤ 1) : values = others := by
  match values, hlength with
  | [], _ => exact (List.nil_perm.1 hperm).symm
  | [_], _ => exact List.singleton_perm.1 hperm

/-- **Accepted arguments supply the same of each kind in every order that keeps those of bindings and of durations
without a slot.** -/
theorem supplied_eq_of_perm (hperm : (first.map Argument.item).Perm (second.map Argument.item))
    (hbindings : supplied .bindings first = supplied .bindings second)
    (hdurations : supplied .duration first = supplied .duration second)
    (honce : ∀ kind : ItemKind, kind.Once → (supplied kind first).length ≤ 1) (kind : ItemKind) :
    supplied kind first = supplied kind second := by
  have hsupplied : (supplied kind first).Perm (supplied kind second) := by
    rw [supplied_eq_filterMap_item, supplied_eq_filterMap_item]
    exact hperm.filterMap _
  cases kind with
  | bindings => exact hbindings
  | duration => exact hdurations
  | template | object | objects | timeout | interval | selector =>
      exact eq_of_perm_of_length_le hsupplied (honce _ trivial)

theorem resolve_eq_of_perm {options : Options}
    (hperm : (first.map Argument.item).Perm (second.map Argument.item))
    (hbindings : supplied .bindings first = supplied .bindings second)
    (hdurations : supplied .duration first = supplied .duration second)
    (h : resolve operation first config = .ok options) : resolve operation second config = .ok options := by
  obtain ⟨haccepted, rfl⟩ := accepted_of_resolve h
  have hsupplied := supplied_eq_of_perm hperm hbindings hdurations haccepted.once
  have hsecond := haccepted.of_supplied hsupplied (classified_of_perm hperm haccepted.classified)
  rw [hsecond.resolve_eq, optionsOf_congr hsupplied]

/-- **The order of arguments does not matter**, but for that of bindings and that of durations without a slot. The
arguments are told apart by what they turn out to be, so a text that is a duration counts as one. -/
theorem resolve_of_perm (hperm : (first.map Argument.item).Perm (second.map Argument.item))
    (hbindings : supplied .bindings first = supplied .bindings second)
    (hdurations : supplied .duration first = supplied .duration second) :
    (∃ options, resolve operation first config = .ok options ∧ resolve operation second config = .ok options) ∨
      ∃ failure failure' : Failure,
        (resolve operation first config).mapError Failure.arguments = .error failure ∧
          (resolve operation second config).mapError Failure.arguments = .error failure' ∧
          failure.category = "InvalidArguments" ∧ failure'.category = "InvalidArguments" := by
  cases hfirst : resolve operation first config with
  | ok options => exact .inl ⟨options, rfl, resolve_eq_of_perm hperm hbindings hdurations hfirst⟩
  | error cause =>
      cases hsecond : resolve operation second config with
      | ok options =>
          have hback := resolve_eq_of_perm hperm.symm hbindings.symm hdurations.symm hsecond
          rw [hfirst] at hback
          cases hback
      | error cause' => exact .inr ⟨_, _, rfl, rfl, rfl, rfl⟩

/-- A text that is a duration stands before or after the template and the bindings, and before the other duration. It is
the timeout of both calls, and the other one is their interval. -/
theorem resolve_of_perm_around_template :
    let layer : Bindings := Table.ofList [("name", .string "web")]
    let half : Duration := ⟨500 * nanosPerMilli, by decide⟩
    let waiting := [Argument.text "30", .template (.file "a.yaml"), .bindings layer, .duration half]
    let moved := [Argument.bindings layer, .text "30", .duration half, .template (.file "a.yaml")]
    (waiting.map Argument.item).Perm (moved.map Argument.item) ∧
      supplied .bindings waiting = supplied .bindings moved ∧
      supplied .duration waiting = supplied .duration moved ∧
      ∃ options, resolve .updateAndWait waiting .standard = .ok options ∧
        resolve .updateAndWait moved .standard = .ok options ∧
        options.timeout = some ⟨30 * nanosPerSecond, by decide⟩ ∧ options.interval = some half ∧
        options.template = some (.file "a.yaml") ∧ options.bindings = [layer] := by
  intro layer half waiting moved
  have hperm : (waiting.map Argument.item).Perm (moved.map Argument.item) := by
    apply List.Perm.map
    -- The template goes to the end, then the bindings to the front.
    have hlast : waiting.Perm [.text "30", .bindings layer, .duration half, .template (.file "a.yaml")] :=
      (List.perm_append_singleton _ [Argument.bindings layer, .duration half]).symm.cons _
    exact hlast.trans (List.Perm.swap _ _ _)
  have hbindings : supplied .bindings waiting = supplied .bindings moved := rfl
  have hdurations : supplied .duration waiting = supplied .duration moved := rfl
  refine ⟨hperm, hbindings, hdurations, ?_⟩
  obtain ⟨options, hwaiting, hmoved⟩ | ⟨failure, failure', hwaiting, -⟩ :=
    @resolve_of_perm .updateAndWait .standard waiting moved hperm hbindings hdurations
  · refine ⟨options, hwaiting, hmoved, ?_⟩
    cases hwaiting
    exact ⟨rfl, rfl, rfl, rfl⟩
  · cases hwaiting

end Converge
