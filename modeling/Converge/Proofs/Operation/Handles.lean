import Converge.Destinations
import Converge.Proofs.Except

/-!
# The handles of a caller

The handles of a call are those among its arguments. When the arguments are accepted, they carry at most one
handle or list of handles, and that is where the results go. Whatever a call puts back, the caller finds it
there.

## Main Definitions

* `Argument.destinations?`, `given` — the handles that arguments carry.
* `heldBy` — the same handles one by one.
* `Destinations.Alike` — both are no handle, one handle or a list of handles.

## Main Statements

* `given_of_resolve` — an accepted call has the handles of its arguments as destinations, and no others.
* `heldBy_putBack` — what is put back is what the caller then holds.
-/

namespace Converge

/-- The handle or the list of handles that an argument is. -/
def Argument.destinations? : Argument → Option Destinations
  | .object handle => some (.object handle)
  | .objects handles => some (.objects handles)
  | _ => none

/-- The handles and lists of handles among arguments. -/
def given (arguments : List Argument) : List Destinations := arguments.filterMap Argument.destinations?

/-- The caller's handles, in order. -/
def heldBy (arguments : List Argument) : List Handle := (given arguments).flatMap Destinations.handles

/-! ### Placing handles -/

/-- The handle or the list of handles that goes to a slot. -/
def Item.destinations? : Item → Option Destinations
  | .object handle => some (.object handle)
  | .objects handles => some (.objects handles)
  | _ => none

theorem Item.destinations?_ofTemplate {text : String} {item : Item} (h : ofTemplate text = .ok item) :
    item.destinations? = none := by
  simp only [ofTemplate] at h
  split at h
  · cases h
  · cases h
    rfl

theorem Item.destinations?_ofText {text : String} {item : Item} (h : ofText text = .ok item) :
    item.destinations? = none := by
  unfold ofText at h
  split at h
  · cases h
    rfl
  · split at h
    · cases h
      rfl
    · exact destinations?_ofTemplate h

/-- What an argument turns out to be carries the handles that the argument carries. -/
theorem Argument.destinations?_item {argument : Argument} {item : Item} (h : argument.item = .ok item) :
    item.destinations? = argument.destinations? := by
  cases argument with
  | text text =>
      rw [Argument.item] at h
      exact Item.destinations?_ofText h
  | template source =>
      cases source with
      | inline text =>
          rw [Argument.item] at h
          exact Item.destinations?_ofTemplate h
      | file path =>
          cases h
          rfl
  | value document =>
      rw [Argument.item] at h
      cases document with
      | string text =>
          rw [Item.ofValue] at h
          exact Item.destinations?_ofText h
      | object members =>
          cases h
          rfl
      | null | bool | number | array => cases h
  | bindings | object | objects | duration | timeout | interval | selector =>
      cases h
      rfl

namespace Draft

/-- The handles in the slots. -/
def given (draft : Draft) : List Destinations :=
  draft.object.toList.map .object ++ draft.objects.toList.map .objects

theorem place_eq_ok_iff {α : Type} {slot : Slot} {held filled : Option α} {value : α} :
    place slot held value = .ok filled ↔ held = none ∧ filled = some value := by
  cases held <;> simp [place, eq_comm]

/-- A step of placing arguments adds the handles of the argument to the slots. -/
theorem given_add {draft next : Draft} {item : Item} (h : draft.add item = .ok next) :
    next.given.Perm (draft.given ++ item.destinations?.toList) := by
  cases item with
  | object handle =>
      obtain ⟨filled, hplace, rfl⟩ := map_eq_ok_iff.1 h
      obtain ⟨hfree, rfl⟩ := place_eq_ok_iff.1 hplace
      have hmoved : (Destinations.object handle :: draft.objects.toList.map Destinations.objects).Perm
          (draft.objects.toList.map Destinations.objects ++ [Destinations.object handle]) :=
        (List.perm_append_singleton _ _).symm
      simpa [given, hfree, Item.destinations?] using hmoved
  | objects handles =>
      obtain ⟨filled, hplace, rfl⟩ := map_eq_ok_iff.1 h
      obtain ⟨hfree, rfl⟩ := place_eq_ok_iff.1 hplace
      simp [given, hfree, Item.destinations?]
  | template | timeout | interval | selector =>
      obtain ⟨filled, hplace, rfl⟩ := map_eq_ok_iff.1 h
      simp [given, Item.destinations?]
  | bindings | duration =>
      cases h
      simp [given, Item.destinations?]

/-- Durations go to no handle. -/
theorem given_addDuration {draft next : Draft} {duration : Duration}
    (h : draft.addDuration duration = .ok next) : next.given = draft.given := by
  unfold addDuration at h
  split at h
  · cases h
    rfl
  · obtain ⟨filled, -, rfl⟩ := map_eq_ok_iff.1 h
    rfl

theorem given_foldlM_add {arguments : List Argument} {draft next : Draft}
    (h : arguments.foldlM (fun draft argument => argument.item.bind draft.add) draft = .ok next) :
    next.given.Perm (draft.given ++ Converge.given arguments) := by
  induction arguments generalizing draft with
  | nil =>
      cases h
      simp [Converge.given]
  | cons argument arguments ih =>
      rw [List.foldlM_cons] at h
      obtain ⟨middle, hstep, hrest⟩ := bind_eq_ok_iff.1 h
      obtain ⟨item, hitem, hadd⟩ := bind_eq_ok_iff.1 hstep
      have hmiddle := given_add hadd
      rw [Argument.destinations?_item hitem] at hmiddle
      refine (ih hrest).trans ((hmiddle.append_right _).trans ?_)
      rw [List.append_assoc]
      refine List.Perm.append_left _ ?_
      cases hgiven : argument.destinations? <;> simp [Converge.given, hgiven]

theorem given_foldlM_addDuration {durations : List Duration} {draft next : Draft}
    (h : durations.foldlM addDuration draft = .ok next) : next.given = draft.given := by
  induction durations generalizing draft with
  | nil =>
      cases h
      rfl
  | cons duration durations ih =>
      rw [List.foldlM_cons] at h
      obtain ⟨middle, hstep, hrest⟩ := bind_eq_ok_iff.1 h
      exact (ih hrest).trans (given_addDuration hstep)

/-- The slots of a draft hold the handles of the arguments. -/
theorem given_ofArguments {arguments : List Argument} {draft : Draft}
    (h : ofArguments arguments = .ok draft) : draft.given.Perm (Converge.given arguments) := by
  obtain ⟨placed, hplaced, hdurations⟩ := bind_eq_ok_iff.1 h
  have hgiven := given_foldlM_addDuration hdurations
  rw [hgiven]
  exact given_foldlM_add hplaced

/-- One object and several objects exclude each other. -/
theorem not_object_and_objects_of_fault? {draft : Draft} {operation : Operation}
    (h : draft.fault? operation = none) : ¬ (draft.object.isSome ∧ draft.objects.isSome) := by
  rintro ⟨hobject, hobjects⟩
  have hboth : draft.has .object && draft.has .objects := by simp [has, hobject, hobjects]
  have hexclusive : operation.profile.exclusive = [(.object, .objects)] := by cases operation <;> rfl
  simp [fault?, hexclusive, hboth] at h

end Draft

/-! ### Accepted calls -/

theorem resolve_eq_ok_iff {operation : Operation} {arguments : List Argument} {config : Config}
    {options : Options} :
    resolve operation arguments config = .ok options ↔
      ∃ draft, Draft.ofArguments arguments = .ok draft ∧ draft.fault? operation = none ∧
        draft.options operation config = options := by
  unfold resolve
  rw [bind_eq_ok_iff]
  refine exists_congr fun draft => and_congr_right fun _ => ?_
  cases draft.fault? operation <;> simp [throw, throwThe, MonadExceptOf.throw, pure, Except.pure]

/-- The handles or none. -/
def Destinations.toList : Destinations → List Destinations
  | .none => []
  | .object handle => [.object handle]
  | .objects handles => [.objects handles]

/-- **An accepted call has the handles of its arguments as destinations, and no others.** -/
theorem given_of_resolve {operation : Operation} {arguments : List Argument} {config : Config}
    {options : Options} (h : resolve operation arguments config = .ok options) :
    given arguments = (Destinations.ofOptions options).toList := by
  obtain ⟨draft, hdraft, hfault, rfl⟩ := resolve_eq_ok_iff.1 h
  have hgiven := Draft.given_ofArguments hdraft
  have hexclusive := Draft.not_object_and_objects_of_fault? hfault
  have hslots : draft.given = (Destinations.ofOptions (draft.options operation config)).toList := by
    cases hobject : draft.object <;> cases hobjects : draft.objects
    case some.some => simp [hobject, hobjects] at hexclusive
    all_goals
      simp [Draft.given, Destinations.ofOptions, Draft.options, hobject, hobjects, Destinations.toList]
  rw [hslots] at hgiven
  cases hdestinations : Destinations.ofOptions (draft.options operation config) with
  | none =>
      rw [hdestinations] at hgiven
      exact List.nil_perm.1 hgiven
  | object | objects =>
      rw [hdestinations] at hgiven
      exact List.singleton_perm.1 hgiven |>.symm

theorem heldBy_of_resolve {operation : Operation} {arguments : List Argument} {config : Config}
    {options : Options} (h : resolve operation arguments config = .ok options) :
    heldBy arguments = (Destinations.ofOptions options).handles := by
  rw [heldBy, given_of_resolve h]
  cases Destinations.ofOptions options <;> simp [Destinations.toList, Destinations.handles]

/-! ### Putting handles back -/

namespace Destinations

/-- Both are no handle, or one handle, or a list of handles. -/
def Alike : Destinations → Destinations → Prop
  | .none, .none | .object _, .object _ | .objects _, .objects _ => True
  | _, _ => False

theorem Alike.refl (destinations : Destinations) : destinations.Alike destinations := by
  cases destinations <;> trivial

theorem Alike.trans {a b c : Destinations} (hab : a.Alike b) (hbc : b.Alike c) : a.Alike c := by
  cases a <;> cases b <;> cases c <;> trivial

/-- Other handles are put in the place of handles and not in that of a list, or the other way round. -/
theorem withHandles_alike (destinations : Destinations) (handles : List Handle) :
    (destinations.withHandles handles).Alike destinations := by
  cases destinations <;> cases handles <;> trivial

theorem handles_withHandles {destinations : Destinations} {handles : List Handle}
    (h : handles.length = destinations.handles.length) :
    (destinations.withHandles handles).handles = handles := by
  cases destinations with
  | none => exact (List.length_eq_zero_iff.1 h).symm
  | object handle =>
      obtain ⟨filled, rfl⟩ := List.length_eq_one_iff.1 h
      rfl
  | objects => rfl

/-- What stands after a putting back where there were other handles before: new ones of their kind, or they
themselves. -/
def inPlaceOf (destinations : Destinations) : Destinations → Destinations
  | .object old => match destinations with | .object handle => .object handle | _ => .object old
  | .objects old => match destinations with | .objects handles => .objects handles | _ => .objects old
  | .none => .none

theorem given_putBack (destinations : Destinations) (arguments : List Argument) :
    given (destinations.putBack arguments) = (given arguments).map destinations.inPlaceOf := by
  unfold given putBack
  rw [List.filterMap_map, List.map_filterMap]
  congr 1
  funext argument
  cases argument <;> cases destinations <;> rfl

theorem Alike.inPlaceOf_eq {destinations other : Destinations} (alike : other.Alike destinations) :
    other.inPlaceOf destinations = other := by
  cases destinations <;> cases other <;> simp_all [Alike, inPlaceOf]

end Destinations

/-- **What is put back is what the caller then holds.** -/
theorem heldBy_putBack {operation : Operation} {arguments : List Argument} {config : Config}
    {options : Options} {destinations : Destinations} (h : resolve operation arguments config = .ok options)
    (alike : destinations.Alike (Destinations.ofOptions options)) :
    heldBy (destinations.putBack arguments) = destinations.handles := by
  rw [heldBy, Destinations.given_putBack, given_of_resolve h]
  cases hgiven : Destinations.ofOptions options with
  | none =>
      rw [hgiven] at alike
      cases destinations with
      | none => rfl
      | object | objects => cases alike
  | object | objects =>
      rw [hgiven] at alike
      rw [Destinations.toList, List.map_singleton, alike.inPlaceOf_eq, List.flatMap_singleton]

end Converge
