import Converge.Proofs.Except
import Mathlib.Data.List.Forall2

/-!
# Lists related item by item

A sequence of steps that succeeds pairs each item with what its step gave. The lemmas below move along such a
pairing: to the partner at a position, to the partners of a part, and from a result back to its item. Steps that give
several results each are paired with them part by part.
-/

namespace Converge

variable {ε α β γ : Type} {R : α → β → Prop}

/-- A step for each item of a list: what comes of it are the results of the steps, in order. -/
theorem mapM_eq_ok_iff_forall₂ {f : α → Except ε β} {items : List α} {results : List β} :
    items.mapM f = .ok results ↔ List.Forall₂ (fun item result => f item = .ok result) items results := by
  rw [mapM_eq_ok_iff, ← List.forall₂_eq_eq_eq, List.forall₂_map_left_iff, List.forall₂_map_right_iff]

/-- The same for steps that give nothing where they fail. -/
theorem mapM_eq_some_iff_forall₂ {f : α → Option β} {items : List α} {results : List β} :
    items.mapM f = some results ↔ List.Forall₂ (fun item result => f item = some result) items results := by
  induction items generalizing results with
  | nil => simp [eq_comm]
  | cons item items ih =>
      rw [List.forall₂_cons_left_iff, List.mapM_cons]
      constructor
      · intro h
        obtain ⟨result, hresult, h⟩ := Option.bind_eq_some_iff.1 h
        obtain ⟨rest, hrest, h⟩ := Option.bind_eq_some_iff.1 h
        cases h
        exact ⟨result, rest, hresult, ih.1 hrest, rfl⟩
      · rintro ⟨result, rest, hresult, hrest, rfl⟩
        rw [hresult, ih.2 hrest]
        rfl

/-- Steps that agree on the items of a list give the same for it. -/
theorem mapM_congr {f g : α → Except ε β} {items : List α} (h : ∀ item ∈ items, f item = g item) :
    items.mapM f = items.mapM g := by
  induction items with
  | nil => rfl
  | cons item items ih =>
      rw [List.forall_mem_cons] at h
      rw [List.mapM_cons, List.mapM_cons, h.1, ih h.2]

/-- What an item is paired with stands at its position. -/
theorem exists_getElem?_of_forall₂ {items : List α} {results : List β} (h : List.Forall₂ R items results)
    {position : Nat} {item : α} (hitem : items[position]? = some item) :
    ∃ result, results[position]? = some result ∧ R item result := by
  induction h generalizing position with
  | nil => cases hitem
  | cons hhead _ ih =>
      cases position with
      | zero =>
          cases hitem
          exact ⟨_, rfl, hhead⟩
      | succ position =>
          rw [List.getElem?_cons_succ] at hitem ⊢
          exact ih hitem

/-- Each result is paired with an item. -/
theorem exists_mem_of_forall₂ {items : List α} {results : List β} (h : List.Forall₂ R items results) {result : β}
    (hresult : result ∈ results) : ∃ item ∈ items, R item result := by
  induction h with
  | nil => cases hresult
  | @cons item _ _ _ hhead _ ih =>
      obtain rfl | hresult := List.mem_cons.1 hresult
      · exact ⟨item, List.mem_cons_self, hhead⟩
      · obtain ⟨other, hother, hrelated⟩ := ih hresult
        exact ⟨other, List.mem_cons_of_mem item hother, hrelated⟩

/-- Each item is paired with a result. -/
theorem exists_result_of_forall₂ {items : List α} {results : List β} (h : List.Forall₂ R items results) {item : α}
    (hitem : item ∈ items) : ∃ result ∈ results, R item result := by
  obtain ⟨position, hposition⟩ := List.mem_iff_getElem?.1 hitem
  obtain ⟨result, hresult, hrelated⟩ := exists_getElem?_of_forall₂ h hposition
  exact ⟨result, List.mem_of_getElem? hresult, hrelated⟩

/-- A list is paired with some results if each of its items is related to one. -/
theorem exists_forall₂_iff {items : List α} :
    (∃ results, List.Forall₂ R items results) ↔ ∀ item ∈ items, ∃ result, R item result := by
  induction items with
  | nil => exact iff_of_true ⟨[], .nil⟩ (List.forall_mem_nil _)
  | cons item items ih =>
      rw [List.forall_mem_cons, ← ih]
      constructor
      · rintro ⟨_, h⟩
        obtain ⟨result, results, hitem, hitems, rfl⟩ := List.forall₂_cons_left_iff.1 h
        exact ⟨⟨result, hitem⟩, results, hitems⟩
      · rintro ⟨⟨result, hitem⟩, results, hitems⟩
        exact ⟨result :: results, .cons hitem hitems⟩

/-- Two lists one after the other are paired with the partners of the one and those of the other. -/
theorem forall₂_append_left_iff {first second : List α} {results : List β} :
    List.Forall₂ R (first ++ second) results ↔
      ∃ before after, List.Forall₂ R first before ∧ List.Forall₂ R second after ∧ results = before ++ after := by
  constructor
  · intro h
    refine ⟨results.take first.length, results.drop first.length, ?_, ?_, (List.take_append_drop ..).symm⟩
    · simpa using List.forall₂_take first.length h
    · simpa using List.forall₂_drop first.length h
  · rintro ⟨before, after, hfirst, hsecond, rfl⟩
    exact List.rel_append hfirst hsecond

/-- The partner of an item parts those of the items before it from those of the items behind it. -/
theorem exists_split_of_forall₂ {before after : List α} {item : α} {results : List β}
    (h : List.Forall₂ R (before ++ item :: after) results) :
    ∃ left result right, List.Forall₂ R before left ∧ R item result ∧ List.Forall₂ R after right ∧
      results = left ++ result :: right := by
  obtain ⟨left, rest, hbefore, hrest, rfl⟩ := forall₂_append_left_iff.1 h
  obtain ⟨result, right, hitem, hafter, rfl⟩ := List.forall₂_cons_left_iff.1 hrest
  exact ⟨left, result, right, hbefore, hitem, hafter, rfl⟩

/-! ### Steps with several results -/

/-- The results of the steps for two lists one after the other are those for the one and those for the other. -/
theorem flatten_mapM_append_eq_ok_iff {f : α → Except ε (List β)} {first second : List α} {results : List β} :
    ((first ++ second).mapM f).map List.flatten = .ok results ↔
      ∃ left right, (first.mapM f).map List.flatten = .ok left ∧ (second.mapM f).map List.flatten = .ok right ∧
        results = left ++ right := by
  simp only [map_eq_ok_iff, mapM_eq_ok_iff_forall₂, forall₂_append_left_iff]
  constructor
  · rintro ⟨_, ⟨before, after, hfirst, hsecond, rfl⟩, rfl⟩
    exact ⟨_, _, ⟨before, hfirst, rfl⟩, ⟨after, hsecond, rfl⟩, List.flatten_append⟩
  · rintro ⟨_, _, ⟨before, hfirst, rfl⟩, ⟨after, hsecond, rfl⟩, rfl⟩
    exact ⟨_, ⟨before, after, hfirst, hsecond, rfl⟩, List.flatten_append⟩

theorem flatten_mapM_cons_eq_ok_iff {f : α → Except ε (List β)} {item : α} {items : List α} {results : List β} :
    ((item :: items).mapM f).map List.flatten = .ok results ↔
      ∃ left right, f item = .ok left ∧ (items.mapM f).map List.flatten = .ok right ∧ results = left ++ right := by
  have hitem (left : List β) : ([item].mapM f).map List.flatten = .ok left ↔ f item = .ok left := by
    simp only [map_eq_ok_iff, mapM_eq_ok_iff_forall₂, List.forall₂_cons_left_iff, List.forall₂_nil_left_iff]
    constructor
    · rintro ⟨_, ⟨part, _, hpart, rfl, rfl⟩, rfl⟩
      rwa [List.flatten_cons, List.flatten_nil, List.append_nil]
    · intro hleft
      exact ⟨[left], ⟨left, [], hleft, rfl, rfl⟩, List.append_nil left⟩
  rw [← List.singleton_append, flatten_mapM_append_eq_ok_iff]
  simp only [hitem]

/-- If each step's results are paired with a part, all results are paired with all parts, and the other way round. -/
theorem exists_parts_iff {f : α → Except ε (List β)} {P : β → γ → Prop} {items : List α} {whole : List γ} :
    (∃ parts, List.Forall₂ (fun item part => ∃ results, f item = .ok results ∧ List.Forall₂ P results part)
        items parts ∧ parts.flatten = whole) ↔
      ∃ results, (items.mapM f).map List.flatten = .ok results ∧ List.Forall₂ P results whole := by
  induction items generalizing whole with
  | nil => simp [pure, Except.pure, Except.map, eq_comm]
  | cons item items ih =>
      simp only [List.forall₂_cons_left_iff, flatten_mapM_cons_eq_ok_iff]
      constructor
      · rintro ⟨_, ⟨part, parts, ⟨left, hitem, hpart⟩, hparts, rfl⟩, rfl⟩
        obtain ⟨right, hitems, hright⟩ := ih.1 ⟨parts, hparts, rfl⟩
        exact ⟨_, ⟨left, right, hitem, hitems, rfl⟩, List.rel_append hpart hright⟩
      · rintro ⟨_, ⟨left, right, hitem, hitems, rfl⟩, hwhole⟩
        obtain ⟨part, rest, hpart, hrest, rfl⟩ := forall₂_append_left_iff.1 hwhole
        obtain ⟨parts, hparts, rfl⟩ := ih.2 ⟨right, hitems, hrest⟩
        exact ⟨_, ⟨part, parts, ⟨left, hitem, hpart⟩, hparts, rfl⟩, rfl⟩

end Converge
