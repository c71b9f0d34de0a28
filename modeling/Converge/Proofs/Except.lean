/-!
# Sequenced steps that succeed

A sequence of steps succeeds exactly if each of them does. The lemmas below take such a sequence apart into
what its steps gave, so that the operations that are written as sequences need not be unfolded by cases.
-/

namespace Converge

variable {ε ε' α β : Type}

theorem bind_eq_ok_iff {x : Except ε α} {f : α → Except ε β} {b : β} :
    x >>= f = .ok b ↔ ∃ a, x = .ok a ∧ f a = .ok b := by
  cases x <;> simp [bind, Except.bind]

theorem bind_eq_error_iff {x : Except ε α} {f : α → Except ε β} {e : ε} :
    x >>= f = .error e ↔ x = .error e ∨ ∃ a, x = .ok a ∧ f a = .error e := by
  cases x <;> simp [bind, Except.bind]

theorem pure_eq_ok_iff {a b : α} : (pure a : Except ε α) = .ok b ↔ a = b := by
  simp [pure, Except.pure]

theorem map_eq_ok_iff {x : Except ε α} {f : α → β} {b : β} :
    x.map f = .ok b ↔ ∃ a, x = .ok a ∧ f a = b := by
  cases x <;> simp [Except.map]

theorem map_eq_error_iff {x : Except ε α} {f : α → β} {e : ε} : x.map f = .error e ↔ x = .error e := by
  cases x <;> simp [Except.map]

@[simp] theorem mapError_ok {f : ε → ε'} {a : α} : (Except.ok a).mapError f = .ok a := rfl

@[simp] theorem mapError_error {f : ε → ε'} {e : ε} :
    (Except.error e : Except ε α).mapError f = .error (f e) := rfl

theorem mapError_eq_ok_iff {x : Except ε α} {f : ε → ε'} {a : α} :
    x.mapError f = .ok a ↔ x = .ok a := by
  cases x <;> simp

theorem mapError_eq_error_iff {x : Except ε α} {f : ε → ε'} {e : ε'} :
    x.mapError f = .error e ↔ ∃ cause, x = .error cause ∧ f cause = e := by
  cases x <;> simp

/-- A refusal in front of the rest was not due if the whole succeeds. -/
theorem throw_or_eq_ok_iff {p : Prop} [Decidable p] {e : ε} {x : α → Except ε β} {y : Except ε β}
    {b : β} :
    (if p then throw e >>= x else y) = .ok b ↔ ¬p ∧ y = .ok b := by
  by_cases h : p <;> simp [h, throw, throwThe, MonadExceptOf.throw, bind, Except.bind]

/-- A step for each item of a list: what comes of it are the results of the steps. -/
theorem mapM_eq_ok_iff {f : α → Except ε β} {items : List α} {results : List β} :
    items.mapM f = .ok results ↔ items.map f = results.map .ok := by
  induction items generalizing results with
  | nil => cases results <;> simp [pure, Except.pure]
  | cons item items ih =>
      simp only [List.mapM_cons, bind_eq_ok_iff, pure_eq_ok_iff, ih]
      cases results with
      | nil => simp
      | cons result results =>
          simp only [List.map_cons, List.cons.injEq]
          constructor
          · rintro ⟨_, hitem, _, hitems, rfl, rfl⟩
            exact ⟨hitem, hitems⟩
          · rintro ⟨hitem, hitems⟩
            exact ⟨result, hitem, results, hitems, rfl, rfl⟩

/-- A step for each item of a list succeeds if each of the steps does. -/
theorem exists_mapM_eq_ok_iff {f : α → Except ε β} {items : List α} :
    (∃ results, items.mapM f = .ok results) ↔ ∀ item ∈ items, ∃ result, f item = .ok result := by
  induction items with
  | nil => simp [pure, Except.pure]
  | cons item items ih =>
      rw [List.forall_mem_cons, ← ih]
      simp only [List.mapM_cons, bind_eq_ok_iff, pure_eq_ok_iff]
      constructor
      · rintro ⟨_, result, hresult, results, hresults, rfl⟩
        exact ⟨⟨result, hresult⟩, results, hresults⟩
      · rintro ⟨⟨result, hresult⟩, results, hresults⟩
        exact ⟨_, result, hresult, results, hresults, rfl⟩

/-- Each of the results comes of an item. -/
theorem exists_of_mem_mapM {f : α → Except ε β} {items : List α} {results : List β}
    (h : items.mapM f = .ok results) {result : β} (hresult : result ∈ results) :
    ∃ item ∈ items, f item = .ok result := by
  have hmem : Except.ok result ∈ items.map f := by
    rw [mapM_eq_ok_iff.1 h]
    exact List.mem_map_of_mem hresult
  exact List.mem_map.1 hmem

/-- What fails is the first step that does. -/
theorem mapM_eq_error_iff {f : α → Except ε β} {items : List α} {e : ε} :
    items.mapM f = .error e ↔ ∃ before item after, items = before ++ item :: after ∧
      (∀ earlier ∈ before, ∃ result, f earlier = .ok result) ∧ f item = .error e := by
  induction items with
  | nil => simp [pure, Except.pure]
  | cons item items ih =>
      rw [List.mapM_cons, bind_eq_error_iff]
      constructor
      · rintro (hitem | ⟨result, hresult, hrest⟩)
        · exact ⟨[], item, items, rfl, fun _ h => absurd h List.not_mem_nil, hitem⟩
        · obtain hitems | ⟨_, -, hpure⟩ := bind_eq_error_iff.1 hrest
          · obtain ⟨before, failing, after, rfl, hbefore, hfails⟩ := ih.1 hitems
            exact ⟨item :: before, failing, after, rfl, List.forall_mem_cons.2 ⟨⟨result, hresult⟩, hbefore⟩, hfails⟩
          · cases hpure
      · rintro ⟨before, failing, after, hitems, hbefore, hfails⟩
        cases before with
        | nil =>
            obtain ⟨rfl, rfl⟩ := List.cons_eq_cons.1 hitems
            exact .inl hfails
        | cons head before =>
            obtain ⟨rfl, rfl⟩ := List.cons_eq_cons.1 hitems
            obtain ⟨⟨result, hresult⟩, hbefore⟩ := List.forall_mem_cons.1 hbefore
            exact .inr ⟨result, hresult, bind_eq_error_iff.2 (.inl (ih.2 ⟨before, failing, after, rfl, hbefore, hfails⟩))⟩

/-- A step that fails is that for one of the items. -/
theorem exists_of_mapM_eq_error {f : α → Except ε β} {items : List α} {e : ε} (h : items.mapM f = .error e) :
    ∃ item ∈ items, f item = .error e := by
  obtain ⟨before, item, after, rfl, -, hitem⟩ := mapM_eq_error_iff.1 h
  exact ⟨item, List.mem_append_right before List.mem_cons_self, hitem⟩

/-- A test of each item of a list succeeds if each of them passes. -/
theorem forM_eq_ok_iff {f : α → Except ε Unit} {items : List α} :
    items.forM f = .ok () ↔ ∀ item ∈ items, f item = .ok () := by
  induction items with
  | nil => simp [List.forM, pure, Except.pure]
  | cons item items ih =>
      simp only [List.forM, bind_eq_ok_iff, List.forall_mem_cons, ih]
      exact ⟨fun ⟨⟨⟩, hitem, hitems⟩ => ⟨hitem, hitems⟩, fun ⟨hitem, hitems⟩ => ⟨(), hitem, hitems⟩⟩

/-- A test that fails is that of one of the items. -/
theorem exists_of_forM_eq_error {f : α → Except ε Unit} {items : List α} {e : ε} (h : items.forM f = .error e) :
    ∃ item ∈ items, f item = .error e := by
  induction items with
  | nil => cases h
  | cons item items ih =>
      rw [List.forM, bind_eq_error_iff] at h
      obtain hitem | ⟨_, -, hitems⟩ := h
      · exact ⟨item, List.mem_cons_self, hitem⟩
      · obtain ⟨other, hother, hfails⟩ := ih hitems
        exact ⟨other, List.mem_cons_of_mem item hother, hfails⟩

end Converge
