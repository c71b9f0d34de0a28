import Converge.Store.Basic

/-!
# Calls one after the other

What a client does to a store is a list of calls. Some clients make all of them, others stop at the first that
fails. The store is any store: its answers depend on its state in whatever way.

## Main Definitions

* `ObjectStore.after` — the state of a store after calls, whether they fail or not.
* `ObjectStore.Completes` — the calls go through one after the other, and none of them fails.
* `ObjectStore.Stops` — the calls for some items stop at one of them, whose call is the first that fails.
* `ObjectStore.visit` — a client that makes one call for each item, up to the first that fails.

## Main Statements

* `ObjectStore.completes_or_stops` — either all calls go through, or they stop at some item.
* `ObjectStore.visit_of_completes`, `ObjectStore.visit_of_stops` — what the client gets in either case.
* `ObjectStore.Completes.recorded`, `ObjectStore.Stops.recorded` — the calls that were made are those that a
  store has on record.
-/

namespace Converge.ObjectStore

variable {σ α β ε : Type} (store : ObjectStore σ) (context : Context)

/-- The state of a store after calls, whether they fail or not. -/
def after (calls : List StoreCall) (state : σ) : σ :=
  calls.foldl (fun state call => (store.call context call state).2) state

@[simp] theorem after_nil (state : σ) : store.after context [] state = state := rfl

@[simp] theorem after_cons (call : StoreCall) (calls : List StoreCall) (state : σ) :
    store.after context (call :: calls) state =
      store.after context calls (store.call context call state).2 := rfl

theorem after_append (first second : List StoreCall) (state : σ) :
    store.after context (first ++ second) state =
      store.after context second (store.after context first state) := List.foldl_append

/-- A store that keeps its calls answers as it would without keeping them. -/
@[simp] theorem recorded_call (call : StoreCall) (state : σ) (log : List StoreCall) :
    store.recorded.call context call (state, log) =
      ((store.call context call state).1, (store.call context call state).2, log ++ [call]) := rfl

/-- The calls go through one after the other: from the first state to the last, none of them fails. -/
inductive Completes : List StoreCall → σ → σ → Prop
  | nil (state : σ) : Completes [] state state
  | cons {call : StoreCall} {calls : List StoreCall} {answer : call.Answer} {state next reached : σ}
      (answered : store.call context call state = (.ok answer, next))
      (rest : Completes calls next reached) : Completes (call :: calls) state reached

/-- The calls for some items stop at one of them: those for the items before it go through, its own fails and
leaves the store in this state. -/
structure Stops (call : α → StoreCall) (items : List α) (state : σ) (done : List α) (item : α)
    (cause : StoreError) (left : σ) : Prop where
  split : ∃ rest, items = done ++ item :: rest
  fails : ∃ reached, store.Completes context (done.map call) state reached ∧
    store.call context (call item) reached = (.error cause, left)

/-- Makes one call for each item, in order and up to the first that fails, and collects what the answers
give. -/
def visit (call : α → StoreCall) (failure : α → StoreError → ε) (value : (item : α) → (call item).Answer → β) :
    List α → σ → Except ε (List β) × σ
  | [], state => (.ok [], state)
  | item :: items, state =>
      match store.call context (call item) state with
      | (.error cause, state) => (.error (failure item cause), state)
      | (.ok answer, state) =>
          let (rest, state) := visit call failure value items state
          (rest.map (value item answer :: ·), state)

variable {store context}

/-- **All calls go through, or there is a first one that fails.** -/
theorem completes_or_stops (call : α → StoreCall) (items : List α) (state : σ) :
    (∃ reached, store.Completes context (items.map call) state reached) ∨
      ∃ done item cause left, store.Stops context call items state done item cause left := by
  induction items generalizing state with
  | nil => exact .inl ⟨state, .nil state⟩
  | cons item items ih =>
      rcases hcall : store.call context (call item) state with ⟨_ | answer, next⟩
      case error cause => exact .inr ⟨[], item, cause, next, ⟨items, rfl⟩, state, .nil state, hcall⟩
      case ok =>
        rcases ih next with
          ⟨reached, hrest⟩ | ⟨done, item', cause, left, ⟨rest, hsplit⟩, reached, hdone, hfails⟩
        · exact .inl ⟨reached, .cons hcall hrest⟩
        · refine .inr ⟨item :: done, item', cause, left, ⟨rest, ?_⟩, reached, .cons hcall hdone, hfails⟩
          rw [hsplit, List.cons_append]

section Visit

variable {call : α → StoreCall} {failure : α → StoreError → ε} {value : (item : α) → (call item).Answer → β}
  {items : List α} {state : σ}

theorem visit_of_completes {reached : σ} (h : store.Completes context (items.map call) state reached) :
    ∃ values, store.visit context call failure value items state = (.ok values, reached) := by
  induction items generalizing state with
  | nil =>
      cases h
      exact ⟨[], rfl⟩
  | cons item items ih =>
      obtain _ | ⟨answered, rest⟩ := h
      obtain ⟨values, hrest⟩ := ih rest
      simp only [visit, answered, hrest, Except.map]
      exact ⟨_, rfl⟩

theorem visit_of_stops {done : List α} {item : α} {cause : StoreError} {left : σ}
    (h : store.Stops context call items state done item cause left) :
    store.visit context call failure value items state = (.error (failure item cause), left) := by
  obtain ⟨⟨rest, rfl⟩, reached, hdone, hfails⟩ := h
  induction done generalizing state with
  | nil =>
      cases hdone
      simp only [List.nil_append, visit, hfails]
  | cons first done ih =>
      obtain _ | ⟨answered, rest⟩ := hdone
      simp only [List.cons_append, visit, answered, ih rest, Except.map]

/-- The client fails only if the calls stop. -/
theorem stops_of_visit_eq_error {failed : ε} {left : σ}
    (h : store.visit context call failure value items state = (.error failed, left)) :
    ∃ done item cause, store.Stops context call items state done item cause left ∧
      failed = failure item cause := by
  rcases completes_or_stops call items state with ⟨reached, hcompletes⟩ | ⟨done, item, cause, left', hstops⟩
  · obtain ⟨values, hvisit⟩ := visit_of_completes hcompletes
    cases h.symm.trans hvisit
  · cases h.symm.trans (visit_of_stops hstops)
    exact ⟨done, item, cause, hstops, rfl⟩

end Visit

/-- A store that keeps its calls keeps exactly those that go through. -/
theorem Completes.recorded {calls : List StoreCall} {state reached : σ}
    (h : store.Completes context calls state reached) (log : List StoreCall) :
    store.recorded.Completes context calls (state, log) (reached, log ++ calls) := by
  induction h generalizing log with
  | nil state => simpa using Completes.nil (state, log)
  | @cons call calls answer state next reached answered rest ih =>
      have hcall : store.recorded.call context call (state, log) = (.ok answer, next, log ++ [call]) := by
        rw [recorded_call, answered]
      have hrest := ih (log ++ [call])
      rw [List.append_assoc, List.singleton_append] at hrest
      exact .cons hcall hrest

/-- The call at which a store stops is the last one that it keeps. -/
theorem Stops.recorded {call : α → StoreCall} {items done : List α} {item : α} {cause : StoreError}
    {state left : σ} (h : store.Stops context call items state done item cause left)
    (log : List StoreCall) :
    store.recorded.Stops context call items (state, log) done item cause
      (left, log ++ (done ++ [item]).map call) := by
  obtain ⟨hsplit, reached, hdone, hfails⟩ := h
  refine ⟨hsplit, _, hdone.recorded log, ?_⟩
  rw [recorded_call, hfails, List.map_append, List.append_assoc, List.map_singleton]

end Converge.ObjectStore
