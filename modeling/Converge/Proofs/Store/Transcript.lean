import Converge.Proofs.Store.Calls

/-!
# Calls with their answers

What a client can know of a store is what it was answered. A store that keeps every call together with its
answer shows how often and in which order that happened, so statements about what a store has shown need not
look into its state.

## Main Definitions

* `Exchange` — a call with its answer.
* `Exchange.documents` — the documents in the answer.
* `ObjectStore.transcribed` — the same store, keeping its exchanges.

## Main Statements

* `ObjectStore.exists_exchanges_of_after` — calls add one exchange each.
* `ObjectStore.exists_answered_of_visit` — a client that gets through has one exchange for each item.
* `ObjectStore.exists_calls_of_visit` — whether it does or not, it leaves the store as the calls for its first
  items do.
-/

namespace Converge

/-- The documents in the answer to a call. -/
def StoreCall.documents : (c : StoreCall) → c.Answer → List Document
  | .get _, document | .create _, document | .update _, document | .patch _ _, document => [document]
  | .delete _, _ => []
  | .list _, documents => documents

/-- A call to a store with its answer. -/
structure Exchange where
  call : StoreCall
  answer : Except StoreError call.Answer

/-- The documents that a store has answered. -/
def Exchange.documents (exchange : Exchange) : List Document :=
  match exchange.answer with
  | .ok answer => exchange.call.documents answer
  | .error _ => []

theorem Exchange.mem_documents_iff {call : StoreCall} {answer : Except StoreError call.Answer}
    {document : Document} :
    document ∈ (Exchange.mk call answer).documents ↔ ∃ a, answer = .ok a ∧ document ∈ call.documents a := by
  cases answer <;> simp [documents]

namespace ObjectStore

variable {σ α β ε : Type} {store : ObjectStore σ} {context : Context}

/-- The same store, with every call it receives added to a list together with its answer. -/
def transcribed (store : ObjectStore σ) : ObjectStore (σ × List Exchange) where
  call context c state :=
    let (answer, next) := store.call context c state.1
    (answer, next, state.2 ++ [⟨c, answer⟩])

/-- A store that keeps its exchanges answers as it would without keeping them. -/
@[simp] theorem transcribed_call (call : StoreCall) (state : σ × List Exchange) :
    store.transcribed.call context call state =
      ((store.call context call state.1).1, (store.call context call state.1).2,
        state.2 ++ [⟨call, (store.call context call state.1).1⟩]) := rfl

/-- Calls add their exchanges to those that are kept. -/
theorem exists_exchanges_of_after (store : ObjectStore σ) (context : Context) (calls : List StoreCall)
    (state : σ × List Exchange) :
    ∃ exchanges : List Exchange, (store.transcribed.after context calls state).2 = state.2 ++ exchanges ∧
      exchanges.map Exchange.call = calls := by
  induction calls generalizing state with
  | nil => exact ⟨[], (List.append_nil _).symm, rfl⟩
  | cons call calls ih =>
      obtain ⟨exchanges, hlog, hcalls⟩ := ih (store.transcribed.call context call state).2
      refine ⟨⟨call, (store.call context call state.1).1⟩ :: exchanges, ?_, by rw [List.map_cons, hcalls]⟩
      rw [after_cons, hlog, transcribed_call, List.append_assoc, List.singleton_append]

/-- Exchanges that are kept stay. -/
theorem prefix_after (calls : List StoreCall) (state : σ × List Exchange) :
    state.2 <+: (store.transcribed.after context calls state).2 := by
  obtain ⟨exchanges, hlog, -⟩ := exists_exchanges_of_after store context calls state
  exact ⟨exchanges, hlog.symm⟩

section Visit

variable {call : α → StoreCall} {failure : α → StoreError → ε} {value : (item : α) → (call item).Answer → β}
  {items : List α}

/-- **A client that gets through has one exchange for each item**, and the values it collects are made of the
answers. -/
theorem exists_answered_of_visit {values : List β} {state reached : σ × List Exchange}
    (h : store.transcribed.visit context call failure value items state = (.ok values, reached)) :
    ∃ answered : List ((item : α) × (call item).Answer),
      answered.map Sigma.fst = items ∧ (answered.map fun a => value a.1 a.2) = values ∧
        reached.2 = state.2 ++ answered.map fun a => ⟨call a.1, .ok a.2⟩ := by
  induction items generalizing values state with
  | nil =>
      cases h
      exact ⟨[], rfl, rfl, (List.append_nil _).symm⟩
  | cons item items ih =>
      rw [visit, transcribed_call] at h
      rcases hcall : store.call context (call item) state.1 with ⟨_ | answer, next⟩
      · rw [hcall] at h
        cases h
      · rw [hcall] at h
        rcases hrest : store.transcribed.visit context call failure value items
          (next, state.2 ++ [⟨call item, .ok answer⟩]) with ⟨_ | rest, left⟩
        · simp only [hrest, Except.map] at h
          cases h
        · simp only [hrest, Except.map] at h
          cases h
          obtain ⟨answered, rfl, rfl, hlog⟩ := ih hrest
          exact ⟨⟨item, answer⟩ :: answered, rfl, rfl, by simp [hlog]⟩

/-- A client leaves the store as the calls for its first items do. -/
theorem exists_calls_of_visit {result : Except ε (List β)} {state left : σ}
    (h : store.visit context call failure value items state = (result, left)) :
    ∃ calls, calls <+: items.map call ∧ left = store.after context calls state := by
  induction items generalizing result state with
  | nil =>
      cases h
      exact ⟨[], List.nil_prefix, rfl⟩
  | cons item items ih =>
      rcases hcall : store.call context (call item) state with ⟨_ | answer, next⟩
      · simp only [visit, hcall] at h
        cases h
        have hleft : left = store.after context [call item] state := by rw [after_cons, hcall, after_nil]
        exact ⟨[call item], List.cons_prefix_cons.2 ⟨rfl, List.nil_prefix⟩, hleft⟩
      · rcases hrest : store.visit context call failure value items next with ⟨rest, left'⟩
        simp only [visit, hcall, hrest] at h
        cases h
        obtain ⟨calls, hcalls, rfl⟩ := ih hrest
        exact ⟨call item :: calls, List.cons_prefix_cons.2 ⟨rfl, hcalls⟩, by rw [after_cons, hcall]⟩

end Visit

end ObjectStore

end Converge
