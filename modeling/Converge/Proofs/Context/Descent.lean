import Converge.Context
import Mathlib.Data.List.Basic
import Mathlib.Logic.Relation

/-!
# Where contexts come from

Contexts are made one after the other: alone, around the token of one that was made before, or with a token of their own
below the token of one that was made before. From the order of making and the origins alone it can be told which contexts
share a token and which of them have their token below that of another one. The tokens that contexts carry say the same.

## Main Definitions

* `Origin`, `Family` — what a context comes from, and the origins of all contexts in the order in which they were made.
* `Family.Shares` — two contexts share a token.
* `Family.Heeds` — a context shares the token of another one, or has its token below it.
* `Context.lineage` — the tokens that a context is cancelled by.
* `Family.Carried` — contexts that were made as a family says.

## Main Statements

* `Family.Carried.heeds_iff` — a context heeds another one if the token of that one is in its lineage.

## Design Notes

`Heeds` does not speak of tokens. It follows origins from a context to what it was made from, and goes over to any other
context with the same token on the way, also to those that were made later.
-/

namespace Converge

/-- What a context comes from. The others are named by their positions in the order of making. -/
inductive Origin where
  | alone
  | copyOf (source : Nat)
  | childOf (parent : Nat)
  deriving Repr, DecidableEq

/-- The origins of contexts, in the order in which these were made. -/
abbrev Family := List Origin

namespace Family

/-- Two contexts share a token: one can be reached from the other over copies. -/
def Shares (family : Family) : Nat → Nat → Prop :=
  Relation.EqvGen fun copy source => family[copy]? = some (.copyOf source)

/-- A context shares the token of another one, or the token of one of its ancestors does. -/
inductive Heeds (family : Family) : Nat → Nat → Prop
  | token {position other : Nat} (shared : family.Shares position other) : Heeds family position other
  | ancestor {position child parent other : Nat} (shared : family.Shares position child)
      (below : family[child]? = some (.childOf parent)) (rest : Heeds family parent other) : Heeds family position other

variable {family : Family} {position other source : Nat}

theorem Heeds.of_shares (shared : family.Shares position source) (h : family.Heeds source other) :
    family.Heeds position other := by
  cases h with
  | token rest => exact .token (shared.trans _ _ _ rest)
  | ancestor rest below heeds => exact .ancestor (shared.trans _ _ _ rest) below heeds

end Family

/-- The tokens that a context is cancelled by: its own and those it comes from. -/
def Context.lineage (context : Context) : List Nat := context.token :: context.ancestors

/-- A context is cancelled by any token of its lineage. -/
theorem Cancellations.isCancelled_iff {contexts : Cancellations} {context : Context} :
    contexts.isCancelled context = true ↔ ∃ token ∈ context.lineage, token ∈ contexts.cancelled := by
  rw [isCancelled, List.any_eq_true]
  simp only [List.contains_iff_mem]
  rfl

/-! ### Contexts that were made as a family says -/

/-- A context is made from those that there are. One that is no copy has a token that none of them has. -/
inductive Made (earlier : List Context) : Origin → Context → Prop
  | alone {context : Context} (top : context.ancestors = []) (fresh : ∀ made ∈ earlier, made.token ≠ context.token) :
      Made earlier .alone context
  | copyOf {source : Nat} {context : Context} (same : earlier[source]? = some context) :
      Made earlier (.copyOf source) context
  | childOf {position : Nat} {parent context : Context} (found : earlier[position]? = some parent)
      (below : context.ancestors = parent.lineage) (fresh : ∀ made ∈ earlier, made.token ≠ context.token) :
      Made earlier (.childOf position) context

/-- What is no copy has a token of its own. -/
theorem Made.token_ne {earlier : List Context} {origin : Origin} {context other : Context}
    (h : Made earlier origin context) (original : ¬ ∃ source, origin = .copyOf source) (hmem : other ∈ earlier) :
    other.token ≠ context.token := by
  cases h with
  | alone _ fresh => exact fresh other hmem
  | copyOf _ => exact absurd ⟨_, rfl⟩ original
  | childOf _ _ fresh => exact fresh other hmem

namespace Family

/-- Contexts that were made one after the other, with these origins. -/
inductive Carried : Family → List Context → Prop
  | nil : Carried [] []
  | concat {family : Family} {contexts : List Context} {origin : Origin} {context : Context}
      (before : Carried family contexts) (made : Made contexts origin context) :
      Carried (family ++ [origin]) (contexts ++ [context])

namespace Carried

variable {family : Family} {contexts : List Context} {position other : Nat} {context another : Context} {origin : Origin}

theorem length_eq (h : Carried family contexts) : family.length = contexts.length := by
  induction h with
  | nil => rfl
  | concat _ _ ih => rw [List.length_append, List.length_append, ih]; rfl

/-- **Each context was made from those before it**, as its origin says. -/
theorem exists_made (h : Carried family contexts) (found : contexts[position]? = some context) :
    ∃ origin, family[position]? = some origin ∧ Made (contexts.take position) origin context := by
  induction h with
  | nil => cases found
  | @concat family contexts origin last before made ih =>
      obtain hlt | rfl | hlt := Nat.lt_trichotomy position contexts.length
      · rw [List.getElem?_append_left hlt] at found
        obtain ⟨origin, horigin, hmade⟩ := ih found
        refine ⟨origin, ?_, ?_⟩
        · rwa [List.getElem?_append_left (by rwa [before.length_eq])]
        · rwa [List.take_append_of_le_length (Nat.le_of_lt hlt)]
      · rw [List.getElem?_concat_length] at found
        cases found
        refine ⟨origin, ?_, ?_⟩
        · rw [← before.length_eq, List.getElem?_concat_length]
        · rwa [List.take_left]
      · have hlength : (contexts ++ [last]).length ≤ position := by
          rw [List.length_append]
          exact hlt
        rw [List.getElem?_eq_none hlength] at found
        cases found

/-- The context of an origin. -/
theorem exists_of_origin (h : Carried family contexts) (found : family[position]? = some origin) :
    ∃ context, contexts[position]? = some context ∧ Made (contexts.take position) origin context := by
  have hlt : position < contexts.length := h.length_eq ▸ (List.getElem?_eq_some_iff.1 found).1
  obtain ⟨context, hcontext⟩ : ∃ context, contexts[position]? = some context :=
    ⟨contexts[position], List.getElem?_eq_getElem hlt⟩
  obtain ⟨origin', horigin, hmade⟩ := h.exists_made hcontext
  cases found.symm.trans horigin
  exact ⟨context, hcontext, hmade⟩

/-- What is found among the contexts before a position. -/
theorem found_of_take {contexts : List Context} {position source : Nat} {context : Context}
    (h : (contexts.take position)[source]? = some context) : source < position ∧ contexts[source]? = some context := by
  rw [List.getElem?_take] at h
  split at h
  · next hlt => exact ⟨hlt, h⟩
  · cases h

/-- Contexts that share a token are the same. -/
theorem getElem?_eq_of_shares (h : Carried family contexts) (shared : family.Shares position other) :
    contexts[position]? = contexts[other]? := by
  induction shared with
  | rel copy source hcopy =>
      obtain ⟨context, hcontext, hmade⟩ := h.exists_of_origin hcopy
      cases hmade with
      | copyOf same =>
          rw [hcontext]
          exact (found_of_take same).2.symm
  | refl => rfl
  | symm _ _ _ ih => exact ih.symm
  | trans _ _ _ _ _ ih ih' => exact ih.trans ih'

/-- **Contexts with one token share it.** The induction is on both positions: a copy is followed to its source, and two
contexts that are no copies have different tokens. -/
theorem shares_of_token_eq (h : Carried family contexts) (found : contexts[position]? = some context)
    (found' : contexts[other]? = some another) (same : context.token = another.token) : family.Shares position other := by
  induction hsum : position + other using Nat.strongRecOn generalizing position other context another with
  | ind sum ih =>
      obtain ⟨origin, horigin, made⟩ := h.exists_made found
      obtain ⟨origin', horigin', made'⟩ := h.exists_made found'
      by_cases hcopy : ∃ source, origin = .copyOf source
      · obtain ⟨source, rfl⟩ := hcopy
        cases made with
        | copyOf hsource =>
            obtain ⟨hlt, hsource⟩ := found_of_take hsource
            have hrest : family.Shares source other := ih (source + other) (by omega) hsource found' same rfl
            exact .trans _ _ _ (.rel _ _ horigin) hrest
      by_cases hcopy' : ∃ source, origin' = .copyOf source
      · obtain ⟨source, rfl⟩ := hcopy'
        cases made' with
        | copyOf hsource =>
            obtain ⟨hlt, hsource⟩ := found_of_take hsource
            have hrest : family.Shares position source := ih (position + source) (by omega) found hsource same rfl
            exact .trans _ _ _ hrest (.symm _ _ (.rel _ _ horigin'))
      obtain hlt | rfl | hlt := Nat.lt_trichotomy position other
      · have hmem : context ∈ contexts.take other := List.mem_of_getElem? (by rwa [List.getElem?_take_of_lt hlt])
        exact absurd same (made'.token_ne hcopy' hmem)
      · exact .refl position
      · have hmem : another ∈ contexts.take position := List.mem_of_getElem? (by rwa [List.getElem?_take_of_lt hlt])
        exact absurd same.symm (made.token_ne hcopy hmem)

/-- A context that heeds another one has the whole lineage of that one in its own. -/
theorem lineage_subset_of_heeds (h : Carried family contexts) (heeds : family.Heeds position other)
    (found : contexts[position]? = some context) (found' : contexts[other]? = some another) :
    another.lineage ⊆ context.lineage := by
  induction heeds generalizing context with
  | token shared =>
      cases found.symm.trans ((h.getElem?_eq_of_shares shared).trans found')
      exact List.Subset.refl _
  | ancestor shared below _ ih =>
      obtain ⟨child, hchild, made⟩ := h.exists_of_origin below
      cases found.symm.trans ((h.getElem?_eq_of_shares shared).trans hchild)
      cases made with
      | childOf hparent hbelow _ =>
          have habove : context.ancestors ⊆ context.lineage := List.subset_cons_self _ _
          rw [hbelow] at habove
          exact List.Subset.trans (ih (found_of_take hparent).2 found') habove

/-- **A context heeds another one if the token of that one is in its lineage.** -/
theorem heeds_iff (h : Carried family contexts) (found : contexts[position]? = some context)
    (found' : contexts[other]? = some another) : family.Heeds position other ↔ another.token ∈ context.lineage := by
  constructor
  · intro heeds
    exact h.lineage_subset_of_heeds heeds found found' List.mem_cons_self
  · intro hmem
    induction position using Nat.strongRecOn generalizing context with
    | ind position ih =>
        obtain hsame | habove := List.mem_cons.1 hmem
        · exact .token (h.shares_of_token_eq found found' hsame.symm)
        · obtain ⟨origin, horigin, made⟩ := h.exists_made found
          cases made with
          | alone top _ =>
              rw [top] at habove
              cases habove
          | copyOf hsource =>
              obtain ⟨hlt, hsource⟩ := found_of_take hsource
              exact (ih _ hlt hsource hmem).of_shares (.rel _ _ horigin)
          | childOf hparent hbelow _ =>
              obtain ⟨hlt, hparent⟩ := found_of_take hparent
              rw [hbelow] at habove
              exact .ancestor (.refl position) horigin (ih _ hlt hparent habove)

end Carried

end Family

end Converge
