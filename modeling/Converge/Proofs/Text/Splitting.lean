import Converge.Text.Chars
import Mathlib.Data.List.Infix

/-!
# Texts between separators

A text is cut at every separator, and parts are put together with a separator between them. Each undoes the other as
long as no part has a separator of its own. A pattern that has no separator in it does not reach from one part into the
next, so it occurs in what is put together only where it occurs in a part.

## Main Statements

* `Chars.notMem_of_mem_splitAt`, `Chars.splitAt_join` — no part has a separator, and cutting undoes joining.
* `Chars.mem_or_eq_of_mem_join`, `Chars.not_infix_join` — what is in none of the parts is not in what they make up.
* `Chars.append_cons_inj` — what stands in front of the first separator is told from the rest.
-/

namespace Converge.Chars

variable {sep : Char} {pattern : List Char}

/-! ### The first separator -/

theorem eq_append_of_splitFirst {text before after : List Char} (h : splitFirst sep text = some (before, after)) :
    text = before ++ sep :: after := by
  induction text generalizing before with
  | nil => cases h
  | cons c text ih =>
      rw [splitFirst] at h
      split at h
      · next hsep =>
          cases h
          rw [hsep, List.nil_append]
      · obtain ⟨⟨before, after⟩, hrest, heq⟩ := Option.map_eq_some_iff.1 h
        cases heq
        rw [ih hrest, List.cons_append]

theorem splitFirst_eq_none_iff {text : List Char} : splitFirst sep text = none ↔ sep ∉ text := by
  induction text with
  | nil => simp [splitFirst]
  | cons c text ih =>
      rw [splitFirst, List.mem_cons, not_or]
      split
      · next hsep => simp [hsep]
      · next hsep => simp [ih, Ne.symm hsep]

/-- A text is cut behind a part that has no separator. -/
theorem splitFirst_append {part : List Char} (h : sep ∉ part) (rest : List Char) :
    splitFirst sep (part ++ sep :: rest) = some (part, rest) := by
  induction part with
  | nil => rw [List.nil_append, splitFirst, if_pos rfl]
  | cons c part ih =>
      rw [List.mem_cons, not_or] at h
      rw [List.cons_append, splitFirst, if_neg (Ne.symm h.1), ih h.2]
      rfl

/-- A text is cut at its first separator. -/
theorem splitFirst_eq_some_iff {text before after : List Char} :
    splitFirst sep text = some (before, after) ↔ text = before ++ sep :: after ∧ sep ∉ before := by
  constructor
  · intro h
    refine ⟨eq_append_of_splitFirst h, fun hmem => ?_⟩
    obtain ⟨front, back, rfl, hfront⟩ := List.eq_append_cons_of_mem hmem
    rw [eq_append_of_splitFirst h, List.append_assoc, List.cons_append, splitFirst_append hfront] at h
    cases List.append_right_eq_self.1 (congrArg Prod.fst (Option.some.inj h)).symm
  · rintro ⟨rfl, hbefore⟩
    exact splitFirst_append hbefore after

/-- What stands in front of the first separator is told from what follows it. -/
theorem append_cons_inj {part other rest others : List Char} (h : sep ∉ part) (hother : sep ∉ other)
    (heq : part ++ sep :: rest = other ++ sep :: others) : part = other ∧ rest = others := by
  have hcut := splitFirst_append h rest
  rw [heq, splitFirst_append hother, Option.some.injEq, Prod.mk.injEq] at hcut
  exact ⟨hcut.1.symm, hcut.2.symm⟩

/-- A pattern without separators stands on one side of a separator. -/
theorem infix_or_of_infix_append_cons {part rest : List Char} (hpattern : sep ∉ pattern)
    (h : pattern <:+: part ++ sep :: rest) : pattern <:+: part ∨ pattern <:+: rest := by
  obtain ⟨before, after, heq⟩ := h
  obtain ⟨extra, rfl, -⟩ | ⟨extra, hextra, hrest⟩ := List.append_eq_append_iff.1 heq
  · exact .inl ⟨before, extra, rfl⟩
  · cases extra with
    | nil => exact .inl ⟨before, [], by rw [hextra, List.append_nil, List.append_nil]⟩
    | cons c extra =>
        -- The pattern ends behind the separator, so it also starts behind it.
        obtain ⟨rfl, rfl⟩ := List.cons_eq_cons.1 hrest
        obtain ⟨front, -, hfront⟩ | ⟨front, rfl, hfront⟩ := List.append_eq_append_iff.1 hextra
        · exact absurd (hfront ▸ List.mem_append_right front List.mem_cons_self) hpattern
        · cases front with
          | nil =>
              rw [List.nil_append] at hfront
              exact absurd (hfront ▸ List.mem_cons_self) hpattern
          | cons d front =>
              obtain ⟨-, rfl⟩ := List.cons_eq_cons.1 hfront
              exact .inr ⟨front, after, rfl⟩

/-! ### Cutting and joining -/

theorem splitAt_ne_nil (sep : Char) (text : List Char) : splitAt sep text ≠ [] := by
  cases text with
  | nil => exact List.cons_ne_nil _ _
  | cons c text =>
      rw [splitAt]
      split
      · exact List.cons_ne_nil _ _
      · split <;> exact List.cons_ne_nil _ _

theorem splitAt_of_not_mem {text : List Char} (h : sep ∉ text) : splitAt sep text = [text] := by
  induction text with
  | nil => rfl
  | cons c text ih =>
      rw [List.mem_cons, not_or] at h
      rw [splitAt, if_neg (Ne.symm h.1), ih h.2]

theorem splitAt_append {part : List Char} (h : sep ∉ part) (rest : List Char) :
    splitAt sep (part ++ sep :: rest) = part :: splitAt sep rest := by
  induction part with
  | nil => rw [List.nil_append, splitAt, if_pos rfl]
  | cons c part ih =>
      rw [List.mem_cons, not_or] at h
      rw [List.cons_append, splitAt, if_neg (Ne.symm h.1), ih h.2]

/-- No part has a separator. -/
theorem notMem_of_mem_splitAt {text part : List Char} (h : part ∈ splitAt sep text) : sep ∉ part := by
  induction text generalizing part with
  | nil =>
      obtain rfl := List.mem_singleton.1 h
      exact List.not_mem_nil
  | cons c text ih =>
      rw [splitAt] at h
      split at h
      · obtain rfl | hpart := List.mem_cons.1 h
        · exact List.not_mem_nil
        · exact ih hpart
      · next hc =>
          split at h
          · next hnil => exact absurd hnil (splitAt_ne_nil sep text)
          · next first parts hparts =>
              rw [hparts] at ih
              obtain rfl | hpart := List.mem_cons.1 h
              · rw [List.mem_cons, not_or]
                exact ⟨Ne.symm hc, ih List.mem_cons_self⟩
              · exact ih (List.mem_cons_of_mem first hpart)

theorem join_cons_cons (sep part next : List Char) (parts : List (List Char)) :
    join sep (part :: next :: parts) = part ++ sep ++ join sep (next :: parts) := rfl

/-- Cutting undoes joining if no part has a separator. -/
theorem splitAt_join {parts : List (List Char)} (hparts : parts ≠ []) (h : ∀ part ∈ parts, sep ∉ part) :
    splitAt sep (join [sep] parts) = parts := by
  induction parts with
  | nil => exact absurd rfl hparts
  | cons part parts ih =>
      rw [List.forall_mem_cons] at h
      cases parts with
      | nil => exact splitAt_of_not_mem h.1
      | cons next parts =>
          rw [join_cons_cons, List.append_assoc, List.singleton_append, splitAt_append h.1,
            ih (List.cons_ne_nil _ _) h.2]

theorem mem_or_eq_of_mem_join {parts : List (List Char)} {c : Char} (h : c ∈ join [sep] parts) :
    (∃ part ∈ parts, c ∈ part) ∨ c = sep := by
  induction parts with
  | nil => cases h
  | cons part parts ih =>
      cases parts with
      | nil => exact .inl ⟨part, List.mem_cons_self, h⟩
      | cons next parts =>
          rw [join_cons_cons, List.mem_append, List.mem_append, List.mem_singleton] at h
          obtain (hpart | hsep) | hrest := h
          · exact .inl ⟨part, List.mem_cons_self, hpart⟩
          · exact .inr hsep
          · refine (ih hrest).imp_left fun ⟨other, hother, hmem⟩ => ?_
            exact ⟨other, List.mem_cons_of_mem part hother, hmem⟩

theorem mem_join_of_mem {parts : List (List Char)} {part : List Char} (hpart : part ∈ parts) {c : Char} (h : c ∈ part) :
    c ∈ join [sep] parts := by
  induction parts with
  | nil => cases hpart
  | cons first parts ih =>
      cases parts with
      | nil =>
          obtain rfl := List.mem_singleton.1 hpart
          exact h
      | cons next parts =>
          rw [join_cons_cons, List.mem_append, List.mem_append]
          obtain rfl | hpart := List.mem_cons.1 hpart
          · exact .inl (.inl h)
          · exact .inr (ih hpart)

/-- What is put together ends with what the last part ends with. -/
theorem getLast?_join {parts : List (List Char)} {last : List Char} (h : parts.getLast? = some last)
    (nonempty : last ≠ []) : (join [sep] parts).getLast? = last.getLast? := by
  induction parts with
  | nil => cases h
  | cons part parts ih =>
      cases parts with
      | nil =>
          obtain rfl : part = last := Option.some.inj h
          rfl
      | cons next parts =>
          have hrest : (join [sep] (next :: parts)).getLast? = last.getLast? := ih h
          rw [join_cons_cons, List.getLast?_append, hrest, List.getLast?_eq_some_getLast nonempty]
          rfl

/-- A pattern without separators that is in none of the parts is not in what they make up. -/
theorem not_infix_join {parts : List (List Char)} (hpattern : sep ∉ pattern) (nonempty : pattern ≠ [])
    (h : ∀ part ∈ parts, ¬ pattern <:+: part) : ¬ pattern <:+: join [sep] parts := by
  induction parts with
  | nil => exact fun hnil => nonempty (List.infix_nil.1 hnil)
  | cons part parts ih =>
      rw [List.forall_mem_cons] at h
      cases parts with
      | nil => exact h.1
      | cons next parts =>
          rw [join_cons_cons, List.append_assoc, List.singleton_append]
          intro hjoin
          obtain hpart | hrest := infix_or_of_infix_append_cons hpattern hjoin
          · exact h.1 hpart
          · exact ih h.2 hrest

end Converge.Chars
