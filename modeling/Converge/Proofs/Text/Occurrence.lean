import Converge.Text.Chars
import Mathlib.Data.List.Infix

/-!
# First occurrences in a text

A text is cut at a pattern where the pattern occurs first. Which cut that is does not depend on how it is looked for:
of all ways to write the text with the pattern in it, it is the one with the least text in front.

## Main Definitions

* `Chars.FirstAt` — where a pattern occurs first in a text.
* `Chars.OnlyAt` — where a pattern occurs that occurs once.

## Main Statements

* `Chars.breakOn_eq_some_iff` — a text is cut at the first occurrence.
* `Chars.contains_iff` — a text contains what is an infix of it.
-/

namespace Converge.Chars

variable {pattern text before after : List Char}

/-- A pattern occurs first between two parts of a text: none of its occurrences starts earlier. -/
structure FirstAt (pattern text before after : List Char) : Prop where
  eq : text = before ++ pattern ++ after
  first : ∀ earlier rest, text = earlier ++ pattern ++ rest → before.length ≤ earlier.length

namespace FirstAt

/-- A pattern has one first occurrence. -/
theorem unique {before' after' : List Char} (h : FirstAt pattern text before after)
    (h' : FirstAt pattern text before' after') : before = before' ∧ after = after' := by
  have hlength : before.length = before'.length := Nat.le_antisymm (h.first _ _ h'.eq) (h'.first _ _ h.eq)
  have heq := h.eq.symm.trans h'.eq
  rw [List.append_assoc, List.append_assoc] at heq
  obtain ⟨hbefore, hrest⟩ := List.append_inj heq hlength
  exact ⟨hbefore, List.append_cancel_left hrest⟩

/-- In front of its first occurrence a pattern does not occur. -/
theorem not_infix_before (h : FirstAt pattern text before after) (nonempty : pattern ≠ []) :
    ¬ pattern <:+: before := by
  rintro ⟨earlier, rest, hbefore⟩
  have hle := h.first earlier (rest ++ pattern ++ after) (by rw [h.eq, ← hbefore]; simp only [List.append_assoc])
  have hlength := congrArg List.length hbefore
  have hpos := List.length_pos_iff.2 nonempty
  simp only [List.length_append] at hlength
  omega

/-- A character in front of which the pattern does not start moves the occurrence on. -/
theorem cons {c : Char} (h : FirstAt pattern text before after) (notHere : afterStart pattern (c :: text) = none) :
    FirstAt pattern (c :: text) (c :: before) after where
  eq := by rw [h.eq, List.cons_append, List.cons_append]
  first earlier rest heq := by
    cases earlier with
    | nil =>
        have hstart : afterStart pattern (c :: text) = some rest := afterStart_eq_some_iff.2 heq
        cases notHere.symm.trans hstart
    | cons head earlier =>
        rw [List.cons_append, List.cons_append] at heq
        exact Nat.succ_le_succ (h.first earlier rest (List.cons_eq_cons.1 heq).2)

/-- Behind a text without its first character a pattern occurs first. -/
theorem of_notMem {c : Char} {rest : List Char} (h : c ∉ before) :
    FirstAt (c :: rest) (before ++ c :: rest ++ after) before after where
  eq := rfl
  first earlier others heq := by
    rw [List.append_assoc, List.append_assoc] at heq
    obtain ⟨extra, rfl, -⟩ | ⟨extra, hbefore, hextra⟩ := List.append_eq_append_iff.1 heq
    · rw [List.length_append]
      exact Nat.le_add_right _ _
    · cases extra with
      | nil => exact Nat.le_of_eq (by rw [hbefore, List.append_nil])
      | cons d extra =>
          obtain ⟨rfl, -⟩ := List.cons_eq_cons.1 hextra
          exact absurd (hbefore ▸ List.mem_append_right earlier List.mem_cons_self) h

end FirstAt

/-- A pattern occurs once in a text, between two parts of it. -/
structure OnlyAt (pattern text before after : List Char) : Prop where
  eq : text = before ++ pattern ++ after
  only : ∀ earlier rest, text = earlier ++ pattern ++ rest → earlier = before

/-- What occurs once occurs first where it does, and does not start a second time behind that. -/
theorem onlyAt_iff (nonempty : pattern ≠ []) : OnlyAt pattern text before after ↔
    FirstAt pattern text before after ∧ ¬ pattern <:+: pattern.tail ++ after := by
  obtain ⟨c, rest, rfl⟩ := List.exists_cons_of_ne_nil nonempty
  constructor
  · intro h
    refine ⟨⟨h.eq, fun earlier others heq => Nat.le_of_eq (congrArg List.length (h.only earlier others heq)).symm⟩, ?_⟩
    rintro ⟨middle, others, hsecond⟩
    have hsame : before ++ c :: middle = before := h.only _ others (by
      rw [h.eq, List.append_assoc, List.cons_append, show rest ++ after = _ from hsecond.symm]
      simp only [List.append_assoc, List.cons_append])
    cases List.append_right_eq_self.1 hsame
  · rintro ⟨first, hsecond⟩
    refine ⟨first.eq, fun earlier others heq => ?_⟩
    have hle := first.first earlier others heq
    rw [first.eq, List.append_assoc, List.append_assoc] at heq
    obtain ⟨extra, rfl, hextra⟩ | ⟨extra, rfl, -⟩ := List.append_eq_append_iff.1 heq
    · cases extra with
      | nil => exact List.append_nil before
      | cons d extra => exact absurd ⟨extra, others, by simpa using (List.cons_eq_cons.1 hextra).2.symm⟩ hsecond
    · rw [List.length_append] at hle
      obtain rfl : extra = [] := List.eq_nil_of_length_eq_zero (by omega)
      exact (List.append_nil earlier).symm

/-- Behind its only occurrence a pattern does not occur. -/
theorem OnlyAt.not_infix_after (h : OnlyAt pattern text before after) (nonempty : pattern ≠ []) :
    ¬ pattern <:+: after :=
  fun hafter => ((onlyAt_iff nonempty).1 h).2 (hafter.trans (List.suffix_append _ after).isInfix)

/-- A text is cut at a first occurrence. -/
theorem firstAt_of_breakOn (h : breakOn pattern text = some (before, after)) : FirstAt pattern text before after := by
  induction text generalizing before after with
  | nil =>
      have heq := eq_append_of_breakOn h
      rw [breakOn] at h
      split at h
      · cases h
        exact ⟨heq, fun _ _ _ => Nat.zero_le _⟩
      · cases h
  | cons c text ih =>
      have heq := eq_append_of_breakOn h
      rw [breakOn] at h
      split at h
      · cases h
        exact ⟨heq, fun _ _ _ => Nat.zero_le _⟩
      · next notHere =>
          obtain ⟨⟨front, back⟩, hcut, hparts⟩ := Option.map_eq_some_iff.1 h
          cases hparts
          exact (ih hcut).cons notHere

/-- Where nothing is cut the pattern does not occur. -/
theorem breakOn_eq_none_iff : breakOn pattern text = none ↔ ¬ pattern <:+: text := by
  induction text with
  | nil =>
      rw [breakOn, List.infix_nil]
      cases pattern <;> simp
  | cons c text ih =>
      have hstart : afterStart pattern (c :: text) = none ↔ ¬ pattern <+: c :: text := by
        rw [Option.eq_none_iff_forall_ne_some, ← not_exists]
        refine not_congr (exists_congr fun rest => ?_)
        rw [afterStart_eq_some_iff]
        exact eq_comm
      rw [List.infix_cons_iff, not_or, ← hstart, ← ih, breakOn]
      cases afterStart pattern (c :: text) <;> simp

/-- **A text is cut at the first occurrence of a pattern.** -/
theorem breakOn_eq_some_iff : breakOn pattern text = some (before, after) ↔ FirstAt pattern text before after := by
  constructor
  · exact firstAt_of_breakOn
  · intro h
    cases hcut : breakOn pattern text with
    | none => exact absurd ⟨before, after, h.eq.symm⟩ (breakOn_eq_none_iff.1 hcut)
    | some cut =>
        obtain ⟨rfl, rfl⟩ := h.unique (firstAt_of_breakOn hcut)
        rfl

theorem beforeEnd_eq_some_iff : beforeEnd pattern text = some before ↔ text = before ++ pattern := by
  rw [beforeEnd, Option.map_eq_some_iff]
  constructor
  · rintro ⟨front, hfront, rfl⟩
    rw [← List.reverse_reverse text, afterStart_eq_some_iff.1 hfront, List.reverse_append, List.reverse_reverse]
  · rintro rfl
    exact ⟨before.reverse, afterStart_eq_some_iff.2 List.reverse_append, List.reverse_reverse before⟩

theorem contains_iff : contains pattern text = true ↔ pattern <:+: text := by
  rw [contains, Option.isSome_iff_ne_none, ne_eq, breakOn_eq_none_iff, not_not]

theorem contains_eq_false_iff : contains pattern text = false ↔ ¬ pattern <:+: text := by
  rw [← contains_iff, Bool.not_eq_true]

/-- What occurs has a first occurrence. -/
theorem exists_firstAt (h : contains pattern text = true) : ∃ before after, FirstAt pattern text before after := by
  obtain ⟨⟨before, after⟩, hcut⟩ := Option.isSome_iff_exists.1 h
  exact ⟨before, after, firstAt_of_breakOn hcut⟩

theorem FirstAt.not_contains (h : FirstAt pattern text before after) (nonempty : pattern ≠ []) :
    contains pattern before = false :=
  contains_eq_false_iff.2 (h.not_infix_before nonempty)

end Converge.Chars
