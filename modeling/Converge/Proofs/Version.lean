import Converge.Proofs.Text.Numeral
import Converge.Proofs.Wait.Round
import Mathlib.Order.Defs.PartialOrder

/-!
# The order of versions

Two versions that are numbers are compared by their values, whatever their texts; of any other two versions one has
reached the other only if they are the same text. The two rules do not get in each other's way: a version with the text
of a number is this number, so in a chain of comparisons either all versions are numbers or all are the same one.

## Main Definitions

* `Version.Counts` — a version is a number of a 64-bit word.
* The instance `Preorder Version` — a version is below those that have reached it.

## Main Statements

* `Version.isAtLeast_iff` — both rules at once: the same version, or numbers in order.
* `Version.isAtLeast_trans` — what has reached a version has reached all that this one has reached.
* `Version.numbers_in_order_others_alone` — which versions are ordered, and that reads go by the order.
-/

namespace Converge

open Chars

namespace Version

/-! ### Versions that are numbers -/

/-- A version is a number of a 64-bit word, in decimal digits, with at most a `+` in front. -/
def Counts (version : Version) (n : Nat) : Prop := Numeral version.text.toList n ∧ n < wordBound

variable {a b c : Version} {m n : Nat}

theorem number?_eq_some_iff : a.number? = some n ↔ a.Counts n := unsigned?_eq_some_iff

theorem Counts.unique (hm : a.Counts m) (hn : a.Counts n) : m = n := by
  rw [← number?_eq_some_iff] at hm hn
  exact Option.some.inj (hm.symm.trans hn)

/-- The text of a number is a version that is this number, if it fits a word. -/
theorem counts_repr_iff : Counts ⟨m.repr⟩ n ↔ m = n ∧ n < wordBound := and_congr_left fun _ => numeral_repr_iff

/-! ### Which version has reached which -/

/-- **A version has reached itself and, if it is a number, the numbers up to it**, and nothing else. -/
theorem isAtLeast_iff : a.isAtLeast b = true ↔ a = b ∨ ∃ m n, a.Counts m ∧ b.Counts n ∧ n ≤ m := by
  have hsame : a.text = b.text ↔ a = b := ⟨congrArg Version.mk, congrArg Version.text⟩
  simp only [← number?_eq_some_iff]
  rw [isAtLeast]
  cases hobserved : a.number? with
  | none => simp [hsame]
  | some observed =>
      cases hstamped : b.number? with
      | none => simp [hsame]
      | some stamped =>
          simp only [decide_eq_true_eq, Option.some.injEq, exists_and_left, exists_eq_left']
          refine ⟨.inr, Or.rec ?_ id⟩
          rintro rfl
          exact Nat.le_of_eq (Option.some.inj (hstamped.symm.trans hobserved))

theorem isAtLeast_refl (a : Version) : a.isAtLeast a = true := isAtLeast_iff.2 (.inl rfl)

/-- What has reached a version has reached all that this one has reached. -/
theorem isAtLeast_trans (hab : a.isAtLeast b = true) (hbc : b.isAtLeast c = true) : a.isAtLeast c = true := by
  obtain rfl | ⟨m, n, hm, hn, hnm⟩ := isAtLeast_iff.1 hab
  · exact hbc
  · obtain rfl | ⟨n', l, hn', hl, hle⟩ := isAtLeast_iff.1 hbc
    · exact hab
    · -- The version in the middle is one number on both sides.
      obtain rfl := hn.unique hn'
      exact isAtLeast_iff.2 (.inr ⟨m, l, hm, hl, Nat.le_trans hle hnm⟩)

/-- A version is below those that have reached it. -/
instance : Preorder Version where
  le older newer := newer.isAtLeast older = true
  le_refl := isAtLeast_refl
  le_trans _ _ _ hab hbc := isAtLeast_trans hbc hab

theorem isAtLeast_iff_of_counts (ha : a.Counts m) (hb : b.Counts n) : a.isAtLeast b = true ↔ n ≤ m := by
  rw [isAtLeast_iff]
  constructor
  · rintro (rfl | ⟨m', n', hm, hn, hle⟩)
    · exact Nat.le_of_eq (hb.unique ha)
    · rwa [hb.unique hn, ha.unique hm]
  · exact fun hle => .inr ⟨m, n, ha, hb, hle⟩

/-- A version that is no number is related to itself only. -/
theorem isAtLeast_iff_eq (h : (∀ n, ¬ a.Counts n) ∨ ∀ n, ¬ b.Counts n) : a.isAtLeast b = true ↔ a = b := by
  rw [isAtLeast_iff, or_iff_left]
  rintro ⟨m, n, hm, hn, -⟩
  exact h.elim (fun ha => ha m hm) (fun hb => hb n hn)

theorem isAtLeast_and_isAtLeast_iff :
    a.isAtLeast b = true ∧ b.isAtLeast a = true ↔ (∃ n, a.Counts n ∧ b.Counts n) ∨ a.text = b.text := by
  constructor
  · rintro ⟨hab, hba⟩
    obtain rfl | ⟨m, n, hm, hn, hle⟩ := isAtLeast_iff.1 hab
    · exact .inr rfl
    · have hge := (isAtLeast_iff_of_counts hn hm).1 hba
      exact .inl ⟨m, hm, Nat.le_antisymm hge hle ▸ hn⟩
  · rintro (⟨n, ha, hb⟩ | htext)
    · exact ⟨(isAtLeast_iff_of_counts ha hb).2 (Nat.le_refl n), (isAtLeast_iff_of_counts hb ha).2 (Nat.le_refl n)⟩
    · obtain rfl : a = b := congrArg Version.mk htext
      exact ⟨isAtLeast_refl a, isAtLeast_refl a⟩

/-- Of two numbers, the version that has reached the other is not less, whether they fit a word or not. -/
theorem le_of_isAtLeast (h : isAtLeast ⟨m.repr⟩ ⟨n.repr⟩ = true) : n ≤ m := by
  obtain heq | ⟨m', n', hm, hn, hle⟩ := isAtLeast_iff.1 h
  · exact Nat.le_of_eq (repr_injective (congrArg Version.text heq)).symm
  · rwa [(counts_repr_iff.1 hm).1, (counts_repr_iff.1 hn).1]

theorem isAtLeast_of_le (h : n ≤ m) (fits : m < wordBound) : isAtLeast ⟨m.repr⟩ ⟨n.repr⟩ = true := by
  have hm : Counts ⟨m.repr⟩ m := counts_repr_iff.2 ⟨rfl, fits⟩
  have hn : Counts ⟨n.repr⟩ n := counts_repr_iff.2 ⟨rfl, Nat.lt_of_le_of_lt h fits⟩
  exact (isAtLeast_iff_of_counts hm hn).2 h

/-! ### Reads -/

/-- A read that shows a version shows every version that this one has reached. -/
theorem shown_of_le {older newer : Version} {read : Read} (h : older ≤ newer)
    (shown : (Predicate.atLeast newer).Shown read) : (Predicate.atLeast older).Shown read := by
  obtain ⟨document, actual, hread, hactual, hreached⟩ := shown
  exact ⟨document, actual, hread, hactual, isAtLeast_trans hreached h⟩

/-- **Numbers are in order, and every other version is on its own.** Versions are compared by a preorder. Two of them
that are numbers of a word are comparable, by their values; a version that is none, because it is no number at all or
too large a one, is related to itself only. So two versions have reached each other if they are the same number or the
same text. A read that satisfies a wait for a version satisfies those for all versions that this one has reached. -/
theorem numbers_in_order_others_alone (a b c : Version) :
    a.isAtLeast a = true ∧
      (a.isAtLeast b = true → b.isAtLeast c = true → a.isAtLeast c = true) ∧
      (∀ m n, a.Counts m → b.Counts n →
        (a.isAtLeast b = true ↔ n ≤ m) ∧ (a.isAtLeast b = true ∨ b.isAtLeast a = true)) ∧
      ((∀ n, ¬ a.Counts n) → (a.isAtLeast b = true ↔ a = b) ∧ (b.isAtLeast a = true ↔ a = b)) ∧
      (a.isAtLeast b = true ∧ b.isAtLeast a = true ↔ (∃ n, a.Counts n ∧ b.Counts n) ∨ a.text = b.text) ∧
      (a.isAtLeast b = true → ∀ read,
        (Predicate.atLeast a).observe read = .satisfied → (Predicate.atLeast b).observe read = .satisfied) := by
  refine ⟨isAtLeast_refl a, isAtLeast_trans, ?_, ?_, isAtLeast_and_isAtLeast_iff, ?_⟩
  · intro m n hm hn
    rw [isAtLeast_iff_of_counts hm hn, isAtLeast_iff_of_counts hn hm]
    exact ⟨Iff.rfl, Nat.le_total n m⟩
  · intro alone
    rw [isAtLeast_iff_eq (.inl alone), isAtLeast_iff_eq (.inr alone)]
    exact ⟨Iff.rfl, eq_comm⟩
  · intro hab read
    rw [Predicate.observe_eq_satisfied_iff, Predicate.observe_eq_satisfied_iff]
    exact shown_of_le hab

/-- A number with a plus and a zero in front has reached a smaller one, and this one a smaller one with more zeros. A
number that does not fit a word has not reached any of them, nor the other way round. -/
theorem numbers_in_order_of_padded_and_oversized :
    Counts ⟨"+010"⟩ 10 ∧ Counts ⟨"9"⟩ 9 ∧ (∀ n, ¬ Counts ⟨"18446744073709551616"⟩ n) ∧
      isAtLeast ⟨"+010"⟩ ⟨"9"⟩ = true ∧ isAtLeast ⟨"+010"⟩ ⟨"007"⟩ = true ∧
      isAtLeast ⟨"18446744073709551616"⟩ ⟨"9"⟩ = false ∧ isAtLeast ⟨"9"⟩ ⟨"18446744073709551616"⟩ = false := by
  have hten : Counts ⟨"+010"⟩ 10 := number?_eq_some_iff.1 (by decide)
  have hnine : Counts ⟨"9"⟩ 9 := number?_eq_some_iff.1 (by decide)
  have hlarge : ∀ n, ¬ Counts ⟨"18446744073709551616"⟩ n := by
    intro n hn
    cases (number?_eq_some_iff.2 hn).symm.trans (show number? ⟨"18446744073709551616"⟩ = none by decide)
  obtain ⟨-, htrans, hnumbers, -⟩ := numbers_in_order_others_alone ⟨"+010"⟩ ⟨"9"⟩ ⟨"007"⟩
  obtain ⟨-, -, -, halone, -⟩ := numbers_in_order_others_alone ⟨"18446744073709551616"⟩ ⟨"9"⟩ ⟨"9"⟩
  have hreached : isAtLeast ⟨"+010"⟩ ⟨"9"⟩ = true := (hnumbers 10 9 hten hnine).1.2 (by decide)
  refine ⟨hten, hnine, hlarge, hreached, htrans hreached (by decide), ?_, ?_⟩
  · rw [Bool.eq_false_iff, ne_eq, (halone hlarge).1]
    decide
  · rw [Bool.eq_false_iff, ne_eq, (halone hlarge).2]
    decide

end Version

end Converge
