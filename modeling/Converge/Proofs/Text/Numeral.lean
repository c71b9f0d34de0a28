import Converge.Text.Chars

/-!
# Numbers in decimal digits

A text is read as a number if it consists of digits, with at most a `+` in front. Zeros in front do not matter, so a
number has several numerals, of which one is the text it is written as.

## Main Definitions

* `Chars.Numeral` — a text that is a number.

## Main Statements

* `Chars.unsigned?_eq_some_iff` — the texts that are read as a number below a bound.
* `Chars.numeral_repr_iff` — the text of a number is a numeral of this number only.
-/

namespace Converge.Chars

/-- A text is a number in decimal digits, with at most a `+` in front. -/
def Numeral (text : List Char) (n : Nat) : Prop :=
  ∃ digits, digits ≠ [] ∧ (∀ c ∈ digits, isDigit c = true) ∧ decimalValue digits = n ∧
    (text = digits ∨ text = '+' :: digits)

variable {text digits : List Char} {m n bound : Nat}

theorem digits?_eq_some_iff : digits? digits = some n ↔
    digits ≠ [] ∧ (∀ c ∈ digits, isDigit c = true) ∧ decimalValue digits = n := by
  rw [digits?, ← List.all_eq_true]
  cases digits with
  | nil => simp
  | cons c digits => cases (c :: digits).all isDigit <;> simp

theorem plus_notMem (h : ∀ c ∈ digits, isDigit c = true) : '+' ∉ digits := by
  intro hmem
  cases h '+' hmem

/-- **The texts that are read as a number below a bound** are its numerals. -/
theorem unsigned?_eq_some_iff : unsigned? bound text = some n ↔ Numeral text n ∧ n < bound := by
  have hfilter (digits : List Char) : (digits? digits).filter (· < bound) = some n ↔
      (digits ≠ [] ∧ (∀ c ∈ digits, isDigit c = true) ∧ decimalValue digits = n) ∧ n < bound := by
    rw [Option.filter_eq_some_iff, digits?_eq_some_iff, decide_eq_true_eq]
  unfold unsigned?
  split
  · next rest =>
      rw [hfilter]
      refine and_congr_left fun _ => ?_
      constructor
      · rintro ⟨hne, hdigits, hvalue⟩
        exact ⟨rest, hne, hdigits, hvalue, .inr rfl⟩
      · rintro ⟨digits, hne, hdigits, hvalue, rfl | heq⟩
        · exact absurd List.mem_cons_self (plus_notMem hdigits)
        · obtain ⟨-, rfl⟩ := List.cons_eq_cons.1 heq
          exact ⟨hne, hdigits, hvalue⟩
  · next hplus =>
      rw [hfilter]
      refine and_congr_left fun _ => ?_
      constructor
      · rintro ⟨hne, hdigits, hvalue⟩
        exact ⟨text, hne, hdigits, hvalue, .inl rfl⟩
      · rintro ⟨digits, hne, hdigits, hvalue, rfl | rfl⟩
        · exact ⟨hne, hdigits, hvalue⟩
        · exact absurd rfl (hplus digits)

/-- The text of a number is a numeral of this number only. -/
theorem numeral_repr_iff : Numeral m.repr.toList n ↔ m = n := by
  constructor
  · rintro ⟨digits, -, hdigits, rfl, hrepr | hrepr⟩
    · rw [← hrepr, decimalValue_repr]
    · have hplus : '+' ∈ m.repr.toList := hrepr ▸ List.mem_cons_self
      cases isDigit_of_mem_repr hplus
  · rintro rfl
    refine ⟨m.repr.toList, by simp [Nat.toList_repr], fun c => isDigit_of_mem_repr, decimalValue_repr m, .inl rfl⟩

end Converge.Chars
