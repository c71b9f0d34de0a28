import Converge.Proofs.Duration.Literal

/-!
# Durations that are written and read again

A duration is written as a whole number of milliseconds. Every duration that is read is such a number, so nothing is lost
in writing it. But a number has to fit a 64-bit word to be read, and the milliseconds of a duration need not, as its
seconds do: the largest durations are written and not read again.

## Main Definitions

* `Duration.Readable` — a duration that is read from a literal or from a number of seconds.
* `Duration.Term.text` — the text of a term.

## Main Statements

* `Duration.spells_flatMap_text`, `Duration.Spells.trim_eq` — terms are spelled by their texts, without any blanks.
* `Duration.ofLiteral?_literal_eq_some_iff` — what a written duration is read as.
* `Duration.Readable.whole` — every duration that is read is a whole number of milliseconds.
* `Duration.Readable.reread` — a duration that was read is read again exactly if its milliseconds fit a word.
-/

namespace Converge.Duration

open Chars

/-- A duration is read from a literal, or from a number of seconds. -/
def Readable (d : Duration) : Prop := (∃ text, ofLiteral? text = some d) ∨ ∃ n, ofSeconds? n = some d

/-! ### Whole milliseconds -/

theorem Scale.dvd_nanos (scale : Scale) : nanosPerMilli ∣ scale.nanos := by
  cases scale <;> decide

theorem dvd_span (terms : List Term) : nanosPerMilli ∣ span terms := by
  induction terms with
  | nil => exact Nat.dvd_zero _
  | cons term terms ih => exact Nat.dvd_add (Nat.dvd_mul_left_of_dvd term.scale.dvd_nanos term.count) ih

theorem Denotes.dvd_nanos {literal : List Char} {d : Duration} (h : Denotes literal d) : nanosPerMilli ∣ d.nanos := by
  cases h with
  | seconds _ _ _ nanos =>
      rw [nanos]
      exact Nat.dvd_mul_left_of_dvd Scale.seconds.dvd_nanos _
  | terms _ _ _ nanos =>
      rw [nanos]
      exact dvd_span _

/-- **Every duration that is read is a whole number of milliseconds.** -/
theorem Readable.whole {d : Duration} (h : d.Readable) : d.millis * nanosPerMilli = d.nanos := by
  refine Nat.div_mul_cancel ?_
  obtain ⟨text, htext⟩ | ⟨n, hn⟩ := h
  · exact (ofLiteralChars?_eq_some_iff.1 htext).dvd_nanos
  · rw [ofSeconds?_eq_some_iff.1 hn]
    exact Nat.dvd_mul_left_of_dvd Scale.seconds.dvd_nanos n

/-! ### Texts of terms -/

/-- The text of a term: its number and the name of its unit. -/
def Term.text (term : Term) : List Char := term.count.repr.toList ++ term.scale.name

theorem Term.spelled_text (term : Term) : term.Spelled term.text := by
  have hname : term.scale.name.map asciiLower = term.scale.name := by cases term.scale <;> rfl
  have hdigits : term.count.repr.toList ≠ [] := by simp [Nat.toList_repr]
  exact ⟨_, _, rfl, hdigits, fun c => isDigit_of_mem_repr, decimalValue_repr _, hname⟩

/-- Terms are spelled by their texts. -/
theorem spells_flatMap_text (terms : List Term) : Spells terms (terms.flatMap Term.text) := by
  induction terms with
  | nil => exact .nil
  | cons term terms ih => exact .cons term.spelled_text ih

/-- What spells terms is made of digits and letters of units. -/
theorem Spells.digit_or_letter {terms : List Term} {text : List Char} (h : Spells terms text) {c : Char}
    (hc : c ∈ text) : isDigit c = true ∨ ∃ scale : Scale, asciiLower c ∈ scale.name := by
  induction h with
  | nil => cases hc
  | @cons term _ _ _ first others ih =>
      obtain ⟨digits, unit, rfl, -, hdigits, -, hunit⟩ := first
      rw [List.append_assoc, List.mem_append, List.mem_append] at hc
      obtain hc | hc | hc := hc
      · exact .inl (hdigits c hc)
      · exact .inr ⟨term.scale, hunit ▸ List.mem_map_of_mem hc⟩
      · exact ih hc

theorem asciiLower_of_isBlank {c : Char} (h : isBlank c = true) : asciiLower c = c := by
  simp only [isBlank, Bool.or_eq_true, Bool.and_eq_true, decide_eq_true_eq, beq_iff_eq] at h
  exact asciiLower_eq_self (by omega)

/-- There are no blanks in what spells terms. -/
theorem Spells.trim_eq {terms : List Term} {text : List Char} (h : Spells terms text) : trim text = text := by
  refine trim_eq_self fun c hc => ?_
  obtain hdigit | ⟨scale, hletter⟩ := h.digit_or_letter hc
  · exact isBlank_of_isDigit hdigit
  · cases hblank : isBlank c with
    | false => rfl
    | true =>
        have hall : (scale.name.all fun c => !isBlank c) = true := by cases scale <;> rfl
        rw [asciiLower_of_isBlank hblank] at hletter
        simpa [hblank] using List.all_eq_true.1 hall c hletter

theorem Spells.point_notMem {terms : List Term} {text : List Char} (h : Spells terms text) : '.' ∉ text := by
  intro hpoint
  obtain hdigit | ⟨scale, hletter⟩ := h.digit_or_letter hpoint
  · cases hdigit
  · cases scale <;> simp [Scale.name, asciiLower] at hletter

/-! ### Writing and reading -/

theorem toList_literal (d : Duration) : d.literal.toList = d.millis.repr.toList ++ ['m', 's'] := by
  simp [literal]

theorem spells_literal (d : Duration) : Spells [⟨d.millis, .milliseconds⟩] d.literal.toList := by
  have htext : [(⟨d.millis, .milliseconds⟩ : Term)].flatMap Term.text = d.literal.toList := by
    rw [List.flatMap_singleton, toList_literal, Term.text, Scale.name]
  rw [← htext]
  exact spells_flatMap_text _

/-- **A written duration is read as its whole milliseconds**, if their number fits a 64-bit word, and else not at all. -/
theorem ofLiteral?_literal_eq_some_iff {d e : Duration} :
    ofLiteral? d.literal = some e ↔ d.millis < wordBound ∧ e.nanos = d.millis * nanosPerMilli := by
  have hspelled : Spells [⟨d.millis, .milliseconds⟩] (trim d.literal.toList) := by
    rw [(spells_literal d).trim_eq]
    exact spells_literal d
  rw [ofLiteral?, ofLiteralChars?_of_spells (List.cons_ne_nil _ _) hspelled, foldlM_plus?_eq_some_iff,
    List.forall_mem_singleton]
  have hnanos : zero.nanos + span [⟨d.millis, .milliseconds⟩] = d.millis * nanosPerMilli := by
    simp [zero, span, Term.nanos, Scale.nanos]
  rw [hnanos]
  refine and_congr_left fun _ => ⟨fun inRange => inRange.count, fun hcount => ⟨hcount, ?_⟩⟩
  -- The milliseconds are no more than the duration, and so are their seconds.
  have hle : d.millis * nanosPerMilli ≤ d.nanos := Nat.div_mul_le_self _ _
  exact (Nat.div_lt_iff_lt_mul (by decide)).2 (Nat.lt_of_le_of_lt hle d.nanos_lt)

/-- **A duration that was read is read again exactly if its milliseconds fit a word.** -/
theorem Readable.reread {d : Duration} (h : d.Readable) :
    ofLiteral? d.literal = if d.millis < wordBound then some d else none := by
  split
  · next hfits => exact ofLiteral?_literal_eq_some_iff.2 ⟨hfits, h.whole.symm⟩
  · next hlarge =>
      rw [Option.eq_none_iff_forall_ne_some]
      intro e he
      exact hlarge (ofLiteral?_literal_eq_some_iff.1 he).1

end Converge.Duration
