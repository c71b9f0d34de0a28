import Converge.Duration
import Converge.Proofs.Text.Numeral

/-!
# The literals of durations

A literal is a bare number of seconds, or terms one after the other, each a run of digits and a unit. Only the ten
ASCII digits and the ASCII letters of the units count, in either case; blanks may stand around the whole. A number has
to fit a 64-bit word, and so have the seconds of a term and those of the sum. Every other text is no duration.

## Main Definitions

* `Duration.Scale.name`, `Duration.Term.Spelled`, `Duration.Spells` — the grammar of terms.
* `Duration.Denotes` — the duration that a text stands for.
* `Duration.plus?` — a running total with one more term, if it stays in range.

## Main Statements

* `Duration.terms?_eq_some_iff` — a text is cut into the terms that spell it.
* `Duration.total?_eq_foldlM` — the sum of terms is a running total, which is a duration at each term.
* `Duration.ofLiteralChars?_eq_some_iff` — a trimmed text is read as the duration that it denotes.

## Design Notes

Which terms a text consists of is not decided by the order in which units are tried: a unit is followed by a digit or
by nothing, so an `m` before an `s` begins `ms` in every cut.
-/

namespace Converge.Duration

open Chars

/-! ### The grammar -/

/-- The name of a unit, in small letters. -/
def Scale.name : Scale → List Char
  | .milliseconds => ['m', 's']
  | .seconds => ['s']
  | .minutes => ['m']
  | .hours => ['h']

/-- A text spells a term: a run of digits, and behind it the name of the unit in either case. -/
def Term.Spelled (term : Term) (text : List Char) : Prop :=
  ∃ digits unit, text = digits ++ unit ∧ digits ≠ [] ∧ (∀ c ∈ digits, isDigit c = true) ∧
    decimalValue digits = term.count ∧ unit.map asciiLower = term.scale.name

/-- A text spells terms one after the other. -/
inductive Spells : List Term → List Char → Prop
  | nil : Spells [] []
  | cons {term : Term} {terms : List Term} {text rest : List Char} (first : term.Spelled text)
      (others : Spells terms rest) : Spells (term :: terms) (text ++ rest)

/-- The nanoseconds of a term. -/
def Term.nanos (term : Term) : Nat := term.count * term.scale.nanos

/-- The number of a term fits a 64-bit word, and so do its whole seconds. -/
structure Term.InRange (term : Term) : Prop where
  count : term.count < wordBound
  seconds : term.nanos / nanosPerSecond < wordBound

/-- The nanoseconds of terms, added up. -/
def span : List Term → Nat
  | [] => 0
  | term :: terms => term.nanos + span terms

/-- The duration that a literal stands for: so many seconds, or the sum of terms. -/
inductive Denotes (literal : List Char) (d : Duration) : Prop
  | seconds (nonempty : literal ≠ []) (digits : ∀ c ∈ literal, isDigit c = true)
      (fits : decimalValue literal < wordBound) (nanos : d.nanos = decimalValue literal * nanosPerSecond)
  | terms {terms : List Term} (nonempty : terms ≠ []) (spelled : Spells terms literal)
      (inRange : ∀ term ∈ terms, term.InRange) (nanos : d.nanos = span terms)

/-! ### Letters of units -/

/-- Only capitals are changed. -/
theorem asciiLower_eq_self {c : Char} (h : c.toNat < 65 ∨ 90 < c.toNat) : asciiLower c = c := by
  have hcapital : ¬ ('A' ≤ c ∧ c ≤ 'Z') := by
    rintro ⟨hlow, hhigh⟩
    have hlow : 65 ≤ c.toNat := UInt32.le_iff_toNat_le.1 hlow
    have hhigh : c.toNat ≤ 90 := UInt32.le_iff_toNat_le.1 hhigh
    omega
  simp only [asciiLower, Bool.and_eq_true, decide_eq_true_eq, if_neg hcapital]

theorem toNat_le_of_isDigit {c : Char} (h : isDigit c = true) : c.toNat ≤ 57 := by
  have hle : '0' ≤ c ∧ c ≤ '9' := by simpa [isDigit] using h
  exact UInt32.le_iff_toNat_le.1 hle.2

theorem asciiLower_of_isDigit {c : Char} (h : isDigit c = true) : asciiLower c = c :=
  asciiLower_eq_self (.inl (Nat.lt_of_le_of_lt (toNat_le_of_isDigit h) (by decide)))

theorem toNat_lt_of_isDigit {c : Char} (h : isDigit c = true) : c.toNat < 128 :=
  Nat.lt_of_le_of_lt (toNat_le_of_isDigit h) (by decide)

/-- What becomes a small letter of ASCII is a letter of ASCII. -/
theorem toNat_lt_of_asciiLower {c : Char} (h : (asciiLower c).toNat < 128) : c.toNat < 128 := by
  unfold asciiLower at h
  split at h
  · next hcapital =>
      simp only [Bool.and_eq_true, decide_eq_true_eq, Char.le_def, UInt32.le_iff_toNat_le] at hcapital
      have hlast : ('Z' : Char).val.toNat = 90 := rfl
      have hvalue : c.toNat = c.val.toNat := rfl
      omega
  · exact h

namespace Scale

theorem name_ne_nil (scale : Scale) : scale.name ≠ [] := by
  cases scale <;> simp [name]

theorem not_isDigit_of_mem_name {scale : Scale} {c : Char} (h : c ∈ scale.name) : isDigit c = false := by
  have hall : (scale.name.all fun c => !isDigit c) = true := by cases scale <;> rfl
  simpa using List.all_eq_true.1 hall c h

theorem toNat_lt_of_mem_name {scale : Scale} {c : Char} (h : c ∈ scale.name) : c.toNat < 128 := by
  have hall : (scale.name.all fun c => decide (c.toNat < 128)) = true := by cases scale <;> rfl
  simpa using List.all_eq_true.1 hall c h

end Scale

/-- No letter of a unit is a digit. -/
theorem not_isDigit_of_unit {unit : List Char} {scale : Scale} (h : unit.map asciiLower = scale.name) :
    ∀ c ∈ unit, isDigit c = false := by
  intro c hc
  cases hdigit : isDigit c with
  | false => rfl
  | true =>
      have hlower : asciiLower c ∈ scale.name := h ▸ List.mem_map_of_mem hc
      rw [asciiLower_of_isDigit hdigit] at hlower
      exact hdigit.symm.trans (Scale.not_isDigit_of_mem_name hlower)

/-! ### Cutting a text into terms -/

/-- A unit is read with its rest, if that does not go on with letters. -/
theorem scale?_append {unit rest : List Char} {scale : Scale} (h : unit.map asciiLower = scale.name)
    (hrest : ∀ c ∈ rest.head?, isDigit c = true) : scale? (unit ++ rest) = some (scale, rest) := by
  cases scale with
  | milliseconds =>
      obtain ⟨c, ds, rfl, hc, hds⟩ := List.map_eq_cons_iff.1 h
      obtain ⟨d, es, rfl, hd, hes⟩ := List.map_eq_cons_iff.1 hds
      rw [List.map_eq_nil_iff.1 hes]
      simp [scale?, hc, hd]
  | seconds | hours =>
      obtain ⟨c, ds, rfl, hc, hds⟩ := List.map_eq_cons_iff.1 h
      rw [List.map_eq_nil_iff.1 hds]
      simp [scale?, hc]
  | minutes =>
      obtain ⟨c, ds, rfl, hc, hds⟩ := List.map_eq_cons_iff.1 h
      rw [List.map_eq_nil_iff.1 hds]
      cases rest with
      | nil => simp [scale?, hc]
      | cons d rest =>
          -- A digit is not the second letter of `ms`.
          have hdigit := hrest d rfl
          have hs : asciiLower d ≠ 's' := by
            rw [asciiLower_of_isDigit hdigit]
            rintro rfl
            cases hdigit
          simp [scale?, hc, hs]

theorem exists_unit_of_scale? {cs rest : List Char} {scale : Scale} (h : scale? cs = some (scale, rest)) :
    ∃ unit, cs = unit ++ rest ∧ unit.map asciiLower = scale.name := by
  unfold scale? at h
  split at h
  · cases h
  · next c cs =>
      split at h
      · next hc =>
          cases h
          exact ⟨[c], rfl, by rw [List.map_singleton, hc]; rfl⟩
      · next hc =>
          cases h
          exact ⟨[c], rfl, by rw [List.map_singleton, hc]; rfl⟩
      · next hc =>
          split at h
          · next d after =>
              split at h
              · next hd =>
                  cases h
                  exact ⟨[c, d], rfl, by simp [hc, hd, Scale.name]⟩
              · cases h
                exact ⟨[c], rfl, by rw [List.map_singleton, hc]; rfl⟩
          · cases h
            exact ⟨[c], rfl, by rw [List.map_singleton, hc]; rfl⟩
      · cases h

/-- Digits in front of a unit are all that is taken as the number. -/
theorem span_digits_append {digits unit : List Char} {scale : Scale} (hdigits : ∀ c ∈ digits, isDigit c = true)
    (hunit : unit.map asciiLower = scale.name) (rest : List Char) :
    (digits ++ unit ++ rest).takeWhile isDigit = digits ∧
      (digits ++ unit ++ rest).dropWhile isDigit = unit ++ rest := by
  obtain ⟨c, unit, rfl⟩ : ∃ c cs, unit = c :: cs := by
    refine List.exists_cons_of_ne_nil fun hnil => scale.name_ne_nil ?_
    rw [← hunit, hnil, List.map_nil]
  have hc : ¬ isDigit c = true := Bool.eq_false_iff.1 (not_isDigit_of_unit hunit c List.mem_cons_self)
  rw [List.append_assoc, List.takeWhile_append_of_pos hdigits, List.dropWhile_append_of_pos hdigits, List.cons_append,
    List.takeWhile_cons_of_neg hc, List.dropWhile_cons_of_neg hc, List.append_nil]
  exact ⟨rfl, rfl⟩

/-- One step of the cut: the first term, and the terms of the rest. -/
theorem terms?_of_scale? {cs rest : List Char} {count : Nat} {scale : Scale}
    (hdigits : digits? (cs.takeWhile isDigit) = some count)
    (hscale : scale? (cs.dropWhile isDigit) = some (scale, rest)) :
    terms? cs = (terms? rest).map (⟨count, scale⟩ :: ·) := by
  cases cs with
  | nil => cases hscale
  | cons c cs =>
      rw [terms?]
      split
      · next hdigits' hscale' =>
          cases hdigits.symm.trans hdigits'
          cases hscale.symm.trans hscale'
          rfl
      · next hnone => exact (hnone _ _ _ hdigits hscale).elim

namespace Spells

variable {terms : List Term} {text : List Char}

/-- What spells terms begins with a digit. -/
theorem head (h : Spells terms text) : ∀ c ∈ text.head?, isDigit c = true := by
  cases h with
  | nil => exact fun c hc => by cases hc
  | cons first others =>
      obtain ⟨digits, unit, rfl, hne, hdigits, -⟩ := first
      obtain ⟨d, digits, rfl⟩ := List.exists_cons_of_ne_nil hne
      rintro c ⟨⟩
      exact hdigits d List.mem_cons_self

/-- What spells terms has characters of ASCII only. -/
theorem toNat_lt (h : Spells terms text) : ∀ c ∈ text, c.toNat < 128 := by
  induction h with
  | nil => exact fun c hc => absurd hc List.not_mem_nil
  | cons first others ih =>
      obtain ⟨digits, unit, rfl, -, hdigits, -, hunit⟩ := first
      intro c hc
      rw [List.append_assoc, List.mem_append, List.mem_append] at hc
      obtain hc | hc | hc := hc
      · exact toNat_lt_of_isDigit (hdigits c hc)
      · have hname := List.mem_map_of_mem (f := asciiLower) hc
        rw [hunit] at hname
        exact toNat_lt_of_asciiLower (Scale.toNat_lt_of_mem_name hname)
      · exact ih c hc

/-- What spells a term is not made of digits alone. -/
theorem not_digits (h : Spells terms text) (nonempty : terms ≠ []) : ¬ ∀ c ∈ text, isDigit c = true := by
  cases h with
  | nil => exact absurd rfl nonempty
  | @cons term _ _ _ first others =>
      obtain ⟨digits, unit, rfl, -, -, -, hunit⟩ := first
      obtain ⟨c, hc⟩ : ∃ c, c ∈ unit := by
        refine List.exists_mem_of_ne_nil unit fun hnil => term.scale.name_ne_nil ?_
        rw [← hunit, hnil, List.map_nil]
      intro hall
      have hdigit := hall c (by simp [hc])
      exact Bool.false_ne_true ((not_isDigit_of_unit hunit c hc).symm.trans hdigit)

end Spells

/-- **A text is cut into the terms that spell it**, and into no others. -/
theorem terms?_eq_some_iff {cs : List Char} {terms : List Term} : terms? cs = some terms ↔ Spells terms cs := by
  constructor
  · intro h
    fun_induction terms? cs generalizing terms with
    | case1 =>
        cases h
        exact .nil
    | case2 c cs count scale rest hscale hdigits ih =>
        obtain ⟨others, hothers, rfl⟩ := Option.map_eq_some_iff.1 h
        obtain ⟨hne, hall, hcount⟩ := digits?_eq_some_iff.1 hdigits
        obtain ⟨unit, hdrop, hunit⟩ := exists_unit_of_scale? hscale
        have hcs : c :: cs = (c :: cs).takeWhile isDigit ++ unit ++ rest := by
          rw [List.append_assoc, ← hdrop, List.takeWhile_append_dropWhile]
        rw [hcs]
        exact .cons ⟨_, unit, rfl, hne, hall, hcount, hunit⟩ (ih hothers)
    | case3 => cases h
  · intro h
    induction h with
    | nil => rw [terms?]
    | @cons term terms text rest first others ih =>
        obtain ⟨digits, unit, rfl, hne, hdigits, hcount, hunit⟩ := first
        obtain ⟨htake, hdrop⟩ := span_digits_append hdigits hunit rest
        have hscale := scale?_append hunit others.head
        rw [terms?_of_scale? (htake.symm ▸ digits?_eq_some_iff.2 ⟨hne, hdigits, hcount⟩) (hdrop.symm ▸ hscale), ih]
        rfl

/-! ### Adding terms up -/

theorem ofNanos?_eq_some_iff {n : Nat} {d : Duration} : ofNanos? n = some d ↔ d.nanos = n := by
  obtain ⟨nanos, hlt⟩ := d
  unfold ofNanos?
  split
  · rw [Option.some.injEq, mk.injEq, eq_comm]
  · next hout =>
      simp only [reduceCtorEq, false_iff]
      rintro rfl
      exact hout hlt

theorem ofNanos?_eq_none_iff {n : Nat} : ofNanos? n = none ↔ wordBound * nanosPerSecond ≤ n := by
  rw [← Nat.not_lt]
  unfold ofNanos?
  split <;> simp_all

theorem Term.nanos?_eq_some_iff {term : Term} {n : Nat} : term.nanos? = some n ↔ term.InRange ∧ n = term.nanos := by
  have hseconds : term.nanos / nanosPerSecond < wordBound ↔ term.nanos < wordBound * nanosPerSecond :=
    Nat.div_lt_iff_lt_mul (by decide)
  have hnanos : (ofNanos? term.nanos).map Duration.nanos = some n ↔
      term.nanos / nanosPerSecond < wordBound ∧ n = term.nanos := by
    rw [hseconds, Option.map_eq_some_iff]
    constructor
    · rintro ⟨d, hd, rfl⟩
      rw [← ofNanos?_eq_some_iff.1 hd]
      exact ⟨d.nanos_lt, rfl⟩
    · rintro ⟨hlt, rfl⟩
      exact ⟨⟨term.nanos, hlt⟩, ofNanos?_eq_some_iff.2 rfl, rfl⟩
  unfold Term.nanos?
  by_cases hcount : term.count < wordBound
  · rw [if_pos hcount]
    refine hnanos.trans ?_
    constructor
    · rintro ⟨hlt, rfl⟩
      exact ⟨⟨hcount, hlt⟩, rfl⟩
    · rintro ⟨hrange, rfl⟩
      exact ⟨hrange.seconds, rfl⟩
  · rw [if_neg hcount]
    simp only [reduceCtorEq, false_iff, not_and]
    intro hrange
    exact absurd hrange.count hcount

/-- No time at all. -/
def zero : Duration := ⟨0, by decide⟩

/-- A running total with one more term, if the term and the new total are in range. -/
def plus? (total : Duration) (term : Term) : Option Duration :=
  term.nanos?.bind fun nanos => ofNanos? (total.nanos + nanos)

theorem plus?_eq_some_iff {total next : Duration} {term : Term} :
    total.plus? term = some next ↔ term.InRange ∧ next.nanos = total.nanos + term.nanos := by
  unfold plus?
  rw [Option.bind_eq_some_iff]
  simp only [Term.nanos?_eq_some_iff, ofNanos?_eq_some_iff]
  constructor
  · rintro ⟨_, ⟨hrange, rfl⟩, hnext⟩
    exact ⟨hrange, hnext⟩
  · rintro ⟨hrange, hnext⟩
    exact ⟨_, ⟨hrange, rfl⟩, hnext⟩

theorem le_foldl_add (spans : List Nat) (total : Nat) : total ≤ spans.foldl (· + ·) total := by
  induction spans generalizing total with
  | nil => exact Nat.le_refl total
  | cons span spans ih => exact Nat.le_trans (Nat.le_add_right total span) (ih _)

/-- The sum of terms on top of a total is a running total: if it leaves the range on the way, then also at the end. -/
theorem bind_foldl_eq_foldlM (terms : List Term) (total : Duration) :
    ((terms.mapM Term.nanos?).bind fun spans => ofNanos? (spans.foldl (· + ·) total.nanos)) =
      terms.foldlM plus? total := by
  induction terms generalizing total with
  | nil => exact ofNanos?_eq_some_iff.2 rfl
  | cons term terms ih =>
      rw [List.mapM_cons, List.foldlM_cons]
      cases hterm : term.nanos? with
      | none => simp [plus?, hterm]
      | some n =>
          have hplus : total.plus? term = ofNanos? (total.nanos + n) := by rw [plus?, hterm, Option.bind_some]
          rw [hplus]
          cases hnext : ofNanos? (total.nanos + n) with
          | some next =>
              have hnanos := ofNanos?_eq_some_iff.1 hnext
              have hrest := ih next
              rw [hnanos] at hrest
              cases hspans : terms.mapM Term.nanos? <;> simp_all
          | none =>
              have hout := ofNanos?_eq_none_iff.1 hnext
              cases hspans : terms.mapM Term.nanos? with
              | none => simp
              | some spans =>
                  have hle := le_foldl_add spans (total.nanos + n)
                  have hnone := ofNanos?_eq_none_iff.2 (Nat.le_trans hout hle)
                  simpa using hnone

/-- **The sum of terms is a running total**, which is a duration at each term. -/
theorem total?_eq_foldlM (terms : List Term) : total? terms = terms.foldlM plus? zero :=
  bind_foldl_eq_foldlM terms zero

theorem foldlM_plus?_eq_some_iff {terms : List Term} {total d : Duration} :
    terms.foldlM plus? total = some d ↔ (∀ term ∈ terms, term.InRange) ∧ d.nanos = total.nanos + span terms := by
  induction terms generalizing total with
  | nil =>
      rw [List.foldlM_nil, span, Nat.add_zero]
      constructor
      · rintro ⟨⟩
        exact ⟨fun _ h => absurd h List.not_mem_nil, rfl⟩
      · rintro ⟨-, heq⟩
        cases total
        cases d
        cases heq
        rfl
  | cons term terms ih =>
      rw [List.foldlM_cons, Option.bind_eq_bind, Option.bind_eq_some_iff, List.forall_mem_cons]
      simp only [plus?_eq_some_iff, ih, span]
      constructor
      · rintro ⟨next, ⟨hterm, hnext⟩, hterms, hd⟩
        exact ⟨⟨hterm, hterms⟩, by omega⟩
      · rintro ⟨⟨hterm, hterms⟩, hd⟩
        have hlt := d.nanos_lt
        exact ⟨⟨total.nanos + term.nanos, by omega⟩, ⟨hterm, rfl⟩, hterms, by rw [hd, Nat.add_assoc]⟩

/-! ### Whole literals -/

theorem unsigned?_eq_some_iff_of_digits {literal : List Char} {n : Nat} (nonempty : literal ≠ [])
    (digits : ∀ c ∈ literal, isDigit c = true) :
    unsigned? wordBound literal = some n ↔ decimalValue literal = n ∧ n < wordBound := by
  rw [unsigned?_eq_some_iff]
  refine and_congr_left fun _ => ?_
  constructor
  · rintro ⟨ds, -, -, hvalue, rfl | rfl⟩
    · exact hvalue
    · exact absurd List.mem_cons_self (plus_notMem digits)
  · intro hvalue
    exact ⟨literal, nonempty, digits, hvalue, .inl rfl⟩

theorem ofSeconds?_eq_some_iff {n : Nat} {d : Duration} : ofSeconds? n = some d ↔ d.nanos = n * nanosPerSecond :=
  ofNanos?_eq_some_iff

/-- A trimmed text is read as the duration that it denotes. -/
theorem ofLiteralChars?_eq_some_iff {cs : List Char} {d : Duration} :
    ofLiteralChars? cs = some d ↔ Denotes (trim cs) d := by
  simp only [ofLiteralChars?, List.isEmpty_iff, List.all_eq_true]
  generalize trim cs = literal
  by_cases nonempty : literal = []
  · rw [if_pos nonempty]
    constructor
    · intro h
      cases h
    · rintro (⟨hne, -, -, -⟩ | ⟨hne, hspelled, -, -⟩)
      · exact absurd nonempty hne
      · subst nonempty
        exact absurd (fun c hc => absurd hc List.not_mem_nil) (hspelled.not_digits hne)
  · rw [if_neg nonempty]
    by_cases digits : ∀ c ∈ literal, isDigit c = true
    · rw [if_pos digits, Option.bind_eq_some_iff]
      simp only [unsigned?_eq_some_iff_of_digits nonempty digits, ofSeconds?_eq_some_iff]
      constructor
      · rintro ⟨n, ⟨rfl, hfits⟩, hd⟩
        exact .seconds nonempty digits hfits hd
      · rintro (⟨-, -, hfits, hd⟩ | ⟨hne, hspelled, -, -⟩)
        · exact ⟨_, ⟨rfl, hfits⟩, hd⟩
        · exact absurd digits (hspelled.not_digits hne)
    · rw [if_neg digits, Option.bind_eq_some_iff]
      simp only [terms?_eq_some_iff, total?_eq_foldlM, foldlM_plus?_eq_some_iff]
      constructor
      · rintro ⟨terms, hspelled, hrange, hd⟩
        refine .terms ?_ hspelled hrange (by rw [hd]; exact Nat.zero_add _)
        rintro rfl
        cases hspelled
        exact nonempty rfl
      · rintro (⟨-, hdigits, -, -⟩ | ⟨-, hspelled, hrange, hd⟩)
        · exact absurd hdigits digits
        · exact ⟨_, hspelled, hrange, by rw [hd]; exact (Nat.zero_add _).symm⟩

/-- What spells terms is read as their running total. -/
theorem ofLiteralChars?_of_spells {cs : List Char} {terms : List Term} (nonempty : terms ≠ [])
    (spelled : Spells terms (trim cs)) : ofLiteralChars? cs = terms.foldlM plus? zero := by
  have hempty : trim cs ≠ [] := by
    intro hnil
    rw [hnil] at spelled
    exact spelled.not_digits nonempty fun c hc => absurd hc List.not_mem_nil
  simp only [ofLiteralChars?, List.isEmpty_iff, List.all_eq_true]
  rw [if_neg hempty, if_neg (spelled.not_digits nonempty), terms?_eq_some_iff.2 spelled, Option.bind_some,
    total?_eq_foldlM]

end Converge.Duration
