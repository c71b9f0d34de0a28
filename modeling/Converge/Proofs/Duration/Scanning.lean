import Converge.Proofs.Duration.Literal
import Converge.Proofs.Text.Pattern
import Mathlib.Data.List.Forall2

/-!
# Literals that are matched against patterns

The literals of durations can be read in two passes. The first only asks whether the text matches a pattern as a whole:
runs of digits, each with the name of a unit behind it. The second searches the text for these terms, reads each of them
and adds it to the total, and it counts in 64-bit words all the way. Patterns are generous: digits of other scripts are
digits to them, and letters that only fold to a letter of a unit are such letters. So the first pass lets texts through
that are no durations, and the second finds that out. Both passes cut a text in the same places.

## Main Definitions

* `Duration.Alphabet` — what patterns take for digits and for letters.
* `Duration.Alphabet.literal` — the pattern of a literal.
* `Duration.scanned?` — a literal read in two passes.
* `Duration.Alphabet.Cut` — a text consists of these digits and units.

## Main Statements

* `Duration.Alphabet.captures_of_cut` — the search finds the terms that a text consists of.
* `Duration.scanned?_eq` — reading in two passes is reading the terms one by one, in every alphabet.
* `Duration.literals_read_exactly` — the texts that are read, what they are read as, and how.

## Design Notes

Which characters are digits of other scripts is left open, as it depends on the version of the Unicode tables. Only for
characters of ASCII is it said what they are, and that digits and the letters of units are kept apart.
-/

namespace Converge.Duration

open Chars

/-- The letters of units. -/
def unitLetters : List Char := ['m', 's', 'h']

/-- What patterns take for a digit, and for a letter of a unit in either case. Of the characters of ASCII these are the
ten digits and the letter itself; no character counts as two of them. -/
structure Alphabet where
  digit : Char → Bool
  letter : Char → Char → Bool
  digit_ascii : ∀ c, c.toNat < 128 → digit c = isDigit c
  letter_ascii : ∀ name ∈ unitLetters, ∀ c, c.toNat < 128 → (letter name c = true ↔ asciiLower c = name)
  apart : ∀ name ∈ unitLetters, ∀ c, letter name c = true → digit c = false
  distinct : ∀ name ∈ unitLetters, ∀ other ∈ unitLetters, ∀ c, letter name c = true → letter other c = true →
    name = other

namespace Alphabet

variable (alphabet : Alphabet)

/-- A run of digits. -/
def digits : Pattern := .many (.one alphabet.digit)

/-- The name of a unit: `ms` is tried before `m`. -/
def unit : Pattern :=
  .either (.seq (.one (alphabet.letter 'm')) (.one (alphabet.letter 's')))
    (.either (.one (alphabet.letter 's')) (.either (.one (alphabet.letter 'm')) (.one (alphabet.letter 'h'))))

/-- One term or more, each a run of digits and a unit. -/
def literal : Pattern := .many (.seq alphabet.digits alphabet.unit)

end Alphabet

/-! ### Reading in two passes -/

/-- The product, if it fits a 64-bit word. -/
def times? (n factor : Nat) : Option Nat := if n * factor < wordBound then some (n * factor) else none

/-- The duration of so many units of a name in small letters. -/
def ofCount? (count : Nat) (name : List Char) : Option Duration :=
  if name = Scale.milliseconds.name then ofMillis? count
  else if name = Scale.seconds.name then ofSeconds? count
  else if name = Scale.minutes.name then (times? count 60).bind ofSeconds?
  else if name = Scale.hours.name then (times? count 3600).bind ofSeconds?
  else none

/-- The sum of two durations, if it is in range. -/
def add? (d e : Duration) : Option Duration := ofNanos? (d.nanos + e.nanos)

/-- A running total with the duration of digits and a unit, as they were found. -/
def addPart? (total : Duration) (part : List Char × List Char) : Option Duration :=
  (unsigned? wordBound part.1).bind fun count => (ofCount? count (part.2.map asciiLower)).bind total.add?

/-- Reads a literal in two passes: bare digits are seconds, and anything else has to match as a whole before its terms
are searched for and added up. -/
def scanned? (alphabet : Alphabet) (cs : List Char) : Option Duration :=
  let literal := trim cs
  if literal.isEmpty then none
  else if literal.all isDigit then (unsigned? wordBound literal).bind ofSeconds?
  else if [] ∈ alphabet.literal.ends literal then
    (Pattern.captures alphabet.digits alphabet.unit literal).foldlM addPart? zero
  else none

/-! ### What the patterns find -/

theorem Scale.mem_unitLetters {scale : Scale} {name : Char} (h : name ∈ scale.name) : name ∈ unitLetters := by
  have hall : (scale.name.all fun name => unitLetters.contains name) = true := by cases scale <;> rfl
  simpa using List.all_eq_true.1 hall name h

namespace Alphabet

variable {alphabet : Alphabet} {digits unit text rest : List Char} {parts : List (List Char × List Char)}

/-- The letters of a text are those of a unit, in either case. -/
def Names (alphabet : Alphabet) (scale : Scale) (unit : List Char) : Prop :=
  List.Forall₂ (fun name c => alphabet.letter name c = true) scale.name unit

/-- A run of digits and the name of a unit, as patterns take them. -/
structure Shaped (alphabet : Alphabet) (digits unit : List Char) : Prop where
  nonempty : digits ≠ []
  digits : ∀ c ∈ digits, alphabet.digit c = true
  unit : ∃ scale, alphabet.Names scale unit

/-- A text consists of these digits and units, one term after the other. -/
inductive Cut (alphabet : Alphabet) : List (List Char × List Char) → List Char → Prop
  | nil : Cut alphabet [] []
  | cons {digits unit rest : List Char} {parts : List (List Char × List Char)} (shaped : alphabet.Shaped digits unit)
      (others : Cut alphabet parts rest) : Cut alphabet ((digits, unit) :: parts) (digits ++ (unit ++ rest))

theorem matches_unit_iff : alphabet.unit.Matches unit ↔ ∃ scale, alphabet.Names scale unit := by
  simp only [Alphabet.unit, Pattern.matches_either_iff, Pattern.matches_seq_iff, Pattern.matches_one_iff]
  constructor
  · rintro (⟨_, _, ⟨m, hm, rfl⟩, ⟨s, hs, rfl⟩, rfl⟩ | ⟨s, hs, rfl⟩ | ⟨m, hm, rfl⟩ | ⟨h, hh, rfl⟩)
    · exact ⟨.milliseconds, .cons hm (.cons hs .nil)⟩
    · exact ⟨.seconds, .cons hs .nil⟩
    · exact ⟨.minutes, .cons hm .nil⟩
    · exact ⟨.hours, .cons hh .nil⟩
  · rintro ⟨scale, names⟩
    cases scale with
    | milliseconds =>
        obtain _ | ⟨hm, _ | ⟨hs, ⟨⟩⟩⟩ := names
        exact .inl ⟨_, _, ⟨_, hm, rfl⟩, ⟨_, hs, rfl⟩, rfl⟩
    | seconds =>
        obtain _ | ⟨hs, ⟨⟩⟩ := names
        exact .inr (.inl ⟨_, hs, rfl⟩)
    | minutes =>
        obtain _ | ⟨hm, ⟨⟩⟩ := names
        exact .inr (.inr (.inl ⟨_, hm, rfl⟩))
    | hours =>
        obtain _ | ⟨hh, ⟨⟩⟩ := names
        exact .inr (.inr (.inr ⟨_, hh, rfl⟩))

theorem matches_digits_unit_iff : (Pattern.seq alphabet.digits alphabet.unit).Matches text ↔
    ∃ digits unit, alphabet.Shaped digits unit ∧ text = digits ++ unit := by
  simp only [Pattern.matches_seq_iff, Alphabet.digits, Pattern.matches_many_one_iff, matches_unit_iff]
  constructor
  · rintro ⟨digits, unit, ⟨nonempty, hdigits⟩, hunit, rfl⟩
    exact ⟨digits, unit, ⟨nonempty, hdigits, hunit⟩, rfl⟩
  · rintro ⟨digits, unit, ⟨nonempty, hdigits, hunit⟩, rfl⟩
    exact ⟨digits, unit, ⟨nonempty, hdigits⟩, hunit, rfl⟩

/-- **A text matches as a whole exactly if it consists of terms.** -/
theorem matches_literal_iff : alphabet.literal.Matches text ↔ ∃ parts, parts ≠ [] ∧ alphabet.Cut parts text := by
  constructor
  · generalize hp : alphabet.literal = p
    intro h
    induction h with
    | one | seq | left | right => cases hp
    | once h =>
        cases hp
        obtain ⟨digits, unit, shaped, rfl⟩ := matches_digits_unit_iff.1 h
        have hcut := Cut.cons shaped .nil
        rw [List.append_nil] at hcut
        exact ⟨_, List.cons_ne_nil _ _, hcut⟩
    | more hfront _ _ ih =>
        cases hp
        obtain ⟨digits, unit, shaped, rfl⟩ := matches_digits_unit_iff.1 hfront
        obtain ⟨parts, -, hcut⟩ := ih rfl
        rw [List.append_assoc]
        exact ⟨_, List.cons_ne_nil _ _, .cons shaped hcut⟩
  · rintro ⟨parts, nonempty, hcut⟩
    induction hcut with
    | nil => exact absurd rfl nonempty
    | @cons digits unit rest parts shaped others ih =>
        have hterm := matches_digits_unit_iff.2 ⟨digits, unit, shaped, rfl⟩
        cases others with
        | nil =>
            rw [List.append_nil]
            exact .once hterm
        | cons => 
            rw [← List.append_assoc]
            exact .more hterm (ih (List.cons_ne_nil _ _))

/-- Without terms a text is empty. -/
theorem Cut.eq_nil (h : alphabet.Cut [] text) : text = [] := by
  cases h
  rfl

/-- What consists of terms begins with a digit. -/
theorem Cut.head (h : alphabet.Cut parts text) : ∀ c ∈ text.head?, alphabet.digit c = true := by
  cases h with
  | nil => exact fun c hc => by cases hc
  | cons shaped =>
      obtain ⟨d, digits, rfl⟩ := List.exists_cons_of_ne_nil shaped.nonempty
      rintro c ⟨⟩
      exact shaped.digits d List.mem_cons_self

/-- The name of a unit is taken as a whole, if a digit comes behind it or nothing. -/
theorem ends_unit {scale : Scale} (names : alphabet.Names scale unit)
    (hrest : ∀ c ∈ rest.head?, alphabet.digit c = true) : (alphabet.unit.ends (unit ++ rest)).head? = some rest := by
  have hm : 'm' ∈ unitLetters := .head _
  have hs : 's' ∈ unitLetters := .tail _ (.head _)
  have hh : 'h' ∈ unitLetters := .tail _ (.tail _ (.head _))
  have hother {name other c : Char} (hname : name ∈ unitLetters) (hletter : other ∈ unitLetters) (hne : name ≠ other)
      (h : alphabet.letter name c = true) : ¬ alphabet.letter other c = true :=
    fun h' => hne (alphabet.distinct name hname other hletter c h h')
  cases scale with
  | milliseconds =>
      obtain _ | ⟨hcm, _ | ⟨hcs, ⟨⟩⟩⟩ := names
      simp [Alphabet.unit, Pattern.ends, hcm, hcs]
  | seconds =>
      obtain _ | ⟨hcs, ⟨⟩⟩ := names
      simp [Alphabet.unit, Pattern.ends, hcs, hother hs hm (by decide) hcs]
  | minutes =>
      obtain _ | ⟨hcm, ⟨⟩⟩ := names
      have hnext : (Pattern.one (alphabet.letter 's')).ends rest = [] := by
        refine Pattern.ends_one_of_head fun c hc => ?_
        by_contra hletter
        have hdigit := alphabet.apart 's' hs c (eq_true_of_ne_false hletter)
        exact Bool.false_ne_true (hdigit.symm.trans (hrest c hc))
      simp [Alphabet.unit, Pattern.ends, hcm, hnext, hother hm hs (by decide) hcm]
  | hours =>
      obtain _ | ⟨hch, ⟨⟩⟩ := names
      simp [Alphabet.unit, Pattern.ends, hch, hother hh hs (by decide) hch, hother hh hm (by decide) hch]

/-- A unit begins with a letter, which is no digit. -/
theorem Names.head {scale : Scale} (names : alphabet.Names scale unit) :
    ∀ c ∈ (unit ++ rest).head?, alphabet.digit c = false := by
  cases hscale : scale.name with
  | nil => exact absurd hscale scale.name_ne_nil
  | cons name others =>
      rw [Names, hscale] at names
      obtain _ | ⟨hc, -⟩ := names
      rintro c ⟨⟩
      exact alphabet.apart name (Scale.mem_unitLetters (hscale ▸ List.mem_cons_self)) _ hc

/-- **The search finds the terms that a text consists of.** -/
theorem captures_of_cut (h : alphabet.Cut parts text) :
    Pattern.captures alphabet.digits alphabet.unit text = parts := by
  induction h with
  | nil => rw [Pattern.captures]
  | @cons digits unit rest parts shaped others ih =>
      obtain ⟨scale, names⟩ := shaped.unit
      have hdigits : (alphabet.digits.ends (digits ++ (unit ++ rest))).head? = some (unit ++ rest) :=
        Pattern.ends_many_one shaped.nonempty shaped.digits names.head
      rw [Pattern.captures_of_ends hdigits (ends_unit names others.head), ih]

end Alphabet

/-! ### What is read of what was found -/

variable {alphabet : Alphabet} {digits unit text : List Char} {parts : List (List Char × List Char)}
  {total next d : Duration} {scale : Scale} {count : Nat}

theorem times?_eq_some_iff {n factor product : Nat} :
    times? n factor = some product ↔ n * factor < wordBound ∧ product = n * factor := by
  unfold times?
  split
  · next hfits => simp [hfits, eq_comm]
  · next hlarge => simp [hlarge]

/-- The whole seconds of a term in a unit of so many seconds. -/
theorem Term.seconds_of_scale {factor : Nat} (hscale : scale.nanos = factor * nanosPerSecond) :
    (Term.mk count scale).nanos / nanosPerSecond = count * factor := by
  rw [Term.nanos, hscale, ← Nat.mul_assoc]
  exact Nat.mul_div_cancel _ (by decide)

/-- Minutes and hours are first turned into seconds, within a word. -/
theorem bind_times?_eq_some_iff {factor : Nat} (hcount : count < wordBound)
    (hscale : scale.nanos = factor * nanosPerSecond) :
    (times? count factor).bind ofSeconds? = some d ↔
      (Term.mk count scale).InRange ∧ d.nanos = (Term.mk count scale).nanos := by
  have hnanos : (Term.mk count scale).nanos = count * factor * nanosPerSecond := by
    rw [Term.nanos, hscale, Nat.mul_assoc]
  simp only [Option.bind_eq_some_iff, times?_eq_some_iff, ofSeconds?_eq_some_iff]
  rw [hnanos]
  constructor
  · rintro ⟨_, ⟨hfits, rfl⟩, hd⟩
    exact ⟨⟨hcount, by rwa [Term.seconds_of_scale hscale]⟩, hd⟩
  · rintro ⟨⟨-, hseconds⟩, hd⟩
    rw [Term.seconds_of_scale hscale] at hseconds
    exact ⟨_, ⟨hseconds, rfl⟩, hd⟩

theorem ofCount?_milliseconds : ofCount? count Scale.milliseconds.name = ofMillis? count := by
  rw [ofCount?, if_pos rfl]

theorem ofCount?_seconds : ofCount? count Scale.seconds.name = ofSeconds? count := by
  rw [ofCount?, if_neg (by decide), if_pos rfl]

theorem ofCount?_minutes : ofCount? count Scale.minutes.name = (times? count 60).bind ofSeconds? := by
  rw [ofCount?, if_neg (by decide), if_neg (by decide), if_pos rfl]

theorem ofCount?_hours : ofCount? count Scale.hours.name = (times? count 3600).bind ofSeconds? := by
  rw [ofCount?, if_neg (by decide), if_neg (by decide), if_neg (by decide), if_pos rfl]

/-- The seconds of milliseconds are fewer, so they fit a word if their number does. -/
theorem Term.inRange_milliseconds (hcount : count < wordBound) : (Term.mk count .milliseconds).InRange := by
  refine ⟨hcount, Nat.lt_of_le_of_lt (Nat.div_le_of_le_mul ?_) hcount⟩
  simp only [Term.nanos, Scale.nanos]
  rw [Nat.mul_comm]
  exact Nat.mul_le_mul_right count (by decide)

theorem Term.inRange_seconds (hcount : count < wordBound) : (Term.mk count .seconds).InRange :=
  ⟨hcount, by rwa [Term.seconds_of_scale (Nat.one_mul _).symm, Nat.mul_one]⟩

theorem ofCount?_name_eq_some_iff (hcount : count < wordBound) :
    ofCount? count scale.name = some d ↔ (Term.mk count scale).InRange ∧ d.nanos = (Term.mk count scale).nanos := by
  cases scale with
  | milliseconds =>
      rw [ofCount?_milliseconds, ofMillis?, ofNanos?_eq_some_iff]
      exact (and_iff_right (Term.inRange_milliseconds hcount)).symm
  | seconds =>
      rw [ofCount?_seconds, ofSeconds?_eq_some_iff]
      exact (and_iff_right (Term.inRange_seconds hcount)).symm
  | minutes =>
      rw [ofCount?_minutes]
      exact bind_times?_eq_some_iff hcount rfl
  | hours =>
      rw [ofCount?_hours]
      exact bind_times?_eq_some_iff hcount rfl

/-- A name that is none of a unit gives no duration. -/
theorem exists_scale_of_ofCount? {name : List Char} (h : ofCount? count name = some d) :
    ∃ scale : Scale, name = scale.name := by
  unfold ofCount? at h
  split at h
  · next hname => exact ⟨.milliseconds, hname⟩
  split at h
  · next hname => exact ⟨.seconds, hname⟩
  split at h
  · next hname => exact ⟨.minutes, hname⟩
  split at h
  · next hname => exact ⟨.hours, hname⟩
  · cases h

/-- **Adding what was found is adding the term that it spells.** -/
theorem addPart?_of_spelled (nonempty : digits ≠ []) (hdigits : ∀ c ∈ digits, isDigit c = true)
    (hunit : unit.map asciiLower = scale.name) :
    addPart? total (digits, unit) = total.plus? ⟨decimalValue digits, scale⟩ := by
  refine Option.ext fun next => ?_
  rw [plus?_eq_some_iff, addPart?, Option.bind_eq_some_iff]
  simp only [unsigned?_eq_some_iff_of_digits nonempty hdigits, hunit, Option.bind_eq_some_iff, add?,
    ofNanos?_eq_some_iff]
  constructor
  · rintro ⟨_, ⟨rfl, hcount⟩, d, hd, hnext⟩
    obtain ⟨inRange, hnanos⟩ := (ofCount?_name_eq_some_iff hcount).1 hd
    exact ⟨inRange, by rw [hnext, hnanos]⟩
  · rintro ⟨inRange, hnext⟩
    have hlt : (Term.mk (decimalValue digits) scale).nanos < wordBound * nanosPerSecond :=
      (Nat.div_lt_iff_lt_mul (by decide)).1 inRange.seconds
    exact ⟨_, ⟨rfl, inRange.count⟩, ⟨_, hlt⟩, (ofCount?_name_eq_some_iff inRange.count).2 ⟨inRange, rfl⟩, hnext⟩

/-- **What is added was spelled in ASCII**, whatever the patterns have let through. -/
theorem spelled_of_addPart? (shaped : alphabet.Shaped digits unit) (h : addPart? total (digits, unit) = some next) :
    (∀ c ∈ digits, isDigit c = true) ∧ ∃ scale : Scale, unit.map asciiLower = scale.name := by
  obtain ⟨count, hcount, hrest⟩ := Option.bind_eq_some_iff.1 h
  obtain ⟨d, hd, -⟩ := Option.bind_eq_some_iff.1 hrest
  refine ⟨?_, exists_scale_of_ofCount? hd⟩
  obtain ⟨⟨run, -, hrun, -, rfl | rfl⟩, -⟩ := unsigned?_eq_some_iff.1 hcount
  · exact hrun
  · -- A sign in front is no digit in any alphabet.
    have hplus := shaped.digits '+' List.mem_cons_self
    rw [alphabet.digit_ascii '+' (by decide)] at hplus
    cases hplus

/-- Digits and letters of ASCII are digits and letters in every alphabet. -/
theorem shaped_of_spelled (alphabet : Alphabet) (nonempty : digits ≠ []) (hdigits : ∀ c ∈ digits, isDigit c = true)
    (hunit : unit.map asciiLower = scale.name) : alphabet.Shaped digits unit where
  nonempty := nonempty
  digits c hc := by rw [alphabet.digit_ascii c (toNat_lt_of_isDigit (hdigits c hc)), hdigits c hc]
  unit := by
    refine ⟨scale, ?_⟩
    rw [Alphabet.Names, ← hunit, List.forall₂_map_left_iff, List.forall₂_same]
    intro c hc
    have hname := List.mem_map_of_mem (f := asciiLower) hc
    rw [hunit] at hname
    exact (alphabet.letter_ascii _ (Scale.mem_unitLetters hname) c
      (toNat_lt_of_asciiLower (Scale.toNat_lt_of_mem_name hname))).2 rfl

/-! ### Both readings -/

/-- What is added up was spelled as terms, and their running total is the same. -/
theorem exists_terms_of_foldlM (cut : alphabet.Cut parts text) (h : parts.foldlM addPart? total = some d) :
    ∃ terms, Spells terms text ∧ terms.foldlM plus? total = some d := by
  induction cut generalizing total with
  | nil => exact ⟨[], .nil, h⟩
  | @cons digits unit rest parts shaped others ih =>
      rw [List.foldlM_cons, Option.bind_eq_bind, Option.bind_eq_some_iff] at h
      obtain ⟨next, hnext, hrest⟩ := h
      obtain ⟨hdigits, scale, hunit⟩ := spelled_of_addPart? shaped hnext
      rw [addPart?_of_spelled shaped.nonempty hdigits hunit] at hnext
      obtain ⟨terms, hterms, htotal⟩ := ih hrest
      refine ⟨⟨decimalValue digits, scale⟩ :: terms, ?_, ?_⟩
      · rw [← List.append_assoc]
        exact .cons ⟨digits, unit, rfl, shaped.nonempty, hdigits, rfl, hunit⟩ hterms
      · rw [List.foldlM_cons, hnext]
        exact htotal

/-- What spells terms consists of them in every alphabet, and they are added up to the same. -/
theorem exists_cut_of_spells (alphabet : Alphabet) {terms : List Term} (spelled : Spells terms text) :
    ∃ parts, alphabet.Cut parts text ∧ ∀ total, parts.foldlM addPart? total = terms.foldlM plus? total := by
  induction spelled with
  | nil => exact ⟨[], .nil, fun _ => rfl⟩
  | @cons term terms text rest first others ih =>
      obtain ⟨count, scale⟩ := term
      obtain ⟨digits, unit, rfl, nonempty, hdigits, rfl, hunit⟩ := first
      obtain ⟨parts, hcut, htotal⟩ := ih
      refine ⟨(digits, unit) :: parts, ?_, fun total => ?_⟩
      · rw [List.append_assoc]
        exact .cons (shaped_of_spelled alphabet nonempty hdigits hunit) hcut
      · rw [List.foldlM_cons, List.foldlM_cons, addPart?_of_spelled nonempty hdigits hunit]
        exact congrArg (Option.bind _) (funext htotal)

/-- **Reading in two passes is reading the terms one by one**, in every alphabet. -/
theorem scanned?_eq (alphabet : Alphabet) (cs : List Char) : scanned? alphabet cs = ofLiteralChars? cs := by
  simp only [scanned?, ofLiteralChars?]
  split
  · rfl
  · split
    · rfl
    · next hempty _ =>
        refine Option.ext fun d => ?_
        simp only [Option.bind_eq_some_iff, terms?_eq_some_iff, total?_eq_foldlM]
        have hwhole : [] ∈ alphabet.literal.ends (trim cs) ↔ ∃ parts, parts ≠ [] ∧ alphabet.Cut parts (trim cs) :=
          Pattern.nil_mem_ends_iff.trans Alphabet.matches_literal_iff
        constructor
        · intro h
          split at h
          · next hmatches =>
              obtain ⟨parts, -, hcut⟩ := hwhole.1 hmatches
              rw [Alphabet.captures_of_cut hcut] at h
              obtain ⟨terms, hspelled, htotal⟩ := exists_terms_of_foldlM hcut h
              exact ⟨terms, hspelled, htotal⟩
          · cases h
        · rintro ⟨terms, hspelled, htotal⟩
          obtain ⟨parts, hcut, hsame⟩ := exists_cut_of_spells alphabet hspelled
          have hparts : parts ≠ [] := by
            rintro rfl
            exact hempty (List.isEmpty_iff.2 hcut.eq_nil)
          rw [if_pos (hwhole.2 ⟨parts, hparts, hcut⟩), Alphabet.captures_of_cut hcut, hsame, htotal]

/-- **The texts that are read as durations.** A text is read as a duration exactly if, without the blanks around it, it
is a non-empty run of digits whose number fits a 64-bit word, and then it is so many seconds; or if it is a non-empty
sequence of terms whose numbers and seconds fit such a word and whose sum is a duration, and then it is this sum. Every
other text is none, as is every text with a character outside of ASCII. The terms are added up one by one: the total is
a duration all the way, and the first term with which it would leave the range makes the text none. All this is also
what comes out if the text is matched against patterns and searched for its terms, whichever characters outside of ASCII
the patterns let through. -/
theorem literals_read_exactly (text : String) :
    let literal := trim text.toList
    (∀ d, ofLiteral? text = some d ↔ Denotes literal d) ∧
      ((∃ c ∈ literal, 128 ≤ c.toNat) → ofLiteral? text = none) ∧
      (∀ terms, terms ≠ [] → Spells terms literal → ofLiteral? text = terms.foldlM plus? zero) ∧
      ∀ alphabet, scanned? alphabet text.toList = ofLiteral? text := by
  intro literal
  have hiff : ∀ d, ofLiteral? text = some d ↔ Denotes literal d := fun d => ofLiteralChars?_eq_some_iff
  refine ⟨hiff, ?_, ?_, fun alphabet => scanned?_eq alphabet text.toList⟩
  · rintro ⟨c, hc, hlarge⟩
    rw [Option.eq_none_iff_forall_ne_some]
    intro d hd
    obtain ⟨-, hdigits, -, -⟩ | ⟨-, hspelled, -, -⟩ := (hiff d).1 hd
    · exact absurd (toNat_lt_of_isDigit (hdigits c hc)) (Nat.not_lt.2 hlarge)
    · exact absurd (hspelled.toNat_lt c hc) (Nat.not_lt.2 hlarge)
  · exact fun terms nonempty spelled => ofLiteralChars?_of_spells nonempty spelled

section Folding

/-- The digits of ASCII and of Arabic. -/
def foldingDigit (c : Char) : Bool := isDigit c || (0x660 ≤ c.toNat && c.toNat ≤ 0x669)

/-- The letters that fold to a letter: the small one and the capital, and to `s` also the long s. -/
def foldingLetter (name c : Char) : Bool := asciiLower c = name || (name = 's' && c = '\u017f')

theorem foldingDigit_ascii (c : Char) (h : c.toNat < 128) : foldingDigit c = isDigit c := by
  have hrange : decide (0x660 ≤ c.toNat) = false := decide_eq_false (by omega)
  rw [foldingDigit, hrange, Bool.false_and, Bool.or_false]

theorem foldingLetter_iff {name c : Char} :
    foldingLetter name c = true ↔ asciiLower c = name ∨ name = 's' ∧ c = '\u017f' := by
  simp [foldingLetter]

theorem toNat_lt_of_mem_unitLetters {name : Char} (h : name ∈ unitLetters) :
    name.toNat < 128 ∧ isDigit name = false := by
  have hall : (unitLetters.all fun name => decide (name.toNat < 128) && !isDigit name) = true := rfl
  simpa using List.all_eq_true.1 hall name h

theorem foldingLetter_ascii (name : Char) (_ : name ∈ unitLetters) (c : Char) (h : c.toNat < 128) :
    foldingLetter name c = true ↔ asciiLower c = name := by
  rw [foldingLetter_iff, or_iff_left]
  rintro ⟨-, rfl⟩
  exact absurd h (by decide)

theorem folding_apart (name : Char) (hname : name ∈ unitLetters) (c : Char) (h : foldingLetter name c = true) :
    foldingDigit c = false := by
  obtain ⟨hascii, hletter⟩ := toNat_lt_of_mem_unitLetters hname
  obtain rfl | ⟨-, rfl⟩ := foldingLetter_iff.1 h
  · rw [foldingDigit_ascii c (toNat_lt_of_asciiLower hascii)]
    by_contra hdigit
    rw [asciiLower_of_isDigit (eq_true_of_ne_false hdigit)] at hletter
    exact hdigit hletter
  · decide

theorem folding_distinct (name : Char) (hname : name ∈ unitLetters) (other : Char) (hother : other ∈ unitLetters)
    (c : Char) (h : foldingLetter name c = true) (h' : foldingLetter other c = true) : name = other := by
  have hlong {name : Char} (hname : name ∈ unitLetters) (h : asciiLower '\u017f' = name) : False := by
    rw [← h] at hname
    exact absurd (toNat_lt_of_mem_unitLetters hname).1 (by decide)
  obtain hc | ⟨rfl, rfl⟩ := foldingLetter_iff.1 h
  · obtain hc' | ⟨-, rfl⟩ := foldingLetter_iff.1 h'
    · exact hc.symm.trans hc'
    · exact (hlong hname hc).elim
  · obtain hc' | ⟨rfl, -⟩ := foldingLetter_iff.1 h'
    · exact (hlong hother hc').elim
    · rfl

/-- An alphabet with the digits of one more script and with the one letter outside of ASCII that folds to one of a
unit. -/
def folding : Alphabet where
  digit := foldingDigit
  letter := foldingLetter
  digit_ascii := foldingDigit_ascii
  letter_ascii := foldingLetter_ascii
  apart := folding_apart
  distinct := folding_distinct

/-- A long s is let through by the pattern, and the text is no duration. With an `s` it is one. -/
theorem literals_read_exactly_of_long_s :
    [] ∈ folding.literal.ends (trim "10\u017f".toList) ∧ ofLiteral? "10\u017f" = none ∧
      scanned? folding "10\u017f".toList = none ∧ scanned? folding "10s".toList = some tenSeconds := by
  obtain ⟨-, houtside, -, hscanned⟩ := literals_read_exactly "10\u017f"
  have hnone : ofLiteral? "10\u017f" = none := houtside ⟨'\u017f', by decide +kernel, by decide⟩
  obtain ⟨-, -, hspelled, hscanned'⟩ := literals_read_exactly "10s"
  have hdigits : ['1', '0'].all isDigit = true := rfl
  have hspells : Spells [⟨10, .seconds⟩] (trim "10s".toList) :=
    .cons ⟨['1', '0'], ['s'], rfl, List.cons_ne_nil _ _, List.all_eq_true.1 hdigits, rfl, rfl⟩ .nil
  have hten : [Term.mk 10 .seconds].foldlM plus? zero = some tenSeconds := by decide +kernel
  refine ⟨by decide +kernel, hnone, (hscanned folding).trans hnone, ?_⟩
  rw [hscanned', hspelled _ (List.cons_ne_nil _ _) hspells, hten]

end Folding

/-- Minutes, seconds and milliseconds in both cases; a letter that only folds to `s` is none. -/
example : ofLiteral? " 1M30s250ms\t" = some ⟨90250 * nanosPerMilli, by decide⟩ ∧ ofLiteral? "10\u017f" = none ∧
    ofLiteral? "18446744073709551615s999ms" = some ⟨18446744073709551615999 * nanosPerMilli, by decide⟩ ∧
    ofLiteral? "18446744073709551615s1000ms" = none ∧ ofLiteral? "307445734561825861m" = none := by
  decide +kernel

end Converge.Duration
