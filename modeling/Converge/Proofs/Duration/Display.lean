import Converge.Proofs.Duration.Written
import Converge.Proofs.Text.Trimming
import Mathlib.Tactic.ByContra

/-!
# Durations that are shown to people

A duration is shown in whole terms, such as `2m5s`, or in seconds with one decimal, such as `1.5s`. Either way it is
rounded down. Terms are also a literal, and as such they are read as the time that they show. A decimal point is no part
of a literal, and it is only shown if there is a tenth of a second to show.

## Main Definitions

* `Duration.terms`, `Duration.tenths` — the terms that a duration is shown in, and the tenths of its last second.
* `Duration.grain` — how finely a duration is shown in terms.
* `Duration.roundedDown` — a duration without what is less than a unit.
* `Duration.Decimal` — the time that a text with a decimal point stands for.

## Main Statements

* `Duration.toList_display` — a duration without tenths to show is shown in terms.
* `Duration.span_terms` — the terms are the duration, rounded down.
* `Duration.decimal_display` — what is shown with a decimal point is the duration, rounded down to tenths.
* `Duration.shown_rounded_down` — what is shown is read again, unless there is a decimal point in it.
-/

namespace Converge.Duration

open Chars

/-! ### What is shown -/

/-- Nanoseconds in a tenth of a second. -/
def nanosPerTenth : Nat := Nat.pow 10 8

/-- The tenths of the last second of a duration. -/
def tenths (d : Duration) : Nat := d.nanos / nanosPerTenth % 10

/-- The duration without what is less than a unit. -/
def roundedDown (d : Duration) (unit : Nat) : Duration :=
  ⟨d.nanos / unit * unit, Nat.lt_of_le_of_lt (Nat.div_mul_le_self _ _) d.nanos_lt⟩

/-- How finely a duration is shown in terms: in milliseconds below a second, in seconds below an hour, and in minutes
from there on. -/
def grain (d : Duration) : Nat :=
  if d.nanos < nanosPerSecond then nanosPerMilli
  else if d.nanos < 3600 * nanosPerSecond then nanosPerSecond
  else 60 * nanosPerSecond

/-- A term, unless it stands for nothing. -/
def Term.ifAny (term : Term) : List Term := if term.count = 0 then [] else [term]

/-- The terms that a duration is shown in. -/
def terms (d : Duration) : List Term :=
  if d.nanos < nanosPerSecond then [⟨d.millis, .milliseconds⟩]
  else if d.nanos < 60 * nanosPerSecond then [⟨d.seconds, .seconds⟩]
  else if d.nanos < 3600 * nanosPerSecond then
    ⟨d.seconds / 60, .minutes⟩ :: Term.ifAny ⟨d.seconds % 60, .seconds⟩
  else ⟨d.seconds / 3600, .hours⟩ :: Term.ifAny ⟨d.seconds / 60 % 60, .minutes⟩

/-- A duration between a second and a minute, with tenths of a second. -/
def HasTenths (d : Duration) : Prop :=
  nanosPerSecond ≤ d.nanos ∧ d.nanos < 60 * nanosPerSecond ∧ d.tenths ≠ 0

theorem flatMap_text_ifAny (count : Nat) (scale : Scale) :
    (Term.ifAny ⟨count, scale⟩).flatMap Term.text = if count = 0 then [] else count.repr.toList ++ scale.name := by
  rw [Term.ifAny]
  split
  · rfl
  · rw [List.flatMap_singleton, Term.text]

/-- What is shown depends on the nanoseconds alone. -/
theorem display_eq (d : Duration) : d.display =
    if d.nanos < nanosPerSecond then d.millis.repr ++ "ms"
    else if d.nanos < 60 * nanosPerSecond then
      if d.tenths = 0 then d.seconds.repr ++ "s" else d.seconds.repr ++ "." ++ d.tenths.repr ++ "s"
    else if d.nanos < 3600 * nanosPerSecond then
      (d.seconds / 60).repr ++ "m" ++ (if d.seconds % 60 = 0 then "" else (d.seconds % 60).repr ++ "s")
    else
      (d.seconds / 3600).repr ++ "h" ++ (if d.seconds / 60 % 60 = 0 then "" else (d.seconds / 60 % 60).repr ++ "m") := by
  have hsecond : d.nanos / nanosPerMilli < 1000 ↔ d.nanos < nanosPerSecond := Nat.div_lt_iff_lt_mul (by decide)
  have hminute : d.nanos / nanosPerSecond < 60 ↔ d.nanos < 60 * nanosPerSecond := Nat.div_lt_iff_lt_mul (by decide)
  have hhour : d.nanos / nanosPerSecond < 3600 ↔ d.nanos < 3600 * nanosPerSecond := Nat.div_lt_iff_lt_mul (by decide)
  have htenths : d.nanos / nanosPerMilli % 1000 / 100 = d.tenths := by
    show d.nanos / 1000000 % 1000 / 100 = d.nanos / 100000000 % 10
    omega
  rw [display, displayNanos]
  dsimp only
  rw [htenths]
  exact if_congr hsecond rfl (if_congr hminute rfl (if_congr hhour rfl rfl))

theorem toList_display_of_hasTenths {d : Duration} (h : d.HasTenths) :
    d.display.toList = d.seconds.repr.toList ++ '.' :: (d.tenths.repr.toList ++ ['s']) := by
  rw [display_eq, if_neg (Nat.not_lt.2 h.1), if_pos h.2.1, if_neg h.2.2]
  simp

/-- **A duration without tenths to show is shown in terms.** -/
theorem toList_display {d : Duration} (h : ¬ d.HasTenths) : d.display.toList = d.terms.flatMap Term.text := by
  rw [display_eq, terms]
  split
  · simp [Term.text, Scale.name]
  · next hsecond =>
      split
      · next hminute =>
          have htenths : d.tenths = 0 :=
            Decidable.byContradiction fun hne => h ⟨Nat.not_lt.1 hsecond, hminute, hne⟩
          rw [if_pos htenths]
          simp [Term.text, Scale.name]
      · split
        · rw [List.flatMap_cons, flatMap_text_ifAny]
          split <;> simp [Term.text, Scale.name]
        · rw [List.flatMap_cons, flatMap_text_ifAny]
          split <;> simp [Term.text, Scale.name]

/-! ### The time in terms -/

theorem span_ifAny (term : Term) : span term.ifAny = term.nanos := by
  rw [Term.ifAny]
  split
  · next h => rw [Term.nanos, h, Nat.zero_mul, span]
  · rw [span, span, Nat.add_zero]

/-- The terms are the duration, rounded down. -/
theorem span_terms (d : Duration) : span d.terms = (d.roundedDown d.grain).nanos := by
  rw [terms, roundedDown, grain]
  split
  · simp [span, Term.nanos, Scale.nanos, millis]
  · split
    · next hminute =>
        rw [if_pos (Nat.lt_of_lt_of_le hminute (Nat.mul_le_mul_right _ (by decide)))]
        simp [span, Term.nanos, Scale.nanos, seconds]
    · split
      · rw [span, span_ifAny]
        show d.nanos / 1000000000 / 60 * 60000000000 + d.nanos / 1000000000 % 60 * 1000000000 =
          d.nanos / 1000000000 * 1000000000
        omega
      · rw [span, span_ifAny]
        show d.nanos / 1000000000 / 3600 * 3600000000000 + d.nanos / 1000000000 / 60 % 60 * 60000000000 =
          d.nanos / 60000000000 * 60000000000
        omega

theorem nanos_le_span {terms : List Term} {term : Term} (h : term ∈ terms) : term.nanos ≤ span terms := by
  induction terms with
  | nil => cases h
  | cons first terms ih =>
      rw [span]
      obtain rfl | h := List.mem_cons.1 h
      · exact Nat.le_add_right _ _
      · exact Nat.le_trans (ih h) (Nat.le_add_left _ _)

theorem eq_of_mem_ifAny {term other : Term} (h : other ∈ term.ifAny) : other = term := by
  rw [Term.ifAny] at h
  split at h
  · cases h
  · exact List.mem_singleton.1 h

/-- The numbers in the terms are not larger than the seconds of the duration, or they are milliseconds. -/
theorem count_le_of_mem_terms {d : Duration} {term : Term} (h : term ∈ d.terms) :
    term.count ≤ d.seconds ∨ term.count < 1000 := by
  rw [terms] at h
  split at h
  · next hsecond =>
      obtain rfl := List.mem_singleton.1 h
      exact .inr ((Nat.div_lt_iff_lt_mul (by decide)).2 hsecond)
  · split at h
    · obtain rfl := List.mem_singleton.1 h
      exact .inl (Nat.le_refl _)
    · split at h
      · obtain rfl | h := List.mem_cons.1 h
        · exact .inl (Nat.div_le_self _ _)
        · obtain rfl := eq_of_mem_ifAny h
          exact .inl (Nat.mod_le _ _)
      · obtain rfl | h := List.mem_cons.1 h
        · exact .inl (Nat.div_le_self _ _)
        · obtain rfl := eq_of_mem_ifAny h
          exact .inl (Nat.le_trans (Nat.mod_le _ _) (Nat.div_le_self _ _))

/-- Every term that is shown can be read. -/
theorem inRange_of_mem_terms {d : Duration} {term : Term} (h : term ∈ d.terms) : term.InRange := by
  have hseconds : d.seconds < wordBound := (Nat.div_lt_iff_lt_mul (by decide)).2 d.nanos_lt
  have hle : term.nanos ≤ d.nanos := Nat.le_trans (nanos_le_span h) (span_terms d ▸ Nat.div_mul_le_self _ _)
  refine ⟨?_, Nat.lt_of_le_of_lt (Nat.div_le_div_right hle) hseconds⟩
  obtain hcount | hcount := count_le_of_mem_terms h
  · exact Nat.lt_of_le_of_lt hcount hseconds
  · exact Nat.lt_trans hcount (by decide)

theorem terms_ne_nil (d : Duration) : d.terms ≠ [] := by
  rw [terms]
  split
  · exact List.cons_ne_nil _ _
  · split
    · exact List.cons_ne_nil _ _
    · split <;> exact List.cons_ne_nil _ _

/-- **What is shown in terms is read as the duration, rounded down.** -/
theorem ofLiteral?_display {d : Duration} (h : ¬ d.HasTenths) :
    ofLiteral? d.display = some (d.roundedDown d.grain) := by
  have hspelled : Spells d.terms (trim d.display.toList) := by
    rw [toList_display h, (spells_flatMap_text d.terms).trim_eq]
    exact spells_flatMap_text d.terms
  rw [ofLiteral?, ofLiteralChars?_of_spells (terms_ne_nil d) hspelled, foldlM_plus?_eq_some_iff]
  exact ⟨fun term => inRange_of_mem_terms, by rw [span_terms]; exact (Nat.zero_add _).symm⟩

/-! ### The time with a decimal point -/

/-- A text is a number of seconds with a decimal point in it, which stands for so many nanoseconds. -/
def Decimal (text : List Char) (nanos : Nat) : Prop :=
  ∃ whole fraction, text = whole ++ '.' :: (fraction ++ ['s']) ∧ whole ≠ [] ∧ fraction ≠ [] ∧
    (∀ c ∈ whole ++ fraction, isDigit c = true) ∧
    nanos * Nat.pow 10 fraction.length = decimalValue (whole ++ fraction) * nanosPerSecond

theorem decimalValue_concat (digits : List Char) (c : Char) :
    decimalValue (digits ++ [c]) = 10 * decimalValue digits + digitValue c := by
  rw [decimalValue, List.foldl_append]
  rfl

/-- **What is shown with a decimal point is the duration, rounded down to tenths.** -/
theorem decimal_display {d : Duration} (h : d.HasTenths) :
    Decimal d.display.toList (d.roundedDown nanosPerTenth).nanos := by
  obtain ⟨c, hc⟩ : ∃ c, d.tenths.repr.toList = [c] := by
    have hall : ∀ n < 10, n.repr.toList.length = 1 := by decide
    exact List.length_eq_one_iff.1 (hall d.tenths (Nat.mod_lt _ (by decide)))
  have hvalue : digitValue c = d.tenths := by
    have hrepr := decimalValue_repr d.tenths
    rw [hc, ← List.nil_append [c], decimalValue_concat] at hrepr
    exact (Nat.zero_add _).symm.trans hrepr
  have hdigit : isDigit c = true := isDigit_of_mem_repr (hc ▸ List.mem_singleton_self c)
  refine ⟨d.seconds.repr.toList, [c], ?_, by simp [Nat.toList_repr], List.cons_ne_nil _ _, ?_, ?_⟩
  · rw [toList_display_of_hasTenths h, hc]
  · rw [List.forall_mem_append, List.forall_mem_singleton]
    exact ⟨fun c => isDigit_of_mem_repr, hdigit⟩
  · rw [decimalValue_concat, decimalValue_repr, hvalue]
    show d.nanos / 100000000 * 100000000 * 10 = (10 * (d.nanos / 1000000000) + d.nanos / 100000000 % 10) * 1000000000
    omega

/-- A decimal point is shown exactly if there are tenths to show. -/
theorem point_mem_display_iff {d : Duration} : '.' ∈ d.display.toList ↔ d.HasTenths := by
  constructor
  · intro hpoint
    by_contra h
    rw [toList_display h] at hpoint
    exact (spells_flatMap_text d.terms).point_notMem hpoint
  · intro h
    rw [toList_display_of_hasTenths h]
    exact List.mem_append_right _ List.mem_cons_self

/-- No literal has a decimal point in it. -/
theorem ofLiteral?_of_point {text : String} (h : '.' ∈ text.toList) : ofLiteral? text = none := by
  have hpoint : '.' ∈ trim text.toList := mem_trim h (by decide)
  rw [Option.eq_none_iff_forall_ne_some]
  intro d hd
  obtain ⟨-, digits, -, -⟩ | ⟨-, spelled, -, -⟩ := ofLiteralChars?_eq_some_iff.1 hd
  · cases digits '.' hpoint
  · exact spelled.point_notMem hpoint

/-- **What is shown of a duration is rounded down.** Without a decimal point it is read again as the duration rounded
down: to milliseconds below a second, to seconds below an hour, and to minutes from there on. There is a decimal point
exactly from a second to a minute, if the tenths of a second are not zero. Then the text is no literal, and it stands
for the duration rounded down to tenths. -/
theorem shown_rounded_down (d : Duration) :
    ('.' ∉ d.display.toList → ofLiteral? d.display = some (d.roundedDown d.grain)) ∧
    ('.' ∈ d.display.toList ↔ nanosPerSecond ≤ d.nanos ∧ d.nanos < 60 * nanosPerSecond ∧ d.tenths ≠ 0) ∧
    ('.' ∈ d.display.toList →
      Decimal d.display.toList (d.roundedDown nanosPerTenth).nanos ∧ ofLiteral? d.display = none) := by
  refine ⟨fun hpoint => ?_, point_mem_display_iff, fun hpoint => ⟨?_, ofLiteral?_of_point hpoint⟩⟩
  · exact ofLiteral?_display fun h => hpoint (point_mem_display_iff.2 h)
  · exact decimal_display (point_mem_display_iff.1 hpoint)

/-- The longest duration is a number of hours whose seconds just fit a word; a minute less a nanosecond has nine tenths
in its last second. -/
theorem shown_rounded_down_at_bounds :
    let longest : Duration := ⟨wordBound * nanosPerSecond - 1, by decide⟩
    let minute : Duration := ⟨60 * nanosPerSecond - 1, by decide⟩
    '.' ∉ longest.display.toList ∧ longest.display = "5124095576030431h" ∧
      ofLiteral? "5124095576030431h" = some (longest.roundedDown (60 * nanosPerSecond)) ∧
      '.' ∈ minute.display.toList ∧ minute.display = "59.9s" ∧
      Decimal "59.9s".toList (minute.roundedDown nanosPerTenth).nanos := by
  intro longest minute
  have hlongest : longest.display = "5124095576030431h" := by decide
  have hlong : ¬ longest.nanos < nanosPerSecond ∧ ¬ longest.nanos < 3600 * nanosPerSecond := by decide
  have hminute : minute.display = "59.9s" := by decide
  have hplain : '.' ∉ longest.display.toList := by rw [hlongest]; decide
  have hpoint : '.' ∈ minute.display.toList := by rw [hminute]; decide
  obtain ⟨hread, -, -⟩ := shown_rounded_down longest
  obtain ⟨-, -, hdecimal⟩ := shown_rounded_down minute
  have hagain := hread hplain
  have hshown := (hdecimal hpoint).1
  rw [grain, if_neg hlong.1, if_neg hlong.2, hlongest] at hagain
  rw [hminute] at hshown
  exact ⟨hplain, hlongest, hagain, hpoint, hminute, hshown⟩

end Converge.Duration
