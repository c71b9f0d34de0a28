import Converge.Proofs.Duration.Literal
import Converge.Yaml.Scalar
import Converge.Yaml.Token
import Converge.Yaml.Writer.Scalar

/-!
# Words in YAML text

A digit or a small letter means nothing by itself in YAML: it opens no structure, is no gap and needs no escape. So a
text of such characters may be written plain, and is written so if it is read as a string. A number with a unit behind
it is one.

## Main Definitions

* `isPlainChar` — the digits and the small letters.
* `isMapChar` — these and the marks around names and values on one line.
* `Counts` — digits with an `m` behind them.

## Main Statements

* `Writer.styleOf_of_isPlainChar` — a text of plain characters is written plain, if it is read as a string.
* `ofPlain_of_counts` — a count of minutes or milliseconds is a string.
-/

namespace Converge.Yaml

open Chars

/-- A digit or a small letter. -/
def isPlainChar (c : Char) : Bool := isDigit c || ('a' ≤ c && c ≤ 'z')

variable {c : Char} {cs rest : List Char} {text : String}

theorem ne_of_isPlainChar (h : isPlainChar c = true) {other : Char} (hother : isPlainChar other = false) :
    c ≠ other := by
  rintro rfl
  exact Bool.false_ne_true (hother.symm.trans h)

theorem toNat_of_isPlainChar (h : isPlainChar c = true) : 48 ≤ c.toNat ∧ c.toNat ≤ 122 := by
  simp only [isPlainChar, isDigit, Bool.or_eq_true, Bool.and_eq_true, decide_eq_true_eq, Char.le_def,
    UInt32.le_iff_toNat_le] at h
  have hvalue : c.toNat = c.val.toNat := rfl
  have hzero : ('0' : Char).val.toNat = 48 := rfl
  have hnine : ('9' : Char).val.toNat = 57 := rfl
  have hfirst : ('a' : Char).val.toNat = 97 := rfl
  have hlast : ('z' : Char).val.toNat = 122 := rfl
  omega

theorem utf8Size_of_isPlainChar (h : isPlainChar c = true) : c.utf8Size = 1 := by
  rw [Char.utf8Size_eq_one_iff, UInt32.le_iff_toNat_le]
  exact Nat.le_trans (toNat_of_isPlainChar h).2 (by decide)

theorem isAllowed_of_isPlainChar (h : isPlainChar c = true) : isAllowed c = true := by
  obtain ⟨hlow, hhigh⟩ := toNat_of_isPlainChar h
  have hrange : (decide (0x20 ≤ c.toNat) && decide (c.toNat ≤ 0x7E)) = true := by
    rw [Bool.and_eq_true, decide_eq_true_eq, decide_eq_true_eq]
    omega
  simp only [isAllowed, hrange, Bool.or_true, Bool.true_or]

theorem isSpace_of_isPlainChar (h : isPlainChar c = true) : isSpace c = false := by
  simp (disch := decide) [isSpace, ne_of_isPlainChar h]

theorem isBreak_of_isPlainChar (h : isPlainChar c = true) : isBreak c = false := by
  simp (disch := decide) [isBreak, ne_of_isPlainChar h]

theorem atMark_of_ne {other : Char} (h : c ≠ other) : atMark other (c :: rest) = false := by
  unfold atMark
  split
  · next heq =>
      obtain ⟨rfl, -⟩ := List.cons_eq_cons.1 heq
      simp [h]
  · rfl

theorem atDocumentMark_of_isPlainChar (h : isPlainChar c = true) : atDocumentMark (c :: rest) = false := by
  rw [atDocumentMark, atMark_of_ne (ne_of_isPlainChar h rfl), atMark_of_ne (ne_of_isPlainChar h rfl), Bool.or_false]

/-! ### Texts of words and marks -/

/-- A plain character, or one of the marks around names and values that stand on one line. -/
def isMapChar (c : Char) : Bool := isPlainChar c || [':', ' ', '\x7b', '\x7d', '\n'].contains c

theorem eq_of_isMapChar (h : isMapChar c = true) :
    isPlainChar c = true ∨ c = ':' ∨ c = ' ' ∨ c = '\x7b' ∨ c = '\x7d' ∨ c = '\n' := by
  simpa [isMapChar] using h

theorem isAllowed_of_isMapChar (h : isMapChar c = true) : isAllowed c = true := by
  obtain h | rfl | rfl | rfl | rfl | rfl := eq_of_isMapChar h
  · exact isAllowed_of_isPlainChar h
  all_goals decide

/-- Line feeds are line breaks already. -/
theorem normalBreaks_of_isMapChar (h : ∀ c ∈ cs, isMapChar c = true) : normalBreaks cs = cs := by
  have hne {c other : Char} (hc : isMapChar c = true) (hother : isMapChar other = false) : c ≠ other := by
    rintro rfl
    exact Bool.false_ne_true (hother.symm.trans hc)
  fun_induction normalBreaks cs with
  | case1 | case2 => exact absurd rfl (hne (h '\r' List.mem_cons_self) rfl)
  | case3 c cs _ _ ih =>
      rw [List.forall_mem_cons] at h
      have hnext : (c == '\u0085') = false := by simpa using hne h.1 rfl
      rw [ih h.2, hnext, if_neg Bool.false_ne_true]
  | case4 => rfl

/-! ### Writing words -/

namespace Writer

theorem somewhere_eq_false_of_first {first second : Char → Bool} (h : ∀ c ∈ cs, first c = false) :
    somewhere first second cs = false := by
  fun_induction somewhere first second cs with
  | case1 a b rest ih =>
      rw [List.forall_mem_cons] at h
      rw [h.1, ih h.2]
      rfl
  | case2 => rfl

theorem somewhere_eq_false_of_second {first second : Char → Bool} (h : ∀ c ∈ cs, second c = false) :
    somewhere first second cs = false := by
  fun_induction somewhere first second cs with
  | case1 a b rest ih =>
      rw [List.forall_mem_cons] at h
      rw [h.2 b List.mem_cons_self, ih h.2, Bool.and_false]
      rfl
  | case2 => rfl

theorem isBreak_of_isPlainChar (h : isPlainChar c = true) : Writer.isBreak c = false := by
  simp (disch := decide) [Writer.isBreak, ne_of_isPlainChar h]

theorem isSpace_of_isPlainChar (h : isPlainChar c = true) : Writer.isSpace c = false := by
  simp (disch := decide) [Writer.isSpace, isBreak_of_isPlainChar h, ne_of_isPlainChar h]

theorem isPrintable_of_isPlainChar (h : isPlainChar c = true) : isPrintable c = true := by
  obtain ⟨hlow, hhigh⟩ := toNat_of_isPlainChar h
  have hrange : (decide (0x20 ≤ c.toNat) && decide (c.toNat ≤ 0x7E)) = true := by
    rw [Bool.and_eq_true, decide_eq_true_eq, decide_eq_true_eq]
    omega
  simp only [isPrintable, hrange, Bool.or_true, Bool.true_or]

theorem opensStructure_of_isPlainChar (h : isPlainChar c = true) : opensStructure (c :: rest) = false := by
  unfold opensStructure
  split
  · next heq => exact absurd (List.cons_eq_cons.1 heq).1 (ne_of_isPlainChar h rfl)
  · next heq => exact absurd (List.cons_eq_cons.1 heq).1 (ne_of_isPlainChar h rfl)
  · next heq =>
      obtain ⟨rfl, rfl⟩ := List.cons_eq_cons.1 heq
      simp (disch := decide) [indicators, ne_of_isPlainChar h]
  · next heq => cases heq

theorem needsEscapes_of_isPlainChar (h : ∀ c ∈ cs, isPlainChar c = true) : needsEscapes cs = false := by
  have hprintable : (cs.any fun c => !isPrintable c) = false := by
    rw [List.any_eq_false]
    intro c hc
    rw [isPrintable_of_isPlainChar (h c hc)]
    decide
  rw [needsEscapes, hprintable, somewhere_eq_false_of_second fun c hc => isBreak_of_isPlainChar (h c hc)]
  rfl

theorem holdsStructure_of_isPlainChar (h : ∀ c ∈ cs, isPlainChar c = true) : holdsStructure cs = false := by
  have hhash : somewhere (endsWord ∘ some) (· = '#') cs = false :=
    somewhere_eq_false_of_second fun c hc => decide_eq_false (ne_of_isPlainChar (h c hc) rfl)
  have hcolon : somewhere (· = ':') (endsWord ∘ some) cs = false :=
    somewhere_eq_false_of_first fun c hc => decide_eq_false (ne_of_isPlainChar (h c hc) rfl)
  have hlast : ¬ cs.getLast? = some ':' := fun hlast =>
    ne_of_isPlainChar (h ':' (List.mem_of_getLast? hlast)) rfl rfl
  rw [holdsStructure, hhash, hcolon, decide_eq_false hlast]
  rfl

/-- A text of plain characters may stand plain. -/
theorem allowsPlain_of_isPlainChar (nonempty : cs ≠ []) (h : ∀ c ∈ cs, isPlainChar c = true) :
    allowsPlain cs = true := by
  have hbreak : cs.any Writer.isBreak = false := by
    rw [List.any_eq_false]
    intro c hc
    rw [isBreak_of_isPlainChar (h c hc)]
    decide
  have hspace (c? : Option Char) (hmem : ∀ c, c? = some c → c ∈ cs) : (c?.map Writer.isSpace).getD false = false := by
    cases c? with
    | none => rfl
    | some c => exact isSpace_of_isPlainChar (h c (hmem c rfl))
  obtain ⟨c, rest, rfl⟩ := List.exists_cons_of_ne_nil nonempty
  rw [allowsPlain, hbreak, hspace _ fun c hc => List.mem_of_head? hc, hspace _ fun c hc => List.mem_of_getLast? hc,
    needsEscapes_of_isPlainChar h, opensStructure_of_isPlainChar (h c List.mem_cons_self),
    holdsStructure_of_isPlainChar h]
  rfl

/-- **A text of plain characters is written plain**, if it is read as a string. -/
theorem styleOf_of_isPlainChar (nonempty : text.toList ≠ []) (h : ∀ c ∈ text.toList, isPlainChar c = true)
    (unpadded : isZeroPadded text.toList = false) (hstring : Scalar.ofPlain text = .ok (.string text)) :
    styleOf text = .plain := by
  have hbreak : text.toList.contains '\n' = false := by
    rw [Bool.eq_false_iff, Ne, List.contains_iff_mem]
    exact fun hmem => ne_of_isPlainChar (h '\n' hmem) rfl rfl
  have hambiguous : isAmbiguous text = false := by rw [isAmbiguous, unpadded, hstring]; rfl
  simp only [styleOf, hbreak, hambiguous, allowsPlain_of_isPlainChar nonempty h, Bool.false_eq_true, if_false,
    Bool.not_false, Bool.and_self, if_true]

end Writer

/-! ### Numbers with a unit -/

/-- A digit in front tells a text from all that have none. -/
theorem contains_eq_false_of_digit {texts : List String} (htext : ∃ d rest, text.toList = d :: rest ∧ isDigit d = true)
    (hall : (texts.all fun text => !(text.toList.head?.any isDigit)) = true) : texts.contains text = false := by
  rw [Bool.eq_false_iff, Ne, List.contains_iff_mem]
  intro hmem
  obtain ⟨d, rest, hcs, hd⟩ := htext
  have hhead := List.all_eq_true.1 hall text hmem
  rw [hcs] at hhead
  simp [hd] at hhead

/-- A digit is none of the characters that are none. -/
theorem ne_of_isDigit (h : isDigit c = true) {other : Char} (hother : isDigit other = false) : c ≠ other := by
  rintro rfl
  exact Bool.false_ne_true (hother.symm.trans h)

/-- A count of minutes or milliseconds: digits with an `m` behind them. -/
structure Counts (cs : List Char) : Prop where
  digits : cs.takeWhile isDigit ≠ []
  unit : ∃ rest, cs.dropWhile isDigit = 'm' :: rest

namespace Counts

theorem head (h : Counts cs) : ∃ d rest, cs = d :: rest ∧ isDigit d = true := by
  cases cs with
  | nil => exact absurd rfl h.digits
  | cons d rest =>
      exact ⟨d, rest, rfl, Decidable.byContradiction fun hd => h.digits (List.takeWhile_cons_of_neg hd)⟩

theorem mem (h : Counts cs) : 'm' ∈ cs := by
  obtain ⟨rest, hdrop⟩ := h.unit
  exact (List.dropWhile_sublist isDigit).subset (hdrop ▸ List.mem_cons_self)

theorem ne_cons (h : Counts cs) {other : Char} (hother : isDigit other = false) : cs ≠ other :: rest := by
  obtain ⟨d, _, rfl, hd⟩ := h.head
  exact fun heq => ne_of_isDigit hd hother (List.cons_eq_cons.1 heq).1

theorem isZeroPadded_eq (h : Counts cs) : isZeroPadded cs = false := by
  obtain ⟨d, rest, rfl, hd⟩ := h.head
  have hsign : isSign d = false := by simp (disch := decide) [isSign, ne_of_isDigit hd]
  have hall : (d :: rest).all isDigit = false := by
    rw [List.all_eq_false]
    exact ⟨'m', h.mem, by decide⟩
  simp only [isZeroPadded, unsigned, hsign, Bool.false_eq_true, if_false, hall, Bool.and_false]

theorem natural?_eq (h : Counts cs) : natural? cs = none := by
  have hsecond {x : Char} {rest : List Char} (hx : isDigit x = false) (hm : x ≠ 'm') : cs ≠ '0' :: x :: rest := by
    rintro rfl
    obtain ⟨_, hdrop⟩ := h.unit
    rw [List.dropWhile_cons_of_pos (by decide), List.dropWhile_cons_of_neg (by simp [hx])] at hdrop
    exact hm (List.cons_eq_cons.1 hdrop).1
  unfold natural?
  split
  · exact absurd rfl (hsecond rfl (by decide))
  · exact absurd rfl (hsecond rfl (by decide))
  · exact absurd rfl (hsecond rfl (by decide))
  · rw [h.isZeroPadded_eq, if_neg Bool.false_ne_true, Option.eq_none_iff_forall_ne_some]
    intro n hn
    exact Bool.false_ne_true ((digits?_eq_some_iff.1 hn).2.1 'm' h.mem)

theorem decimal?_eq (h : Counts cs) (negative : Bool) : decimal? negative cs = none := by
  obtain ⟨rest, hdrop⟩ := h.unit
  have hempty : (cs.takeWhile isDigit).isEmpty = false := by simpa using h.digits
  simp [decimal?, hdrop, hempty]

end Counts

variable {text : String}

theorem whole?_of_counts (h : Counts text.toList) : whole? text = none := by
  unfold whole?
  split
  · next heq => exact absurd heq (h.ne_cons rfl)
  · next heq => exact absurd heq (h.ne_cons rfl)
  · rw [h.natural?_eq]
    rfl

theorem float?_of_counts (h : Counts text.toList) : float? text = none := by
  have hspecial : [".inf", ".Inf", ".INF"].contains (String.ofList text.toList) = false := by
    rw [String.ofList_toList]
    exact contains_eq_false_of_digit h.head (by decide +kernel)
  have hnone : ["-.inf", "-.Inf", "-.INF", ".nan", ".NaN", ".NAN"].contains text = false :=
    contains_eq_false_of_digit h.head (by decide +kernel)
  unfold float?
  extract_lets cs unplussed
  have hunplussed : unplussed = some text.toList := by
    simp only [unplussed, cs]
    split
    · next heq => exact absurd heq (h.ne_cons rfl)
    · rfl
  rw [hunplussed, Option.getD_some, hspecial, hnone, if_neg Bool.false_ne_true, if_neg Bool.false_ne_true,
    Option.bind_some]
  split
  · next heq => exact absurd heq (h.ne_cons rfl)
  · rw [h.decimal?_eq, Option.map_none]

/-- **A count of minutes or milliseconds is a string.** -/
theorem ofPlain_of_counts (h : Counts text.toList) : Scalar.ofPlain text = .ok (.string text) := by
  have hempty : text.isEmpty = false := by
    obtain ⟨d, rest, hcs, -⟩ := h.head
    rw [Bool.eq_false_iff]
    intro hempty
    rw [String.isEmpty_iff.1 hempty] at hcs
    cases hcs
  have hnull : isNull text = false := contains_eq_false_of_digit h.head (by decide +kernel)
  have hbool : bool? text = none := by
    rw [bool?, contains_eq_false_of_digit h.head (by decide +kernel),
      contains_eq_false_of_digit h.head (by decide +kernel)]
    rfl
  simp only [Scalar.ofPlain, hempty, hnull, hbool, whole?_of_counts h, h.isZeroPadded_eq, float?_of_counts h,
    Bool.or_self, Bool.false_eq_true, if_false, Option.bind_none]

end Converge.Yaml
