/-!
# Characters and runs of characters

The text rules that the other modules share, over `List Char`: what a blank is, trimming, cutting at a
separator, lines, and runs of decimal digits.

## Main Definitions

* `isBlank` — the characters of the Unicode property `White_Space`.
* `trim`, `trimStart`, `trimEnd` — a text without the blanks at its ends.
* `splitAt`, `splitFirst`, `breakOn` — cutting at a character or at a pattern.
* `lines`, `linesWithEnds` — the lines of a text, without or with their line break.
* `unsigned?` — a bounded natural number in decimal digits.
-/

namespace Converge.Chars

/-! ### Blanks -/

/-- The characters of the Unicode property `White_Space`. -/
def isBlank (c : Char) : Bool :=
  let n := c.toNat
  (0x09 ≤ n && n ≤ 0x0D) || n == 0x20 || n == 0x85 || n == 0xA0 || n == 0x1680
    || (0x2000 ≤ n && n ≤ 0x200A) || n == 0x2028 || n == 0x2029 || n == 0x202F || n == 0x205F
    || n == 0x3000

/-- The text from its first character that is no blank. -/
def trimStart (cs : List Char) : List Char := cs.dropWhile isBlank

/-- The text up to its last character that is no blank. -/
def trimEnd (cs : List Char) : List Char := (cs.reverse.dropWhile isBlank).reverse

/-- The text between its first and its last character that is no blank. -/
def trim (cs : List Char) : List Char := trimEnd (trimStart cs)

/-- Nothing but blanks. -/
def allBlank (cs : List Char) : Bool := cs.all isBlank

/-! ### Cutting -/

/-- The part before the first `sep` and the part after it. -/
def splitFirst (sep : Char) : List Char → Option (List Char × List Char)
  | [] => none
  | c :: cs =>
      if c = sep then some ([], cs)
      else (splitFirst sep cs).map fun (before, after) => (c :: before, after)

/-- The parts between the separators: one more than there are separators. -/
def splitAt (sep : Char) : List Char → List (List Char)
  | [] => [[]]
  | c :: cs =>
      if c = sep then [] :: splitAt sep cs
      else match splitAt sep cs with
        | [] => [[c]]
        | part :: parts => (c :: part) :: parts

/-- The parts put back together with `sep` between them. -/
def join (sep : List Char) : List (List Char) → List Char
  | [] => []
  | [part] => part
  | part :: parts => part ++ sep ++ join sep parts

/-- What follows `start`, if the text begins with it. -/
def afterStart : List Char → List Char → Option (List Char)
  | [], cs => some cs
  | _ :: _, [] => none
  | p :: ps, c :: cs => if p = c then afterStart ps cs else none

/-- What precedes `ending`, if the text closes with it. -/
def beforeEnd (ending cs : List Char) : Option (List Char) :=
  (afterStart ending.reverse cs.reverse).map List.reverse

/-- The part before the first occurrence of `pattern` and the part after it. -/
def breakOn (pattern : List Char) : List Char → Option (List Char × List Char)
  | [] => if pattern.isEmpty then some ([], []) else none
  | c :: cs =>
      match afterStart pattern (c :: cs) with
      | some after => some ([], after)
      | none => (breakOn pattern cs).map fun (before, after) => (c :: before, after)

/-- Whether `pattern` occurs somewhere. -/
def contains (pattern cs : List Char) : Bool := (breakOn pattern cs).isSome

theorem afterStart_eq_some_iff {start cs after : List Char} :
    afterStart start cs = some after ↔ cs = start ++ after := by
  induction start generalizing cs with
  | nil => simp [afterStart, eq_comm]
  | cons p ps ih =>
      cases cs with
      | nil => simp [afterStart]
      | cons c cs => by_cases h : p = c <;> simp [afterStart, h, ih]; exact fun hc => absurd hc.symm h

/-- A cut loses nothing but the pattern. -/
theorem eq_append_of_breakOn {pattern cs before after : List Char}
    (h : breakOn pattern cs = some (before, after)) : cs = before ++ pattern ++ after := by
  induction cs generalizing before after with
  | nil =>
      unfold breakOn at h
      cases pattern with
      | nil => simp_all
      | cons p ps => simp at h
  | cons c cs ih =>
      unfold breakOn at h
      split at h
      · next rest hrest =>
          simp only [Option.some.injEq, Prod.mk.injEq] at h
          obtain ⟨rfl, rfl⟩ := h
          simpa using afterStart_eq_some_iff.1 hrest
      · simp only [Option.map_eq_some_iff, Prod.exists, Prod.mk.injEq] at h
        obtain ⟨b, a, hb, rfl, rfl⟩ := h
        simpa using ih hb

/-- What follows a cut is shorter than the text that was cut. -/
theorem length_lt_of_breakOn {pattern cs before after : List Char} (hp : pattern ≠ [])
    (h : breakOn pattern cs = some (before, after)) : after.length < cs.length := by
  have hcs := congrArg List.length (eq_append_of_breakOn h)
  have := List.length_pos_iff.2 hp
  simp only [List.length_append] at hcs
  omega

/-! ### Lines -/

/-- The lines of a text, each with the line break that ends it; the last one may have none. -/
def linesWithEnds : List Char → List (List Char)
  | [] => []
  | c :: cs =>
      if c = '\n' then [c] :: linesWithEnds cs
      else match linesWithEnds cs with
        | [] => [[c]]
        | line :: rest => (c :: line) :: rest

/-- A line without the line break that ends it: a line feed, or a carriage return and a line feed. -/
def dropLineEnd (line : List Char) : List Char :=
  match line.reverse with
  | '\n' :: '\r' :: body => body.reverse
  | '\n' :: body => body.reverse
  | _ => line

/-- The lines of a text without their line breaks. -/
def lines (cs : List Char) : List (List Char) := (linesWithEnds cs).map dropLineEnd

theorem flatten_linesWithEnds (cs : List Char) : (linesWithEnds cs).flatten = cs := by
  induction cs with
  | nil => rfl
  | cons c cs ih =>
      unfold linesWithEnds
      split
      · simp [ih]
      · split
        · next h => simp_all
        · next line rest h => rw [h] at ih; simpa using ih

/-! ### Letters and digits -/

/-- One of the ten ASCII digits. -/
def isDigit (c : Char) : Bool := '0' ≤ c && c ≤ '9'

/-- The number that an ASCII digit stands for. -/
def digitValue (c : Char) : Nat := c.toNat - '0'.toNat

/-- The number that a digit of base 16 stands for, in either case. -/
def hexValue? (c : Char) : Option Nat :=
  if isDigit c then some (digitValue c)
  else if 'a' ≤ c && c ≤ 'f' then some (c.toNat - 'a'.toNat + 10)
  else if 'A' ≤ c && c ≤ 'F' then some (c.toNat - 'A'.toNat + 10)
  else none

/-- An ASCII capital becomes a small letter; any other character stays. -/
def asciiLower (c : Char) : Char := if 'A' ≤ c && c ≤ 'Z' then Char.ofNat (c.toNat + 32) else c

/-- The number written by a run of decimal digits, read from left to right. -/
def decimalValue (digits : List Char) : Nat :=
  digits.foldl (fun value c => 10 * value + digitValue c) 0

/-- A non-empty run of decimal digits, as a number. -/
def digits? (cs : List Char) : Option Nat :=
  if cs.isEmpty || !cs.all isDigit then none else some (decimalValue cs)

/-- The digits of a number read back as the number. -/
@[simp] theorem decimalValue_repr (n : Nat) : decimalValue n.repr.toList = n := by
  rw [Nat.toList_repr]
  exact Nat.ofDigitChars_ten_toDigits

/-- Different numbers have different digits. -/
theorem repr_injective {m n : Nat} (h : m.repr = n.repr) : m = n := by
  rw [← decimalValue_repr m, h, decimalValue_repr]

/-- Zeros in front of digits do not change the number. -/
theorem decimalValue_replicate_append (count : Nat) (digits : List Char) :
    decimalValue (List.replicate count '0' ++ digits) = decimalValue digits := by
  have : Nat.ofDigitChars 10 (List.replicate count '0') 0 = 0 := by simp
  rw [Nat.ofDigitChars_eq_foldl] at this
  rw [decimalValue, List.foldl_append]
  exact congrArg (digits.foldl _) this

/-- A number is written in digits. -/
theorem isDigit_of_mem_repr {n : Nat} {c : Char} (h : c ∈ n.repr.toList) : isDigit c := by
  rw [Nat.toList_repr] at h
  have := Nat.isDigit_of_mem_toDigits (by decide) (by decide) h
  simpa [isDigit, Char.isDigit, Char.le_def] using this

/-- Decimal digits after an optional `+`, when the number stays below `bound`. -/
def unsigned? (bound : Nat) (cs : List Char) : Option Nat :=
  let digits := match cs with
    | '+' :: rest => rest
    | _ => cs
  (digits? digits).filter (· < bound)

/-- The count of values of a 64-bit word. -/
def wordBound : Nat := Nat.pow 2 64

/-- The length of a text in UTF-8 bytes. -/
def byteLength (cs : List Char) : Nat := cs.foldl (fun length c => length + c.utf8Size) 0

/-- Whether a text comes before another: at the first character where they differ, or because it ends there. -/
def comesBefore (cs ds : List Char) : Bool := cs.lex ds fun c d => c.toNat < d.toNat

/-! ### The same rules on strings -/

/-- `trim` on a string. -/
def trimmed (s : String) : String := String.ofList (trim s.toList)

/-- `allBlank` on a string. -/
def blank (s : String) : Bool := allBlank s.toList

/-- `join` on strings. -/
def joined (sep : String) (parts : List String) : String :=
  String.ofList (join sep.toList (parts.map String.toList))

/-! ### Texts without blanks -/

theorem isBlank_of_isDigit {c : Char} (h : isDigit c) : isBlank c = false := by
  have hle : '0' ≤ c ∧ c ≤ '9' := by simpa [isDigit] using h
  have hlow : 48 ≤ c.toNat := UInt32.le_iff_toNat_le.1 hle.1
  have hhigh : c.toNat ≤ 57 := UInt32.le_iff_toNat_le.1 hle.2
  simp only [isBlank, Bool.or_eq_false_iff, Bool.and_eq_false_iff, decide_eq_false_iff_not,
    beq_eq_false_iff_ne]
  omega

/-- Trimming does nothing to a text without blanks. -/
theorem trim_eq_self {cs : List Char} (h : ∀ c ∈ cs, isBlank c = false) : trim cs = cs := by
  have hstart : ∀ ds : List Char, (∀ c ∈ ds, isBlank c = false) → ds.dropWhile isBlank = ds := by
    intro ds hds
    cases ds with
    | nil => rfl
    | cons d ds => simp [hds d]
  rw [trim, trimEnd, trimStart, hstart cs h, hstart cs.reverse (by simpa using h), List.reverse_reverse]

/-- There are no blanks around a number. -/
@[simp] theorem trimmed_repr (n : Nat) : trimmed n.repr = n.repr := by
  rw [trimmed, trim_eq_self fun c hc => isBlank_of_isDigit (isDigit_of_mem_repr hc), String.ofList_toList]

/-- A number is no blank text. -/
@[simp] theorem blank_repr (n : Nat) : blank n.repr = false := by
  rw [blank, allBlank, List.all_eq_false]
  obtain ⟨c, hc⟩ := List.exists_mem_of_ne_nil n.repr.toList (by simp [Nat.toList_repr])
  exact ⟨c, hc, by simp [isBlank_of_isDigit (isDigit_of_mem_repr hc)]⟩

end Converge.Chars
