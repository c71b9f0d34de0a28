import Converge.Text.Chars
import Mathlib.Data.List.DropRight
import Mathlib.Data.List.TakeWhile

/-!
# Blanks around a text

Trimming takes blanks from both ends of a text until there is none. What is left is the one part of the text that has
no blank at either end and nothing but blanks around it, so a trimmed text is found without looking at how it is
trimmed. The same holds of any list and any test for what is taken from its ends.

## Main Definitions

* `Chars.inside` — a list without the items at its ends that pass a test.
* `Chars.Tight` — a text without a blank at either end.

## Main Statements

* `Chars.exists_inside`, `Chars.inside_append` — what is taken from the ends of a list, and what is left.
* `Chars.trim_eq_iff` — the trimmed text is the tight part with blanks around it.
* `Chars.tight_trim` — no blank is left at either end.
* `Chars.trim_append`, `Chars.trim_append_cons` — blanks around a text, and a text around what is no blank.
-/

namespace Converge.Chars

/-! ### The ends of a list -/

section Ends

variable {α : Type} {p : α → Bool} {middle front back : List α}

/-- The items of a list from the first to the last one that does not pass a test. -/
def inside (p : α → Bool) (items : List α) : List α := ((items.dropWhile p).reverse.dropWhile p).reverse

theorem dropWhile_of_head {items : List α} (h : ∀ item ∈ items.head?, p item = false) : items.dropWhile p = items := by
  cases items with
  | nil => rfl
  | cons item items =>
      apply List.dropWhile_cons_of_neg
      rw [h item rfl]
      exact Bool.false_ne_true

/-- Only items that pass the test are taken from the start, and all of them. -/
theorem exists_dropWhile (p : α → Bool) (items : List α) :
    ∃ front, front.all p = true ∧ items = front ++ items.dropWhile p ∧
      ∀ item ∈ (items.dropWhile p).head?, p item = false := by
  refine ⟨items.takeWhile p, List.all_takeWhile, List.takeWhile_append_dropWhile.symm, ?_⟩
  intro item hitem
  have hhead := List.head?_dropWhile_not p items
  rw [show (items.dropWhile p).head? = some item from hitem] at hhead
  simpa using hhead

/-- Only items that pass the test are taken from the ends, and all of them. -/
theorem exists_inside (p : α → Bool) (items : List α) :
    ∃ front back, front.all p = true ∧ back.all p = true ∧ items = front ++ inside p items ++ back ∧
      (∀ item ∈ (inside p items).head?, p item = false) ∧ ∀ item ∈ (inside p items).getLast?, p item = false := by
  obtain ⟨front, hfront, heq, hhead⟩ := exists_dropWhile p items
  obtain ⟨rest, hrest, heq', hlast⟩ := exists_dropWhile p (items.dropWhile p).reverse
  have hdrop : items.dropWhile p = inside p items ++ rest.reverse := by
    rw [inside, ← List.reverse_append, ← heq', List.reverse_reverse]
  refine ⟨front, rest.reverse, hfront, by rwa [List.all_reverse], ?_, fun item hitem => hhead item ?_, ?_⟩
  · rw [List.append_assoc, ← hdrop, ← heq]
  · rw [hdrop, List.head?_append, show (inside p items).head? = some item from hitem]
    rfl
  · rwa [inside, List.getLast?_reverse]

/-- What is left does not depend on what passes the test around it. -/
theorem inside_append (head : ∀ item ∈ middle.head?, p item = false) (last : ∀ item ∈ middle.getLast?, p item = false)
    (hfront : front.all p = true) (hback : back.all p = true) : inside p (front ++ middle ++ back) = middle := by
  have hreverse : ∀ item ∈ back.reverse, p item = true := by simpa using hback
  rw [inside, List.append_assoc, List.dropWhile_append_of_pos (List.all_eq_true.1 hfront)]
  cases middle with
  | nil =>
      rw [List.nil_append, List.dropWhile_eq_nil_iff.2 (List.all_eq_true.1 hback)]
      rfl
  | cons item middle =>
      have hstart : ((item :: middle) ++ back).dropWhile p = (item :: middle) ++ back := dropWhile_of_head head
      rw [hstart, List.reverse_append, List.dropWhile_append_of_pos hreverse,
        dropWhile_of_head (by rwa [List.head?_reverse]), List.reverse_reverse]

theorem inside_eq_self {items : List α} (head : ∀ item ∈ items.head?, p item = false)
    (last : ∀ item ∈ items.getLast?, p item = false) : inside p items = items := by
  rw [inside, dropWhile_of_head head, dropWhile_of_head (by rwa [List.head?_reverse]), List.reverse_reverse]

theorem mem_of_mem_inside {items : List α} {item : α} (h : item ∈ inside p items) : item ∈ items := by
  obtain ⟨front, back, -, -, heq, -⟩ := exists_inside p items
  rw [heq]
  exact List.mem_append_left back (List.mem_append_right front h)

theorem dropWhile_congr {q : α → Bool} {items : List α} (same : ∀ item ∈ items, p item = q item) :
    items.dropWhile p = items.dropWhile q := by
  induction items with
  | nil => rfl
  | cons item items ih =>
      rw [List.forall_mem_cons] at same
      rw [List.dropWhile_cons, List.dropWhile_cons, same.1, ih same.2]

/-- The ends are the same before and after each item is turned into another one, as long as the tests agree. -/
theorem inside_map {β : Type} {q : β → Bool} {f : α → β} {items : List α}
    (same : ∀ item ∈ items, q (f item) = p item) : inside q (items.map f) = (inside p items).map f := by
  have hstart : items.dropWhile (q ∘ f) = items.dropWhile p := dropWhile_congr same
  have hend : (items.dropWhile p).reverse.dropWhile (q ∘ f) = (items.dropWhile p).reverse.dropWhile p :=
    dropWhile_congr fun item hitem => same item ((List.dropWhile_sublist p).subset (List.mem_reverse.1 hitem))
  rw [inside, inside, List.dropWhile_map, hstart, ← List.map_reverse, List.dropWhile_map, hend, ← List.map_reverse]

end Ends

/-! ### Blanks -/

variable {text core front back : List Char}

/-- A text without a blank at either end; there may be nothing in it. -/
structure Tight (text : List Char) : Prop where
  head : ∀ c ∈ text.head?, isBlank c = false
  last : ∀ c ∈ text.getLast?, isBlank c = false

theorem allBlank_append : allBlank (front ++ back) = true ↔ allBlank front = true ∧ allBlank back = true := by
  rw [allBlank, List.all_append, Bool.and_eq_true]
  exact Iff.rfl

/-! ### One end at a time -/

theorem trimStart_append (blanks : allBlank front = true) (text : List Char) :
    trimStart (front ++ text) = trimStart text :=
  List.dropWhile_append_of_pos (List.all_eq_true.1 blanks)

/-- Only blanks are taken from the start, and all of them. -/
theorem exists_blanks_trimStart (text : List Char) :
    ∃ front, allBlank front = true ∧ text = front ++ trimStart text ∧
      ∀ c ∈ (trimStart text).head?, isBlank c = false :=
  exists_dropWhile isBlank text

/-- The end of a text is trimmed like the start of its reverse. -/
theorem trimEnd_eq_reverse (text : List Char) : trimEnd text = (trimStart text.reverse).reverse := rfl

theorem trimEnd_append (blanks : allBlank back = true) (text : List Char) : trimEnd (text ++ back) = trimEnd text := by
  have hreverse : allBlank back.reverse = true := by rwa [allBlank, List.all_reverse]
  rw [trimEnd_eq_reverse, List.reverse_append, trimStart_append hreverse]
  rfl

theorem trimEnd_of_last (h : ∀ c ∈ text.getLast?, isBlank c = false) : trimEnd text = text := by
  rw [trimEnd_eq_reverse, trimStart, dropWhile_of_head, List.reverse_reverse]
  rwa [List.head?_reverse]

/-- Only blanks are taken from the end, and all of them. -/
theorem exists_blanks_trimEnd (text : List Char) :
    ∃ back, allBlank back = true ∧ text = trimEnd text ++ back ∧
      ∀ c ∈ (trimEnd text).getLast?, isBlank c = false := by
  obtain ⟨blanks, hblanks, heq, hhead⟩ := exists_blanks_trimStart text.reverse
  refine ⟨blanks.reverse, by rwa [allBlank, List.all_reverse], ?_, ?_⟩
  · rw [trimEnd_eq_reverse, ← List.reverse_append, ← heq, List.reverse_reverse]
  · rwa [trimEnd_eq_reverse, List.getLast?_reverse]

/-- Trimming the end does not make a text blank, nor the other way round. -/
theorem allBlank_trimEnd (text : List Char) : allBlank (trimEnd text) = allBlank text := by
  obtain ⟨back, hback, heq, -⟩ := exists_blanks_trimEnd text
  rw [Bool.eq_iff_iff]
  conv_rhs => rw [heq]
  rw [allBlank_append, and_iff_left hback]

theorem trimEnd_eq_nil_iff : trimEnd text = [] ↔ allBlank text = true := by
  constructor
  · intro h
    rw [← allBlank_trimEnd, h]
    rfl
  · intro h
    exact trimEnd_append h []

/-- In front of a text that is not blank nothing is trimmed from the end. -/
theorem trimEnd_append_of_not_allBlank (h : allBlank back = false) (front : List Char) :
    trimEnd (front ++ back) = front ++ trimEnd back := by
  obtain ⟨blanks, hblanks, heq, hlast⟩ := exists_blanks_trimEnd back
  have hne : trimEnd back ≠ [] := by
    rw [ne_eq, trimEnd_eq_nil_iff, h]
    exact Bool.false_ne_true
  conv_lhs => rw [heq, ← List.append_assoc, trimEnd_append hblanks]
  refine trimEnd_of_last fun c hc => hlast c ?_
  rwa [List.getLast?_append_of_ne_nil _ hne] at hc

/-! ### Both ends -/

theorem trim_of_allBlank (h : allBlank text = true) : trim text = [] := by
  rw [trim, trimStart, List.dropWhile_eq_nil_iff.2 (List.all_eq_true.1 h)]
  rfl

/-- A trimmed text has no blank at either end. -/
theorem tight_trim (text : List Char) : Tight (trim text) := by
  obtain ⟨-, -, -, -, -, hhead, hlast⟩ := exists_inside isBlank text
  exact ⟨hhead, hlast⟩

theorem Tight.trim_eq (h : Tight text) : trim text = text := inside_eq_self h.head h.last

/-- Trimming a second time changes nothing. -/
theorem trimmed_trimmed (s : String) : trimmed (trimmed s) = trimmed s := by
  rw [trimmed, trimmed, String.toList_ofList, (tight_trim s.toList).trim_eq]

theorem exists_blanks_trim (text : List Char) :
    ∃ front back, allBlank front = true ∧ allBlank back = true ∧ text = front ++ trim text ++ back := by
  obtain ⟨front, back, hfront, hback, heq, -⟩ := exists_inside isBlank text
  exact ⟨front, back, hfront, hback, heq⟩

/-- Blanks around a tight text are all that is taken. -/
theorem Tight.trim_append (h : Tight core) (blankFront : allBlank front = true) (blankBack : allBlank back = true) :
    trim (front ++ core ++ back) = core :=
  inside_append h.head h.last blankFront blankBack

/-- **The trimmed text is the tight part with nothing but blanks around it.** -/
theorem trim_eq_iff : trim text = core ↔
    Tight core ∧ ∃ front back, allBlank front = true ∧ allBlank back = true ∧ text = front ++ core ++ back := by
  constructor
  · rintro rfl
    exact ⟨tight_trim text, exists_blanks_trim text⟩
  · rintro ⟨htight, front, back, hfront, hback, rfl⟩
    exact htight.trim_append hfront hback

/-- Blanks around a text make no difference. -/
theorem trim_append (blankFront : allBlank front = true) (blankBack : allBlank back = true) (text : List Char) :
    trim (front ++ text ++ back) = trim text := by
  obtain ⟨before, after, hbefore, hafter, htext⟩ := exists_blanks_trim text
  refine trim_eq_iff.2 ⟨tight_trim text, front ++ before, after ++ back, allBlank_append.2 ⟨blankFront, hbefore⟩,
    allBlank_append.2 ⟨hafter, blankBack⟩, ?_⟩
  conv_lhs => rw [htext]
  simp only [List.append_assoc]

theorem trim_trimStart (text : List Char) : trim (trimStart text) = trim text := by
  obtain ⟨front, hfront, heq, -⟩ := exists_blanks_trimStart text
  have hsame := trim_append hfront (show allBlank [] = true from rfl) (trimStart text)
  rw [List.append_nil, ← heq] at hsame
  exact hsame.symm

theorem trim_trimEnd (text : List Char) : trim (trimEnd text) = trim text := by
  obtain ⟨back, hback, heq, -⟩ := exists_blanks_trimEnd text
  have hsame := trim_append (show allBlank [] = true from rfl) hback (trimEnd text)
  rw [List.nil_append, ← heq] at hsame
  exact hsame.symm

theorem trim_eq_nil_iff : trim text = [] ↔ allBlank text = true := by
  constructor
  · intro h
    obtain ⟨front, back, hfront, hback, heq⟩ := exists_blanks_trim text
    rw [heq, h, List.append_nil]
    exact allBlank_append.2 ⟨hfront, hback⟩
  · exact trim_of_allBlank

/-- What is no blank is not taken. -/
theorem mem_trim {c : Char} (hc : c ∈ text) (h : isBlank c = false) : c ∈ trim text := by
  obtain ⟨front, back, hfront, hback, heq⟩ := exists_blanks_trim text
  have notMem {blanks : List Char} (hblanks : allBlank blanks = true) : c ∉ blanks := by
    intro hmem
    exact Bool.false_ne_true (h.symm.trans (List.all_eq_true.1 hblanks c hmem))
  rw [heq, List.mem_append, List.mem_append] at hc
  exact (hc.resolve_right (notMem hback)).resolve_left (notMem hfront)

theorem isEmpty_trim (text : List Char) : (trim text).isEmpty = allBlank text := by
  rw [Bool.eq_iff_iff, List.isEmpty_iff, trim_eq_nil_iff]

/-- Around a character that is no blank the two sides are trimmed apart. -/
theorem trim_append_cons {c : Char} (h : isBlank c = false) (before after : List Char) :
    trim (before ++ c :: after) = trimStart before ++ c :: trimEnd after := by
  obtain ⟨front, hfront, hbefore, hhead⟩ := exists_blanks_trimStart before
  obtain ⟨back, hback, hafter, hlast⟩ := exists_blanks_trimEnd after
  refine trim_eq_iff.2 ⟨⟨?_, ?_⟩, front, back, hfront, hback, ?_⟩
  · intro d hd
    cases hstart : trimStart before with
    | nil =>
        rw [hstart] at hd
        cases hd
        exact h
    | cons e rest =>
        rw [hstart] at hd hhead
        exact hhead d hd
  · intro d hd
    rw [List.getLast?_append, List.getLast?_cons, Option.some_or] at hd
    cases hend : (trimEnd after).getLast? with
    | none =>
        rw [hend] at hd
        cases hd
        exact h
    | some e =>
        rw [hend] at hd hlast
        exact hlast d hd
  · rw [List.append_assoc, List.append_assoc, List.cons_append, ← hafter, ← List.append_assoc, ← hbefore]

end Converge.Chars
