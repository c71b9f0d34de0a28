import Converge.Proofs.Template.Embedding
import Converge.Proofs.Text.Trimming

/-!
# Texts that consist of one expression

A text with blanks only around its expression takes the value itself, and any other text takes the value as it is
written. The two are told apart by another rule than the one that ends an expression: a text consists of an expression
if it begins with an opening and ends with a closing, and neither mark occurs in between. The rules agree on every text
with one opening but for those where one more brace follows the expression and then nothing but blanks. There the last
two of the three braces are taken for the closing, and the first one for a part of the expression.

## Main Definitions

* `Template.Encloses` — a text with blanks only around one pair of marks.

## Main Statements

* `Template.whole?_eq_some_iff_encloses` — the texts that are taken for one expression.
* `Template.encloses_iff` — what such a text encloses, said by where its opening and its first closing are.
* `Template.alone_or_in_place` — what becomes of a text with one expression.
* `Template.brace_behind_expression` — a text with one more brace behind its expression.
-/

namespace Converge.Template

open Chars

variable {bindings : Bindings} {text front inside expression back : List Char}

/-- A text has nothing but blanks around one opening and one closing, and neither mark in between. -/
def Encloses (text inside : List Char) : Prop :=
  ¬ opening <:+: inside ∧ ¬ closing <:+: inside ∧ ∃ front back, allBlank front = true ∧ allBlank back = true ∧
    text = front ++ (opening ++ inside ++ closing) ++ back

/-- There is no blank at the ends of what stands between two marks, the marks included. -/
theorem tight_marked (inside : List Char) : Tight (opening ++ inside ++ closing) where
  head := by
    intro c hc
    cases hc
    decide
  last := by
    intro c hc
    rw [List.getLast?_append] at hc
    cases hc
    decide

/-- **A text is taken for one expression** if it encloses one. -/
theorem whole?_eq_some_iff_encloses :
    whole? text = some expression ↔ ∃ inside, Encloses text inside ∧ trim inside = expression := by
  have htrim (inside : List Char) : trim text = opening ++ inside ++ closing ↔ ∃ front back, allBlank front = true ∧
      allBlank back = true ∧ text = front ++ (opening ++ inside ++ closing) ++ back := by
    rw [trim_eq_iff]
    exact and_iff_right (tight_marked inside)
  rw [whole?_eq_some_iff]
  apply exists_congr
  intro inside
  rw [htrim, contains_eq_false_iff, contains_eq_false_iff, Encloses]
  constructor
  · rintro ⟨hblanks, hopening, hclosing, rfl⟩
    exact ⟨⟨hopening, hclosing, hblanks⟩, rfl⟩
  · rintro ⟨⟨hopening, hclosing, hblanks⟩, rfl⟩
    exact ⟨hblanks, hopening, hclosing, rfl⟩

/-! ### The closing that is taken -/

/-- Between the first opening and the last closing of what a text encloses there may be one brace more than up to the
first closing. -/
theorem closing_overlap {inside rest : List Char} (ends : FirstAt closing (inside ++ closing ++ rest) expression back)
    (unclosed : ¬ closing <:+: inside) :
    (inside = expression ∧ rest = back) ∨ (inside = expression ++ ['\x7d'] ∧ back = '\x7d' :: rest) := by
  have hle : expression.length ≤ inside.length := ends.first inside rest rfl
  have heq : expression ++ (closing ++ back) = inside ++ (closing ++ rest) := by
    rw [← List.append_assoc, ← List.append_assoc, ← ends.eq]
  obtain ⟨extra, rfl, hextra⟩ | ⟨extra, rfl, hextra⟩ := List.append_eq_append_iff.1 heq
  · -- What is enclosed goes on behind the first closing by less than a closing.
    rcases extra with - | ⟨c, - | ⟨d, extra⟩⟩
    · exact .inl ⟨List.append_nil expression, (List.append_cancel_left hextra).symm⟩
    · obtain ⟨rfl, hback⟩ := List.cons_eq_cons.1 hextra
      exact .inr ⟨rfl, (List.cons_eq_cons.1 hback).2⟩
    · obtain ⟨rfl, htail⟩ := List.cons_eq_cons.1 hextra
      obtain ⟨rfl, -⟩ := List.cons_eq_cons.1 htail
      exact absurd ⟨expression, extra, List.append_assoc _ closing extra⟩ unclosed
  · rw [List.length_append] at hle
    obtain rfl : extra = [] := List.eq_nil_of_length_eq_zero (by omega)
    exact .inl ⟨(List.append_nil inside).symm, List.append_cancel_left hextra⟩

/-- What stands in front of the first closing has no closing in it, with one more brace neither. -/
theorem unclosed_of_firstAt {brace : List Char} (ends : FirstAt closing inside expression back)
    (short : brace.length ≤ 1) (hback : brace <+: closing ++ back) : ¬ closing <:+: expression ++ brace := by
  rintro ⟨earlier, rest, hinside⟩
  obtain ⟨behind, hbehind⟩ := hback
  have hle := ends.first earlier (rest ++ behind) (by
    rw [ends.eq, List.append_assoc, ← hbehind, ← List.append_assoc, ← List.append_assoc, ← hinside])
  have hlength := congrArg List.length hinside
  have htwo : closing.length = 2 := rfl
  simp only [List.length_append] at hlength
  omega

/-- **What a text with one opening encloses.** It is what stands in front of the first closing if there is nothing but
blanks around it, and else there is one more brace behind it. -/
theorem encloses_iff {enclosed : List Char} (once : OnlyAt opening text front inside)
    (ends : FirstAt closing inside expression back) : Encloses text enclosed ↔ allBlank front = true ∧
      ((enclosed = expression ∧ allBlank back = true) ∨
        (enclosed = expression ++ ['\x7d'] ∧ ∃ blanks, allBlank blanks = true ∧ back = '\x7d' :: blanks)) := by
  constructor
  · rintro ⟨-, hclosing, before, blanks, hbefore, hblanks, htext⟩
    obtain rfl : before = front := once.only before (enclosed ++ closing ++ blanks) (by
      rw [htext]
      simp only [List.append_assoc])
    have hinside : inside = enclosed ++ closing ++ blanks := by
      have heq := once.eq.symm.trans htext
      simp only [List.append_assoc, List.append_cancel_left_eq] at heq ⊢
      exact heq
    rw [hinside] at ends
    obtain ⟨rfl, rfl⟩ | ⟨rfl, rfl⟩ := closing_overlap ends hclosing
    · exact ⟨hbefore, .inl ⟨rfl, hblanks⟩⟩
    · exact ⟨hbefore, .inr ⟨rfl, blanks, hblanks, rfl⟩⟩
  · have hopening : ∀ part rest, inside = part ++ rest → ¬ opening <:+: part := by
      rintro part rest rfl hpart
      exact once.not_infix_after (by decide) (hpart.trans (List.prefix_append part rest).isInfix)
    rintro ⟨hfront, ⟨rfl, hback⟩ | ⟨rfl, blanks, hblanks, rfl⟩⟩
    · refine ⟨hopening enclosed (closing ++ back) ?_, ?_, front, back, hfront, hback, ?_⟩
      · rw [ends.eq, List.append_assoc]
      · exact ends.not_infix_before (by decide)
      · rw [once.eq, ends.eq]
        simp only [List.append_assoc]
    · have hbrace : inside = (expression ++ ['\x7d']) ++ (closing ++ blanks) := by
        rw [ends.eq]
        simp [closing]
      refine ⟨hopening _ _ hbrace, ?_, front, blanks, hfront, hblanks, ?_⟩
      · exact unclosed_of_firstAt ends (Nat.le_refl 1) ⟨'\x7d' :: '\x7d' :: blanks, rfl⟩
      · rw [once.eq, hbrace]
        simp only [List.append_assoc]

/-! ### Values -/

theorem valueOfText_of_encloses {text : String} (h : Encloses text.toList inside) :
    valueOfText bindings text = Expression.resolve bindings (trim inside) := by
  have hwhole : whole? text.toList = some (trim inside) := whole?_eq_some_iff_encloses.2 ⟨inside, h, rfl⟩
  have hopening : contains opening text.toList = true := by
    obtain ⟨-, -, front, back, -, -, htext⟩ := h
    rw [contains_iff, htext]
    exact ⟨front, inside ++ closing ++ back, by simp only [List.append_assoc]⟩
  rw [valueOfText, hopening, hwhole]
  rfl

theorem whole?_eq_none (h : ∀ inside, ¬ Encloses text inside) : whole? text = none := by
  rw [Option.eq_none_iff_forall_ne_some]
  intro expression hwhole
  obtain ⟨inside, hencloses, -⟩ := whole?_eq_some_iff_encloses.1 hwhole
  exact h inside hencloses

/-- **What becomes of a text with one expression.** The opening occurs once in the text, the expression behind it ends
at the first closing, and it has a value. With nothing but blanks around the expression the text becomes the value
itself. With one brace more behind the expression and else nothing but blanks it becomes what an expression comes to
that has this brace at its end. Every other text becomes the text with the value as it is written in the place of the
expression. -/
theorem alone_or_in_place {text : String} {value : Document} (once : OnlyAt opening text.toList front inside)
    (ends : FirstAt closing inside expression back)
    (resolves : Expression.resolve bindings (trim expression) = .ok value) :
    (allBlank front = true ∧ allBlank back = true → valueOfText bindings text = .ok value) ∧
    (allBlank front = true ∧ trimEnd back = ['\x7d'] →
      valueOfText bindings text = Expression.resolve bindings (trim (expression ++ ['\x7d']))) ∧
    (¬ (allBlank front = true ∧ (allBlank back = true ∨ trimEnd back = ['\x7d'])) →
      valueOfText bindings text = .ok (.string (String.ofList (front ++ written value ++ back)))) := by
  have hbrace : trimEnd back = ['\x7d'] ↔ ∃ blanks, allBlank blanks = true ∧ back = '\x7d' :: blanks := by
    constructor
    · intro h
      obtain ⟨blanks, hblanks, hback, -⟩ := exists_blanks_trimEnd back
      rw [h] at hback
      exact ⟨blanks, hblanks, hback⟩
    · rintro ⟨blanks, hblanks, rfl⟩
      exact trimEnd_append hblanks ['\x7d']
  refine ⟨?_, ?_, ?_⟩
  · rintro ⟨hfront, hback⟩
    rw [← resolves]
    exact valueOfText_of_encloses ((encloses_iff once ends).2 ⟨hfront, .inl ⟨rfl, hback⟩⟩)
  · rintro ⟨hfront, hback⟩
    exact valueOfText_of_encloses ((encloses_iff once ends).2 ⟨hfront, .inr ⟨rfl, hbrace.1 hback⟩⟩)
  · intro hother
    have hnone : whole? text.toList = none := by
      apply whole?_eq_none
      intro enclosed hencloses
      obtain ⟨hfront, ⟨-, hback⟩ | ⟨-, hback⟩⟩ := (encloses_iff once ends).1 hencloses
      · exact hother ⟨hfront, .inl hback⟩
      · exact hother ⟨hfront, .inr (hbrace.2 hback)⟩
    have hplain : ¬ opening <:+: back := by
      intro hback
      have hsuffix : back <:+ inside := ⟨expression ++ closing, ends.eq.symm⟩
      exact once.not_infix_after (by decide) (hback.trans hsuffix.isInfix)
    have starts : FirstAt opening text.toList front inside := ((onlyAt_iff (by decide)).1 once).1
    have cut : Cut text.toList [⟨front, expression⟩] back := .span starts ends (.of_plain hplain)
    have hvalues : [⟨front, expression⟩].mapM (Span.value bindings) = .ok [value] :=
      mapM_eq_ok_iff_forall₂.2 (.cons resolves .nil)
    rw [valueOfText_of_embedded hnone, fillText_of_cut cut, hvalues, contains_eq_false_iff.2 hplain]
    show Except.ok (Document.string (String.ofList (front ++ written value ++ [] ++ back))) = _
    rw [List.append_nil]

/-- A brace in front of the expression and one behind it stay where they are. -/
theorem in_place_between_braces :
    let bindings : Bindings := .ofList [("x", .ofNat 1)]
    let text := "\x7d$\x7b\x7b x \x7d\x7d\x7d"
    OnlyAt opening text.toList ['\x7d'] " x \x7d\x7d\x7d".toList ∧
      FirstAt closing " x \x7d\x7d\x7d".toList " x ".toList ['\x7d'] ∧
      valueOfText bindings text = .ok (.string "\x7d1\x7d") := by
  intro bindings text
  have once : OnlyAt opening text.toList ['\x7d'] " x \x7d\x7d\x7d".toList :=
    (onlyAt_iff (by decide)).2 ⟨breakOn_eq_some_iff.1 (by decide +kernel), contains_eq_false_iff.1 (by decide +kernel)⟩
  have ends : FirstAt closing " x \x7d\x7d\x7d".toList " x ".toList ['\x7d'] :=
    breakOn_eq_some_iff.1 (by decide +kernel)
  have resolves : Expression.resolve bindings (trim " x ".toList) = .ok (.ofNat 1) := by decide +kernel
  refine ⟨once, ends, ?_⟩
  exact (alone_or_in_place once ends resolves).2.2 (by decide +kernel)

/-- Without the brace in front the one behind is taken for the end of the name: the name is bound, and yet nothing is
found. -/
theorem brace_behind_expression :
    let bindings : Bindings := .ofList [("x", .ofNat 1)]
    let text := "$\x7b\x7b x \x7d\x7d\x7d"
    OnlyAt opening text.toList [] " x \x7d\x7d\x7d".toList ∧
      FirstAt closing " x \x7d\x7d\x7d".toList " x ".toList ['\x7d'] ∧
      Expression.resolve bindings (trim " x ".toList) = .ok (.ofNat 1) ∧
      valueOfText bindings text = .error (.undefined "x \x7d") := by
  intro bindings text
  have once : OnlyAt opening text.toList [] " x \x7d\x7d\x7d".toList :=
    (onlyAt_iff (by decide)).2 ⟨breakOn_eq_some_iff.1 (by decide +kernel), contains_eq_false_iff.1 (by decide +kernel)⟩
  exact ⟨once, breakOn_eq_some_iff.1 (by decide +kernel), by decide +kernel, by decide +kernel⟩

end Converge.Template
