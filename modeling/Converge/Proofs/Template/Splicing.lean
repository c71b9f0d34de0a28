import Converge.Proofs.Pairing
import Converge.Proofs.Text.Occurrence
import Converge.Template.Expression

/-!
# Values in texts

A text is cut into literal parts and expressions before any value is looked up, and each expression sees only the
binding that it is rooted at. So a value is put between the literal parts as it is written, whatever is written in it,
or it takes the place of a text that consists of its expression.

## Main Definitions

* `Template.expressions` — the expressions of a text, as they are told apart when the text is filled.
* `Template.Expression.root` — the binding that an expression is rooted at.
* `Template.Agree` — bindings that have the same values at the roots of the expressions of a text.
* `Template.Splices` — a text with the written values of bindings in place of its expressions.
* `Template.Placed` — what becomes of a text.

## Main Statements

* `Template.valueOfText_congr` — a text sees the bindings at the roots of its expressions only.
* `Template.placed_of_valueOfText` — values are put in place as they are, and not looked through again.
* `Template.eq_string_of_plain` — a text without expressions stays as it is.
-/

namespace Converge

namespace Template

open Chars

variable {first second bindings : Bindings}

/-! ### Expressions -/

/-- The expression that a piece is. -/
def Piece.expression? : Piece → Option (List Char)
  | .expression text => some text
  | _ => none

/-- The expressions of a text: the one that it consists of, or those between its literal parts. -/
def expressions (text : List Char) : List (List Char) :=
  if !contains opening text then []
  else match whole? text with
    | some expression => [expression]
    | none => (pieces text).filterMap Piece.expression?

/-- The name of the binding that an expression is rooted at. -/
def Expression.root (expression : List Char) : String :=
  String.ofList ((splitAt '.' (path expression)).headD [])

/-- The bindings have the same values at the roots of the expressions of a text. -/
def Agree (first second : Bindings) (text : String) : Prop :=
  ∀ expression ∈ expressions text.toList,
    first.get? (Expression.root expression) = second.get? (Expression.root expression)

/-- A text that has a value is without an opening, or consists of an expression, or is made of pieces. -/
theorem valueOfText_cases {text : String} {filled : Document} (h : valueOfText bindings text = .ok filled) :
    (contains opening text.toList = false ∧ filled = .string text) ∨
    (contains opening text.toList = true ∧ ∃ expression, whole? text.toList = some expression ∧
      Expression.resolve bindings expression = .ok filled) ∨
    (contains opening text.toList = true ∧ whole? text.toList = none ∧ ∃ parts,
      (pieces text.toList).mapM (Piece.text bindings) = .ok parts ∧
        filled = .string (String.ofList parts.flatten)) := by
  rw [valueOfText] at h
  split at h
  · next hplain =>
      cases h
      exact .inl ⟨by simpa using hplain, rfl⟩
  · next hopening =>
      have hopening : contains opening text.toList = true := by simpa using hopening
      split at h
      · next expression hwhole => exact .inr (.inl ⟨hopening, expression, hwhole, h⟩)
      · next hwhole =>
          obtain ⟨parts, hparts, rfl⟩ := map_eq_ok_iff.1 h
          exact .inr (.inr ⟨hopening, hwhole, parts, hparts, rfl⟩)

/-- An expression sees the binding at its root only. -/
theorem resolve_congr {expression : List Char}
    (h : first.get? (Expression.root expression) = second.get? (Expression.root expression)) :
    Expression.resolve first expression = Expression.resolve second expression := by
  have hfollow : Expression.follow? first (splitAt '.' (Expression.path expression)) =
      Expression.follow? second (splitAt '.' (Expression.path expression)) := by
    rw [Expression.root] at h
    cases hnames : splitAt '.' (Expression.path expression) with
    | nil => rfl
    | cons name names =>
        rw [hnames, List.headD_cons] at h
        rw [Expression.follow?, Expression.follow?, h]
  rw [Expression.resolve, Expression.resolve, hfollow]

/-- A text sees the bindings at the roots of its expressions only. -/
theorem valueOfText_congr {text : String} (agree : Agree first second text) :
    valueOfText first text = valueOfText second text := by
  rw [Agree, expressions] at agree
  rw [valueOfText, valueOfText]
  split
  · rfl
  · next hopening =>
      rw [if_neg hopening] at agree
      split
      · next expression hwhole =>
          rw [hwhole] at agree
          exact resolve_congr (agree expression List.mem_cons_self)
      · next hwhole =>
          rw [hwhole] at agree
          have hpieces : ∀ piece ∈ pieces text.toList, piece.text first = piece.text second := by
            intro piece hpiece
            cases piece with
            | literal | unclosed => rfl
            | expression expression =>
                have hmem : expression ∈ (pieces text.toList).filterMap Piece.expression? :=
                  List.mem_filterMap.2 ⟨_, hpiece, rfl⟩
                rw [Piece.text, Piece.text, resolve_congr (agree expression hmem)]
          rw [mapM_congr hpieces]

/-! ### Pieces -/

theorem pieces_of_plain {text : List Char} (plain : contains opening text = false) :
    pieces text = [.literal text] := by
  have hnone : breakOn opening text = none := breakOn_eq_none_iff.2 (contains_eq_false_iff.1 plain)
  rw [pieces]
  split
  · rfl
  · next h => cases hnone.symm.trans h

theorem pieces_of_unclosed {text before inside : List Char} (hopen : breakOn opening text = some (before, inside))
    (hclose : breakOn closing inside = none) : pieces text = [.literal before, .unclosed] := by
  rw [pieces]
  split
  · next h => cases hopen.symm.trans h
  · next h =>
      cases hopen.symm.trans h
      split
      · rfl
      · next h => cases hclose.symm.trans h

theorem pieces_of_closed {text before inside expression rest : List Char}
    (hopen : breakOn opening text = some (before, inside))
    (hclose : breakOn closing inside = some (expression, rest)) :
    pieces text = .literal before :: .expression (trim expression) :: pieces rest := by
  rw [pieces]
  split
  · next h => cases hopen.symm.trans h
  · next h =>
      cases hopen.symm.trans h
      split
      · next h => cases hclose.symm.trans h
      · next h =>
          cases hclose.symm.trans h
          rfl

/-- A text with an opening has an expression, or one that is not closed. -/
theorem unclosed_mem_pieces {text : List Char} (hopening : contains opening text = true)
    (plain : (pieces text).filterMap Piece.expression? = []) : .unclosed ∈ pieces text := by
  rw [contains, Option.isSome_iff_exists] at hopening
  obtain ⟨⟨before, inside⟩, hopen⟩ := hopening
  cases hclose : breakOn closing inside with
  | none =>
      rw [pieces_of_unclosed hopen hclose]
      exact List.mem_cons_of_mem _ List.mem_cons_self
  | some cut =>
      rw [pieces_of_closed hopen hclose] at plain
      cases plain

/-- A text without expressions stays as it is. -/
theorem eq_string_of_plain {text : String} {value : Document} (h : valueOfText bindings text = .ok value)
    (plain : expressions text.toList = []) : value = .string text := by
  obtain ⟨-, rfl⟩ | ⟨hopening, expression, hwhole, -⟩ | ⟨hopening, hwhole, parts, hparts, -⟩ := valueOfText_cases h
  · rfl
  · rw [expressions, hopening, hwhole] at plain
    cases plain
  · rw [expressions, hopening, hwhole] at plain
    have hmem : .unclosed ∈ pieces text.toList := unclosed_mem_pieces hopening plain
    obtain ⟨part, -, hpart⟩ := exists_result_of_forall₂ (mapM_eq_ok_iff_forall₂.1 hparts) hmem
    cases hpart

/-! ### Values in place -/

/-- A text with the values of its expressions in their place, each as it is written. What is written there is not
looked through: the rest of the text goes on behind it. -/
inductive Splices (bindings : Bindings) : List Char → List Char → Prop
  | literal {text : List Char} (plain : contains opening text = false) : Splices bindings text text
  | value {before inside rest filled : List Char} {value : Document} (plain : contains opening before = false)
      (ends : contains closing inside = false) (resolves : Expression.resolve bindings (trim inside) = .ok value)
      (others : Splices bindings rest filled) :
      Splices bindings (before ++ opening ++ (inside ++ closing ++ rest)) (before ++ written value ++ filled)

/-- What becomes of a text: the value itself if there is nothing but an expression in it, and else a string again. -/
inductive Placed (bindings : Bindings) (text : String) : Document → Prop
  | whole {inside : List Char} {value : Document} (spans : trim text.toList = opening ++ inside ++ closing)
      (ends : contains closing inside = false) (resolves : Expression.resolve bindings (trim inside) = .ok value) :
      Placed bindings text value
  | spliced {filled : List Char} (splices : Splices bindings text.toList filled) :
      Placed bindings text (.string (String.ofList filled))

/-- The texts of the pieces, one after the other, are such a text. -/
theorem splices_of_mapM {text : List Char} {parts : List (List Char)}
    (h : (pieces text).mapM (Piece.text bindings) = .ok parts) : Splices bindings text parts.flatten := by
  rw [mapM_eq_ok_iff_forall₂] at h
  induction text using pieces.induct generalizing parts with
  | case1 text hopen =>
      have plain : contains opening text = false := contains_eq_false_iff.2 (breakOn_eq_none_iff.1 hopen)
      rw [pieces_of_plain plain] at h
      obtain ⟨part, rest, hpart, hrest, rfl⟩ := List.forall₂_cons_left_iff.1 h
      cases hpart
      cases hrest
      rw [List.flatten_singleton]
      exact .literal plain
  | case2 text before inside hopen hclose =>
      rw [pieces_of_unclosed hopen hclose] at h
      have hmem : Piece.unclosed ∈ [.literal before, Piece.unclosed] := List.mem_cons_of_mem _ List.mem_cons_self
      obtain ⟨part, -, hunclosed⟩ := exists_result_of_forall₂ h hmem
      cases hunclosed
  | case3 text before inside hopen expression rest hclose ih =>
      rw [pieces_of_closed hopen hclose] at h
      obtain ⟨literal, _, hliteral, hrest, rfl⟩ := List.forall₂_cons_left_iff.1 h
      obtain ⟨filled, others, hfilled, hothers, rfl⟩ := List.forall₂_cons_left_iff.1 hrest
      obtain ⟨value, hvalue, rfl⟩ := map_eq_ok_iff.1 hfilled
      cases hliteral
      rw [eq_append_of_breakOn hopen, eq_append_of_breakOn hclose, List.flatten_cons, List.flatten_cons,
        ← List.append_assoc before]
      exact .value ((firstAt_of_breakOn hopen).not_contains (by decide))
        ((firstAt_of_breakOn hclose).not_contains (by decide)) hvalue (ih hothers)

/-- A text consists of an expression if, but for blanks, it begins with an opening and ends with a closing, and has
neither mark in between. -/
theorem whole?_eq_some_iff {text expression : List Char} : whole? text = some expression ↔
    ∃ inside, trim text = opening ++ inside ++ closing ∧ contains opening inside = false ∧
      contains closing inside = false ∧ trim inside = expression := by
  constructor
  · intro h
    obtain ⟨inside, hinside, htrim⟩ := Option.map_eq_some_iff.1 h
    obtain ⟨hmarks, hplain⟩ := Option.filter_eq_some_iff.1 hinside
    obtain ⟨rest, hrest, hinside⟩ := Option.bind_eq_some_iff.1 hmarks
    rw [Bool.and_eq_true, Bool.not_eq_true', Bool.not_eq_true'] at hplain
    refine ⟨inside, ?_, hplain.1, hplain.2, htrim⟩
    rw [afterStart_eq_some_iff.1 hrest, beforeEnd_eq_some_iff.1 hinside, List.append_assoc]
  · rintro ⟨inside, htext, hopening, hclosing, rfl⟩
    have hafter : afterStart opening (trim text) = some (inside ++ closing) := by
      rw [afterStart_eq_some_iff, htext, List.append_assoc]
    rw [whole?, hafter, Option.bind_some, beforeEnd_eq_some_iff.2 rfl, Option.filter_some, hopening, hclosing]
    rfl

/-- **Values are put in place as they are.** What a text becomes is the value of its expression, or the text with the
values of its expressions written between its literal parts. -/
theorem placed_of_valueOfText {text : String} {filled : Document} (h : valueOfText bindings text = .ok filled) :
    Placed bindings text filled := by
  obtain ⟨plain, rfl⟩ | ⟨-, expression, hwhole, hresolve⟩ | ⟨-, -, parts, hparts, rfl⟩ := valueOfText_cases h
  · have hfilled : Document.string text = .string (String.ofList text.toList) := by rw [String.ofList_toList]
    rw [hfilled]
    exact .spliced (.literal plain)
  · obtain ⟨inside, hspans, -, hends, rfl⟩ := whole?_eq_some_iff.1 hwhole
    exact .whole hspans hends hresolve
  · exact .spliced (splices_of_mapM hparts)

end Template

end Converge
