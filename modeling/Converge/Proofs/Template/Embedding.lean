import Converge.Proofs.Template.Splicing

/-!
# Expressions embedded in a text

Where the expressions of a text stand is said here without looking at how it is scanned: an expression starts behind
the next opening and ends in front of the first closing after it, and this cut of a text is the only one. What the
text becomes is read off the cut. Braces that open or close nothing, an opening inside of an expression, and characters
of any width around them are parts of the text like any other.

## Main Definitions

* `Template.Span` — literal text and the expression behind it.
* `Template.Cut` — a text cut into spans and what is left behind them.
* `Template.spliced` — the literal text of spans with a value behind each.

## Main Statements

* `Template.Cut.unique`, `Template.exists_cut` — a text has one cut.
* `Template.fillText_of_cut` — the pieces of a text, filled one after the other, are the spans of its cut.
* `Template.embedded_expressions_in_place` — what becomes of a text that does not consist of one expression.
-/

namespace Converge.Template

open Chars

variable {bindings : Bindings} {text tail : List Char}

/-- Literal text, and the expression behind it as it stands between its marks. -/
structure Span where
  literal : List Char
  expression : List Char

namespace Span

/-- The text that a span is cut from. -/
def source (span : Span) : List Char := span.literal ++ opening ++ span.expression ++ closing

/-- The value of the expression of a span; blanks around the expression do not count. -/
def value (bindings : Bindings) (span : Span) : Except Fault Document :=
  Expression.resolve bindings (trim span.expression)

/-- An expression without a value is no path of names, or its path leads nowhere; the fault says which. -/
theorem fault_of_value {span : Span} {fault : Fault} (h : span.value bindings = .error fault) :
    fault = .malformed (String.ofList (trim span.expression)) ∨
      fault = .undefined (String.ofList (Expression.path (trim span.expression))) := by
  rw [value, Expression.resolve] at h
  split at h
  · cases h
    exact .inl rfl
  · split at h
    · cases h
    · cases h
      exact .inr rfl

end Span

/-- The literal text of spans with a written value behind each, and what is left. -/
def spliced (spans : List Span) (values : List Document) (tail : List Char) : List Char :=
  ((spans.zip values).flatMap fun (span, value) => span.literal ++ written value) ++ tail

/-! ### Cuts -/

/-- A text cut from left to right. An expression starts at the next opening and ends at the first closing after it. In
what is left there is no opening, or nothing closes behind the first. -/
inductive Cut : List Char → List Span → List Char → Prop
  | rest {tail : List Char} (last : ∀ before inside, FirstAt opening tail before inside → ¬ closing <:+: inside) :
      Cut tail [] tail
  | span {text literal inside expression others : List Char} {spans : List Span} {tail : List Char}
      (starts : FirstAt opening text literal inside) (ends : FirstAt closing inside expression others)
      (cut : Cut others spans tail) : Cut text (⟨literal, expression⟩ :: spans) tail

namespace Cut

variable {spans spans' : List Span} {tail' : List Char}

theorem of_plain (plain : ¬ opening <:+: text) : Cut text [] text :=
  .rest fun before inside h => absurd ⟨before, inside, h.eq.symm⟩ plain

theorem of_unclosed {before inside : List Char} (starts : FirstAt opening text before inside)
    (unclosed : ¬ closing <:+: inside) : Cut text [] text := by
  refine .rest fun before' inside' h => ?_
  obtain ⟨-, rfl⟩ := starts.unique h
  exact unclosed

/-- Nothing is lost in a cut. -/
theorem eq_append (cut : Cut text spans tail) : text = spans.flatMap Span.source ++ tail := by
  induction cut with
  | rest => rfl
  | span starts ends _ ih =>
      rw [List.flatMap_cons, List.append_assoc, ← ih, Span.source, starts.eq, ends.eq]
      simp only [List.append_assoc]

/-- **A text is cut in one way.** -/
theorem unique (cut : Cut text spans tail) (cut' : Cut text spans' tail') : spans = spans' ∧ tail = tail' := by
  induction cut generalizing spans' tail' with
  | rest last =>
      cases cut' with
      | rest => exact ⟨rfl, rfl⟩
      | span starts ends => exact absurd ⟨_, _, ends.eq.symm⟩ (last _ _ starts)
  | span starts ends _ ih =>
      cases cut' with
      | rest last => exact absurd ⟨_, _, ends.eq.symm⟩ (last _ _ starts)
      | span starts' ends' cut' =>
          obtain ⟨rfl, rfl⟩ := starts.unique starts'
          obtain ⟨rfl, rfl⟩ := ends.unique ends'
          obtain ⟨rfl, rfl⟩ := ih cut'
          exact ⟨rfl, rfl⟩

end Cut

/-- Every text is cut. The induction follows the scan. -/
theorem exists_cut (text : List Char) : ∃ spans tail, Cut text spans tail := by
  induction text using pieces.induct with
  | case1 text hopen => exact ⟨[], text, .of_plain (breakOn_eq_none_iff.1 hopen)⟩
  | case2 text before inside hopen hclose =>
      exact ⟨[], text, .of_unclosed (breakOn_eq_some_iff.1 hopen) (breakOn_eq_none_iff.1 hclose)⟩
  | case3 text before inside hopen expression rest hclose ih =>
      obtain ⟨spans, tail, cut⟩ := ih
      exact ⟨_, tail, .span (breakOn_eq_some_iff.1 hopen) (breakOn_eq_some_iff.1 hclose) cut⟩

/-! ### Filling a cut text -/

/-- The written pieces of a text, one after the other. -/
def fillText (bindings : Bindings) (text : List Char) : Except Fault (List Char) :=
  ((pieces text).mapM (Piece.text bindings)).map List.flatten

theorem fillText_of_plain (plain : ¬ opening <:+: text) : fillText bindings text = .ok text := by
  rw [fillText, pieces_of_plain (contains_eq_false_iff.2 plain)]
  show Except.ok [text].flatten = Except.ok text
  rw [List.flatten_singleton]

theorem fillText_of_unclosed {before inside : List Char} (starts : FirstAt opening text before inside)
    (unclosed : ¬ closing <:+: inside) : fillText bindings text = .error .unterminated := by
  rw [fillText, pieces_of_unclosed (breakOn_eq_some_iff.2 starts) (breakOn_eq_none_iff.2 unclosed)]
  rfl

/-- A span is filled before what is behind it. -/
theorem fillText_of_span {literal inside expression others : List Char} (starts : FirstAt opening text literal inside)
    (ends : FirstAt closing inside expression others) :
    fillText bindings text = do
      let value ← Span.value bindings ⟨literal, expression⟩
      let rest ← fillText bindings others
      return literal ++ written value ++ rest := by
  rw [fillText, pieces_of_closed (breakOn_eq_some_iff.2 starts) (breakOn_eq_some_iff.2 ends), fillText, Span.value]
  simp only [List.mapM_cons, Piece.text]
  cases Expression.resolve bindings (trim expression) with
  | error fault => rfl
  | ok value =>
      cases (pieces others).mapM (Piece.text bindings) with
      | error fault => rfl
      | ok parts => simp [bind, Except.bind, pure, Except.pure, Except.map]

/-- **The pieces of a text are the spans of its cut.** Values are looked up from left to right, and an opening that is
left is the last thing that is found. The induction is on the cut. -/
theorem fillText_of_cut {spans : List Span} (cut : Cut text spans tail) :
    fillText bindings text = spans.mapM (Span.value bindings) >>= fun values =>
      if contains opening tail then .error .unterminated else .ok (spliced spans values tail) := by
  induction cut with
  | @rest tail last =>
      show fillText bindings tail = if contains opening tail then .error .unterminated else .ok tail
      split
      · next hopening =>
          obtain ⟨before, inside, hfirst⟩ := exists_firstAt hopening
          exact fillText_of_unclosed hfirst (last before inside hfirst)
      · next hopening => exact fillText_of_plain (mt contains_iff.2 hopening)
  | @span text literal inside expression others spans tail starts ends _ ih =>
      rw [fillText_of_span starts ends, ih, List.mapM_cons]
      cases Span.value bindings ⟨literal, expression⟩ with
      | error fault => rfl
      | ok value =>
          cases spans.mapM (Span.value bindings) with
          | error fault => rfl
          | ok values =>
              cases contains opening tail with
              | true => rfl
              | false => simp [bind, Except.bind, pure, Except.pure, spliced]

/-- A text that does not consist of one expression becomes a string made of its pieces. -/
theorem valueOfText_of_embedded {text : String} (embedded : whole? text.toList = none) :
    valueOfText bindings text = (fillText bindings text.toList).map fun chars => .string (String.ofList chars) := by
  rw [valueOfText]
  split
  · next hplain =>
      rw [fillText_of_plain (contains_eq_false_iff.1 (by simpa using hplain))]
      show Except.ok (Document.string text) = .ok (.string (String.ofList text.toList))
      rw [String.ofList_toList]
  · rw [embedded, fillText]
    cases (pieces text.toList).mapM (Piece.text bindings) <;> rfl

/-! ### Embedded expressions -/

/-- **Expressions embedded in a text are written in place.** Take any text that does not consist of one expression, and
any bindings. The text is cut in one way only, and the cut loses nothing. If each of its expressions has a value and no
opening is left, the text becomes the string in which each expression is replaced by its value as it is written, with
the literal text between them as it was. Else the fault is that of the leftmost expression without a value, or that of
the opening which is left. A text without an opening stays as it is. -/
theorem embedded_expressions_in_place (bindings : Bindings) {text : String} (embedded : whole? text.toList = none) :
    ∃ spans tail,
      (∀ spans' tail', Cut text.toList spans' tail' ↔ spans' = spans ∧ tail' = tail) ∧
      text.toList = spans.flatMap Span.source ++ tail ∧
      (∀ values, List.Forall₂ (fun span value => span.value bindings = .ok value) spans values →
        ¬ opening <:+: tail →
          valueOfText bindings text = .ok (.string (String.ofList (spliced spans values tail)))) ∧
      (∀ before span after fault, spans = before ++ span :: after →
        (∀ earlier ∈ before, ∃ value, earlier.value bindings = .ok value) → span.value bindings = .error fault →
          valueOfText bindings text = .error fault ∧
            (fault = .malformed (String.ofList (trim span.expression)) ∨
              fault = .undefined (String.ofList (Expression.path (trim span.expression))))) ∧
      ((∀ span ∈ spans, ∃ value, span.value bindings = .ok value) → opening <:+: tail →
        valueOfText bindings text = .error .unterminated) ∧
      (¬ opening <:+: text.toList → valueOfText bindings text = .ok (.string text)) := by
  obtain ⟨spans, tail, cut⟩ := exists_cut text.toList
  have hvalue : valueOfText bindings text = _ := valueOfText_of_embedded embedded
  refine ⟨spans, tail, ?_, cut.eq_append, ?_, ?_, ?_, ?_⟩
  · intro spans' tail'
    constructor
    · intro cut'
      exact cut'.unique cut
    · rintro ⟨rfl, rfl⟩
      exact cut
  · intro values hvalues hplain
    rw [hvalue, fillText_of_cut cut, mapM_eq_ok_iff_forall₂.2 hvalues, contains_eq_false_iff.2 hplain]
    rfl
  · intro before span after fault hspans hbefore hfails
    have hmapM := mapM_eq_error_iff.2 ⟨before, span, after, hspans, hbefore, hfails⟩
    refine ⟨?_, Span.fault_of_value hfails⟩
    rw [hvalue, fillText_of_cut cut, hmapM]
    rfl
  · intro hall hopening
    obtain ⟨values, hvalues⟩ := exists_mapM_eq_ok_iff.2 hall
    rw [hvalue, fillText_of_cut cut, hvalues, contains_iff.2 hopening]
    rfl
  · intro hplain
    rw [hvalue, fillText_of_plain hplain]
    show Except.ok (Document.string (String.ofList text.toList)) = .ok (.string text)
    rw [String.ofList_toList]

/-- A closing that closes nothing, two expressions without anything between them, a value with braces and a character
of two bytes. -/
theorem embedded_expressions_in_place_among_braces :
    let bindings : Bindings := .ofList [("a", .string "$\x7b\x7b"), ("b", .array [.bool true])]
    let text := "\x7d\x7d$\x7b\x7ba\x7d\x7d$\x7b\x7b b.0 \x7d\x7dü"
    let spans : List Span := [⟨['\x7d', '\x7d'], ['a']⟩, ⟨[], " b.0 ".toList⟩]
    whole? text.toList = none ∧ Cut text.toList spans ['ü'] ∧
      valueOfText bindings text = .ok (.string "\x7d\x7d$\x7b\x7btrueü") := by
  intro bindings text spans
  have embedded : whole? text.toList = none := by decide +kernel
  have starts : FirstAt opening text.toList ['\x7d', '\x7d'] "a\x7d\x7d$\x7b\x7b b.0 \x7d\x7dü".toList :=
    breakOn_eq_some_iff.1 (by decide +kernel)
  have ends : FirstAt closing "a\x7d\x7d$\x7b\x7b b.0 \x7d\x7dü".toList ['a'] "$\x7b\x7b b.0 \x7d\x7dü".toList :=
    breakOn_eq_some_iff.1 (by decide +kernel)
  have starts' : FirstAt opening "$\x7b\x7b b.0 \x7d\x7dü".toList [] " b.0 \x7d\x7dü".toList :=
    breakOn_eq_some_iff.1 (by decide +kernel)
  have ends' : FirstAt closing " b.0 \x7d\x7dü".toList " b.0 ".toList ['ü'] :=
    breakOn_eq_some_iff.1 (by decide +kernel)
  have cut : Cut text.toList spans ['ü'] := .span starts ends (.span starts' ends' (.of_plain (by decide +kernel)))
  obtain ⟨spans', tail', hcut, -, hplain, -⟩ := embedded_expressions_in_place bindings embedded
  obtain ⟨rfl, rfl⟩ := (hcut _ _).1 cut
  have hvalues : List.Forall₂ (fun span value => Span.value bindings span = .ok value) spans
      [.string "$\x7b\x7b", .bool true] := .cons (by decide +kernel) (.cons (by decide +kernel) .nil)
  have htext : String.ofList (spliced spans [.string "$\x7b\x7b", .bool true] ['ü']) =
      "\x7d\x7d$\x7b\x7btrueü" := by decide +kernel
  refine ⟨embedded, cut, ?_⟩
  rw [← htext]
  exact hplain _ hvalues (by decide +kernel)

end Converge.Template
