import Converge.Proofs.Template.Whole

/-!
# What the expressions of a text are

Every text is read as a list of expressions, of which the last one may not be closed. An expression starts behind the
next opening and ends in front of the first closing after it; the only texts that are read otherwise are those with one
more brace behind the only expression and nothing but blanks around both. Whether a text has a value, and which fault
it has if not, is decided by its expressions one after the other.

## Main Definitions

* `Template.Reads` — the expressions of a text.
* `Template.Sound` — an expression with a value.
* `Template.Wrong` — what is wrong with an expression without a value.

## Main Statements

* `Template.existsUnique_reads` — a text is read in one way.
* `Template.exists_value_iff` — a text has a value if each of its expressions is sound.
* `Template.valueOfText_eq_error_iff` — the fault of a text is that of its first expression that is not sound.
-/

namespace Converge.Template

open Chars

variable {bindings : Bindings} {text inside : List Char} {expressions : List (Option (List Char))}

/-- The expressions of a text from left to right, without the blanks around them; `none` is an expression that is not
closed. -/
inductive Reads (text : List Char) : List (Option (List Char)) → Prop
  | cut {spans : List Span} {tail : List Char} (cut : Cut text spans tail)
      (ends : ∀ inside, ¬ Encloses text (inside ++ ['\x7d'])) :
      Reads text ((spans.map fun span => some (trim span.expression)) ++ if contains opening tail then [none] else [])
  | brace {inside : List Char} (encloses : Encloses text (inside ++ ['\x7d'])) :
      Reads text [some (trim (inside ++ ['\x7d']))]

/-! ### Expressions one by one -/

/-- An expression is closed, it is a path of names, and the path leads to a value. -/
def Sound (bindings : Bindings) (expression : Option (List Char)) : Prop :=
  ∃ inside, expression = some inside ∧ Expression.isPath (Expression.path inside) = true ∧
    ∃ value, Expression.follow? bindings (splitAt '.' (Expression.path inside)) = some value

/-- What is wrong with an expression that is not sound. -/
inductive Wrong (bindings : Bindings) : Option (List Char) → Fault → Prop
  | unterminated : Wrong bindings none .unterminated
  | malformed {inside : List Char} (noPath : Expression.isPath (Expression.path inside) = false) :
      Wrong bindings (some inside) (.malformed (String.ofList inside))
  | undefined {inside : List Char} (isPath : Expression.isPath (Expression.path inside) = true)
      (nowhere : Expression.follow? bindings (splitAt '.' (Expression.path inside)) = none) :
      Wrong bindings (some inside) (.undefined (String.ofList (Expression.path inside)))

/-- The value of an expression, or what is wrong with it. -/
def resolution (bindings : Bindings) : Option (List Char) → Except Fault Document
  | none => .error .unterminated
  | some inside => Expression.resolve bindings inside

theorem resolution_cases (bindings : Bindings) (expression : Option (List Char)) :
    (Sound bindings expression ∧ ∃ value, resolution bindings expression = .ok value) ∨
      ∃ fault, Wrong bindings expression fault ∧ resolution bindings expression = .error fault := by
  cases expression with
  | none => exact .inr ⟨_, .unterminated, rfl⟩
  | some inside =>
      cases hpath : Expression.isPath (Expression.path inside) with
      | false =>
          refine .inr ⟨_, .malformed hpath, ?_⟩
          rw [resolution, Expression.resolve, hpath]
          rfl
      | true =>
          cases hvalue : Expression.follow? bindings (splitAt '.' (Expression.path inside)) with
          | none =>
              refine .inr ⟨_, .undefined hpath hvalue, ?_⟩
              rw [resolution, Expression.resolve, hpath, hvalue]
              rfl
          | some value =>
              refine .inl ⟨⟨inside, rfl, hpath, value, hvalue⟩, value, ?_⟩
              rw [resolution, Expression.resolve, hpath, hvalue]
              rfl

/-- What is sound has nothing wrong with it. -/
theorem Sound.not_wrong {expression : Option (List Char)} {fault : Fault} (h : Sound bindings expression) :
    ¬ Wrong bindings expression fault := by
  obtain ⟨inside, rfl, hpath, value, hvalue⟩ := h
  intro hwrong
  cases hwrong with
  | malformed noPath => cases hpath.symm.trans noPath
  | undefined _ nowhere => cases hvalue.symm.trans nowhere

/-- With an expression one thing only is wrong. -/
theorem Wrong.unique {expression : Option (List Char)} {fault fault' : Fault} (h : Wrong bindings expression fault)
    (h' : Wrong bindings expression fault') : fault = fault' := by
  cases h with
  | unterminated =>
      cases h'
      rfl
  | malformed noPath =>
      cases h' with
      | malformed => rfl
      | undefined isPath => cases noPath.symm.trans isPath
  | undefined isPath =>
      cases h' with
      | malformed noPath => cases isPath.symm.trans noPath
      | undefined => rfl

theorem exists_resolution_iff {expression : Option (List Char)} :
    (∃ value, resolution bindings expression = .ok value) ↔ Sound bindings expression := by
  constructor
  · rintro ⟨value, hvalue⟩
    obtain ⟨hsound, -⟩ | ⟨fault, -, hfault⟩ := resolution_cases bindings expression
    · exact hsound
    · cases hvalue.symm.trans hfault
  · intro hsound
    obtain ⟨-, hvalue⟩ | ⟨fault, hwrong, -⟩ := resolution_cases bindings expression
    · exact hvalue
    · exact absurd hwrong hsound.not_wrong

theorem resolution_eq_error_iff {expression : Option (List Char)} {fault : Fault} :
    resolution bindings expression = .error fault ↔ Wrong bindings expression fault := by
  obtain ⟨hsound, value, hvalue⟩ | ⟨fault', hwrong, hfault⟩ := resolution_cases bindings expression
  · rw [hvalue]
    refine iff_of_false ?_ hsound.not_wrong
    intro h
    cases h
  · rw [hfault, Except.error.injEq]
    constructor
    · rintro rfl
      exact hwrong
    · exact fun h => hwrong.unique h

/-! ### Texts that are read -/

/-- What a text encloses is its only expression, unless there is a brace at the end of it. -/
theorem cut_of_encloses (h : Encloses text inside) (ends : ∀ expression, inside ≠ expression ++ ['\x7d']) :
    ∃ front back, Cut text [⟨front, inside⟩] back ∧ contains opening back = false := by
  obtain ⟨-, hclosing, front, back, hfront, hback, rfl⟩ := h
  have hdollar : ∀ blanks : List Char, allBlank blanks = true → '$' ∉ blanks := by
    intro blanks hblanks hmem
    exact absurd (List.all_eq_true.1 hblanks '$' hmem) (by decide)
  have hplain : ¬ opening <:+: back := fun hopening => hdollar back hback (hopening.subset List.mem_cons_self)
  have starts : FirstAt opening (front ++ (opening ++ inside ++ closing) ++ back) front
      (inside ++ closing ++ back) := by
    have hfirst : FirstAt opening (front ++ opening ++ (inside ++ closing ++ back)) front (inside ++ closing ++ back) :=
      .of_notMem (hdollar front hfront)
    simp only [List.append_assoc] at hfirst ⊢
    exact hfirst
  have hcontains : contains closing (inside ++ closing ++ back) = true := contains_iff.2 ⟨inside, back, rfl⟩
  obtain ⟨expression, rest, hends⟩ := exists_firstAt hcontains
  obtain ⟨rfl, rfl⟩ | ⟨hbrace, -⟩ := closing_overlap hends hclosing
  · exact ⟨front, back, .span starts hends (.of_plain hplain), contains_eq_false_iff.2 hplain⟩
  · exact absurd hbrace (ends expression)

theorem exists_reads (text : List Char) : ∃ expressions, Reads text expressions := by
  by_cases h : ∃ inside, Encloses text (inside ++ ['\x7d'])
  · obtain ⟨inside, hencloses⟩ := h
    exact ⟨_, .brace hencloses⟩
  · obtain ⟨spans, tail, cut⟩ := exists_cut text
    exact ⟨_, .cut cut (not_exists.1 h)⟩

/-- **A text is read in one way.** -/
theorem existsUnique_reads (text : List Char) : ∃! expressions, Reads text expressions := by
  obtain ⟨expressions, hreads⟩ := exists_reads text
  refine ⟨expressions, hreads, ?_⟩
  intro others hothers
  cases hreads with
  | cut cut ends =>
      cases hothers with
      | cut cut' =>
          obtain ⟨rfl, rfl⟩ := cut.unique cut'
          rfl
      | brace hencloses => exact absurd hencloses (ends _)
  | brace hencloses =>
      cases hothers with
      | cut cut ends => exact absurd hencloses (ends _)
      | brace hencloses' =>
          have hwhole := whole?_eq_some_iff_encloses.2 ⟨_, hencloses, rfl⟩
          rw [whole?_eq_some_iff_encloses.2 ⟨_, hencloses', rfl⟩] at hwhole
          rw [Option.some.inj hwhole]

/-- **The expressions of a text decide about it**, one after the other. -/
theorem valueOfText_of_reads (bindings : Bindings) {text : String} (reads : Reads text.toList expressions) :
    (valueOfText bindings text).map (fun _ => ()) = (expressions.mapM (resolution bindings)).map fun _ => () := by
  cases reads with
  | brace encloses =>
      rw [valueOfText_of_encloses encloses, List.mapM_cons, resolution]
      cases Expression.resolve bindings (trim _) <;> rfl
  | @cut spans tail cut ends =>
      have hspans : (spans.map fun span => some (trim span.expression)).mapM (resolution bindings) =
          spans.mapM (Span.value bindings) := List.mapM_map ..
      rw [List.mapM_append, hspans]
      cases hwhole : whole? text.toList with
      | none =>
          rw [valueOfText_of_embedded hwhole, fillText_of_cut cut]
          cases spans.mapM (Span.value bindings) with
          | error fault => rfl
          | ok values => cases contains opening tail <;> rfl
      | some expression =>
          obtain ⟨inside, hencloses, rfl⟩ := whole?_eq_some_iff_encloses.1 hwhole
          obtain ⟨front, back, cut', hplain⟩ := cut_of_encloses hencloses (by
            rintro expression rfl
            exact ends expression hencloses)
          obtain ⟨rfl, rfl⟩ := cut.unique cut'
          rw [valueOfText_of_encloses hencloses, hplain, List.mapM_cons, Span.value]
          cases Expression.resolve bindings (trim inside) <;> rfl

/-- **A text has a value if each of its expressions is sound.** -/
theorem exists_value_iff {text : String} (reads : Reads text.toList expressions) :
    (∃ value, valueOfText bindings text = .ok value) ↔ ∀ expression ∈ expressions, Sound bindings expression := by
  have hsame := valueOfText_of_reads bindings reads
  have hvalue : (∃ value, valueOfText bindings text = .ok value) ↔
      ∃ values, expressions.mapM (resolution bindings) = .ok values := by
    have hunit {α : Type} (x : Except Fault α) : (∃ a, x = .ok a) ↔ x.map (fun _ => ()) = .ok () := by
      simp only [map_eq_ok_iff, and_true]
    rw [hunit, hunit, hsame]
  simp only [hvalue, exists_mapM_eq_ok_iff, exists_resolution_iff]

/-- **The fault of a text** is that of its first expression that is not sound. -/
theorem valueOfText_eq_error_iff {text : String} {fault : Fault} (reads : Reads text.toList expressions) :
    valueOfText bindings text = .error fault ↔ ∃ before expression after,
      expressions = before ++ expression :: after ∧ (∀ earlier ∈ before, Sound bindings earlier) ∧
        Wrong bindings expression fault := by
  have hsame := valueOfText_of_reads bindings reads
  rw [← map_eq_error_iff (f := fun _ => ()), hsame, map_eq_error_iff, mapM_eq_error_iff]
  simp only [exists_resolution_iff, resolution_eq_error_iff]

end Converge.Template
