import Converge.Arguments
import Converge.Proofs.Duration.Literal
import Converge.Proofs.Table
import Converge.Proofs.Text.Occurrence

/-!
# What an argument becomes

Most arguments say themselves what they are. A text is told apart by what it says: it may be the literal of a duration
or the name of a document file, and any other text is a template. A dynamic value is a text or an object, whose members
are bindings. All this is said here of the texts and the members themselves, by a relation in which nothing is tried in
any order.

## Main Definitions

* `Path.NamesDocument` — a text is the name of a document file.
* `Item.OfText` — what a text becomes.
* `Argument.Becomes` — what an argument becomes.

## Main Statements

* `Path.looksLikeDocument_iff` — the names of document files are told from other texts.
* `Argument.item_eq_ok_iff` — an argument becomes one item at most, and which.
* `Argument.Becomes.unique` — of one argument there is one item only.
-/

namespace Converge

open Chars

variable {text : String} {item : Item} {argument : Argument}

/-! ### Names of files -/

/-- A text is the name of a document file: without the blanks around it, it stands on one line, has no `: ` in it, and
ends like such a name, in letters of either case. -/
structure Path.NamesDocument (text : String) : Prop where
  oneLine : '\n' ∉ trim text.toList
  noMember : ¬ [':', ' '] <:+: trim text.toList
  ending : ∃ stem ending, trim text.toList = stem ++ ending ∧ String.ofList (ending.map asciiLower) ∈ documentEndings

/-- A text ends in letters of either case as its small letters do. -/
theorem Chars.exists_ending_iff {name ending : List Char} :
    (∃ front, name.map asciiLower = front ++ ending) ↔
      ∃ stem last, name = stem ++ last ∧ last.map asciiLower = ending := by
  constructor
  · rintro ⟨front, hname⟩
    obtain ⟨stem, last, rfl, -, hlast⟩ := List.map_eq_append_iff.1 hname
    exact ⟨stem, last, rfl, hlast⟩
  · rintro ⟨stem, last, rfl, rfl⟩
    exact ⟨stem.map asciiLower, List.map_append⟩

theorem Path.looksLikeDocument_iff : looksLikeDocument text = true ↔ NamesDocument text := by
  have hline : contains ['\n'] (trim text.toList) = false ↔ '\n' ∉ trim text.toList := by
    rw [contains_eq_false_iff, List.singleton_infix_iff]
  have hending : (documentEndings.any fun ending =>
      (beforeEnd ending.toList ((trim text.toList).map asciiLower)).isSome) = true ↔
        ∃ stem ending, trim text.toList = stem ++ ending ∧
          String.ofList (ending.map asciiLower) ∈ documentEndings := by
    simp only [List.any_eq_true, Option.isSome_iff_exists, beforeEnd_eq_some_iff, exists_ending_iff]
    constructor
    · rintro ⟨ending, hmem, stem, last, hname, hlast⟩
      refine ⟨stem, last, hname, ?_⟩
      rwa [hlast, String.ofList_toList]
    · rintro ⟨stem, last, hname, hmem⟩
      exact ⟨_, hmem, stem, last, hname, String.toList_ofList.symm⟩
  simp only [looksLikeDocument, Bool.and_eq_true, Bool.not_eq_true', hline, contains_eq_false_iff, hending]
  constructor
  · rintro ⟨⟨hline, hmember⟩, hending⟩
    exact ⟨hline, hmember, hending⟩
  · rintro ⟨hline, hmember, hending⟩
    exact ⟨⟨hline, hmember⟩, hending⟩

/-! ### Texts -/

/-- What a text becomes: a duration if it is the literal of one, a file if it is the name of one, and else a template,
which is not empty once its common indentation is taken away. -/
inductive Item.OfText (text : String) : Item → Prop
  | duration {span : Duration} (literal : Duration.Denotes (trim text.toList) span) : OfText text (.duration span)
  | file (noLiteral : ∀ span, ¬ Duration.Denotes (trim text.toList) span) (named : Path.NamesDocument text) :
      OfText text (.template (.file (trimmed text)))
  | template (noLiteral : ∀ span, ¬ Duration.Denotes (trim text.toList) span)
      (unnamed : ¬ Path.NamesDocument text) (filled : Text.dedent text ≠ "") :
      OfText text (.template (.inline (Text.dedent text)))

theorem Item.ofTemplate_eq_ok_iff :
    ofTemplate text = .ok item ↔ Text.dedent text ≠ "" ∧ item = .template (.inline (Text.dedent text)) := by
  unfold ofTemplate
  by_cases h : Text.dedent text = ""
  · simp [h]
  · have hempty : (Text.dedent text).isEmpty = false := by simpa using h
    simp only [hempty]
    constructor
    · rintro ⟨⟩
      exact ⟨h, rfl⟩
    · rintro ⟨-, rfl⟩
      rfl

/-- A text that is no literal denotes no duration. -/
theorem Duration.ofLiteral?_eq_none_iff :
    ofLiteral? text = none ↔ ∀ span, ¬ Denotes (trim text.toList) span := by
  rw [Option.eq_none_iff_forall_ne_some]
  exact forall_congr' fun span => not_congr ofLiteralChars?_eq_some_iff

theorem Item.ofText_eq_ok_iff : ofText text = .ok item ↔ OfText text item := by
  unfold ofText
  cases hliteral : Duration.ofLiteral? text with
  | some span =>
      have hdenotes := Duration.ofLiteralChars?_eq_some_iff.1 hliteral
      constructor
      · rintro ⟨⟩
        exact .duration hdenotes
      · rintro (hother | ⟨hnone, -⟩ | ⟨hnone, -, -⟩)
        · have hspan := Duration.ofLiteralChars?_eq_some_iff.2 hother
          cases hliteral.symm.trans hspan
          rfl
        · exact absurd hdenotes (hnone span)
        · exact absurd hdenotes (hnone span)
  | none =>
      have hnone := Duration.ofLiteral?_eq_none_iff.1 hliteral
      by_cases hnamed : Path.NamesDocument text
      · simp only [Path.looksLikeDocument_iff.2 hnamed, if_true]
        constructor
        · rintro ⟨⟩
          exact .file hnone hnamed
        · rintro (hother | - | ⟨-, hunnamed, -⟩)
          · exact absurd hother (hnone _)
          · rfl
          · exact absurd hnamed hunnamed
      · simp only [eq_false_of_ne_true (mt Path.looksLikeDocument_iff.1 hnamed), Bool.false_eq_true, if_false]
        rw [ofTemplate_eq_ok_iff]
        constructor
        · rintro ⟨hfilled, rfl⟩
          exact .template hnone hnamed hfilled
        · rintro (hother | ⟨-, hnamed'⟩ | ⟨-, -, hfilled⟩)
          · exact absurd hother (hnone _)
          · exact absurd hnamed' hnamed
          · exact ⟨hfilled, rfl⟩

/-! ### Arguments -/

/-- What an argument becomes. The bindings of an object have its names in the order of their first appearance, each with
the value that comes last under it. -/
inductive Argument.Becomes : Argument → Item → Prop
  | text {given : String} {item : Item} (said : Item.OfText given item) : Becomes (.text given) item
  | string {given : String} {item : Item} (said : Item.OfText given item) : Becomes (.value (.string given)) item
  | members {members : Members} {layer : Bindings} (names : layer.keys = (members.map Prod.fst).eraseDups)
      (values : ∀ name value, layer.get? name = some value ↔
        ∃ earlier later, members = earlier ++ (name, value) :: later ∧ ∀ entry ∈ later, entry.1 ≠ name) :
      Becomes (.value (.object members)) (.bindings layer)
  | inline {given : String} (filled : Text.dedent given ≠ "") :
      Becomes (.template (.inline given)) (.template (.inline (Text.dedent given)))
  | file (path : String) : Becomes (.template (.file path)) (.template (.file path))
  | bindings (layer : Bindings) : Becomes (.bindings layer) (.bindings layer)
  | object (handle : Handle) : Becomes (.object handle) (.object handle)
  | objects (handles : List Handle) : Becomes (.objects handles) (.objects handles)
  | duration (span : Duration) : Becomes (.duration span) (.duration span)
  | timeout (span : Duration) : Becomes (.timeout span) (.timeout span)
  | interval (span : Duration) : Becomes (.interval span) (.interval span)
  | selector (picked : Selector) : Becomes (.selector picked) (.selector picked)

/-- The members of an object are its bindings. -/
theorem Argument.becomes_members (members : Members) :
    (Argument.value (.object members)).Becomes (.bindings (Table.ofList members)) :=
  .members (Table.keys_ofList members) fun _ _ => Table.get?_ofList_eq_some_iff

/-- The bindings of an object are given by their names and the values under them. -/
theorem Argument.Becomes.eq_ofList {members : Members}
    (h : (Argument.value (.object members)).Becomes item) : item = .bindings (Table.ofList members) := by
  cases h with
  | members names values =>
      refine congrArg Item.bindings (Table.ext_get? (names.trans (Table.keys_ofList members).symm) fun name => ?_)
      ext value
      rw [values, Table.get?_ofList_eq_some_iff]

/-- **What an argument becomes.** An argument that becomes nothing is a template that is empty, or a dynamic value that
is neither an object nor a string. -/
theorem Argument.item_eq_ok_iff : argument.item = .ok item ↔ argument.Becomes item := by
  cases argument with
  | text given =>
      constructor
      · intro h
        exact .text (Item.ofText_eq_ok_iff.1 h)
      · intro h
        cases h with
        | text said => exact Item.ofText_eq_ok_iff.2 said
  | template source =>
      cases source with
      | inline given =>
          show Item.ofTemplate given = .ok item ↔ _
          rw [Item.ofTemplate_eq_ok_iff]
          constructor
          · rintro ⟨filled, rfl⟩
            exact .inline filled
          · intro h
            cases h with
            | inline filled => exact ⟨filled, rfl⟩
      | file path =>
          constructor
          · rintro ⟨⟩
            exact .file path
          · rintro ⟨⟩
            rfl
  | value document =>
      cases document with
      | object members =>
          constructor
          · rintro ⟨⟩
            exact becomes_members members
          · intro h
            rw [h.eq_ofList]
            rfl
      | string given =>
          constructor
          · intro h
            exact .string (Item.ofText_eq_ok_iff.1 h)
          · intro h
            cases h with
            | string said => exact Item.ofText_eq_ok_iff.2 said
      | null | bool | number | array =>
          constructor
          · rintro ⟨⟩
          · rintro ⟨⟩
  | bindings | object | objects | duration | timeout | interval | selector =>
      constructor
      · rintro ⟨⟩
        constructor
      · rintro ⟨⟩
        rfl

/-- Of one argument there is one item only. -/
theorem Argument.Becomes.unique {other : Item} (h : argument.Becomes item) (h' : argument.Becomes other) :
    item = other :=
  Except.ok.inj ((item_eq_ok_iff.2 h).symm.trans (item_eq_ok_iff.2 h'))

end Converge
