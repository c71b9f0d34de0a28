import Converge.Proofs.Pairing
import Converge.Proofs.Table
import Converge.Proofs.Text.Splitting
import Converge.Proofs.Text.Trimming
import Converge.Selector

/-!
# Label expressions

An expression is read clause by clause, and labels are written without any marks of quotation. That this can be read
again is due to what reading leaves out: a name that was read has no comma and no `=`, a value has no comma, and neither
has blanks around it. Labels of this kind are clear, and clear labels are what they are written as.

## Main Definitions

* `Selector.Asks` — the label that a clause asks for.
* `Selector.Clear` — a label that can be told from its text.

## Main Statements

* `Selector.withExpression?_eq_some_iff` — which expressions are accepted, and with which labels.
* `Selector.withExpression?_expression` — clear labels are read again.
* `Selector.accepted_labels_read_again` — both for all expressions.
-/

namespace Converge.Selector

open Chars

variable {clause : List Char} {label : String × String}

/-- A clause asks for a label: in front of its first `=` is the name and behind it the value, both with blanks around
them that do not count, and the name is more than blanks. -/
def Asks (clause : List Char) (label : String × String) : Prop :=
  ∃ name value, clause = name ++ '=' :: value ∧ '=' ∉ name ∧ allBlank name = false ∧
    label = (String.ofList (trim name), String.ofList (trim value))

/-- The clauses of an expression that are not blank, as they stand between its commas. -/
def parts (text : String) : List (List Char) := (splitAt ',' text.toList).filter (!allBlank ·)

/-! ### Clauses -/

theorem clause?_eq_some_iff : clause? clause = some label ↔ Asks clause label := by
  rw [clause?, Option.bind_eq_some_iff, Prod.exists]
  refine exists_congr fun name => exists_congr fun value => ?_
  rw [splitFirst_eq_some_iff, and_assoc]
  refine and_congr_right fun _ => and_congr_right fun _ => ?_
  dsimp only
  rw [isEmpty_trim]
  cases allBlank name with
  | true => simp
  | false => simp [eq_comm]

/-- Blanks around a clause make no difference. -/
theorem clause?_trim (clause : List Char) : clause? (trim clause) = clause? clause := by
  cases hcut : splitFirst '=' clause with
  | none =>
      obtain ⟨front, back, -, -, heq⟩ := exists_blanks_trim clause
      have htrim : '=' ∉ trim clause := by
        rw [splitFirst_eq_none_iff, heq] at hcut
        exact fun hmem => hcut (List.mem_append_left back (List.mem_append_right front hmem))
      rw [clause?, clause?, hcut, splitFirst_eq_none_iff.2 htrim]
  | some cut =>
      obtain ⟨name, value⟩ := cut
      -- The `=` is no blank, so the start of the name and the end of the value are trimmed and nothing else.
      obtain ⟨heq, hname⟩ := splitFirst_eq_some_iff.1 hcut
      have hstart : '=' ∉ trimStart name := fun hmem => hname ((List.dropWhile_sublist isBlank).subset hmem)
      have hcut' : splitFirst '=' (trim clause) = some (trimStart name, trimEnd value) := by
        rw [heq, trim_append_cons (by decide), splitFirst_append hstart]
      rw [clause?, clause?, hcut, hcut']
      simp only [Option.bind_some, trim_trimStart, trim_trimEnd]

/-- The clauses of an expression are read as they stand between the commas. -/
theorem mapM_clauses (text : String) : (clauses text.toList).mapM clause? = (parts text).mapM clause? := by
  have hkept : ((!·.isEmpty) ∘ trim) = (!allBlank ·) := funext fun part => congrArg (!·) (isEmpty_trim part)
  rw [clauses, List.filter_map, hkept, ← parts]
  induction parts text with
  | nil => rfl
  | cons part parts ih => rw [List.map_cons, List.mapM_cons, List.mapM_cons, clause?_trim, ih]

/-- An expression is accepted with the labels that its clauses ask for. -/
theorem withExpression?_eq_some_iff {selector accepted : Selector} {text : String} :
    selector.withExpression? text = some accepted ↔ ∃ labels, List.Forall₂ Asks (parts text) labels ∧
      accepted = { selector with labels := selector.labels.insertAll labels } := by
  rw [withExpression?, mapM_clauses, Option.map_eq_some_iff]
  simp only [mapM_eq_some_iff_forall₂, clause?_eq_some_iff]
  exact exists_congr fun labels => and_congr_right fun _ => eq_comm

/-! ### Labels that can be told from their texts -/

/-- A label that can be told from its text: neither the name nor the value has a comma or blanks around it, and the name
is not empty and has no `=`. -/
structure Clear (label : String × String) : Prop where
  name : Tight label.1.toList
  nonempty : label.1.toList ≠ []
  value : Tight label.2.toList
  unsplit : '=' ∉ label.1.toList
  nameInPart : ',' ∉ label.1.toList
  valueInPart : ',' ∉ label.2.toList

theorem notMem_trim {c : Char} {text : List Char} (h : c ∉ text) : c ∉ trim text := by
  obtain ⟨front, back, -, -, heq⟩ := exists_blanks_trim text
  rw [heq] at h
  exact fun hmem => h (List.mem_append_left back (List.mem_append_right front hmem))

/-- The labels that clauses ask for are clear. -/
theorem Asks.clear (asks : Asks clause label) (unbroken : ',' ∉ clause) : Clear label := by
  obtain ⟨name, value, rfl, hname, hblank, rfl⟩ := asks
  rw [List.mem_append, List.mem_cons, not_or, not_or] at unbroken
  refine ⟨?_, ?_, ?_, ?_, ?_, ?_⟩ <;> rw [String.toList_ofList]
  · exact tight_trim name
  · rw [ne_eq, trim_eq_nil_iff, hblank]
    exact Bool.false_ne_true
  · exact tight_trim value
  · exact notMem_trim hname
  · exact notMem_trim unbroken.1
  · exact notMem_trim unbroken.2.2

/-- The text of a label. -/
def written (label : String × String) : List Char := label.1.toList ++ '=' :: label.2.toList

namespace Clear

theorem unbroken (h : Clear label) : ',' ∉ written label := by
  rw [written, List.mem_append, List.mem_cons, not_or, not_or]
  exact ⟨h.nameInPart, by decide, h.valueInPart⟩

theorem not_allBlank : allBlank (written label) = false := by
  rw [allBlank, List.all_eq_false]
  exact ⟨'=', List.mem_append_right _ List.mem_cons_self, by decide⟩

theorem asks (h : Clear label) : Asks (written label) label := by
  refine ⟨label.1.toList, label.2.toList, rfl, h.unsplit, ?_, ?_⟩
  · rw [← Bool.not_eq_true, ← trim_eq_nil_iff, h.name.trim_eq]
    exact h.nonempty
  · rw [h.name.trim_eq, h.value.trim_eq, String.ofList_toList, String.ofList_toList]

end Clear

theorem toList_expression (selector : Selector) :
    selector.expression.toList = join [','] (selector.labels.entries.map written) := by
  rw [expression, joined, String.toList_ofList, List.map_map]
  refine congrArg (join [',']) (List.map_congr_left fun label _ => ?_)
  simp [written]

/-- Clear labels are the parts of what they are written as. -/
theorem parts_expression {selector : Selector} (clear : ∀ label ∈ selector.labels.entries, Clear label) :
    parts selector.expression = selector.labels.entries.map written := by
  rw [parts, toList_expression]
  by_cases hnil : selector.labels.entries = []
  · rw [hnil]
    rfl
  · rw [splitAt_join (by simpa using hnil) (List.forall_mem_map.2 fun label hlabel => (clear label hlabel).unbroken)]
    refine List.filter_eq_self.2 (List.forall_mem_map.2 fun label _ => ?_)
    rw [Clear.not_allBlank]
    rfl

/-- Clear labels are read again. -/
theorem withExpression?_expression {selector other : Selector} (clear : ∀ label ∈ selector.labels.entries, Clear label)
    (unlabelled : other.labels = Table.empty) :
    other.withExpression? selector.expression = some { other with labels := selector.labels } := by
  have hasks : List.Forall₂ Asks (parts selector.expression) selector.labels.entries := by
    rw [parts_expression clear, List.forall₂_map_left_iff, List.forall₂_same]
    exact fun label hlabel => (clear label hlabel).asks
  refine withExpression?_eq_some_iff.2 ⟨_, hasks, ?_⟩
  rw [unlabelled]
  exact congrArg (fun labels => { other with labels }) (Table.ofList_entries selector.labels).symm

/-! ### All expressions -/

theorem mem_parts_iff {text : String} :
    clause ∈ parts text ↔ clause ∈ splitAt ',' text.toList ∧ allBlank clause = false := by
  rw [parts, List.mem_filter, Bool.not_eq_true']

/-- An expression is accepted if each of its parts asks for a label. -/
theorem isSome_withExpression?_iff {selector : Selector} {text : String} :
    (selector.withExpression? text).isSome = true ↔ ∀ clause ∈ parts text, ∃ label, Asks clause label := by
  rw [Option.isSome_iff_exists, ← exists_forall₂_iff]
  constructor
  · rintro ⟨accepted, h⟩
    obtain ⟨labels, hlabels, -⟩ := withExpression?_eq_some_iff.1 h
    exact ⟨labels, hlabels⟩
  · rintro ⟨labels, hlabels⟩
    exact ⟨_, withExpression?_eq_some_iff.2 ⟨labels, hlabels, rfl⟩⟩

theorem exists_asks_iff : (∃ label, Asks clause label) ↔
    ∃ name value, clause = name ++ '=' :: value ∧ '=' ∉ name ∧ allBlank name = false := by
  constructor
  · rintro ⟨-, name, value, hclause, hname, hblank, -⟩
    exact ⟨name, value, hclause, hname, hblank⟩
  · rintro ⟨name, value, hclause, hname, hblank⟩
    exact ⟨_, name, value, hclause, hname, hblank, rfl⟩

/-- The labels that an expression asks for are clear. -/
theorem clear_of_asked {text : String} {labels : List (String × String)} (asked : List.Forall₂ Asks (parts text) labels)
    (hlabel : label ∈ (Table.ofList labels).entries) : Clear label := by
  obtain ⟨earlier, later, hlabels, -⟩ := Table.get?_ofList_eq_some_iff.1 (Table.get?_eq_some_iff.2 hlabel)
  obtain ⟨clause, hclause, hasks⟩ :=
    exists_mem_of_forall₂ asked (hlabels ▸ List.mem_append_right earlier List.mem_cons_self)
  exact hasks.clear (notMem_of_mem_splitAt (mem_parts_iff.1 hclause).1)

/-- **Labels are read as they were written.** An expression is accepted if each of its clauses that is not blank has an
`=` and more than blanks in front of its first one. The labels are those that the clauses ask for: each name stands where
it appears first and has the value that it is given last. Written as an expression they are accepted again, as the same
labels in the same order. -/
theorem accepted_labels_read_again {selector other : Selector} (unlabelled : selector.labels = Table.empty)
    (unlabelled' : other.labels = Table.empty) (text : String) :
    ((selector.withExpression? text).isSome = true ↔
      ∀ clause ∈ splitAt ',' text.toList, allBlank clause = false →
        ∃ name value, clause = name ++ '=' :: value ∧ '=' ∉ name ∧ allBlank name = false) ∧
    ∀ accepted, selector.withExpression? text = some accepted →
      accepted = { selector with labels := accepted.labels } ∧
      (∃ labels, List.Forall₂ Asks (parts text) labels ∧ accepted.labels.keys = (labels.map (·.1)).eraseDups ∧
        ∀ name value, accepted.labels.get? name = some value ↔
          ∃ earlier later, labels = earlier ++ (name, value) :: later ∧ ∀ label ∈ later, label.1 ≠ name) ∧
      other.withExpression? accepted.expression = some { other with labels := accepted.labels } := by
  refine ⟨?_, fun accepted h => ?_⟩
  · simp only [isSome_withExpression?_iff, mem_parts_iff, exists_asks_iff, and_imp]
  · obtain ⟨labels, hlabels, rfl⟩ := withExpression?_eq_some_iff.1 h
    rw [unlabelled]
    refine ⟨rfl, ⟨labels, hlabels, Table.keys_ofList labels, fun name value => Table.get?_ofList_eq_some_iff⟩, ?_⟩
    exact withExpression?_expression (fun label hlabel => clear_of_asked hlabels hlabel) unlabelled'

/-- A name that is given twice, a value with an `=`, a clause without anything in it, and blanks in all places. -/
theorem accepted_labels_read_again_of_repeated_name :
    let selector := ofType ⟨"", "v1", "ConfigMap"⟩
    let other := (ofType ⟨"apps", "v1", "Deployment"⟩).inScope "default"
    let text := " app = web,, tier=\t a = b ,app=db ,free="
    selector.labels = Table.empty ∧ other.labels = Table.empty ∧
    ∃ accepted, selector.withExpression? text = some accepted ∧
      accepted.labels.entries = [("app", "db"), ("tier", "a = b"), ("free", "")] ∧
      accepted.expression = "app=db,tier=a = b,free=" ∧
      other.withExpression? "app=db,tier=a = b,free=" = some { other with labels := accepted.labels } := by
  intro selector other text
  have unlabelled : selector.labels = Table.empty := rfl
  have unlabelled' : other.labels = Table.empty := rfl
  have hread : (selector.withExpression? text).map (·.labels.entries) =
      some [("app", "db"), ("tier", "a = b"), ("free", "")] := by decide +kernel
  obtain ⟨accepted, h, hlabels⟩ := Option.map_eq_some_iff.1 hread
  have hexpression : accepted.expression = "app=db,tier=a = b,free=" := by
    rw [expression, hlabels]
    decide +kernel
  obtain ⟨-, -, hagain⟩ := (accepted_labels_read_again unlabelled unlabelled' text).2 accepted h
  exact ⟨unlabelled, unlabelled', accepted, h, hlabels, hexpression, hexpression ▸ hagain⟩

/-- What stands in front of the first `=` is the name, so a second one does not help. -/
example : ((ofType ⟨"", "v1", "ConfigMap"⟩).withExpression? "app=web, ==db").isNone = true := by decide +kernel

end Converge.Selector
