import Converge.Proofs.Template.Offsets
import Converge.Program

/-!
# Segments put back together

What is cut at marks can be put back together: the segments and the marks between them, and a blank text above the
first mark where it was left out, are the text again. The other way round texts that are joined by bare marks are cut
apart into the same texts. For this each of them has to end in a line break, so that the marks stand on lines of their
own, and no line of theirs may be a mark.

## Main Definitions

* `Template.Separates` — what makes a line a mark, in words of the line itself.
* `Template.interleaved` — texts with lines between them.

## Main Statements

* `Template.byMarks` — induction on lines from mark to mark.
* `Template.interleaved_betweenMarks` — the texts between the marks, and the marks, are the lines again.
* `Template.betweenMarks_intercalate` — texts that are joined by bare marks are the texts between the marks.
* `Template.cut_and_joined` — cutting undoes joining, and joining undoes cutting.
-/

namespace Converge.Template

open Chars

variable {text line mark : List Char} {lines texts : List (List Char)}

/-! ### Marks -/

/-- A line separates documents: it is `---` with nothing but blanks behind it, or it starts with `---` and a space. -/
def Separates (line : List Char) : Prop :=
  trimEnd line = ['-', '-', '-'] ∨ ['-', '-', '-', ' '] <+: line

/-- **A mark is a line that separates documents.** It is recognised without the blanks at its end. -/
theorem isMark_iff : isMark line = true ↔ Separates line := by
  rw [isMark, Bool.or_eq_true, decide_eq_true_eq, Option.isSome_iff_exists]
  constructor
  · rintro (hbare | ⟨after, hafter⟩)
    · exact .inl hbare
    · obtain ⟨back, -, hline, -⟩ := exists_blanks_trimEnd line
      rw [afterStart_eq_some_iff] at hafter
      exact .inr ⟨after ++ back, by rw [← List.append_assoc, ← hafter, ← hline]⟩
  · rintro (hbare | ⟨rest, rfl⟩)
    · exact .inl hbare
    · cases hrest : allBlank rest with
      | true =>
          have hspace : allBlank [' '] = true := by decide
          have hblank : allBlank ([' '] ++ rest) = true := allBlank_append.2 ⟨hspace, hrest⟩
          exact .inl (trimEnd_append hblank ['-', '-', '-'])
      | false => exact .inr ⟨_, afterStart_eq_some_iff.2 (trimEnd_append_of_not_allBlank hrest _)⟩

instance : DecidablePred Separates := fun _ => decidable_of_iff _ isMark_iff

theorem unmarked_iff : Unmarked lines ↔ ∀ line ∈ lines, ¬ Separates line := by
  refine forall₂_congr fun line _ => ?_
  rw [← isMark_iff, Bool.not_eq_true]

/-- Induction on lines from mark to mark: there is none, or there are lines above the first one and lines below it. -/
@[elab_as_elim]
theorem byMarks {motive : List (List Char) → Prop} (unmarked : ∀ lines, Unmarked lines → motive lines)
    (marked : ∀ upper mark below, Unmarked upper → isMark mark = true → motive below →
      motive (upper ++ mark :: below)) (lines : List (List Char)) : motive lines := by
  induction hlength : lines.length using Nat.strongRecOn generalizing lines with
  | ind length ih =>
      cases hfind : lines.find? isMark with
      | none => exact unmarked lines fun line hline => by simpa using List.find?_eq_none.1 hfind line hline
      | some mark =>
          obtain ⟨hmark, upper, below, rfl, hupper⟩ := List.find?_eq_some_iff_append.1 hfind
          rw [List.length_append, List.length_cons] at hlength
          exact marked upper mark below (fun line hline => by simpa using hupper line hline) hmark
            (ih below.length (by omega) below rfl)

/-! ### Cutting and putting back together -/

/-- The first mark ends the first text. -/
theorem betweenMarks_first {upper below : List (List Char)} (unmarked : Unmarked upper) (hmark : isMark mark = true) :
    betweenMarks (upper ++ mark :: below) = upper.flatten :: betweenMarks below := by
  rw [betweenMarks_append_mark hmark, betweenMarks_of_unmarked unmarked, List.singleton_append]

/-- Texts with lines between them. There should be one text more than there are lines. -/
def interleaved : List (List Char) → List (List Char) → List Char
  | [], _ => []
  | text :: _, [] => text
  | text :: texts, mark :: marks => text ++ mark ++ interleaved texts marks

/-- **The texts between the marks, and the marks, are the lines again.** -/
theorem interleaved_betweenMarks (lines : List (List Char)) :
    interleaved (betweenMarks lines) (lines.filter isMark) = lines.flatten := by
  have hnone {upper : List (List Char)} (unmarked : Unmarked upper) : upper.filter isMark = [] :=
    List.filter_eq_nil_iff.2 fun line hline => by simp [unmarked line hline]
  induction lines using byMarks with
  | unmarked lines unmarked =>
      rw [betweenMarks_of_unmarked unmarked, hnone unmarked]
      rfl
  | marked upper mark below unmarked hmark ih =>
      rw [betweenMarks_first unmarked hmark, List.filter_append, hnone unmarked, List.filter_cons_of_pos hmark,
        List.nil_append, interleaved, ih, List.flatten_append, List.flatten_cons, List.append_assoc]

/-- A text between marks is made of lines next to each other, none of which is a mark. -/
theorem exists_lines_of_mem_betweenMarks (h : text ∈ betweenMarks lines) :
    ∃ within, within <:+: lines ∧ Unmarked within ∧ text = within.flatten := by
  induction lines using byMarks with
  | unmarked lines unmarked =>
      rw [betweenMarks_of_unmarked unmarked, List.mem_singleton] at h
      exact ⟨lines, List.infix_rfl, unmarked, h⟩
  | marked upper mark below unmarked hmark ih =>
      rw [betweenMarks_first unmarked hmark, List.mem_cons] at h
      obtain rfl | h := h
      · exact ⟨upper, (List.prefix_append upper _).isInfix, unmarked, rfl⟩
      · obtain ⟨within, hwithin, hunmarked, heq⟩ := ih h
        exact ⟨within, hwithin.trans ((List.suffix_cons mark below).isInfix.trans (List.suffix_append upper _).isInfix),
          hunmarked, heq⟩

/-- What is left out at the start is one blank text, or nothing. -/
theorem exists_dropped (texts : List (List Char)) :
    ∃ dropped, (dropped = [] ∨ ∃ blank, allBlank blank = true ∧ dropped = [blank]) ∧
      dropped ++ dropBlankStart texts = texts := by
  unfold dropBlankStart
  split
  · next first second rest =>
      split
      · next hblank => exact ⟨[first], .inr ⟨first, hblank, rfl⟩, rfl⟩
      · exact ⟨[], .inl rfl, rfl⟩
  · exact ⟨[], .inl rfl, rfl⟩

/-- No mark is left in a segment. -/
theorem unmarked_of_mem_segments {segment : List Char} (h : segment ∈ segments text) :
    Unmarked (linesWithEnds segment) := by
  obtain ⟨dropped, -, hdropped⟩ := exists_dropped (betweenMarks (linesWithEnds text))
  have hbetween : segment ∈ betweenMarks (linesWithEnds text) := hdropped ▸ List.mem_append_right dropped h
  obtain ⟨within, hwithin, unmarked, rfl⟩ := exists_lines_of_mem_betweenMarks hbetween
  rwa [((lines_linesWithEnds text).of_within hwithin).linesWithEnds_flatten]

theorem dropBlankStart_eq_self (h : ∀ first ∈ texts.head?, allBlank first = false) : dropBlankStart texts = texts := by
  unfold dropBlankStart
  split
  · next first second rest =>
      rw [if_neg]
      rw [h first rfl]
      exact Bool.false_ne_true
  · rfl

/-- **Texts that are joined by bare marks are the texts between the marks**, if each ends in a line break and none has a
mark in it. -/
theorem betweenMarks_intercalate (nonempty : texts ≠ []) (closed : ∀ text ∈ texts, Closed text)
    (unmarked : ∀ text ∈ texts, Unmarked (linesWithEnds text)) :
    betweenMarks (linesWithEnds (bareMark.intercalate texts)) = texts := by
  induction texts with
  | nil => exact absurd rfl nonempty
  | cons text texts ih =>
      rw [List.forall_mem_cons] at closed unmarked
      have hfirst := betweenMarks_of_unmarked unmarked.1
      rw [flatten_linesWithEnds] at hfirst
      cases texts with
      | nil => rwa [List.intercalate_singleton]
      | cons next texts =>
          rw [List.intercalate_cons_cons, List.append_assoc, linesWithEnds_append_bareMark closed.1,
            betweenMarks_append_mark isMark_bareMark, hfirst, ih (List.cons_ne_nil _ _) closed.2 unmarked.2,
            List.singleton_append]

/-! ### Texts and segments -/

/-- **Cutting undoes joining, and joining undoes cutting.** Texts that end in a line break, that have no line that
separates documents, and of which the first is not blank, are joined by bare marks; then the segments are these texts.
Documents are printed in this way. The segments of any text, with the marks between them, are the text again, if a blank
text that was left out above the first mark is put back. No line of a segment separates documents. And the segments are
what is cut out of the text at the bytes at which its lines start; no cut fails. -/
theorem cut_and_joined (texts : List String) (text : String) :
    (texts ≠ [] → (∀ part ∈ texts, part.toList.getLast? = some '\n') →
      (∀ part ∈ texts, ∀ line ∈ linesWithEnds part.toList, ¬ Separates line) →
      (∀ first ∈ texts.head?, allBlank first.toList = false) →
        segments ("---\n".intercalate texts).toList = texts.map String.toList ∧
          ∀ documents, documents.map Yaml.write = texts →
            segments (Program.printed documents).toList = texts.map String.toList) ∧
    (let marks := (linesWithEnds text.toList).filter (Separates ·)
      ∃ dropped, (dropped = [] ∨ ∃ blank, allBlank blank = true ∧ dropped = [blank]) ∧
        (dropped ++ segments text.toList).length = marks.length + 1 ∧
        interleaved (dropped ++ segments text.toList) marks = text.toList) ∧
    (∀ segment ∈ segments text.toList, ∀ line ∈ linesWithEnds segment, ¬ Separates line) ∧
    cutOut? text = some ((segments text.toList).map String.ofList) := by
  refine ⟨fun nonempty ended plain visible => ?_, ?_, fun segment hsegment => ?_, cutOut?_eq text⟩
  · have hparts : betweenMarks (linesWithEnds ("---\n".intercalate texts).toList) = texts.map String.toList := by
      rw [String.toList_intercalate]
      refine betweenMarks_intercalate (by simpa using nonempty) ?_ ?_
      · exact List.forall_mem_map.2 fun part hpart => .inr (ended part hpart)
      · exact List.forall_mem_map.2 fun part hpart => unmarked_iff.2 (plain part hpart)
    have hstart : ∀ first ∈ (texts.map String.toList).head?, allBlank first = false := by
      rw [List.head?_map]
      intro head hhead
      obtain ⟨first, hfirst, rfl⟩ := Option.map_eq_some_iff.1 hhead
      exact visible first hfirst
    have hsegments : segments ("---\n".intercalate texts).toList = texts.map String.toList := by
      rw [segments, hparts, dropBlankStart_eq_self hstart]
    refine ⟨hsegments, fun documents hwritten => ?_⟩
    rw [Program.printed, hwritten, hsegments]
  · intro marks
    have hmarks : marks = (linesWithEnds text.toList).filter isMark := by
      refine List.filter_congr fun line _ => ?_
      rw [Bool.eq_iff_iff, decide_eq_true_eq, isMark_iff]
    obtain ⟨dropped, hdropped, heq⟩ := exists_dropped (betweenMarks (linesWithEnds text.toList))
    refine ⟨dropped, hdropped, ?_, ?_⟩
    · rw [segments, heq, hmarks, length_betweenMarks, List.countP_eq_length_filter]
    · rw [segments, heq, hmarks, interleaved_betweenMarks, flatten_linesWithEnds]
  · exact unmarked_iff.1 (unmarked_of_mem_segments hsegment)

/-- Lines that begin like a mark, lines that end in two ways, and a blank text that is not the first one. -/
theorem cut_and_joined_of_mixed_lines :
    let texts := ["ä: 1\r\n----\n", "\n", "---x\n ---\n"]
    (∀ part ∈ texts, part.toList.getLast? = some '\n') ∧
      (∀ part ∈ texts, ∀ line ∈ linesWithEnds part.toList, ¬ Separates line) ∧
      (∀ first ∈ texts.head?, allBlank first.toList = false) ∧
      segments "ä: 1\r\n----\n---\n\n---\n---x\n ---\n".toList = texts.map String.toList := by
  intro texts
  have ended : ∀ part ∈ texts, part.toList.getLast? = some '\n' := by decide
  have plain : ∀ part ∈ texts, ∀ line ∈ linesWithEnds part.toList, ¬ Separates line := by decide
  have visible : ∀ first ∈ texts.head?, allBlank first.toList = false := by decide
  obtain ⟨hsegments, -⟩ := cut_and_joined texts ""
  exact ⟨ended, plain, visible, (hsegments (by decide) ended plain visible).1⟩

end Converge.Template
