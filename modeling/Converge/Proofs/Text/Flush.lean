import Converge.Proofs.Text.Slices

/-!
# Texts without a margin

A block that has lost its margin has none left: its first and its last line are not blank, no line ends in a blank, and
one line is not indented at all. Texts of this form stay as they are. So taking off the margin a second time changes
nothing, and spaces and tabs that are put in front of all lines only make the margin wider.

## Main Definitions

* `Text.Flush` — a text without a margin.
* `Text.indented` — a text with the same characters in front of each of its lines.

## Main Statements

* `Text.dedentChars_of_flush`, `Text.flush_dedentChars` — what has no margin stays, and none is left.
* `Text.dedentChars_indented` — what stands in front of all lines makes no difference.
* `Text.dedented_for_good` — the margin of any text is taken off without a failure, and for good.
-/

namespace Converge.Text

open Chars

variable {line front text : List Char} {width : Nat}

/-- A text without a margin: it consists of its lines with line feeds between them, the first and the last are not
blank, none ends in a blank, and one that is not blank is not indented. -/
structure Flush (text : List Char) : Prop where
  joined : join ['\n'] (lines text) = text
  first : ∀ line ∈ (lines text).head?, allBlank line = false
  last : ∀ line ∈ (lines text).getLast?, allBlank line = false
  ends : ∀ line ∈ lines text, ∀ c ∈ line.getLast?, isBlank c = false
  flush : ∃ line ∈ lines text, allBlank line = false ∧ ∀ c ∈ line.head?, isIndent c = false

/-! ### Texts that stay as they are -/

theorem indentation_eq_nil_iff : indentation line = [] ↔ ∀ c ∈ line.head?, isIndent c = false := by
  cases line with
  | nil => simp [indentation]
  | cons c line => cases h : isIndent c <;> simp [indentation, h]

theorem strip_zero (line : List Char) : strip 0 line = trimEnd line := by
  cases h : allBlank line with
  | true => rw [strip_of_allBlank 0 h, trimEnd_eq_nil_iff.2 h]
  | false => exact strip_of_visible 0 h

/-- A text without a margin loses nothing. -/
theorem dedentChars_of_flush (h : Flush text) : dedentChars text = text := by
  obtain ⟨line, hline, hvisible, hhead⟩ := h.flush
  have hmargin : margin (lines text) = 0 :=
    margin_eq (fun _ _ _ => Nat.zero_le _) hline hvisible (congrArg List.length (indentation_eq_nil_iff.2 hhead))
  have hstrip : (lines text).map (strip 0) = lines text := by
    refine (List.map_congr_left fun line hline => ?_).trans (List.map_id _)
    rw [strip_zero, trimEnd_of_last (h.ends line hline)]
    rfl
  have hedge {line : List Char} (hline : allBlank line = false) : line.isEmpty = false := by
    rw [List.isEmpty_eq_false_iff]
    rintro rfl
    cases hline
  have htrim : trimLines (lines text) = lines text :=
    inside_eq_self (fun line hline => hedge (h.first line hline)) fun line hline => hedge (h.last line hline)
  show join ['\n'] (trimLines ((lines text).map (strip (margin (lines text))))) = text
  rw [hmargin, hstrip, htrim, h.joined]

/-- One of the lines that are left is not indented. -/
theorem exists_flush (hline : line ∈ visible text) :
    ∃ rest ∈ visible (dedentChars text), ∀ c ∈ rest.head?, isIndent c = false := by
  obtain ⟨hmem, hvisible⟩ := mem_visible_iff.1 hline
  obtain ⟨first, hfirst, hshown, heq⟩ := exists_indentWidth_eq_margin hmem hvisible
  refine ⟨strip (margin (lines text)) first, ?_, indentation_eq_nil_iff.1 ?_⟩
  · rw [visible_dedentChars]
    exact List.mem_map_of_mem (mem_visible_iff.2 ⟨hfirst, hshown⟩)
  · have hlength := congrArg List.length (indentation_strip hshown (Nat.le_of_eq heq.symm))
    rw [List.length_append, length_take_of_le (Nat.le_of_eq heq.symm)] at hlength
    exact List.eq_nil_of_length_eq_zero (Nat.add_eq_left.1 (hlength.trans heq))

theorem exists_of_mem_lines_dedentChars {part : List Char} (hpart : part ∈ lines (dedentChars text)) :
    ∃ line ∈ lines text, strip (margin (lines text)) line = part :=
  List.mem_map.1 (mem_of_mem_inside (lines_dedentChars text ▸ hpart))

/-- A line that is left is blank only if nothing is left of it. -/
theorem allBlank_of_mem_lines_dedentChars {part : List Char} (hpart : part ∈ lines (dedentChars text)) :
    allBlank part = part.isEmpty := by
  obtain ⟨line, hline, rfl⟩ := exists_of_mem_lines_dedentChars hpart
  have hwidth (hvisible : allBlank line = false) := margin_le hline hvisible
  rw [allBlank_strip hwidth, Bool.eq_iff_iff, List.isEmpty_iff, strip_eq_nil_iff hwidth]

/-- No margin is left, if anything is. -/
theorem flush_dedentChars (text : List Char) : dedentChars text = [] ∨ Flush (dedentChars text) := by
  have hlines := lines_dedentChars text
  obtain ⟨-, -, -, -, -, hhead, hlast⟩ := exists_inside List.isEmpty ((lines text).map (strip (margin (lines text))))
  have hjoined : join ['\n'] (lines (dedentChars text)) = dedentChars text := congrArg (join ['\n']) hlines
  have hfirst : ∀ part ∈ (lines (dedentChars text)).head?, allBlank part = false := by
    intro part hpart
    rw [allBlank_of_mem_lines_dedentChars (List.mem_of_mem_head? hpart)]
    exact hhead part (by rwa [hlines] at hpart)
  cases hkept : lines (dedentChars text) with
  | nil =>
      left
      rw [← hjoined, hkept]
      rfl
  | cons part parts =>
      right
      have hpart : part ∈ lines (dedentChars text) := hkept ▸ List.mem_cons_self
      refine ⟨hjoined, hfirst, fun last hmem => ?_, fun other hother => ?_, ?_⟩
      · rw [allBlank_of_mem_lines_dedentChars (List.mem_of_getLast? hmem)]
        exact hlast last (by rwa [hlines] at hmem)
      · obtain ⟨line, -, rfl⟩ := exists_of_mem_lines_dedentChars hother
        exact getLast?_strip _ line
      · obtain ⟨line, hline, heq⟩ := exists_of_mem_lines_dedentChars hpart
        have hvisible : allBlank line = false := by
          rw [← allBlank_strip fun hvisible => margin_le hline hvisible, heq]
          exact hfirst part (hkept ▸ rfl)
        obtain ⟨rest, hrest, hindent⟩ := exists_flush (mem_visible_iff.2 ⟨hline, hvisible⟩)
        exact ⟨rest, (mem_visible_iff.1 hrest).1, (mem_visible_iff.1 hrest).2, hindent⟩

/-! ### Characters in front of all lines -/

/-- A text with the same characters in front of each of its lines. -/
def indented (front text : List Char) : List Char := (linesWithEnds text).flatMap (front ++ ·)

/-- What stands in front of a line does not come into the way of its end. -/
theorem dropLineEnd_append (indents : ∀ c ∈ front, isIndent c = true) (body : List Char) :
    dropLineEnd (front ++ body ++ ['\n']) = front ++ dropLineEnd (body ++ ['\n']) := by
  rw [dropLineEnd_concat, dropLineEnd_concat]
  cases body with
  | nil =>
      -- In front of an empty line the last of these characters comes next to the line feed.
      have hlast : front.getLast? ≠ some '\r' := by
        intro hlast
        cases indents '\r' (List.mem_of_getLast? hlast)
      rw [List.append_nil, if_neg hlast]
      exact (List.append_nil front).symm
  | cons c body =>
      rw [List.getLast?_append_of_ne_nil _ (List.cons_ne_nil c body), List.dropLast_append_cons]
      split <;> rfl

/-- Spaces and tabs in front of a line do not make a blank of it. -/
theorem allBlank_indents_append (indents : ∀ c ∈ front, isIndent c = true) (line : List Char) :
    allBlank (front ++ line) = allBlank line := by
  rw [Bool.eq_iff_iff, allBlank_append, and_iff_right (allBlank_of_indents indents)]

theorem lines_indented (indents : ∀ c ∈ front, isIndent c = true) (text : List Char) :
    lines (indented front text) = (lines text).map (front ++ ·) := by
  have hfront : '\n' ∉ front := by
    intro hmem
    cases indents '\n' hmem
  induction text using byLines with
  | unbroken body unbroken =>
      by_cases nonempty : body = []
      · subst nonempty
        rfl
      · have hwhole : '\n' ∉ front ++ body := fun hmem => (List.mem_append.1 hmem).elim hfront unbroken
        rw [indented, linesWithEnds_of_notMem nonempty unbroken, List.flatMap_singleton,
          lines_of_notMem (List.append_ne_nil_of_right_ne_nil front nonempty) hwhole, lines_of_notMem nonempty unbroken,
          List.map_singleton]
  | line body rest unbroken ih =>
      have hwhole : '\n' ∉ front ++ body := fun hmem => (List.mem_append.1 hmem).elim hfront unbroken
      have hindented : indented front (body ++ '\n' :: rest) = (front ++ body) ++ '\n' :: indented front rest := by
        rw [indented, linesWithEnds_line unbroken, List.flatMap_cons, ← indented]
        simp only [List.append_assoc, List.singleton_append]
      rw [hindented, lines_line hwhole, lines_line unbroken, ih, List.map_cons, dropLineEnd_append indents]

/-- Spaces and tabs in front of all lines widen the margin. -/
theorem margin_map_append {block : List (List Char)} (indents : ∀ c ∈ front, isIndent c = true) (hline : line ∈ block)
    (visible : allBlank line = false) : margin (block.map (front ++ ·)) = front.length + margin block := by
  have hwidth (line : List Char) : indentWidth (front ++ line) = front.length + indentWidth line := by
    have hindentation := congrArg List.length (indentation_append indents line)
    rwa [List.length_append] at hindentation
  have hblank := allBlank_indents_append indents
  obtain ⟨first, hfirst, hshown, heq⟩ := exists_indentWidth_eq_margin hline visible
  refine margin_eq ?_ (List.mem_map_of_mem hfirst) ((hblank first).trans hshown) ((hwidth first).trans (by rw [heq]))
  rw [List.forall_mem_map]
  intro other hother hshown
  rw [hwidth]
  exact Nat.add_le_add_left (margin_le hother ((hblank other).symm.trans hshown)) _

/-- Spaces and tabs in front of all lines make no difference. -/
theorem dedentChars_indented (indents : ∀ c ∈ front, isIndent c = true) (text : List Char) :
    dedentChars (indented front text) = dedentChars text := by
  have hstrip : ((lines text).map (front ++ ·)).map (strip (margin ((lines text).map (front ++ ·)))) =
      (lines text).map (strip (margin (lines text))) := by
    rw [List.map_map]
    refine List.map_congr_left fun line hline => ?_
    have hblank := allBlank_indents_append indents line
    rw [Function.comp_apply]
    cases hvisible : allBlank line with
    | true => rw [strip_of_allBlank _ hvisible, strip_of_allBlank _ (hblank.trans hvisible)]
    | false =>
        rw [strip_of_visible _ hvisible, strip_of_visible _ (hblank.trans hvisible),
          margin_map_append indents hline hvisible, List.drop_length_add_append]
  show join ['\n'] (trimLines ((lines (indented front text)).map _)) = _
  rw [lines_indented indents, hstrip]
  rfl

/-! ### Taking off a margin for good -/

theorem dedentChars_dedentChars (text : List Char) : dedentChars (dedentChars text) = dedentChars text := by
  obtain hnil | hflush := flush_dedentChars text
  · rw [hnil]
    rfl
  · exact dedentChars_of_flush hflush

/-- **The margin of a text is taken off for good.** No cut fails, whatever the lines are made of and however they end.
What is left has no margin, if there is anything; doing it once more changes nothing; and no more do spaces and tabs
that were in front of all lines at first. -/
theorem dedented_for_good (text : String) {front : List Char} (indents : ∀ c ∈ front, isIndent c = true) :
    sliced? text = some (dedent text) ∧ dedent (dedent text) = dedent text ∧
      dedent (String.ofList (indented front text.toList)) = dedent text ∧
      (dedent text = "" ∨ Flush (dedent text).toList) := by
  refine ⟨sliced?_eq text, ?_, ?_, ?_⟩
  · rw [dedent, dedent, String.toList_ofList, dedentChars_dedentChars]
  · rw [dedent, dedent, String.toList_ofList, dedentChars_indented indents]
  · rw [dedent, String.toList_ofList, String.ofList_eq_empty_iff]
    exact flush_dedentChars text.toList

/-- A block with lines that end differently, one of blanks only that is no longer than the margin, and characters of
several bytes, one of which is a blank, behind it. -/
theorem dedented_for_good_of_mixed_lines :
    let text := "\u00A0\r\n\t ö: 1\u2003\r\n \n  \u00A0ä: 2\n\t\t  - ü \r"
    (∀ c ∈ [' ', '\t'], isIndent c = true) ∧ dedent text = "ö: 1\n\n\u00A0ä: 2\n  - ü" ∧
      sliced? text = some (dedent text) ∧ dedent (dedent text) = dedent text ∧
      dedent (String.ofList (indented [' ', '\t'] text.toList)) = dedent text ∧
      (dedent text = "" ∨ Flush (dedent text).toList) := by
  intro text
  have indents : ∀ c ∈ [' ', '\t'], isIndent c = true := by simp [isIndent]
  exact ⟨indents, by decide +kernel, dedented_for_good text indents⟩

end Converge.Text
