import Converge.Proofs.Text.Lines
import Converge.Proofs.Text.Trimming
import Converge.Text.Block
import Mathlib.Data.List.Forall2

/-!
# The margin of a block

Every line of a block that is not blank starts with at least as many spaces and tabs as the margin is wide, and one of
them with no more than these. Taking off the margin takes that many of them from each such line and nothing else. How
many they are does not say which they are: where lines start with different ones, a tab here and a space there, the
lines lose different ones, and lines that were indented differently may end up the same. They do not where all lines
start with the same spaces and tabs up to the margin.

## Main Definitions

* `Text.indentation` — the spaces and tabs that a line starts with.
* `Text.visible` — the lines of a text that are not blank.
* `Text.Aligned` — these lines start with the same characters up to the margin.

## Main Statements

* `Text.margin_eq` — the margin is the least indentation.
* `Text.take_append_strip` — what a line loses.
* `Text.lines_dedentChars`, `Text.visible_dedentChars` — the lines that are left.
* `Text.removed_alike_iff` — the lines of a text lose the same characters exactly if they are aligned.
* `Text.different_margins_removed` — a text whose lines lose different characters.
-/

namespace Converge.Text

open Chars

variable {line front : List Char} {block : List (List Char)} {width : Nat}

/-- The spaces and tabs that a line starts with. -/
def indentation (line : List Char) : List Char := line.takeWhile isIndent

/-! ### The indentation of a line -/

theorem isBlank_of_isIndent {c : Char} (h : isIndent c = true) : isBlank c = true := by
  rw [isIndent, Bool.or_eq_true, beq_iff_eq, beq_iff_eq] at h
  obtain rfl | rfl := h <;> rfl

theorem allBlank_of_indents (indents : ∀ c ∈ front, isIndent c = true) : allBlank front = true :=
  List.all_eq_true.2 fun c hc => isBlank_of_isIndent (indents c hc)

theorem isIndent_of_mem_indentation {c : Char} (h : c ∈ indentation line) : isIndent c = true :=
  List.mem_takeWhile_imp h

theorem indentation_append (indents : ∀ c ∈ front, isIndent c = true) (line : List Char) :
    indentation (front ++ line) = front ++ indentation line :=
  List.takeWhile_append_of_pos indents

/-- Blanks at the end of a line are not in its indentation, unless there is nothing else. -/
theorem indentation_trimEnd (visible : allBlank line = false) : indentation (trimEnd line) = indentation line := by
  obtain ⟨back, -, heq, -⟩ := exists_blanks_trimEnd line
  have hlength : (indentation (trimEnd line)).length ≠ (trimEnd line).length := by
    intro hlength
    have hall : indentation (trimEnd line) = trimEnd line := (List.takeWhile_prefix isIndent).eq_of_length hlength
    rw [← allBlank_trimEnd, ← hall, allBlank_of_indents fun c hc => isIndent_of_mem_indentation hc] at visible
    cases visible
  have hwhole : indentation (trimEnd line ++ back) = indentation (trimEnd line) := by
    rw [indentation, List.takeWhile_append]
    exact if_neg hlength
  rw [← heq] at hwhole
  exact hwhole.symm

theorem isIndent_of_mem_take {c : Char} (hwidth : width ≤ indentWidth line) (h : c ∈ line.take width) :
    isIndent c = true := by
  have hfront : line.take width <+: indentation line :=
    List.prefix_of_prefix_length_le (List.take_prefix width line) (List.takeWhile_prefix isIndent)
      ((List.length_take_le width line).trans hwidth)
  exact isIndent_of_mem_indentation (hfront.subset h)

theorem length_take_of_le (hwidth : width ≤ indentWidth line) : (line.take width).length = width := by
  rw [List.length_take, Nat.min_eq_left]
  exact hwidth.trans (List.takeWhile_prefix isIndent).length_le

/-! ### The margin -/

theorem indentWidth_mem (hline : line ∈ block) (visible : allBlank line = false) :
    indentWidth line ∈ (block.filter (!allBlank ·)).map indentWidth :=
  List.mem_map_of_mem (List.mem_filter.2 ⟨hline, by rw [visible]; rfl⟩)

theorem min?_eq_margin (hline : line ∈ block) (visible : allBlank line = false) :
    ((block.filter (!allBlank ·)).map indentWidth).min? = some (margin block) := by
  obtain ⟨least, hleast⟩ := Option.isSome_iff_exists.1 (List.isSome_min?_of_mem (indentWidth_mem hline visible))
  rw [margin, hleast]
  rfl

/-- No line that is not blank is indented less than the margin. -/
theorem margin_le (hline : line ∈ block) (visible : allBlank line = false) : margin block ≤ indentWidth line :=
  (List.min?_eq_some_iff.1 (min?_eq_margin hline visible)).2 _ (indentWidth_mem hline visible)

/-- One line is indented no more than the margin. -/
theorem exists_indentWidth_eq_margin (hline : line ∈ block) (visible : allBlank line = false) :
    ∃ first ∈ block, allBlank first = false ∧ indentWidth first = margin block := by
  obtain ⟨first, hfirst, heq⟩ := List.mem_map.1 (List.min?_eq_some_iff.1 (min?_eq_margin hline visible)).1
  rw [List.mem_filter, Bool.not_eq_true'] at hfirst
  exact ⟨first, hfirst.1, hfirst.2, heq⟩

/-- The margin is the least indentation. -/
theorem margin_eq (least : ∀ line ∈ block, allBlank line = false → width ≤ indentWidth line) (hline : line ∈ block)
    (visible : allBlank line = false) (attained : indentWidth line = width) : margin block = width := by
  obtain ⟨first, hfirst, hvisible, heq⟩ := exists_indentWidth_eq_margin hline visible
  apply Nat.le_antisymm
  · exact attained ▸ margin_le hline visible
  · exact heq ▸ least first hfirst hvisible

/-! ### What a line loses -/

theorem strip_of_allBlank (width : Nat) (h : allBlank line = true) : strip width line = [] := if_pos h

theorem strip_of_visible (width : Nat) (visible : allBlank line = false) :
    strip width line = trimEnd (line.drop width) := by
  rw [strip, visible]
  rfl

/-- A line that is not blank is not blank behind some of its indentation. -/
theorem allBlank_drop (visible : allBlank line = false) (hwidth : width ≤ indentWidth line) :
    allBlank (line.drop width) = false := by
  by_contra h
  have hwhole :=
    allBlank_append.2 ⟨allBlank_of_indents fun c hc => isIndent_of_mem_take hwidth hc, eq_true_of_ne_false h⟩
  rw [List.take_append_drop, visible] at hwhole
  cases hwhole

/-- A line loses the characters up to the margin, and the blanks at its end. -/
theorem take_append_strip (visible : allBlank line = false) (hwidth : width ≤ indentWidth line) :
    line.take width ++ strip width line = trimEnd line := by
  rw [strip_of_visible width visible, ← trimEnd_append_of_not_allBlank (allBlank_drop visible hwidth),
    List.take_append_drop]

theorem allBlank_strip (hwidth : allBlank line = false → width ≤ indentWidth line) :
    allBlank (strip width line) = allBlank line := by
  cases h : allBlank line with
  | true =>
      rw [strip_of_allBlank width h]
      rfl
  | false => rw [strip_of_visible width h, allBlank_trimEnd, allBlank_drop h (hwidth h)]

/-- Only a blank line loses everything. -/
theorem strip_eq_nil_iff (hwidth : allBlank line = false → width ≤ indentWidth line) :
    strip width line = [] ↔ allBlank line = true := by
  constructor
  · intro h
    rw [← allBlank_strip hwidth, h]
    rfl
  · exact strip_of_allBlank width

theorem getLast?_strip (width : Nat) (line : List Char) : ∀ c ∈ (strip width line).getLast?, isBlank c = false := by
  cases h : allBlank line with
  | true =>
      rw [strip_of_allBlank width h]
      intro c hc
      cases hc
  | false =>
      obtain ⟨-, -, -, hlast⟩ := exists_blanks_trimEnd (line.drop width)
      rwa [strip_of_visible width h]

/-- What is left of a line is indented by what is left of its indentation. -/
theorem indentation_strip (visible : allBlank line = false) (hwidth : width ≤ indentWidth line) :
    line.take width ++ indentation (strip width line) = indentation line := by
  rw [← indentation_append fun c hc => isIndent_of_mem_take hwidth hc, take_append_strip visible hwidth,
    indentation_trimEnd visible]

/-! ### The lines that are left -/

/-- The lines of a text that are not blank. -/
def visible (text : List Char) : List (List Char) := (lines text).filter (!allBlank ·)

theorem mem_visible_iff {text : List Char} : line ∈ visible text ↔ line ∈ lines text ∧ allBlank line = false := by
  rw [visible, List.mem_filter, Bool.not_eq_true']

theorem notMem_strip {c : Char} (h : c ∉ line) : c ∉ strip width line := by
  rw [strip]
  split
  · exact List.not_mem_nil
  · obtain ⟨back, -, heq, -⟩ := exists_blanks_trimEnd (line.drop width)
    exact fun hmem => h (List.drop_subset width line (heq ▸ List.mem_append_left back hmem))

/-- The lines that are left are the lines of the text that is left. -/
theorem lines_dedentChars (text : List Char) :
    lines (dedentChars text) = trimLines ((lines text).map (strip (margin (lines text)))) := by
  obtain ⟨-, -, -, -, -, -, hlast⟩ := exists_inside List.isEmpty ((lines text).map (strip (margin (lines text))))
  refine lines_join (fun part hpart => ?_) (fun part hpart => ?_) (fun part hpart => ?_)
  · obtain ⟨line, hline, rfl⟩ := List.mem_map.1 (mem_of_mem_inside hpart)
    exact notMem_strip (notMem_of_mem_lines hline)
  · -- A carriage return at the end of a line would be read as part of the line's end, but it is a blank and gone.
    obtain ⟨line, -, rfl⟩ := List.mem_map.1 (mem_of_mem_inside hpart)
    intro hreturn
    cases getLast?_strip _ line _ hreturn
  · exact List.isEmpty_eq_false_iff.1 (hlast part hpart)

/-- The lines that are not blank are left, without the margin. -/
theorem visible_dedentChars (text : List Char) :
    visible (dedentChars text) = (visible text).map (strip (margin (lines text))) := by
  obtain ⟨above, below, habove, hbelow, heq, -, -⟩ :=
    exists_inside List.isEmpty ((lines text).map (strip (margin (lines text))))
  have hempty {part : List (List Char)} (hpart : part.all List.isEmpty = true) : part.filter (!allBlank ·) = [] := by
    rw [List.filter_eq_nil_iff]
    intro line hline
    rw [List.isEmpty_iff.1 (List.all_eq_true.1 hpart line hline)]
    exact Bool.false_ne_true
  have hkept : (visible text).map (strip (margin (lines text))) =
      ((lines text).map (strip (margin (lines text)))).filter (!allBlank ·) := by
    rw [visible, List.filter_map]
    refine congrArg _ (List.filter_congr fun line hline => ?_)
    exact congrArg (!·) (allBlank_strip fun hvisible => margin_le hline hvisible).symm
  rw [hkept, heq, List.filter_append, List.filter_append, hempty habove, hempty hbelow, List.nil_append,
    List.append_nil, visible, lines_dedentChars]
  rfl

/-! ### Lines that lose the same characters -/

/-- The lines of a text that are not blank start with the same characters up to the margin. -/
def Aligned (text : List Char) : Prop :=
  ∃ common, common.length = margin (lines text) ∧ ∀ line ∈ visible text, common <+: line

/-- What is left of a line when some characters in front of it and the blanks at its end are gone. -/
def Leaves (removed line rest : List Char) : Prop := trimEnd line = removed ++ rest

/-- The lines of two texts that are not blank, side by side. -/
def pairs (text rest : List Char) : List (List Char × List Char) := (visible text).zip (visible rest)

theorem mem_pairs_iff {text : List Char} {pair : List Char × List Char} :
    pair ∈ pairs text (dedentChars text) ↔ pair.1 ∈ visible text ∧ strip (margin (lines text)) pair.1 = pair.2 := by
  rw [pairs, visible_dedentChars, ← List.map_prod_left_eq_zip, List.mem_map]
  constructor
  · rintro ⟨line, hline, rfl⟩
    exact ⟨hline, rfl⟩
  · rintro ⟨hline, hrest⟩
    exact ⟨pair.1, hline, Prod.ext rfl hrest⟩

section Pairs

variable {removed : List Char} {pair other : List Char × List Char}

theorem margin_le_of_mem_pairs {text : List Char} (hpair : pair ∈ pairs text (dedentChars text)) :
    allBlank pair.1 = false ∧ margin (lines text) ≤ indentWidth pair.1 := by
  obtain ⟨hmem, hvisible⟩ := mem_visible_iff.1 (mem_pairs_iff.1 hpair).1
  exact ⟨hvisible, margin_le hmem hvisible⟩

/-- A line loses as much of its indentation as the margin is wide. -/
theorem leaves_iff {text : List Char} (hpair : pair ∈ pairs text (dedentChars text)) :
    Leaves removed pair.1 pair.2 ↔ removed = pair.1.take (margin (lines text)) := by
  obtain ⟨hvisible, hwidth⟩ := margin_le_of_mem_pairs hpair
  rw [Leaves, ← take_append_strip hvisible hwidth, (mem_pairs_iff.1 hpair).2, List.append_left_inj, eq_comm]

/-- What is left of a line is indented by its indentation behind the margin. -/
theorem indentation_of_mem_pairs {text : List Char} (hpair : pair ∈ pairs text (dedentChars text)) :
    pair.1.take (margin (lines text)) ++ indentation pair.2 = indentation pair.1 := by
  obtain ⟨hvisible, hwidth⟩ := margin_le_of_mem_pairs hpair
  rw [← (mem_pairs_iff.1 hpair).2]
  exact indentation_strip hvisible hwidth

theorem drop_indentation_of_mem_pairs {text : List Char} (hpair : pair ∈ pairs text (dedentChars text)) :
    (indentation pair.1).drop (margin (lines text)) = indentation pair.2 := by
  rw [← indentation_of_mem_pairs hpair, List.drop_left' (length_take_of_le (margin_le_of_mem_pairs hpair).2)]

/-- Lines that lose the same characters have the same indentation afterwards only if they had it before. -/
theorem indentation_eq_iff_of_leaves {text : List Char} (hpair : pair ∈ pairs text (dedentChars text))
    (hother : other ∈ pairs text (dedentChars text)) (leaves : Leaves removed pair.1 pair.2)
    (leaves' : Leaves removed other.1 other.2) :
    indentation pair.2 = indentation other.2 ↔ indentation pair.1 = indentation other.1 := by
  rw [← indentation_of_mem_pairs hpair, ← indentation_of_mem_pairs hother, ← (leaves_iff hpair).1 leaves,
    ← (leaves_iff hother).1 leaves', List.append_right_inj]

end Pairs

/-- The lines of a text lose the same characters if it is aligned, and only then. -/
theorem aligned_iff {text : List Char} :
    Aligned text ↔ ∃ removed, ∀ pair ∈ pairs text (dedentChars text), Leaves removed pair.1 pair.2 := by
  constructor
  · rintro ⟨common, hlength, hcommon⟩
    refine ⟨common, fun pair hpair => (leaves_iff hpair).2 ?_⟩
    rw [← hlength]
    exact List.prefix_iff_eq_take.1 (hcommon pair.1 (mem_pairs_iff.1 hpair).1)
  · rintro ⟨removed, hremoved⟩
    have htake {line : List Char} (hline : line ∈ visible text) : removed = line.take (margin (lines text)) := by
      have hpair : (line, strip (margin (lines text)) line) ∈ pairs text (dedentChars text) :=
        mem_pairs_iff.2 ⟨hline, rfl⟩
      exact (leaves_iff hpair).1 (hremoved _ hpair)
    cases hvisible : visible text with
    | nil =>
        -- No line says which characters they are, so any will do.
        exact ⟨List.replicate (margin (lines text)) ' ', List.length_replicate, by simp [hvisible]⟩
    | cons line rest =>
        have hline : line ∈ visible text := hvisible ▸ List.mem_cons_self
        obtain ⟨hmem, hshown⟩ := mem_visible_iff.1 hline
        refine ⟨removed, ?_, fun other hother => ?_⟩
        · rw [htake hline, length_take_of_le (margin_le hmem hshown)]
        · rw [htake hother]
          exact List.take_prefix _ other

/-- Lines that are all indented with the same character are aligned. -/
theorem aligned_of_indentation {text : List Char} {c : Char}
    (uniform : ∀ line ∈ visible text, ∀ d ∈ indentation line, d = c) : Aligned text := by
  refine ⟨List.replicate (margin (lines text)) c, List.length_replicate, fun line hline => ?_⟩
  obtain ⟨hmem, hshown⟩ := mem_visible_iff.1 hline
  have hmargin := margin_le hmem hshown
  have htake : line.take (margin (lines text)) = List.replicate (margin (lines text)) c := by
    refine List.eq_replicate_iff.2 ⟨length_take_of_le hmargin, fun d hd => uniform line hline d ?_⟩
    rw [← indentation_strip hshown hmargin]
    exact List.mem_append_left _ hd
  rw [← htake]
  exact List.take_prefix _ line

/-- **The lines of a text lose the same characters exactly if they are aligned.** Of the lines that are not blank each
loses as many spaces and tabs as the margin is wide, so that two of them end up with the same indentation if theirs are
the same behind the margin. If the text is aligned this means that their indentations were the same before; and it is if
its lines are indented with one character only. -/
theorem removed_alike_iff (text : String) :
    let margin := margin (lines text.toList)
    let pairs := pairs text.toList (dedent text).toList
    (visible (dedent text).toList).length = (visible text.toList).length ∧
    (∀ pair ∈ pairs, ∃ removed, Leaves removed pair.1 pair.2 ∧ (∀ c ∈ removed, isIndent c = true) ∧
      removed.length = margin) ∧
    (∀ pair ∈ pairs, ∀ other ∈ pairs, indentation pair.2 = indentation other.2 ↔
      (indentation pair.1).drop margin = (indentation other.1).drop margin) ∧
    ((∃ removed, ∀ pair ∈ pairs, Leaves removed pair.1 pair.2) ↔ Aligned text.toList) ∧
    (Aligned text.toList → ∀ pair ∈ pairs, ∀ other ∈ pairs,
      indentation pair.2 = indentation other.2 ↔ indentation pair.1 = indentation other.1) ∧
    ∀ c, (∀ line ∈ visible text.toList, ∀ d ∈ indentation line, d = c) → Aligned text.toList := by
  simp only [dedent, String.toList_ofList]
  generalize text.toList = text
  refine ⟨?_, fun pair hpair => ?_, fun pair hpair other hother => ?_, aligned_iff.symm,
    fun aligned pair hpair other hother => ?_, fun c => aligned_of_indentation⟩
  · rw [visible_dedentChars, List.length_map]
  · have hwidth := (margin_le_of_mem_pairs hpair).2
    exact ⟨_, (leaves_iff hpair).2 rfl, fun c hc => isIndent_of_mem_take hwidth hc, length_take_of_le hwidth⟩
  · rw [drop_indentation_of_mem_pairs hpair, drop_indentation_of_mem_pairs hother]
  · obtain ⟨removed, hremoved⟩ := aligned_iff.1 aligned
    exact indentation_eq_iff_of_leaves hpair hother (hremoved pair hpair) (hremoved other hother)

/-- Three lines that are indented with two spaces and more, of which one goes on with a tab. -/
theorem removed_alike_iff_of_two_spaces :
    let text := "\n  a:\r\n  \tb\n\n    c  "
    let pairs := pairs text.toList (dedent text).toList
    Aligned text.toList ∧ dedent text = "a:\n\tb\n\n  c" ∧ (∃ removed, ∀ pair ∈ pairs, Leaves removed pair.1 pair.2) ∧
      ∀ pair ∈ pairs, ∀ other ∈ pairs,
        indentation pair.2 = indentation other.2 ↔ indentation pair.1 = indentation other.1 := by
  intro text pairs
  have aligned : Aligned text.toList := ⟨[' ', ' '], by decide +kernel, by decide +kernel⟩
  obtain ⟨-, -, -, halike, hsame, -⟩ := removed_alike_iff text
  exact ⟨aligned, by decide +kernel, halike.2 aligned, hsame aligned⟩

/-- A line that starts with a tab loses the tab and one that starts with a space loses the space: both end up without
indentation, although they have no indentation in common. -/
theorem different_margins_removed :
    let text := "\ta\n b"
    let pairs := pairs text.toList (dedent text).toList
    dedent text = "a\nb" ∧ (¬ ∃ removed, ∀ pair ∈ pairs, Leaves removed pair.1 pair.2) ∧
      ∃ pair ∈ pairs, ∃ other ∈ pairs, indentation pair.2 = indentation other.2 ∧
        indentation pair.1 ≠ indentation other.1 := by
  intro text pairs
  have hpairs : pairs = [(['\t', 'a'], ['a']), ([' ', 'b'], ['b'])] := by decide +kernel
  refine ⟨by decide +kernel, ?_, ?_⟩
  · rintro ⟨removed, hremoved⟩
    rw [hpairs, List.forall_mem_cons, List.forall_mem_singleton] at hremoved
    have htab : ['\t'] ++ ['a'] = removed ++ ['a'] := hremoved.1
    have hspace : [' '] ++ ['b'] = removed ++ ['b'] := hremoved.2
    cases (List.append_cancel_right htab).trans (List.append_cancel_right hspace).symm
  · rw [hpairs]
    exact ⟨_, List.mem_cons_self, _, List.mem_cons_of_mem _ List.mem_cons_self, rfl, by decide⟩

end Converge.Text
