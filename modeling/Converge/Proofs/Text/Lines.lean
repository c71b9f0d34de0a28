import Converge.Text.Chars
import Mathlib.Data.List.Induction

/-!
# Lines of a text

The lines of a text, put one after the other, are the text. This module says which lists of lines come of a text:
each line but the last ends in its only line break, and the last one may lack it. Lists of this form and texts are
the same thing, so a text can be cut between any two of its lines.

## Main Definitions

* `Closed` — a text that ends in a line break, or has nothing in it.
* `Lines` — the lists of lines of texts.

## Main Statements

* `lines_linesWithEnds`, `Lines.linesWithEnds_flatten` — a text is cut into such a list, and such a list is what the
  text that it makes is cut into.
* `linesWithEnds_append` — a text that is closed and another one have the lines of the one and those of the other.
* `lines_join` — texts that are joined by line feeds are the lines of what they make up.
-/

namespace Converge.Chars

/-- A text that ends in a line break, or has nothing in it. -/
def Closed (cs : List Char) : Prop := cs = [] ∨ cs.getLast? = some '\n'

/-- The lists of lines of texts. -/
inductive Lines : List (List Char) → Prop
  | nil : Lines []
  | last {body : List Char} (nonempty : body ≠ []) (unbroken : '\n' ∉ body) : Lines [body]
  | cons {body : List Char} {lines : List (List Char)} (unbroken : '\n' ∉ body) (rest : Lines lines) :
      Lines ((body ++ ['\n']) :: lines)

/-! ### Cutting a text -/

theorem linesWithEnds_newline (cs : List Char) : linesWithEnds ('\n' :: cs) = ['\n'] :: linesWithEnds cs := by
  rw [linesWithEnds, if_pos rfl]

/-- A text without line breaks is one line. -/
theorem linesWithEnds_of_notMem {body : List Char} (nonempty : body ≠ []) (unbroken : '\n' ∉ body) :
    linesWithEnds body = [body] := by
  induction body with
  | nil => exact absurd rfl nonempty
  | cons c body ih =>
      rw [List.mem_cons, not_or] at unbroken
      rw [linesWithEnds, if_neg (Ne.symm unbroken.1)]
      cases body with
      | nil => rfl
      | cons d body => rw [ih (List.cons_ne_nil d body) unbroken.2]

/-- The first line ends at the first line break. -/
theorem linesWithEnds_line {body : List Char} (unbroken : '\n' ∉ body) (rest : List Char) :
    linesWithEnds (body ++ '\n' :: rest) = (body ++ ['\n']) :: linesWithEnds rest := by
  induction body with
  | nil => exact linesWithEnds_newline rest
  | cons c body ih =>
      rw [List.mem_cons, not_or] at unbroken
      rw [List.cons_append, linesWithEnds, if_neg (Ne.symm unbroken.1), ih unbroken.2]
      rfl

/-- Induction on the lines of a text: it has no line break, or a first line and a rest. -/
@[elab_as_elim]
theorem byLines {motive : List Char → Prop} (unbroken : ∀ cs, '\n' ∉ cs → motive cs)
    (line : ∀ body rest, '\n' ∉ body → motive rest → motive (body ++ '\n' :: rest)) (cs : List Char) :
    motive cs := by
  induction hlength : cs.length using Nat.strongRecOn generalizing cs with
  | ind length ih =>
      by_cases h : '\n' ∈ cs
      · obtain ⟨body, rest, rfl, hbody⟩ := List.eq_append_cons_of_mem h
        rw [List.length_append, List.length_cons] at hlength
        exact line body rest hbody (ih rest.length (by omega) rest rfl)
      · exact unbroken cs h

/-- The lines of a text are of the form of lines. -/
theorem lines_linesWithEnds (cs : List Char) : Lines (linesWithEnds cs) := by
  induction cs using byLines with
  | unbroken cs unbroken =>
      by_cases nonempty : cs = []
      · subst nonempty
        exact .nil
      · rw [linesWithEnds_of_notMem nonempty unbroken]
        exact .last nonempty unbroken
  | line body rest unbroken ih =>
      rw [linesWithEnds_line unbroken]
      exact .cons unbroken ih

/-- What follows a line of a closed text is closed. -/
theorem Closed.of_line {body rest : List Char} (h : Closed (body ++ '\n' :: rest)) : Closed rest := by
  obtain hnil | hlast := h
  · exact absurd hnil (List.append_ne_nil_of_right_ne_nil body (List.cons_ne_nil _ rest))
  · rw [List.getLast?_append, List.getLast?_cons, Option.some_or, Option.some.injEq] at hlast
    cases hrest : rest.getLast? with
    | none => exact .inl (List.getLast?_eq_none_iff.1 hrest)
    | some c =>
        rw [hrest, Option.getD_some] at hlast
        exact .inr (hlast ▸ hrest)

namespace Lines

variable {lines above below : List (List Char)}

/-- A list of lines is what the text that it makes is cut into. -/
theorem linesWithEnds_flatten (h : Lines lines) : linesWithEnds lines.flatten = lines := by
  induction h with
  | nil => rfl
  | last nonempty unbroken =>
      rw [List.flatten_cons, List.flatten_nil, List.append_nil]
      exact linesWithEnds_of_notMem nonempty unbroken
  | cons unbroken rest ih =>
      rw [List.flatten_cons, List.append_assoc, List.singleton_append, linesWithEnds_line unbroken, ih]

/-- Lines from one on are lines. -/
theorem of_append_right (h : Lines (above ++ below)) : Lines below := by
  induction above with
  | nil => exact h
  | cons line above ih =>
      cases hrest : above ++ below with
      | nil =>
          rw [(List.append_eq_nil_iff.1 hrest).2]
          exact .nil
      | cons next rest =>
          rw [List.cons_append, hrest] at h
          cases h with
          | cons _ h => exact ih (hrest ▸ h)

/-- Lines up to one are lines. -/
theorem of_append_left (h : Lines (above ++ below)) : Lines above := by
  induction above with
  | nil => exact .nil
  | cons line above ih =>
      rw [List.cons_append] at h
      generalize hrest : above ++ below = rest at h
      cases h with
      | last nonempty unbroken =>
          rw [(List.append_eq_nil_iff.1 hrest).1]
          exact .last nonempty unbroken
      | cons unbroken h => exact .cons unbroken (ih (hrest ▸ h))

/-- Lines next to each other are lines. -/
theorem of_within {some : List (List Char)} (h : Lines lines) (hwithin : some <:+: lines) : Lines some := by
  obtain ⟨above, below, rfl⟩ := hwithin
  exact h.of_append_left.of_append_right

/-- The lines above another one make a closed text. -/
theorem closed_of_append (h : Lines (above ++ below)) (hbelow : below ≠ []) : Closed above.flatten := by
  induction above with
  | nil => exact .inl rfl
  | cons line above ih =>
      have hne : above ++ below ≠ [] := List.append_ne_nil_of_right_ne_nil above hbelow
      rw [List.cons_append] at h
      generalize hrest : above ++ below = rest at h hne
      cases h with
      | last => exact absurd rfl hne
      | cons _ h =>
          obtain hnil | hlast := ih (hrest ▸ h)
          · rw [List.flatten_cons, hnil, List.append_nil]
            exact .inr List.getLast?_concat
          · rw [List.flatten_cons]
            exact .inr (by rw [List.getLast?_append, hlast, Option.some_or])

end Lines

/-- A text that is closed and another one have the lines of the one and those of the other. -/
theorem linesWithEnds_append {first : List Char} (closed : Closed first) (second : List Char) :
    linesWithEnds (first ++ second) = linesWithEnds first ++ linesWithEnds second := by
  induction first using byLines with
  | unbroken first unbroken =>
      obtain rfl | hlast := closed
      · rfl
      · exact absurd (List.mem_of_getLast? hlast) unbroken
  | line body rest unbroken ih =>
      rw [List.append_assoc, List.cons_append, linesWithEnds_line unbroken, linesWithEnds_line unbroken,
        ih closed.of_line, List.cons_append]

/-! ### Lines without their line breaks -/

theorem dropLineEnd_of_unbroken {line : List Char} (unbroken : '\n' ∉ line) : dropLineEnd line = line := by
  rw [dropLineEnd]
  split
  · next heq => exact absurd (List.mem_reverse.1 (heq ▸ List.mem_cons_self)) unbroken
  · next heq => exact absurd (List.mem_reverse.1 (heq ▸ List.mem_cons_self)) unbroken
  · rfl

/-- A line break may have a carriage return in front of it. -/
theorem dropLineEnd_concat (body : List Char) :
    dropLineEnd (body ++ ['\n']) = if body.getLast? = some '\r' then body.dropLast else body := by
  induction body using List.reverseRecOn with
  | nil => rfl
  | append_singleton body c _ =>
      rw [List.getLast?_concat, List.dropLast_concat, dropLineEnd, List.reverse_append, List.reverse_append]
      by_cases h : c = '\r'
      · subst h
        simp
      · simp [h]

/-- A text without line breaks is one line. -/
theorem lines_of_notMem {body : List Char} (nonempty : body ≠ []) (unbroken : '\n' ∉ body) : lines body = [body] := by
  rw [lines, linesWithEnds_of_notMem nonempty unbroken, List.map_singleton, dropLineEnd_of_unbroken unbroken]

/-- The first line ends in front of the first line break. -/
theorem lines_line {body : List Char} (unbroken : '\n' ∉ body) (rest : List Char) :
    lines (body ++ '\n' :: rest) = dropLineEnd (body ++ ['\n']) :: lines rest := by
  rw [lines, linesWithEnds_line unbroken]
  rfl

/-- A line has no line break in it. -/
theorem notMem_of_mem_lines {cs line : List Char} (h : line ∈ lines cs) : '\n' ∉ line := by
  induction cs using byLines generalizing line with
  | unbroken cs unbroken =>
      by_cases nonempty : cs = []
      · subst nonempty
        cases h
      · rw [lines_of_notMem nonempty unbroken, List.mem_singleton] at h
        exact h ▸ unbroken
  | line body rest unbroken ih =>
      rw [lines_line unbroken, List.mem_cons, dropLineEnd_concat] at h
      obtain rfl | h := h
      · split
        · exact fun hmem => unbroken (List.dropLast_subset body hmem)
        · exact unbroken
      · exact ih h

/-- Texts without line breaks that are joined by line feeds are the lines of what they make up. Of a carriage return at
the end of one nothing would be seen, nor of an empty one at the end of all. -/
theorem lines_join {parts : List (List Char)} (unbroken : ∀ part ∈ parts, '\n' ∉ part)
    (bare : ∀ part ∈ parts, part.getLast? ≠ some '\r') (nonempty : ∀ part ∈ parts.getLast?, part ≠ []) :
    lines (join ['\n'] parts) = parts := by
  induction parts with
  | nil => rfl
  | cons part parts ih =>
      rw [List.forall_mem_cons] at unbroken bare
      cases parts with
      | nil => exact lines_of_notMem (nonempty part rfl) unbroken.1
      | cons next parts =>
          show lines (part ++ ['\n'] ++ join ['\n'] (next :: parts)) = _
          rw [List.append_assoc, List.singleton_append, lines_line unbroken.1, dropLineEnd_concat, if_neg bare.1,
            ih unbroken.2 bare.2 nonempty]

end Converge.Chars
