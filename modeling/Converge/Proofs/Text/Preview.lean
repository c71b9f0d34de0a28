import Converge.Http.Store
import Converge.Proofs.Text.Trimming

/-!
# Previews and their limits

A preview copies a text to one line until it has reached a number of bytes. The number is looked at before each
character, and not with it, so the last character can go beyond it by up to three bytes. Then the blanks at the ends are
taken off.

## Main Definitions

* `Text.put`, `Text.line` — a character put behind a line, and a text put on one line.
* `Text.Cut` — where a text is cut: as soon as its line has reached the limit.
* `Text.Previews` — what a preview with a limit is.

## Main Statements

* `Text.exists_cut` — a text is filled in up to its cut.
* `Text.Cut.byteLength_shownOf` — what is shown goes beyond the limit by no more than its last character.
* `Text.previews_within_one_character` — a preview keeps to its limit but for the last character.
-/

namespace Converge

open Chars

/-! ### Lengths in bytes -/

namespace Chars

variable {front cs : List Char}

theorem byteLength_append (front back : List Char) : byteLength (front ++ back) = byteLength front + byteLength back := by
  have hfoldl (start : Nat) (cs : List Char) :
      cs.foldl (fun length c => length + c.utf8Size) start = start + byteLength cs := by
    induction cs generalizing start with
    | nil => rfl
    | cons c cs ih =>
        rw [byteLength, List.foldl_cons, List.foldl_cons, ih, ih, Nat.zero_add, Nat.add_assoc]
  rw [byteLength, List.foldl_append, hfoldl]
  rfl

theorem byteLength_singleton (c : Char) : byteLength [c] = c.utf8Size := Nat.zero_add _

/-- The bytes of a string are those of its characters. -/
theorem utf8ByteSize_ofList (cs : List Char) : (String.ofList cs).utf8ByteSize = byteLength cs := by
  induction cs with
  | nil => rfl
  | cons c cs ih =>
      rw [← List.singleton_append, String.ofList_append, String.utf8ByteSize_append, ih, byteLength_append,
        byteLength_singleton, ← String.singleton_eq_ofList, String.utf8ByteSize_singleton]

/-- A part of a text has no more bytes in front of its last character than the text has in front of its own. -/
theorem byteLength_dropLast_le (part : front <:+: cs) (nonempty : front ≠ []) :
    byteLength front.dropLast ≤ byteLength cs.dropLast := by
  obtain ⟨before, after, rfl⟩ := part
  obtain rfl | ⟨start, last, rfl⟩ := front.eq_nil_or_concat
  · exact absurd rfl nonempty
  · rw [List.concat_eq_append, List.dropLast_concat]
    obtain rfl | ⟨others, final, rfl⟩ := after.eq_nil_or_concat
    · rw [List.append_nil, ← List.append_assoc, List.dropLast_concat, byteLength_append]
      exact Nat.le_add_left _ _
    · rw [List.concat_eq_append, ← List.append_assoc, List.dropLast_concat]
      simp only [byteLength_append]
      omega

/-- A text is as long as what stands in front of its last character, and that character. -/
theorem exists_byteLength_eq (nonempty : cs ≠ []) :
    ∃ last ∈ cs, byteLength cs = byteLength cs.dropLast + last.utf8Size := by
  refine ⟨cs.getLast nonempty, List.getLast_mem nonempty, ?_⟩
  conv_lhs => rw [← List.dropLast_append_getLast nonempty]
  rw [byteLength_append, byteLength_singleton]

end Chars

namespace Text

variable {limit : Nat} {text front rest : List Char}

/-! ### A text on one line -/

/-- A line with a character put behind it. For a line control that is a space, unless there is one already. -/
def put (shown : List Char) (c : Char) : List Char :=
  if isLineControl c then (if shown.getLast? = some ' ' then shown else shown ++ [' ']) else shown ++ [c]

/-- A line with a text put behind it. -/
def line (shown text : List Char) : List Char := text.foldl put shown

theorem line_cons (shown : List Char) (c : Char) (text : List Char) : line shown (c :: text) = line (put shown c) text := rfl

theorem line_concat (shown text : List Char) (c : Char) : line shown (text ++ [c]) = put (line shown text) c :=
  List.foldl_append

/-- A character adds at most one to a line, and that is no line control. -/
theorem put_cases (shown : List Char) (c : Char) :
    put shown c = shown ∨ ∃ added, put shown c = shown ++ [added] ∧ isLineControl added = false ∧
      added.utf8Size ≤ c.utf8Size := by
  rw [put]
  split
  · split
    · exact .inl rfl
    · exact .inr ⟨' ', rfl, rfl, c.utf8Size_pos⟩
  · next hcontrol => exact .inr ⟨c, rfl, Bool.eq_false_iff.2 hcontrol, Nat.le_refl _⟩

/-- Without line controls a text is put on a line as it is. -/
theorem line_of_plain (plain : ∀ c ∈ text, isLineControl c = false) (shown : List Char) :
    line shown text = shown ++ text := by
  induction text generalizing shown with
  | nil => exact (List.append_nil _).symm
  | cons c text ih =>
      rw [List.forall_mem_cons] at plain
      have hput : put shown c = shown ++ [c] := by rw [put, plain.1, if_neg Bool.false_ne_true]
      rw [line_cons, hput, ih plain.2, List.append_assoc, List.singleton_append]

/-- On a line there are no line controls, and nothing that takes more bytes than a character it comes from. -/
theorem exists_of_mem_line {added : Char} (h : added ∈ line [] text) :
    isLineControl added = false ∧ ∃ c ∈ text, added.utf8Size ≤ c.utf8Size := by
  induction text using List.reverseRecOn with
  | nil => cases h
  | append_singleton text last ih =>
      have hold (h : added ∈ line [] text) :
          isLineControl added = false ∧ ∃ c ∈ text ++ [last], added.utf8Size ≤ c.utf8Size := by
        obtain ⟨hplain, c, hc, hsize⟩ := ih h
        exact ⟨hplain, c, List.mem_append_left _ hc, hsize⟩
      rw [line_concat] at h
      obtain hsame | ⟨new, hnew, hplain, hsize⟩ := put_cases (line [] text) last
      · exact hold (hsame ▸ h)
      · rw [hnew] at h
        obtain hmem | hmem := List.mem_append.1 h
        · exact hold hmem
        · rw [List.mem_singleton.1 hmem]
          exact ⟨hplain, last, List.mem_append_right _ List.mem_cons_self, hsize⟩

/-! ### The cut -/

/-- Where a text is cut that is put behind a line: in front of the first character that finds the limit reached. If there
is none, nothing is cut off. -/
structure Cut (limit : Nat) (shown text front rest : List Char) : Prop where
  eq : text = front ++ rest
  reached : rest ≠ [] → limit ≤ byteLength (line shown front)
  room : ∀ earlier, earlier <+: front → earlier ≠ front → byteLength (line shown earlier) < limit

/-- What announces that something was cut off. -/
def ellipsis (rest : List Char) : List Char := if rest.isEmpty then [] else ['.', '.', '.']

@[simp] theorem ellipsis_nil : ellipsis [] = [] := rfl

/-- **A text is filled in up to its cut.** -/
theorem exists_cut (limit : Nat) (shown text : List Char) :
    ∃ front rest, Cut limit shown text front rest ∧ fill limit shown text = line shown front ++ ellipsis rest := by
  induction text generalizing shown with
  | nil =>
      refine ⟨[], [], ⟨rfl, fun h => absurd rfl h, fun earlier hprefix hne => ?_⟩, (List.append_nil _).symm⟩
      exact absurd (List.prefix_nil.1 hprefix) hne
  | cons c text ih =>
      by_cases hfull : limit ≤ byteLength shown
      · refine ⟨[], c :: text, ⟨rfl, fun _ => hfull, fun earlier hprefix hne => ?_⟩, ?_⟩
        · exact absurd (List.prefix_nil.1 hprefix) hne
        · rw [fill, if_pos hfull]
          rfl
      · obtain ⟨front, rest, ⟨rfl, hreached, hroom⟩, hfill⟩ := ih (put shown c)
        refine ⟨c :: front, rest, ⟨rfl, hreached, fun earlier hprefix hne => ?_⟩, ?_⟩
        · obtain rfl | ⟨earlier, rfl, hbefore⟩ := List.prefix_cons_iff.1 hprefix
          · exact Nat.lt_of_not_le hfull
          · exact hroom earlier hbefore fun heq => hne (by rw [heq])
        · rw [line_cons, ← hfill, fill, if_neg hfull, put]
          split <;> rfl

/-- A line that is cut has not reached its limit in front of its last character. -/
theorem Cut.byteLength_dropLast (cut : Cut limit [] text front rest) (nonempty : line [] front ≠ []) :
    byteLength (line [] front).dropLast < limit := by
  obtain rfl | ⟨earlier, last, rfl⟩ := front.eq_nil_or_concat
  · exact absurd rfl nonempty
  · rw [List.concat_eq_append] at cut nonempty ⊢
    have hroom : byteLength (line [] earlier) < limit := cut.room earlier (List.prefix_append _ _) (by simp)
    rw [line_concat] at nonempty ⊢
    obtain hsame | ⟨added, hadded, -⟩ := put_cases (line [] earlier) last
    · rw [hsame] at nonempty ⊢
      obtain ⟨last, -, hlength⟩ := exists_byteLength_eq nonempty
      omega
    · rwa [hadded, List.dropLast_concat]

/-- What is shown of a line that is cut: its blanks are taken off at the ends, but for those in front of the points. -/
def shownOf (line rest : List Char) : List Char := if rest.isEmpty then trim line else trimStart line

theorem shownOf_part (line rest : List Char) : shownOf line rest <:+: line := by
  rw [shownOf]
  split
  · obtain ⟨front, back, -, -, heq⟩ := exists_blanks_trim line
    exact ⟨front, back, heq.symm⟩
  · obtain ⟨front, -, heq, -⟩ := exists_blanks_trimStart line
    exact ⟨front, [], by rw [List.append_nil, ← heq]⟩

theorem trim_append_ellipsis (line rest : List Char) : trim (line ++ ellipsis rest) = shownOf line rest ++ ellipsis rest := by
  rw [shownOf, ellipsis]
  split
  · rw [List.append_nil, List.append_nil]
  · exact trim_append_cons (by decide) line ['.', '.']

/-- **What is shown goes beyond the limit by no more than its last character.** -/
theorem Cut.byteLength_shownOf (cut : Cut limit [] text front rest) {shown : List Char}
    (hshown : shown = shownOf (line [] front) rest) :
    (shown ≠ [] → byteLength shown.dropLast < limit) ∧ byteLength shown ≤ limit + 3 ∧
      ((∀ c ∈ text, c.utf8Size = 1) → byteLength shown ≤ limit) := by
  have hpart : shown <:+: line [] front := hshown ▸ shownOf_part _ _
  have hlast (nonempty : shown ≠ []) : byteLength shown.dropLast < limit := by
    have hline : line [] front ≠ [] := fun hempty => nonempty (List.infix_nil.1 (hempty ▸ hpart))
    exact Nat.lt_of_le_of_lt (byteLength_dropLast_le hpart nonempty) (cut.byteLength_dropLast hline)
  have hbound (size : Nat) (sizes : ∀ c ∈ text, c.utf8Size ≤ size + 1) : byteLength shown ≤ limit + size := by
    by_cases hempty : shown = []
    · rw [hempty]
      exact Nat.zero_le _
    · obtain ⟨last, hmem, hlength⟩ := exists_byteLength_eq hempty
      obtain ⟨-, c, hc, hsize⟩ := exists_of_mem_line (hpart.subset hmem)
      have hroom := hlast hempty
      have hlimit := sizes c (cut.eq ▸ List.mem_append_left rest hc)
      omega
  exact ⟨hlast, hbound 3 fun c _ => c.utf8Size_le_four, fun single => hbound 0 fun c hc => Nat.le_of_eq (single c hc)⟩

/-! ### Previews -/

/-- A preview of a text with a limit: it is a single line, and shows a text up to its cut. What it shows has fewer bytes
than the limit in front of its last character. -/
structure Previews (limit : Nat) (text preview : String) : Prop where
  singleLine : ∀ c ∈ preview.toList, isLineControl c = false
  shown : ∃ front rest, Cut limit [] text.toList front rest ∧
    let shown := shownOf (line [] front) rest
    preview = String.ofList (shown ++ ellipsis rest) ∧
      (shown ≠ [] → (String.ofList shown.dropLast).utf8ByteSize < limit) ∧
      (String.ofList shown).utf8ByteSize ≤ limit + 3 ∧
      ((∀ c ∈ text.toList, c.utf8Size = 1) → (String.ofList shown).utf8ByteSize ≤ limit)

theorem not_isLineControl_of_mem_ellipsis {c : Char} (h : c ∈ ellipsis rest) : isLineControl c = false := by
  rw [ellipsis] at h
  split at h
  · cases h
  · simp only [List.mem_cons, List.not_mem_nil, or_false, or_self] at h
    rw [h]
    decide

/-- What is given for a text is a preview of it. -/
theorem previews_preview (text : String) (limit : Nat) : Previews limit text (preview text limit) := by
  obtain ⟨front, rest, cut, hfill⟩ := exists_cut limit [] text.toList
  have hpreview : preview text limit = String.ofList (shownOf (line [] front) rest ++ ellipsis rest) := by
    rw [preview, previewChars, hfill, trim_append_ellipsis]
  refine ⟨fun c hc => ?_, front, rest, cut, hpreview, ?_⟩
  · rw [hpreview, String.toList_ofList, List.mem_append] at hc
    obtain hshown | hpoint := hc
    · exact (exists_of_mem_line ((shownOf_part _ _).subset hshown)).1
    · exact not_isLineControl_of_mem_ellipsis hpoint
  · simp only [utf8ByteSize_ofList]
    exact cut.byteLength_shownOf rfl

/-- A single line without blanks at its ends is shown as it is, as soon as it has not reached the limit in front of its
last character. -/
theorem preview_eq_self {text : String} (plain : ∀ c ∈ text.toList, isLineControl c = false) (tight : Tight text.toList)
    (room : byteLength text.toList.dropLast < limit) : preview text limit = text := by
  obtain ⟨front, rest, cut, hfill⟩ := exists_cut limit [] text.toList
  have hfront : ∀ c ∈ front, isLineControl c = false := fun c hc => plain c (cut.eq ▸ List.mem_append_left rest hc)
  have hrest : rest = [] := by
    obtain hrest | ⟨others, last, hrest⟩ := rest.eq_nil_or_concat
    · exact hrest
    · -- Something would be cut off, so the limit would be reached in front of it.
      have hreached := cut.reached (by simp [hrest])
      rw [line_of_plain hfront, List.nil_append] at hreached
      rw [cut.eq, hrest, List.concat_eq_append, ← List.append_assoc, List.dropLast_concat, byteLength_append] at room
      omega
  have hwhole : front = text.toList := by rw [cut.eq, hrest, List.append_nil]
  rw [preview, previewChars, hfill, hwhole, hrest, line_of_plain plain, List.nil_append, ellipsis_nil,
    List.append_nil, tight.trim_eq, String.ofList_toList]

/-- **A preview keeps to its limit but for the last character**, and so does what is said of the body of a reply that has
no message. If all characters are of one byte, that is within the limit. It goes beyond it, by as much as the last
character does, for every text that could be shown as it is. -/
theorem previews_within_one_character (text : String) (limit : Nat) :
    Previews limit text (preview text limit) ∧
      (((Json.read? text).bind (·.get? "message")).bind Document.string? = none →
        Previews 200 text (HttpStore.explanation text)) ∧
      ((∀ c ∈ text.toList, isLineControl c = false) → Tight text.toList →
        byteLength text.toList.dropLast < limit → preview text limit = text) := by
  refine ⟨previews_preview text limit, fun noMessage => ?_, preview_eq_self⟩
  rw [HttpStore.explanation, noMessage]
  exact previews_preview text 200

/-- A body that is no JSON value is shown up to its cut. -/
theorem previews_within_one_character_of_body :
    ((Json.read? "no\nway").bind (·.get? "message")).bind Document.string? = none ∧
      Previews 200 "no\nway" (HttpStore.explanation "no\nway") := by
  have hmessage : ((Json.read? "no\nway").bind (·.get? "message")).bind Document.string? = none := by decide +kernel
  exact ⟨hmessage, (previews_within_one_character "no\nway" 200).2.1 hmessage⟩

/-- A character of two bytes goes beyond a limit of two bytes, of which one is taken. Nothing is cut off, so there are no
points at the end. -/
theorem preview_beyond_limit : preview "aé" 2 = "aé" ∧ "aé".utf8ByteSize = 3 := by
  decide +kernel

end Text

end Converge
