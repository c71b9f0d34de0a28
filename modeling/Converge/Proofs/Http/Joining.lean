import Converge.Http.Url
import Converge.Proofs.Http.Percent
import Converge.Proofs.Text.Splitting
import Mathlib.Data.List.TakeWhile

/-!
# Where a reference leads

A reference is meant to add its parts to a folder, each as one segment. Joining does something else where a part has a
slash of its own, where it has a mark that ends the path or a character that is dropped, and where it reads as points.
All of these make the path shorter, counted in characters, and this is how they are told from what was meant.

## Main Definitions

* `Url.written` — a segment as it stands in a path.
* `Url.isDots` — a segment that goes nowhere or up, however its points are written.
* `Url.extent` — the characters of a path, with a slash for each segment.

## Main Statements

* `Url.walk_cases` — a walk puts all segments behind the folder, or it ends in a shorter path.
* `Url.join_eq_iff` — when a reference leads to where its parts say.
-/

namespace Converge

namespace Http.Url

open Chars

/-! ### Segments as they are written -/

/-- A segment as it stands in a path. -/
def written (segment : List Char) : String := String.ofList (Percent.encode Percent.isPathPlain segment)

/-- A segment that goes nowhere or up, however its points are written. -/
def isDots (segment : List Char) : Bool := plainPoints segment = ['.'] || plainPoints segment = ['.', '.']

/-- The characters of a path, with a slash for each segment. -/
def extent : List String → Nat
  | [] => 0
  | segment :: path => segment.length + 1 + extent path

@[simp] theorem extent_nil : extent [] = 0 := rfl

@[simp] theorem extent_cons (segment : String) (path : List String) :
    extent (segment :: path) = segment.length + 1 + extent path := rfl

@[simp] theorem extent_append (path other : List String) : extent (path ++ other) = extent path + extent other := by
  induction path with
  | nil => simp
  | cons segment path ih => rw [List.cons_append, extent_cons, extent_cons, ih, ← Nat.add_assoc]

@[simp] theorem extent_reverse (path : List String) : extent path.reverse = extent path := by
  induction path with
  | nil => rfl
  | cons segment path ih => simp [ih, Nat.add_comm]

theorem length_written (segment : List Char) :
    (written segment).length = (Percent.encode Percent.isPathPlain segment).length :=
  String.length_ofList

/-- A text from which characters are left out is written in less. -/
theorem length_written_of_sublist {part text : List Char} (h : part.Sublist text) :
    part = text ∨ (written part).length < (written text).length := by
  rw [length_written, length_written]
  exact Percent.length_encode_of_sublist h

theorem length_written_pos {segment : List Char} (h : segment ≠ []) : 0 < (written segment).length :=
  (length_written_of_sublist (List.nil_sublist segment)).resolve_left (Ne.symm h)

/-- What is written with slashes between the parts has the extent of the parts. -/
theorem extent_of_join {parts : List (List Char)} (hparts : parts ≠ []) :
    extent (parts.map written) = (written (Chars.join ['/'] parts)).length + 1 := by
  induction parts with
  | nil => exact absurd rfl hparts
  | cons part parts ih =>
      cases parts with
      | nil => rfl
      | cons next parts =>
          have hslash : Percent.encode Percent.isPathPlain ['/'] = ['/'] := by decide
          rw [List.map_cons, extent_cons, ih (List.cons_ne_nil _ _), join_cons_cons, length_written, length_written,
            length_written, Percent.encode_append, Percent.encode_append, hslash, List.length_append,
            List.length_append, List.length_singleton]
          omega

/-- A segment that consists of points makes a path shorter than it is, and every other one is put on it. -/
theorem addSegment_cases (path : List String) (segment : List Char) (isLast : Bool) :
    (isDots segment = false ∧ addSegment path segment isLast = written segment :: path) ∨
      isDots segment ∧ extent (addSegment path segment isLast) < extent (written segment :: path) := by
  cases hdots : isDots segment with
  | false =>
      simp only [isDots, Bool.or_eq_false_iff, decide_eq_false_iff_not] at hdots
      refine .inl ⟨rfl, ?_⟩
      simp only [addSegment, hdots, ↓reduceIte]
      rfl
  | true =>
      have hne : segment ≠ [] := by
        rintro rfl
        cases hdots
      have hpos := length_written_pos hne
      have hlast : extent (if isLast then [""] else []) ≤ 1 := by cases isLast <;> decide
      have htail : extent path.tail ≤ extent path := by cases path <;> simp
      refine .inr ⟨rfl, ?_⟩
      simp only [isDots, Bool.or_eq_true, decide_eq_true_eq] at hdots
      rw [extent_cons, addSegment]
      obtain hdots | hdots := hdots
      · simp only [hdots, List.cons.injEq, reduceCtorEq, and_false, ↓reduceIte, extent_append]
        omega
      · simp only [hdots, ↓reduceIte, extent_append]
        omega

/-- **Segments are all put on a path, or some of them are points and it ends up shorter.** The induction is on the
segments. -/
theorem addSegments_cases (path : List String) (segments : List (List Char)) :
    ((∀ segment ∈ segments, isDots segment = false) ∧
        addSegments path segments = (segments.map written).reverse ++ path) ∨
      (∃ segment ∈ segments, isDots segment) ∧
        extent (addSegments path segments) < extent (segments.map written) + extent path := by
  induction segments generalizing path with
  | nil => exact .inl ⟨fun _ h => (List.not_mem_nil h).elim, rfl⟩
  | cons segment segments ih =>
      cases segments with
      | nil =>
          obtain ⟨hdots, hadd⟩ | ⟨hdots, hlt⟩ := addSegment_cases path segment true
          · exact .inl ⟨List.forall_mem_singleton.2 hdots, hadd⟩
          · exact .inr ⟨⟨segment, List.mem_singleton_self segment, hdots⟩, by simpa [addSegments] using hlt⟩
      | cons next segments =>
          have hstep : addSegments path (segment :: next :: segments) =
              addSegments (addSegment path segment false) (next :: segments) := rfl
          rw [hstep, List.map_cons, List.reverse_cons, extent_cons]
          obtain ⟨hdots, hadd⟩ | ⟨hdots, hlt⟩ := addSegment_cases path segment false
          · rw [hadd]
            obtain ⟨hrest, hall⟩ | ⟨⟨other, hother, hdots⟩, hlt⟩ := ih (written segment :: path)
            · refine .inl ⟨List.forall_mem_cons.2 ⟨hdots, hrest⟩, ?_⟩
              rw [hall, List.append_assoc, List.singleton_append]
            · rw [extent_cons] at hlt
              exact .inr ⟨⟨other, List.mem_cons_of_mem segment hother, hdots⟩, by omega⟩
          · refine .inr ⟨⟨segment, List.mem_cons_self, hdots⟩, ?_⟩
            -- The segments that follow do not make up for this one: they add no more than they have themselves.
            have hle : extent (addSegments (addSegment path segment false) (next :: segments)) ≤
                extent ((next :: segments).map written) + extent (addSegment path segment false) := by
              obtain ⟨-, hall⟩ | ⟨-, hlt⟩ := ih (addSegment path segment false)
              · exact Nat.le_of_eq (by rw [hall, extent_append, extent_reverse])
              · exact Nat.le_of_lt hlt
            rw [extent_cons] at hlt
            omega

/-! ### Cutting at slashes -/

section Slashes

variable {form : Form}

theorem eq_of_isSlash {c : Char} (h : form.isSlash c) : c = '/' ∨ c = '\\' := by
  simp only [Form.isSlash, Bool.or_eq_true, Bool.and_eq_true, decide_eq_true_eq] at h
  exact h.imp_right And.right

theorem isPathPlain_of_isSlash {c : Char} (h : form.isSlash c) : Percent.isPathPlain c := by
  obtain rfl | rfl := eq_of_isSlash h
  · decide
  · decide

theorem Form.segments_cons (c : Char) (text : List Char) :
    form.segments (c :: text) =
      if form.isSlash c then [] :: form.segments text
      else match form.segments text with
        | [] => [[c]]
        | part :: parts => (c :: part) :: parts := by
  rw [Form.segments, Form.segments, List.map_cons, Chars.splitAt]
  cases hslash : form.isSlash c with
  | true => rfl
  | false =>
      have hne : c ≠ '/' := by
        rintro rfl
        cases hslash
      cases Chars.splitAt '/' (text.map fun c => if form.isSlash c then '/' else c) <;>
        simp only [Bool.false_eq_true, hne, ↓reduceIte]

/-- The segments of a text have its extent. -/
theorem extent_segments (text : List Char) :
    extent ((form.segments text).map written) = (written text).length + 1 := by
  induction text with
  | nil => rfl
  | cons c text ih =>
      rw [length_written] at ih
      rw [Form.segments_cons, length_written, Percent.encode_cons, List.length_append]
      split
      · next hslash =>
          have hempty : (written []).length = 0 := rfl
          rw [List.map_cons, extent_cons, ih, hempty, if_pos (isPathPlain_of_isSlash hslash), List.length_singleton]
          omega
      · split
        · next h => exact absurd h (splitAt_ne_nil _ _)
        · next part parts h =>
            rw [h, List.map_cons, extent_cons, length_written] at ih
            rw [List.map_cons, extent_cons, length_written, Percent.encode_cons, List.length_append]
            omega

/-- The segments of a text are one more than its slashes. -/
theorem length_segments (text : List Char) : (form.segments text).length = text.countP form.isSlash + 1 := by
  induction text with
  | nil => rfl
  | cons c text ih =>
      rw [Form.segments_cons, List.countP_cons]
      split
      · next hslash => rw [List.length_cons, ih]
      · next hslash =>
          split
          · next h => exact absurd h (splitAt_ne_nil _ _)
          · next part parts h =>
              rw [h] at ih
              exact ih

/-- Parts that have no slashes of their own are the segments. -/
theorem segments_join {parts : List (List Char)} (hparts : parts ≠ [])
    (h : ∀ part ∈ parts, ∀ c ∈ part, form.isSlash c = false) :
    form.segments (Chars.join ['/'] parts) = parts := by
  have hsame : (Chars.join ['/'] parts).map (fun c => if form.isSlash c then '/' else c) =
      Chars.join ['/'] parts := by
    refine (List.map_congr_left fun c hc => ?_).trans (List.map_id _)
    obtain ⟨part, hpart, hmem⟩ | rfl := mem_or_eq_of_mem_join hc
    · rw [h part hpart c hmem, if_neg Bool.false_ne_true, id]
    · rfl
  rw [Form.segments, hsame]
  refine splitAt_join hparts fun part hpart hmem => ?_
  have hslash := h part hpart '/' hmem
  cases hslash

/-- The slashes of a text are those between its parts and those of the parts. -/
theorem countP_join {parts : List (List Char)} (hparts : parts ≠ []) :
    (Chars.join ['/'] parts).countP form.isSlash + 1 = parts.flatten.countP form.isSlash + parts.length := by
  induction parts with
  | nil => exact absurd rfl hparts
  | cons part parts ih =>
      cases parts with
      | nil => simp [Chars.join]
      | cons next parts =>
          have hslash : ['/'].countP form.isSlash = 1 := rfl
          rw [join_cons_cons, List.countP_append, List.countP_append, hslash, List.flatten_cons, List.countP_append,
            List.length_cons, Nat.add_assoc, ih (List.cons_ne_nil _ _)]
          omega

end Slashes

/-- **A walk puts all segments behind the folder, or it ends in a path that is shorter than that.** -/
theorem walk_cases (form : Form) (folder : List String) (text : List Char) :
    ((∀ segment ∈ form.segments text, isDots segment = false) ∧
        walk form folder text = folder ++ (form.segments text).map written) ∨
      (∃ segment ∈ form.segments text, isDots segment) ∧
        extent (walk form folder text) < extent folder + (written text).length + 1 := by
  obtain ⟨hdots, hall⟩ | ⟨hdots, hlt⟩ := addSegments_cases folder.reverse (form.segments text)
  · refine .inl ⟨hdots, ?_⟩
    rw [walk, hall, List.reverse_append, List.reverse_reverse, List.reverse_reverse]
  · rw [extent_segments, extent_reverse] at hlt
    rw [walk, extent_reverse]
    exact .inr ⟨hdots, by omega⟩

/-! ### What is cut off -/

theorem cleaned_sublist (text : List Char) : (cleaned text).Sublist text := by
  refine List.filter_sublist.trans ?_
  have hend := (List.dropWhile_sublist (fun c : Char => decide (c.toNat ≤ 0x20))
    (l := (text.dropWhile (fun c : Char => decide (c.toNat ≤ 0x20))).reverse)).reverse
  rw [List.reverse_reverse] at hend
  exact hend.trans (List.dropWhile_sublist _)

theorem cutQuery_sublist (text : List Char) : (cutQuery text).1.Sublist text := by
  simp only [cutQuery]
  split
  · next path query h =>
      have hpath : path.Sublist (text.takeWhile (· ≠ '#')) := by
        rw [eq_append_of_splitFirst h]
        exact List.sublist_append_left ..
      exact hpath.trans (List.takeWhile_sublist _)
  · exact List.takeWhile_sublist _

/-- Nothing is cut off exactly if there is no mark of a query or a fragment. -/
theorem cutQuery_eq_iff {text : List Char} : cutQuery text = (text, none) ↔ '?' ∉ text ∧ '#' ∉ text := by
  have hfragment : text.takeWhile (· ≠ '#') = text ↔ '#' ∉ text := by
    rw [List.takeWhile_eq_self_iff]
    simp only [decide_eq_true_eq]
    exact ⟨fun h hmem => h '#' hmem rfl, fun h c hc heq => h (heq ▸ hc)⟩
  simp only [cutQuery]
  constructor
  · intro h
    split at h
    · cases h
    · next hquery =>
        have htext := (Prod.mk.inj h).1
        rw [htext] at hquery
        exact ⟨splitFirst_eq_none_iff.1 hquery, hfragment.1 htext⟩
  · rintro ⟨hquery, hhash⟩
    rw [hfragment.2 hhash, splitFirst_eq_none_iff.2 hquery]

/-! ### References -/

/-- The URL with the parts of a reference behind its folder. -/
def placed (base : Url) (parts : List (List Char)) : Url :=
  { base with path := base.path.dropLast ++ parts.map written, query := none }

/-- What leads to where its parts say has lost nothing on the way, and none of its segments consists of points. -/
theorem of_join_eq {base : Url} {text : List Char} {parts : List (List Char)}
    (hextent : extent (parts.map written) = (written text).length + 1)
    (h : base.join (String.ofList text) = base.placed parts) :
    cleaned text = text ∧ cutQuery text = (text, none) ∧
      (∀ segment ∈ (formOf base.scheme).segments text, isDots segment = false) ∧
      ((formOf base.scheme).segments text).map written = parts.map written := by
  generalize hpath : (cutQuery (cleaned text)).1 = path
  have hsublist : path.Sublist text := hpath ▸ (cutQuery_sublist _).trans (cleaned_sublist _)
  have hwalk : walk (formOf base.scheme) base.path.dropLast path = base.path.dropLast ++ parts.map written := by
    have hjoined := congrArg Url.path h
    simp only [Url.join, String.toList_ofList, hpath] at hjoined
    exact hjoined
  have hquery : (cutQuery (cleaned text)).2 = none := by
    have hjoined := congrArg Url.query h
    simp only [Url.join, String.toList_ofList] at hjoined
    exact Option.map_eq_none_iff.1 hjoined
  have hlength : extent (base.path.dropLast ++ parts.map written) =
      extent base.path.dropLast + (written text).length + 1 := by
    rw [extent_append, hextent, Nat.add_assoc]
  have hless := length_written_of_sublist hsublist
  obtain ⟨hdots, hall⟩ | ⟨-, hlt⟩ := walk_cases (formOf base.scheme) base.path.dropLast path
  · -- Had something been cut off, the walk would end in a path that is too short.
    have hsame : path = text := by
      rw [← hwalk, hall, extent_append, extent_segments] at hlength
      exact hless.resolve_right (by omega)
    subst hsame
    have hclean : cleaned path = path :=
      (cleaned_sublist path).eq_of_length_le (hpath ▸ cutQuery_sublist (cleaned path)).length_le
    rw [hclean] at hpath hquery
    refine ⟨hclean, Prod.ext hpath hquery, hdots, ?_⟩
    exact List.append_cancel_left (hall.symm.trans hwalk)
  · exfalso
    rw [hwalk, hlength] at hlt
    obtain rfl | hless := hless
    · omega
    · omega

/-- **When a reference leads to where its parts say**: nothing of it is dropped or cut off, and no part has a slash of
its own or consists of points. If it leads there, it has as many segments as parts, which leaves no slashes for the
parts. -/
theorem join_eq_iff {base : Url} {parts : List (List Char)} (hparts : parts ≠ []) :
    base.join (String.ofList (Chars.join ['/'] parts)) = base.placed parts ↔
      cleaned (Chars.join ['/'] parts) = Chars.join ['/'] parts ∧
        cutQuery (Chars.join ['/'] parts) = (Chars.join ['/'] parts, none) ∧
        ∀ part ∈ parts, (∀ c ∈ part, (formOf base.scheme).isSlash c = false) ∧ isDots part = false := by
  constructor
  · intro h
    obtain ⟨hclean, hcut, hdots, hsame⟩ := of_join_eq (extent_of_join hparts) h
    -- As many segments as parts leave no slash for the parts themselves.
    have hlength := congrArg List.length hsame
    rw [List.length_map, List.length_map, length_segments, countP_join hparts] at hlength
    have hslash : ∀ part ∈ parts, ∀ c ∈ part, (formOf base.scheme).isSlash c = false := by
      intro part hpart c hc
      have hnone : parts.flatten.countP (formOf base.scheme).isSlash = 0 := by omega
      exact Bool.eq_false_iff.2 (List.countP_eq_zero.1 hnone c (List.mem_flatten_of_mem hpart hc))
    rw [segments_join hparts hslash] at hdots
    exact ⟨hclean, hcut, fun part hpart => ⟨hslash part hpart, hdots part hpart⟩⟩
  · rintro ⟨hclean, hcut, hplain⟩
    have hsegments := segments_join hparts fun part hpart => (hplain part hpart).1
    have hwalk := walk_cases (formOf base.scheme) base.path.dropLast (Chars.join ['/'] parts)
    rw [hsegments] at hwalk
    obtain ⟨-, hall⟩ | ⟨⟨part, hpart, hdots⟩, -⟩ := hwalk
    · simp only [Url.join, String.toList_ofList, hclean, hcut, hall]
      rfl
    · rw [(hplain part hpart).2] at hdots
      cases hdots

end Http.Url

end Converge
