import Converge.Proofs.Pairing
import Converge.Proofs.Text.Margin

/-!
# Cuts at bytes and positions

The margin of a block is a number of bytes. A line is cut at that byte, which fails in the middle of a character and
behind the end of the line. The list of lines is cut at two positions, which fails where one of them is behind the end
or where they are in the wrong order. None of this happens: only spaces and tabs are counted, each of them is one byte,
no line that is cut has fewer of them, and the positions are those of items.

## Main Definitions

* `Text.fromByte?` — a text from a byte on, if it can be cut there.
* `Text.slice?` — a text between two bytes, if it can be cut there.
* `Text.between?` — the items of a list between two positions, if it can be cut there.
* `Text.sliced?` — the margin taken off by such cuts.

## Main Statements

* `Text.fromByte?_eq_some_iff` — a text is cut between two characters.
* `Text.between?_firstPassing_behindLast` — the items from the first to the last one that passes a test.
* `Text.sliced?_eq` — no cut fails, and what they give is the text without its margin.
-/

namespace Converge.Text

open Chars

/-! ### Texts cut at bytes -/

/-- The text from a byte on, if a character starts there or the text ends there. -/
def fromByte? (text : String) (byte : Nat) : Option String :=
  if h : (String.Pos.Raw.mk byte).IsValid text then some (text.sliceFrom ⟨⟨byte⟩, h⟩).copy else none

/-- Behind a part of a text there is a place to cut. -/
theorem exists_splits (front back : String) :
    ∃ valid : (String.Pos.Raw.mk front.utf8ByteSize).IsValid (front ++ back),
      String.Pos.Splits ⟨⟨front.utf8ByteSize⟩, valid⟩ front back :=
  ⟨String.Pos.Raw.isValid_iff_exists_append.2 ⟨front, back, rfl, rfl⟩, rfl, rfl⟩

/-- A text is cut at a byte if it has a part of that many bytes in front. -/
theorem fromByte?_eq_some_iff {text rest : String} {byte : Nat} :
    fromByte? text byte = some rest ↔ ∃ front, text = front ++ rest ∧ front.utf8ByteSize = byte := by
  constructor
  · intro h
    rw [fromByte?] at h
    split at h
    · next valid =>
        cases h
        have hsplits := String.Pos.splits (s := text) ⟨⟨byte⟩, valid⟩
        exact ⟨_, hsplits.eq_append, (congrArg String.Pos.Raw.byteIdx hsplits.offset_eq_rawEndPos).symm⟩
    · cases h
  · rintro ⟨front, rfl, rfl⟩
    obtain ⟨valid, hsplits⟩ := exists_splits front rest
    rw [fromByte?, dif_pos valid, hsplits.copy_sliceFrom_eq]

/-- The text up to a byte, if a character starts there or the text ends there. -/
def toByte? (text : String) (byte : Nat) : Option String :=
  if h : (String.Pos.Raw.mk byte).IsValid text then some (text.sliceTo ⟨⟨byte⟩, h⟩).copy else none

/-- The text between two bytes, if it can be cut at both of them, and if they are in order. -/
def slice? (text : String) (first last : Nat) : Option String := (toByte? text last).bind (fromByte? · first)

theorem toByte?_append (front back : String) : toByte? (front ++ back) front.utf8ByteSize = some front := by
  obtain ⟨valid, hsplits⟩ := exists_splits front back
  rw [toByte?, dif_pos valid, hsplits.copy_sliceTo_eq]

/-- A text can be cut around each of its parts. -/
theorem slice?_append (front middle back : String) :
    slice? (front ++ middle ++ back) front.utf8ByteSize (front ++ middle).utf8ByteSize = some middle := by
  rw [slice?, toByte?_append, Option.bind_some]
  exact fromByte?_eq_some_iff.2 ⟨front, rfl, rfl⟩

/-- The second byte of a character is no place to cut. -/
example : fromByte? "aöb" 1 = some "öb" ∧ fromByte? "aöb" 2 = none ∧ fromByte? "aöb" 5 = none := by decide +kernel

/-- Spaces and tabs are one byte each. -/
theorem utf8ByteSize_of_indents {front : List Char} (indents : ∀ c ∈ front, isIndent c = true) :
    (String.ofList front).utf8ByteSize = front.length := by
  induction front with
  | nil => rfl
  | cons c front ih =>
      rw [List.forall_mem_cons] at indents
      have hsize : (String.singleton c).utf8ByteSize = 1 := by
        have hindent := indents.1
        rw [isIndent, Bool.or_eq_true, beq_iff_eq, beq_iff_eq] at hindent
        obtain rfl | rfl := hindent <;> decide +kernel
      rw [← List.singleton_append, String.ofList_append, String.utf8ByteSize_append, ih indents.2, List.length_append]
      exact congrArg (· + front.length) hsize

/-- A line can be cut behind each of the spaces and tabs that it starts with. -/
theorem fromByte?_of_le {line : List Char} {width : Nat} (hwidth : width ≤ indentWidth line) :
    fromByte? (String.ofList line) width = some (String.ofList (line.drop width)) := by
  refine fromByte?_eq_some_iff.2 ⟨String.ofList (line.take width), ?_, ?_⟩
  · rw [← String.ofList_append, List.take_append_drop]
  · rw [utf8ByteSize_of_indents fun c hc => isIndent_of_mem_take hwidth hc, length_take_of_le hwidth]

/-! ### The items between two positions -/

section Positions

variable {α β : Type}

/-- The items between two positions, if these are in order and in the list. -/
def between? (items : List α) (first last : Nat) : Option (List α) :=
  if first ≤ last ∧ last ≤ items.length then some ((items.take last).drop first) else none

/-- The position of the first item that passes a test, or the end of the list. -/
def firstPassing (p : α → Bool) (items : List α) : Nat := (items.findIdx? p).getD items.length

/-- The position behind the last item that passes a test, or that of the first if there is none. -/
def behindLast (p : α → Bool) (items : List α) : Nat :=
  ((items.reverse.findIdx? p).map (items.length - ·)).getD (firstPassing p items)

/-- A list is cut around a part of it. -/
theorem between?_append (front middle back : List α) :
    between? (front ++ middle ++ back) front.length (front ++ middle).length = some middle := by
  rw [between?, if_pos, List.take_left, List.drop_left]
  simp only [List.length_append]
  omega

theorem findIdx?_of_all {p : α → Bool} {items : List α} (hall : items.all p = true) :
    items.findIdx? (!p ·) = none := by
  rw [List.findIdx?_eq_none_iff]
  intro item hitem
  rw [List.all_eq_true.1 hall item hitem]
  rfl

theorem findIdx?_append_cons {p : α → Bool} {front : List α} {item : α} (hfront : front.all p = true)
    (hfails : p item = false) (rest : List α) : (front ++ item :: rest).findIdx? (!p ·) = some front.length := by
  rw [List.findIdx?_append, findIdx?_of_all hfront, List.findIdx?_cons, hfails]
  exact congrArg some (Nat.zero_add front.length)

theorem firstPassing_of_all {p : α → Bool} {items : List α} (hall : items.all p = true) :
    firstPassing (!p ·) items = items.length := by
  rw [firstPassing, findIdx?_of_all hall]
  rfl

theorem behindLast_of_all {p : α → Bool} {items : List α} (hall : items.all p = true) :
    behindLast (!p ·) items = items.length := by
  rw [behindLast, findIdx?_of_all (by rwa [List.all_reverse]), firstPassing_of_all hall]
  rfl

theorem firstPassing_append_cons {p : α → Bool} {front : List α} {item : α} (hfront : front.all p = true)
    (hfails : p item = false) (rest : List α) : firstPassing (!p ·) (front ++ item :: rest) = front.length := by
  rw [firstPassing, findIdx?_append_cons hfront hfails]
  rfl

theorem behindLast_append_cons {p : α → Bool} {back : List α} {item : α} (hback : back.all p = true)
    (hfails : p item = false) (rest : List α) : behindLast (!p ·) (rest ++ item :: back) = rest.length + 1 := by
  have hreverse : (rest ++ item :: back).reverse = back.reverse ++ item :: rest.reverse := by simp
  rw [behindLast, hreverse, findIdx?_append_cons (by rwa [List.all_reverse]) hfails, Option.map_some,
    Option.getD_some, List.length_append, List.length_cons, List.length_reverse]
  omega

/-- The positions around the items that do not pass a test are in order and in the list. -/
theorem between?_firstPassing_behindLast (p : α → Bool) (items : List α) :
    between? items (firstPassing (!p ·) items) (behindLast (!p ·) items) = some (inside p items) := by
  obtain ⟨front, back, hfront, hback, heq, hhead, hlast⟩ := exists_inside p items
  cases hinside : inside p items with
  | nil =>
      -- Nothing is found from either end, and both positions are the end of the list.
      have hall : items.all p = true := by
        rw [heq, hinside, List.append_nil, List.all_append, hfront, hback]
        rfl
      have hcut := between?_append items [] []
      rw [List.append_nil, List.append_nil] at hcut
      rw [firstPassing_of_all hall, behindLast_of_all hall, hcut]
  | cons item middle =>
      rw [hinside] at heq hhead hlast
      have hitem : (item :: middle).getLast? = some (middle.getLast?.getD item) := List.getLast?_cons
      obtain ⟨others, hlist⟩ := List.getLast?_eq_some_iff.1 hitem
      have hfirst : firstPassing (!p ·) items = front.length := by
        rw [heq, List.append_assoc, List.cons_append, firstPassing_append_cons hfront (hhead item rfl)]
      have hbehind : behindLast (!p ·) items = (front ++ item :: middle).length := by
        rw [heq, hlist, ← List.append_assoc, List.append_assoc _ [_] back, List.singleton_append,
          behindLast_append_cons hback (hlast _ hitem)]
        simp only [List.length_append, List.length_singleton]
      rw [hfirst, hbehind, heq, between?_append]

end Positions

/-! ### The margin taken off by cuts -/

/-- How many bytes the spaces and tabs at the start of a line take. -/
def indentBytes (line : String) : Nat :=
  line.utf8ByteSize - (String.ofList (line.toList.dropWhile isIndent)).utf8ByteSize

/-- The smallest number of such bytes in the lines that are not blank; zero if there is none. -/
def marginBytes (block : List String) : Nat :=
  (((block.filter (!allBlank ·.toList)).map indentBytes).min?).getD 0

/-- A line from the margin on; a blank line becomes empty, whether it is as long as the margin or not. -/
def cut? (bytes : Nat) (line : String) : Option String :=
  if allBlank line.toList then some "" else fromByte? line bytes

/-- A text without its margin, if no cut fails. -/
def sliced? (text : String) : Option String := do
  let block := (lines text.toList).map String.ofList
  let stripped ← block.mapM (cut? (marginBytes block))
  let kept ← between? stripped (firstPassing (!·.isEmpty) stripped) (behindLast (!·.isEmpty) stripped)
  return String.ofList (join ['\n'] (kept.map (trimEnd ·.toList)))

theorem indentBytes_ofList (line : List Char) : indentBytes (String.ofList line) = indentWidth line := by
  have hsplit : String.ofList line = String.ofList (indentation line) ++ String.ofList (line.dropWhile isIndent) := by
    rw [← String.ofList_append, indentation, List.takeWhile_append_dropWhile]
  have hsize : (String.ofList (indentation line)).utf8ByteSize = indentWidth line :=
    utf8ByteSize_of_indents fun c hc => isIndent_of_mem_indentation hc
  rw [indentBytes, String.toList_ofList, hsplit, String.utf8ByteSize_append, hsize, Nat.add_sub_cancel]

theorem marginBytes_map_ofList (block : List (List Char)) : marginBytes (block.map String.ofList) = margin block := by
  have hbytes : indentBytes ∘ String.ofList = indentWidth := funext indentBytes_ofList
  have hblank : (fun line : String => !allBlank line.toList) ∘ String.ofList = fun line => !allBlank line := by
    funext line
    rw [Function.comp_apply, String.toList_ofList]
  rw [marginBytes, margin, List.filter_map, List.map_map, hbytes, hblank]

/-- A line without the margin, with the blanks at its end. -/
def cut (width : Nat) (line : List Char) : List Char := if allBlank line then [] else line.drop width

theorem cut?_ofList {line : List Char} {width : Nat} (hwidth : allBlank line = false → width ≤ indentWidth line) :
    cut? width (String.ofList line) = some (String.ofList (cut width line)) := by
  rw [cut?, cut, String.toList_ofList]
  cases h : allBlank line with
  | true => rfl
  | false => exact fromByte?_of_le (hwidth h)

theorem trimEnd_cut (width : Nat) (line : List Char) : trimEnd (cut width line) = strip width line := by
  rw [cut, strip]
  split <;> rfl

/-- What is left of a line does not consist of blanks that are taken from its end. -/
theorem strip_eq_nil_iff_cut {line : List Char} {width : Nat}
    (hwidth : allBlank line = false → width ≤ indentWidth line) : strip width line = [] ↔ cut width line = [] := by
  constructor
  · intro h
    exact if_pos ((strip_eq_nil_iff hwidth).1 h)
  · intro h
    rw [← trimEnd_cut, h]
    rfl

/-- No cut fails. -/
theorem sliced?_eq (text : String) : sliced? text = some (dedent text) := by
  generalize hstripped : (lines text.toList).map (String.ofList ∘ cut (margin (lines text.toList))) = stripped
  have hcut : ((lines text.toList).map String.ofList).mapM (cut? (margin (lines text.toList))) = some stripped := by
    rw [← hstripped, mapM_eq_some_iff_forall₂, List.forall₂_map_left_iff, List.forall₂_map_right_iff, List.forall₂_same]
    exact fun line hline => cut?_ofList fun hvisible => margin_le hline hvisible
  have hstrip : stripped.map (trimEnd ·.toList) = (lines text.toList).map (strip (margin (lines text.toList))) := by
    rw [← hstripped, List.map_map]
    refine List.map_congr_left fun line _ => ?_
    show trimEnd (String.ofList (cut _ line)).toList = _
    rw [String.toList_ofList, trimEnd_cut]
  have hkept : (inside String.isEmpty stripped).map (trimEnd ·.toList) =
      trimLines ((lines text.toList).map (strip (margin (lines text.toList)))) := by
    rw [← hstrip]
    refine (inside_map fun part hpart => ?_).symm
    obtain ⟨line, hline, rfl⟩ := List.mem_map.1 (hstripped ▸ hpart)
    show (trimEnd (String.ofList (cut _ line)).toList).isEmpty = (String.ofList (cut _ line)).isEmpty
    rw [String.toList_ofList, trimEnd_cut, Bool.eq_iff_iff, List.isEmpty_iff, String.isEmpty_iff,
      String.ofList_eq_empty_iff, strip_eq_nil_iff_cut fun hvisible => margin_le hline hvisible]
  rw [sliced?, marginBytes_map_ofList, hcut]
  show (between? stripped _ _).bind _ = _
  rw [between?_firstPassing_behindLast, Option.bind_some, hkept]
  rfl

end Converge.Text
