import Converge.Proofs.Http.Addressing

/-!
# Different objects have different paths

Objects of one type have paths that differ in the namespace and in the name. Both are encoded, and what is encoded
consists of characters that mean nothing in a URL and of bytes in two digits. So no mark of a path is added, each of
the two is what stands between two slashes, and from there it is decoded again. That there is no namespace shows in the
number of slashes.

## Main Definitions

* `Percent.Encoded` — a text of plain characters and encoded bytes.
* `Percent.marks` — the characters that separate the parts of a URL.

## Main Statements

* `Percent.encoded_segment`, `Percent.Encoded.notMem_marks` — a segment is such a text, and has none of the marks of a
  path in it.
* `ResourcePath.count_object` — the marks of a path are the same whatever the namespace and the name are.
* `ResourcePath.object_inj` — the path of an object is that of no other object of its type.
-/

namespace Converge.Http

open Chars

namespace Percent

/-! ### Encoded texts -/

/-- A digit of base 16, with capitals. -/
def isHexCapital (c : Char) : Bool := isDigit c || ('A' ≤ c && c ≤ 'F')

/-- A text of ASCII letters, digits, `-`, `.`, `_`, `~` and bytes that are written as `%` and two digits. -/
inductive Encoded : List Char → Prop
  | nil : Encoded []
  | plain {c : Char} {rest : List Char} (unreserved : isUnreserved c = true) (encoded : Encoded rest) :
      Encoded (c :: rest)
  | byte {high low : Char} {rest : List Char} (highDigit : isHexCapital high = true)
      (lowDigit : isHexCapital low = true) (encoded : Encoded rest) : Encoded ('%' :: high :: low :: rest)

theorem isHexCapital_hexDigit {n : Nat} (h : n < 16) : isHexCapital (hexDigit n) = true := by
  revert n
  decide

theorem encoded_bytes_append (encodedBytes : List UInt8) {rest : List Char} (h : Encoded rest) :
    Encoded (encodedBytes.flatMap escapeByte ++ rest) := by
  induction encodedBytes with
  | nil => exact h
  | cons byte encodedBytes ih =>
      have hbyte : byte.toNat < 256 := byte.toNat_lt
      rw [List.flatMap_cons, List.append_assoc]
      exact .byte (isHexCapital_hexDigit (by omega)) (isHexCapital_hexDigit (by omega)) ih

/-- **A segment is an encoded text**, whatever text it was made of. -/
theorem encoded_segment (text : List Char) : Encoded (segment text) := by
  induction text with
  | nil => exact .nil
  | cons c text ih =>
      rw [segment, encode_cons]
      split
      · next hplain => exact .plain hplain ih
      · exact encoded_bytes_append _ ih

/-- An encoded text has no character in it that is neither plain nor used to write bytes. -/
theorem Encoded.notMem {text : List Char} {c : Char} (h : Encoded text) (reserved : isUnreserved c = false)
    (noDigit : isHexCapital c = false) (noPercent : c ≠ '%') : c ∉ text := by
  induction h with
  | nil => exact List.not_mem_nil
  | plain unreserved _ ih =>
      rw [List.mem_cons, not_or]
      refine ⟨?_, ih⟩
      rintro rfl
      cases unreserved.symm.trans reserved
  | byte highDigit lowDigit _ ih =>
      rw [List.mem_cons, List.mem_cons, List.mem_cons, not_or, not_or, not_or]
      refine ⟨noPercent, ?_, ?_, ih⟩
      · rintro rfl
        cases highDigit.symm.trans noDigit
      · rintro rfl
        cases lowDigit.symm.trans noDigit

/-- The characters that separate the segments of a path, and the path from what follows it. -/
def marks : List Char := ['/', '?', '#']

/-- An encoded text has no mark in it. -/
theorem Encoded.notMem_marks {text : List Char} {mark : Char} (h : Encoded text) (isMark : mark ∈ marks) :
    mark ∉ text := by
  simp only [marks, List.mem_cons, List.not_mem_nil, or_false] at isMark
  rcases isMark with rfl | rfl | rfl
  · exact h.notMem (by decide) (by decide) (by decide)
  · exact h.notMem (by decide) (by decide) (by decide)
  · exact h.notMem (by decide) (by decide) (by decide)

theorem segment_inj {text other : String} : segment text.toList = segment other.toList ↔ text = other := by
  constructor
  · intro h
    have hdecoded := decode?_segment text
    rw [h, decode?_segment, Option.some.injEq] at hdecoded
    exact hdecoded.symm
  · rintro rfl
    rfl

end Percent

namespace ResourcePath

variable {plurals : Table String String} {key other : ObjectKey}

/-! ### The marks of a path -/

theorem count_segment {text : List Char} {mark : Char} (isMark : mark ∈ Percent.marks) :
    (Percent.segment text).count mark = 0 :=
  List.count_eq_zero.2 ((Percent.encoded_segment text).notMem_marks isMark)

/-- **The marks of a path are the same whatever the namespace and the name are.** -/
theorem count_object {mark : Char} (isMark : mark ∈ Percent.marks) : (object plurals key).count mark =
    (object plurals ⟨key.type, key.scope.map fun _ => "", ""⟩).count mark := by
  simp only [object, collection, List.count_append, count_segment isMark]
  cases key.scope with
  | none => rfl
  | some scope => rw [Option.map_some, within_some, within_some, List.count_append, List.count_append,
      count_segment isMark, count_segment isMark]

/-! ### Paths of one type -/

/-- In the path of an object with a namespace there are two slashes more than in that of an object without one. -/
theorem count_slash_of_scope (plurals : Table String String) (type : ResourceType) (scope name sole : String) :
    (object plurals ⟨type, some scope, name⟩).count '/' = (object plurals ⟨type, none, sole⟩).count '/' + 2 := by
  have hmark : '/' ∈ Percent.marks := List.mem_cons_self
  have hnamespaces : "/namespaces/".toList.count '/' = 2 := by decide
  simp only [object, collection, within_some, within_none, List.count_append, count_segment hmark, hnamespaces,
    List.count_nil]
  omega

/-- **The path of an object is that of no other object of its type.** What stands between two slashes is told from the
rest of the path, and it is one segment. -/
theorem object_inj (sameType : key.type = other.type) :
    object plurals key = object plurals other ↔ key.scope = other.scope ∧ key.name = other.name := by
  obtain ⟨type, scope, name⟩ := key
  obtain ⟨otherType, otherScope, otherName⟩ := other
  obtain rfl : type = otherType := sameType
  have hplain (text : String) : '/' ∉ Percent.segment text.toList :=
    (Percent.encoded_segment text.toList).notMem_marks List.mem_cons_self
  cases scope with
  | none =>
      cases otherScope with
      | none => simp [object, Percent.segment_inj]
      | some otherScope =>
          refine iff_of_false ?_ ?_
          · intro h
            have hcount := count_slash_of_scope plurals type otherScope otherName name
            rw [h] at hcount
            omega
          · rintro ⟨hscope, -⟩
            cases hscope
  | some scope =>
      cases otherScope with
      | none =>
          refine iff_of_false ?_ ?_
          · intro h
            have hcount := count_slash_of_scope plurals type scope name otherName
            rw [h] at hcount
            omega
          · rintro ⟨hscope, -⟩
            cases hscope
      | some otherScope =>
          constructor
          · intro h
            simp only [object, collection, within_some, List.append_assoc, List.append_cancel_left_eq,
              List.singleton_append] at h
            obtain ⟨hscope, hrest⟩ := append_cons_inj (hplain scope) (hplain otherScope) h
            have hname := (List.cons_eq_cons.1 (List.append_cancel_left hrest)).2
            exact ⟨congrArg some (Percent.segment_inj.1 hscope), Percent.segment_inj.1 hname⟩
          · rintro ⟨hscope, rfl⟩
            rw [Option.some.inj hscope]

end ResourcePath

end Converge.Http

namespace Converge.HttpStore

open Http
open Percent (Encoded marks segment)

/-- **Different objects of a type have different paths.** Two keys of one type have the same path in a store only if
they have the same namespace, or both have none, and the same name. Namespace and name are encoded as texts without
marks, and the path has the marks that it would have if both were empty. -/
theorem distinct_paths (store : HttpStore) {key other : ObjectKey} (sameType : key.type = other.type) :
    (ResourcePath.object store.plurals key = ResourcePath.object store.plurals other ↔
        key.scope = other.scope ∧ key.name = other.name) ∧
      (∀ text ∈ key.name :: key.scope.toList, Encoded (segment text.toList) ∧
        ∀ mark ∈ marks, mark ∉ segment text.toList) ∧
      ∀ mark ∈ marks, (ResourcePath.object store.plurals key).count mark =
        (ResourcePath.object store.plurals ⟨key.type, key.scope.map fun _ => "", ""⟩).count mark := by
  refine ⟨ResourcePath.object_inj sameType, ?_, ?_⟩
  · intro text _
    have hencoded := Percent.encoded_segment text.toList
    exact ⟨hencoded, fun mark isMark => hencoded.notMem_marks isMark⟩
  · intro mark isMark
    exact ResourcePath.count_object isMark

/-- A name with the words of a path in it is not taken for a namespace and a name. -/
theorem imitated_path :
    let store := atFolder []
    let type : ResourceType := ⟨"", "v1", "Namespace"⟩
    let key : ObjectKey := ⟨type, some "a", "b"⟩
    let other : ObjectKey := ⟨type, none, "a/namespaces/b"⟩
    key.type = other.type ∧ ResourcePath.object store.plurals key = "/api/v1/namespaces/a/namespaces/b".toList ∧
      ResourcePath.object store.plurals key ≠ ResourcePath.object store.plurals other := by
  intro store type key other
  refine ⟨rfl, by decide +kernel, ?_⟩
  intro h
  obtain ⟨hscope, -⟩ := (distinct_paths store (show key.type = other.type from rfl)).1.1 h
  cases hscope

end Converge.HttpStore
