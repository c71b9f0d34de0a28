import Converge.Http.Percent

/-!
# Percent-encoding is undone by decoding

The two digits of an encoded byte are read back as the byte, and a character that stays as it is stands for its own
bytes as long as it is not `%`. So a text that is encoded stands for the bytes of the text.

## Main Statements

* `bytes_encode` — an encoded text stands for the bytes of the text.
* `decode?_encode` — so decoding gives the text back.
* `length_encode_of_sublist` — a text from which characters are left out is encoded in less.
* `plain_of_mem_segment` — the characters of a segment stay as they are in a path, and none of them is a slash.
-/

namespace Converge.Http.Percent

open Chars

/-! ### Bytes -/

theorem hexValue?_hexDigit {n : Nat} (h : n < 16) : hexValue? (hexDigit n) = some n := by
  revert n
  decide

/-- The digits of an encoded byte are read back. -/
theorem bytes_escapeByte (byte : UInt8) (rest : List Char) : bytes (escapeByte byte ++ rest) = byte :: bytes rest := by
  have hbyte : byte.toNat < 256 := byte.toNat_lt
  have hhigh : byte.toNat / 16 < 16 := by omega
  have hlow : byte.toNat % 16 < 16 := by omega
  have hsame : 16 * (byte.toNat / 16) + byte.toNat % 16 = byte.toNat := by omega
  simp only [escapeByte, List.cons_append, List.nil_append, bytes, hexValue?_hexDigit hhigh, hexValue?_hexDigit hlow,
    hsame, Nat.toUInt8_eq, UInt8.ofNat_toNat]

theorem bytes_flatMap_escapeByte (encoded : List UInt8) (rest : List Char) :
    bytes (encoded.flatMap escapeByte ++ rest) = encoded ++ bytes rest := by
  induction encoded with
  | nil => rfl
  | cons byte encoded ih =>
      rw [List.flatMap_cons, List.append_assoc, bytes_escapeByte, ih, List.cons_append]

/-- What is no `%` stands for its own bytes. -/
theorem bytes_cons_of_ne {c : Char} (h : c ≠ '%') (rest : List Char) :
    bytes (c :: rest) = String.utf8EncodeChar c ++ bytes rest := by
  rw [bytes]
  rintro high low rest' rfl
  exact absurd rfl h

/-! ### Encoded texts -/

section Encoding

variable {passes : Char → Bool}

/-- An encoded text stands for the bytes of the text, if `%` does not stay as it is. -/
theorem bytes_encode (h : passes '%' = false) (text : List Char) :
    bytes (encode passes text) = text.flatMap String.utf8EncodeChar := by
  induction text with
  | nil => rfl
  | cons c text ih =>
      rw [encode, List.flatMap_cons, List.flatMap_cons]
      cases hpasses : passes c with
      | false =>
          rw [if_neg Bool.false_ne_true, escape, bytes_flatMap_escapeByte]
          exact congrArg _ ih
      | true =>
          have hne : c ≠ '%' := by
            rintro rfl
            rw [h] at hpasses
            cases hpasses
          rw [if_pos rfl, List.singleton_append, bytes_cons_of_ne hne]
          exact congrArg _ ih

/-- What stands for the bytes of a text is decoded as the text. -/
theorem decode?_eq_some {encoded text : List Char} (h : bytes encoded = text.flatMap String.utf8EncodeChar) :
    decode? encoded = some (String.ofList text) := by
  have hbytes : (⟨(bytes encoded).toArray⟩ : ByteArray) = (String.ofList text).toByteArray := by
    rw [h, String.toByteArray_ofList]
    exact ByteArray.ext List.data_toByteArray.symm
  rw [decode?, hbytes, String.fromUTF8?, dif_pos (String.isValidUTF8 _)]
  rfl

theorem decode?_encode (h : passes '%' = false) (text : List Char) :
    decode? (encode passes text) = some (String.ofList text) :=
  decode?_eq_some (bytes_encode h text)

/-- A text whose characters all stay as they are. -/
theorem encode_eq_self {text : List Char} (h : ∀ c ∈ text, passes c) : encode passes text = text := by
  induction text with
  | nil => rfl
  | cons c text ih =>
      rw [List.forall_mem_cons] at h
      rw [encode, List.flatMap_cons, if_pos h.1, List.singleton_append]
      exact congrArg _ (ih h.2)

theorem encode_cons (c : Char) (text : List Char) :
    encode passes (c :: text) = (if passes c then [c] else escape c) ++ encode passes text := rfl

theorem encode_append (text rest : List Char) :
    encode passes (text ++ rest) = encode passes text ++ encode passes rest :=
  List.flatMap_append

theorem escape_ne_nil (c : Char) : escape c ≠ [] := by
  have hlength := c.utf8Size_pos
  rw [← String.length_utf8EncodeChar] at hlength
  obtain ⟨byte, hbyte⟩ := List.exists_mem_of_length_pos hlength
  intro h
  have hmem : '%' ∈ escape c := List.mem_flatMap.2 ⟨byte, hbyte, List.mem_cons_self⟩
  rw [h] at hmem
  cases hmem

/-- A text from which characters are left out is encoded in less. -/
theorem length_encode_of_sublist {part text : List Char} (h : part.Sublist text) :
    part = text ∨ (encode passes part).length < (encode passes text).length := by
  have hwritten : ∀ c, 0 < (if passes c then [c] else escape c).length := by
    intro c
    split
    · exact Nat.one_pos
    · exact List.length_pos_iff.2 (escape_ne_nil c)
  induction h with
  | slnil => exact .inl rfl
  | @cons part text c _ ih =>
      have hle : (encode passes part).length ≤ (encode passes text).length := by
        obtain rfl | hlt := ih
        · exact Nat.le_refl _
        · exact Nat.le_of_lt hlt
      have hpos := hwritten c
      rw [encode_cons c text, List.length_append]
      exact .inr (by omega)
  | @cons_cons part text c _ ih =>
      rw [encode_cons c part, encode_cons c text, List.length_append, List.length_append]
      obtain rfl | hlt := ih
      · exact .inl rfl
      · exact .inr (Nat.add_lt_add_left hlt _)

end Encoding

/-! ### Segments -/

theorem isUnreserved_hexDigit {n : Nat} (h : n < 16) : isUnreserved (hexDigit n) := by
  revert n
  decide

theorem toNat_lt_of_isUnreserved {c : Char} (h : isUnreserved c) : c.toNat < 128 := by
  have hle : ∀ {d : Char}, c ≤ d → c.toNat ≤ d.toNat := fun hle => UInt32.le_iff_toNat_le.1 hle
  simp only [isUnreserved, isAlphanumeric, isDigit, Bool.or_eq_true, Bool.and_eq_true, decide_eq_true_eq] at h
  obtain ((⟨-, h⟩ | ⟨-, h⟩) | ⟨-, h⟩) | h := h
  · exact Nat.lt_of_le_of_lt (hle h) (by decide)
  · exact Nat.lt_of_le_of_lt (hle h) (by decide)
  · exact Nat.lt_of_le_of_lt (hle h) (by decide)
  · have hall : "-._~".toList.all fun d => decide (d.toNat < 128) := by decide
    exact of_decide_eq_true (List.all_eq_true.1 hall c (List.contains_iff_mem.1 h))

/-- What stays as it is in a path is no blank and no control character. -/
theorem lt_toNat_of_isPathPlain {c : Char} (h : isPathPlain c) : 0x20 < c.toNat := by
  simp only [isPathPlain, isPrintable, Bool.and_eq_true, decide_eq_true_eq] at h
  obtain ⟨⟨hle, -⟩, hmarks⟩ := h
  refine Nat.lt_of_le_of_ne (UInt32.le_iff_toNat_le.1 hle) fun heq => ?_
  obtain rfl : c = ' ' := Char.toNat_inj.1 heq.symm
  cases hmarks

/-- What has no meaning of its own stays as it is in a path, and is no slash. -/
theorem plain_of_isUnreserved {c : Char} (h : isUnreserved c) : isPathPlain c ∧ c ≠ '/' ∧ c ≠ '\\' := by
  have hall : ∀ n < 128, isUnreserved (Char.ofNat n) →
      isPathPlain (Char.ofNat n) ∧ Char.ofNat n ≠ '/' ∧ Char.ofNat n ≠ '\\' := by
    decide +kernel
  have hplain := hall c.toNat (toNat_lt_of_isUnreserved h)
  rw [Char.ofNat_toNat] at hplain
  exact hplain h

/-- **The characters of a segment stay as they are in a path, and none of them is a slash.** -/
theorem plain_of_mem_segment {text : List Char} {c : Char} (h : c ∈ segment text) :
    isPathPlain c ∧ c ≠ '/' ∧ c ≠ '\\' := by
  obtain ⟨d, -, hd⟩ := List.mem_flatMap.1 h
  split at hd
  · next hpasses =>
      cases List.mem_singleton.1 hd
      exact plain_of_isUnreserved hpasses
  · obtain ⟨byte, -, hbyte⟩ := List.mem_flatMap.1 hd
    have hlt : byte.toNat < 256 := byte.toNat_lt
    simp only [escapeByte, List.mem_cons, List.not_mem_nil, or_false] at hbyte
    obtain rfl | rfl | rfl := hbyte
    · decide
    · exact plain_of_isUnreserved (isUnreserved_hexDigit (by omega))
    · exact plain_of_isUnreserved (isUnreserved_hexDigit (by omega))

/-- Decoding gives back the text of a segment. -/
theorem decode?_segment (text : String) : decode? (segment text.toList) = some text := by
  rw [segment, decode?_encode rfl, String.ofList_toList]

end Converge.Http.Percent
