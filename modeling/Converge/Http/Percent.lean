import Converge.Text.Chars

/-!
# Percent-encoding

A character that may not stand in a place of a URL is written as its UTF-8 bytes, each as `%` and two digits of
base 16. What may stand where is a class of characters.

## Main Definitions

* `Percent.encode` — a text with the characters outside a class encoded.
* `Percent.bytes`, `Percent.decode?` — the bytes that an encoded text stands for, and the text they are.
* `Percent.segment`, `Percent.form` — a text as a segment of a path and as a value of a form.
-/

namespace Converge.Http.Percent

open Chars

/-! ### Encoding -/

/-- The digit of base 16 for a number below 16. -/
def hexDigit (n : Nat) : Char := Char.ofNat (if n < 10 then 48 + n else 55 + n)

/-- A byte in encoded form. -/
def escapeByte (byte : UInt8) : List Char := ['%', hexDigit (byte.toNat / 16), hexDigit (byte.toNat % 16)]

/-- A character in encoded form. -/
def escape (c : Char) : List Char := (String.utf8EncodeChar c).flatMap escapeByte

/-- A text with the characters outside a class encoded. -/
def encode (passes : Char → Bool) (text : List Char) : List Char :=
  text.flatMap fun c => if passes c then [c] else escape c

/-! ### Decoding -/

/-- The bytes that a text stands for. A `%` without two digits after it stands for itself. -/
def bytes : List Char → List UInt8
  | [] => []
  | '%' :: high :: low :: rest =>
      match hexValue? high, hexValue? low with
      | some h, some l => (16 * h + l).toUInt8 :: bytes rest
      | _, _ => 0x25 :: bytes (high :: low :: rest)
  | c :: rest => String.utf8EncodeChar c ++ bytes rest

/-- The text that an encoded text stands for, if its bytes are one. -/
def decode? (text : List Char) : Option String := String.fromUTF8? ⟨(bytes text).toArray⟩

/-! ### Classes of characters -/

/-- An ASCII letter or digit. -/
def isAlphanumeric (c : Char) : Bool :=
  isDigit c || ('a' ≤ c && c ≤ 'z') || ('A' ≤ c && c ≤ 'Z')

/-- The characters that have no meaning of their own in any part of a URL. -/
def isUnreserved (c : Char) : Bool := isAlphanumeric c || "-._~".toList.contains c

/-- The characters that stay as they are in the value of a form. -/
def isFormPlain (c : Char) : Bool := isAlphanumeric c || "*-._".toList.contains c

/-- A printable ASCII character, or the blank. -/
def isPrintable (c : Char) : Bool := ' ' ≤ c && c ≤ '~'

/-- The characters that stay as they are in a path that is written in full. -/
def isPathPlain (c : Char) : Bool := isPrintable c && !" \"<>#?\x60\x7b\x7d".toList.contains c

/-- The characters that stay as they are in a query; with a scheme that names a host, `'` does not. -/
def isQueryPlain (special : Bool) (c : Char) : Bool :=
  isPrintable c && !" \"#<>".toList.contains c && !(special && c = '\'')

/-! ### Places -/

/-- A text as one segment of a path. -/
def segment (text : List Char) : List Char := encode isUnreserved text

/-- A text as a value of a form, where a blank is written `+`. -/
def form (text : List Char) : List Char :=
  text.flatMap fun c => if c = ' ' then ['+'] else if isFormPlain c then [c] else escape c

end Converge.Http.Percent
