import Converge.Number.Shortest

/-!
# Numbers of documents

Documents tell whole numbers and floats apart: `1` and `1.0` are different values. A whole number fits a
64-bit word, with or without a sign.

## Main Definitions

* `Number` — a whole number or a float.
* `Number.ofInt?` — the whole numbers that are in range.
* `Number.same` — equality where the two zeros of floats are one number.
-/

namespace Converge

/-- A number in a document. -/
inductive Number where
  | integer (value : Int)
  | float (value : Binary64)
  deriving Repr, DecidableEq

namespace Number

/-- Whether a whole number fits a 64-bit word, with or without a sign. -/
def inRange (value : Int) : Bool := -(Nat.pow 2 63 : Nat) ≤ value && value < (Nat.pow 2 64 : Nat)

/-- The number of a whole value that is in range. -/
def ofInt? (value : Int) : Option Number := if inRange value then some (.integer value) else none

/-- The value of a whole number that is not negative. -/
def natural? : Number → Option Nat
  | .integer (.ofNat n) => some n
  | _ => none

/-- Equality of numbers; the positive and the negative zero of floats are the same number. -/
def same : Number → Number → Bool
  | .integer a, .integer b => a == b
  | .float a, .float b => a == b || (a.isZero && b.isZero)
  | _, _ => false

/-- The text of a number, with a layout for floats. -/
def write (layout : FloatLayout) : Number → String
  | .integer (.ofNat n) => n.repr
  | .integer (.negSucc n) => "-" ++ (n + 1).repr
  | .float x => layout.write x

end Number

end Converge
