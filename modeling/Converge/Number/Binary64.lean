/-!
# Finite double-precision numbers

A finite double is a sign and a natural number times a power of two. Each value has one representation:
the significand has 53 bits, or fewer at the smallest exponent. All arithmetic rounds an exact ratio once,
to the nearest double, a tie going to the even significand.

## Main Definitions

* `Binary64` — sign, significand and exponent.
* `Binary64.ofRatio?` — the double nearest to a ratio, `none` beyond the largest one.
* `Binary64.mul?`, `Binary64.div?` — product and quotient, rounded once.
* `Binary64.ofDecimal?` — the double nearest to a decimal number.
* `Binary64.scaledDecimal?` — digits and power of ten rounded separately, then combined.
-/

namespace Converge

/-- A finite double: `significand * 2 ^ exponent`, with its sign. Zero has a sign too. -/
structure Binary64 where
  negative : Bool
  significand : Nat
  exponent : Int
  deriving Repr, DecidableEq

namespace Binary64

/-- The exponent of the smallest double that is not zero. -/
def minExponent : Int := -1074

/-- The exponent of the largest double. -/
def maxExponent : Int := 971

/-- The count of bits of a full significand. -/
def precision : Nat := 53

/-- Zero, with a sign. -/
def zero (negative : Bool) : Binary64 := ⟨negative, 0, minExponent⟩

/-- Whether the number is zero, of either sign. -/
def isZero (x : Binary64) : Bool := x.significand == 0

/-- `num / den` rounded to a natural number, a tie going to the even one. -/
def roundHalfEven (num den : Nat) : Nat :=
  let quotient := num / den
  let twice := 2 * (num % den)
  if twice < den then quotient
  else if den < twice then quotient + 1
  else if quotient % 2 = 0 then quotient else quotient + 1

/-- `num / (den * 2 ^ exponent)`, rounded to a natural number. -/
def significandAt (num den : Nat) (exponent : Int) : Nat :=
  if exponent < 0 then roundHalfEven (num * Nat.pow 2 exponent.natAbs) den
  else roundHalfEven num (den * Nat.pow 2 exponent.natAbs)

/-- The exponent at which the ratio has a significand of full precision, or the smallest exponent. -/
def exponentOf (num den : Nat) : Int :=
  let guess : Int := (Nat.log2 num : Int) - (Nat.log2 den : Int) - precision
  let whole := if guess < 0 then num * Nat.pow 2 guess.natAbs / den else num / (den * Nat.pow 2 guess.natAbs)
  max minExponent (if whole < Nat.pow 2 precision then guess else guess + 1)

/-- The double nearest to `num / den`; `none` if that is beyond the largest one. -/
def ofRatio? (negative : Bool) (num den : Nat) : Option Binary64 :=
  if num = 0 then some (zero negative)
  else
    let exponent := exponentOf num den
    let significand := significandAt num den exponent
    if significand = Nat.pow 2 precision then
      if exponent + 1 ≤ maxExponent then some ⟨negative, Nat.pow 2 (precision - 1), exponent + 1⟩ else none
    else if exponent ≤ maxExponent then some ⟨negative, significand, exponent⟩
    else none

/-- The numerator and the denominator of the absolute value. -/
def ratio (x : Binary64) : Nat × Nat :=
  if x.exponent < 0 then (x.significand, Nat.pow 2 x.exponent.natAbs)
  else (x.significand * Nat.pow 2 x.exponent.natAbs, 1)

/-- The product, rounded. -/
def mul? (x y : Binary64) : Option Binary64 :=
  let (a, b) := x.ratio
  let (c, d) := y.ratio
  ofRatio? (x.negative != y.negative) (a * c) (b * d)

/-- The quotient by a number that is not zero, rounded. -/
def div? (x y : Binary64) : Option Binary64 :=
  let (a, b) := x.ratio
  let (c, d) := y.ratio
  ofRatio? (x.negative != y.negative) (a * d) (b * c)

/-! ### From decimals -/

/-- The count of decimal digits of a number that is not zero. -/
def decimalLength (n : Nat) : Nat := (Nat.toDigits 10 n).length

/-- The double nearest to `digits * Nat.pow 10 power`; `none` if that is beyond the largest one. -/
def ofDecimal? (negative : Bool) (digits : Nat) (power : Int) : Option Binary64 :=
  let size := (decimalLength digits : Int) + power
  if digits = 0 || size < -330 then some (zero negative)
  else if 310 < size then none
  else if power < 0 then ofRatio? negative digits (Nat.pow 10 power.natAbs)
  else ofRatio? negative (digits * Nat.pow 10 power.natAbs) 1

/-- The largest power of ten that is a finite double. -/
def maxPower : Nat := 308

/-- Divides by the largest power of ten until the power that is left is one. Each round lowers the size
of the exponent that is left. -/
def descend (x : Binary64) (power : Nat) : Option Binary64 :=
  if power ≤ maxPower then (ofRatio? false (Nat.pow 10 power) 1).bind x.div?
  else if x.isZero then some x
  else (ofRatio? false (Nat.pow 10 maxPower) 1).bind fun top =>
    (x.div? top).bind fun y => descend y (power - maxPower)
termination_by power
decreasing_by simp_all [maxPower]; omega

/-- `digits * Nat.pow 10 power` where the digits and the power of ten are rounded to doubles before one is
multiplied with, or divided by, the other. -/
def scaledDecimal? (negative : Bool) (digits : Nat) (power : Int) : Option Binary64 :=
  (ofRatio? false digits 1).bind fun x =>
    let scaled :=
      if power < 0 then descend x power.natAbs
      else if power.natAbs ≤ maxPower then (ofRatio? false (Nat.pow 10 power.natAbs) 1).bind x.mul?
      else if x.isZero then some x else none
    scaled.map fun y => { y with negative := negative }

end Binary64

end Converge
