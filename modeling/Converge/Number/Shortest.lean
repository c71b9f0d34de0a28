import Converge.Number.Binary64

/-!
# The shortest decimal of a double

Among the decimals that read back as a given double, the shortest is the one with the fewest digits, and of
those the nearest. Formats differ only in how they lay these digits out.

## Main Definitions

* `Decimal` — digits times a power of ten.
* `Binary64.shortest` — the shortest decimal of a double.
* `FloatLayout`, `FloatLayout.write` — where the point stands and how an exponent is written.
-/

namespace Converge

/-- The number `digits * 10 ^ power`. -/
structure Decimal where
  digits : Nat
  power : Int
  deriving Repr, DecidableEq

namespace Decimal

/-- The same number without zeros at the end of its digits; at most `fuel` zeros are moved. -/
def dropZeros : Nat → Decimal → Decimal
  | 0, d => d
  | fuel + 1, d =>
      if d.digits % 10 = 0 && d.digits != 0 then dropZeros fuel ⟨d.digits / 10, d.power + 1⟩ else d

end Decimal

namespace Binary64

/-- The reals that round to a double, over a common denominator: the double itself and the two ends of
the interval, which belong to it iff the significand is even. -/
structure Interval where
  value : Nat
  low : Nat
  high : Nat
  den : Nat
  closed : Bool

/-- The interval of a double that is not zero. Below a power of two the neighbour is nearer. -/
def interval (x : Binary64) : Interval :=
  -- In quarters of the last place both ends of the interval are whole numbers.
  let below := if x.significand = Nat.pow 2 (precision - 1) && x.exponent != minExponent then 1 else 2
  let quarter := x.exponent - 2
  let scale := if quarter < 0 then 1 else Nat.pow 2 quarter.natAbs
  { value := 4 * x.significand * scale
    low := (4 * x.significand - below) * scale
    high := (4 * x.significand + 2) * scale
    den := if quarter < 0 then Nat.pow 2 quarter.natAbs else 1
    closed := x.significand % 2 = 0 }

/-- Whether `digits * 10 ^ power` rounds to the double of the interval. -/
def Interval.holds (i : Interval) (digits : Nat) (power : Int) : Bool :=
  let (num, den) := if power < 0 then (digits, Nat.pow 10 power.natAbs) else (digits * Nat.pow 10 power.natAbs, 1)
  if i.closed then i.low * den ≤ num * i.den && num * i.den ≤ i.high * den
  else i.low * den < num * i.den && num * i.den < i.high * den

/-- How often ten goes into the value: the greatest `e` with `10 ^ e ≤ value`, starting from an estimate
that is at most one too small. -/
def Interval.magnitude (i : Interval) : Int :=
  let atMost (e : Int) : Bool :=
    if e < 0 then i.den ≤ i.value * Nat.pow 10 e.natAbs else i.den * Nat.pow 10 e.natAbs ≤ i.value
  -- `1233 / 4096` is the logarithm of two to base ten, slightly too small.
  let guess := ((Nat.log2 i.value : Int) - (Nat.log2 i.den : Int) - 1) * 1233 / 4096 - 1
  if atMost (guess + 2) then guess + 2 else if atMost (guess + 1) then guess + 1 else guess

/-- The nearest decimal of the interval on the grid `10 ^ power`, if there is one; a tie goes to the even
digits. -/
def Interval.nearest? (i : Interval) (power : Int) : Option Decimal :=
  let (num, den) :=
    if power < 0 then (i.value * Nat.pow 10 power.natAbs, i.den) else (i.value, i.den * Nat.pow 10 power.natAbs)
  let down := num / den
  let up := down + 1
  let near := roundHalfEven num den
  let far := if near = down then up else down
  if i.holds near power then some ⟨near, power⟩
  else if i.holds far power then some ⟨far, power⟩
  else none

/-- The first grid that has a decimal of the interval, trying `count` grids from `power` downwards. -/
def Interval.search (i : Interval) : Nat → Int → Decimal
  | 0, power => ⟨i.value * Nat.pow 10 power.natAbs / i.den, power⟩
  | count + 1, power =>
      match i.nearest? power with
      | some d => d
      | none => i.search count (power - 1)

/-- The shortest decimal that reads back as the absolute value of a double. -/
def shortest (x : Binary64) : Decimal :=
  if x.isZero then ⟨0, 0⟩
  else
    let i := x.interval
    (i.search 17 i.magnitude).dropZeros 20

end Binary64

/-! ### Layout -/

/-- Where the digits of a float go. The point stands `pointAfter` places after the first digit; outside
of the given range the number is written with an exponent. -/
structure FloatLayout where
  /-- The smallest place of the point that is written without an exponent. -/
  lowest : Int
  /-- The largest place of the point that is written without an exponent. -/
  highest : Int
  /-- Whether an exponent that is not negative is written with a plus sign. -/
  plus : Bool

namespace FloatLayout

/-- A text of so many zeros. -/
def zeros (count : Nat) : String := String.ofList (List.replicate count '0')

/-- The text of a double. A number without a fraction keeps `.0`, unless it has an exponent. -/
def write (layout : FloatLayout) (x : Binary64) : String :=
  let sign := if x.negative then "-" else ""
  let d := x.shortest
  let digits := d.digits.repr
  let length := digits.toList.length
  let point : Int := length + d.power
  let body :=
    if x.isZero then "0.0"
    else if 0 ≤ d.power && point ≤ layout.highest then digits ++ zeros d.power.natAbs ++ ".0"
    else if 0 < point && point ≤ layout.highest then
      String.ofList (digits.toList.take point.natAbs) ++ "." ++ String.ofList (digits.toList.drop point.natAbs)
    else if layout.lowest ≤ point && point ≤ 0 then "0." ++ zeros point.natAbs ++ digits
    else
      let exponent := point - 1
      let sign := if exponent < 0 then "-" else if layout.plus then "+" else ""
      let mantissa :=
        if length = 1 then digits
        else String.ofList (digits.toList.take 1) ++ "." ++ String.ofList (digits.toList.drop 1)
      mantissa ++ "e" ++ sign ++ exponent.natAbs.repr
  sign ++ body

end FloatLayout

end Converge
