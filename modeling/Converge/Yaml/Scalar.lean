import Converge.Document.Basic
import Converge.Yaml.Node

/-!
# What plain scalars stand for

A plain scalar is null, a boolean, a whole number, a float or a string, decided by its text alone. A tag of
the core schema decides it in advance.

## Main Definitions

* `isNull`, `bool?`, `whole?`, `float?` — the forms of the core schema.
* `Scalar.ofPlain` — the value of a plain scalar.
* `Scalar.value` — the value of any scalar.
-/

namespace Converge.Yaml

open Chars

/-- The texts of null. -/
def isNull (text : String) : Bool := ["null", "Null", "NULL", "~"].contains text

/-- The texts of true and false. -/
def bool? (text : String) : Option Bool :=
  if ["true", "True", "TRUE"].contains text then some true
  else if ["false", "False", "FALSE"].contains text then some false
  else none

/-- The digits of a base from 2 to 16, at least one of them. -/
def digitsOfBase? (base : Nat) (cs : List Char) : Option Nat :=
  if cs.isEmpty then none
  else cs.foldlM (fun value c => ((hexValue? c).filter (· < base)).map (base * value + ·)) 0

/-- A sign that may stand before a number. -/
def isSign (c : Char) : Bool := c == '+' || c == '-'

/-- A text without the sign before it. -/
def unsigned (cs : List Char) : List Char :=
  match cs with
  | c :: rest => if isSign c then rest else cs
  | [] => []

/-- More than one digit, of which the first is a zero: such a text is no number. -/
def isZeroPadded (cs : List Char) : Bool :=
  let digits := unsigned cs
  1 < digits.length && digits.head? = some '0' && digits.all isDigit

/-- A natural number in base 2, 8, 10 or 16, without a sign. -/
def natural? (cs : List Char) : Option Nat :=
  match cs with
  | '0' :: 'x' :: rest => digitsOfBase? 16 rest
  | '0' :: 'o' :: rest => digitsOfBase? 8 rest
  | '0' :: 'b' :: rest => digitsOfBase? 2 rest
  | _ => if isZeroPadded cs then none else digits? cs

/-- The whole number that a text is, of any size. -/
def whole? (text : String) : Option Int :=
  match text.toList with
  | '-' :: rest => (natural? rest).map fun n => -(n : Int)
  | '+' :: rest => (natural? rest).map fun n => (n : Int)
  | cs => (natural? cs).map fun n => (n : Int)

/-- Whether a whole number fits 128 bits, with or without a sign. -/
def isWide (value : Int) : Bool := -(Nat.pow 2 127 : Nat) ≤ value && value < (Nat.pow 2 128 : Nat)

/-- A float: a finite one, or one of those that have no value in a document. -/
inductive Float where
  | finite (value : Binary64)
  | special
  deriving Repr, DecidableEq

/-- Digits with a point and an exponent, where at least one digit stands beside the point. -/
def decimal? (negative : Bool) (cs : List Char) : Option Binary64 :=
  let before := cs.takeWhile isDigit
  let rest := cs.dropWhile isDigit
  let (after, rest) := match rest with
    | '.' :: fraction => (fraction.takeWhile isDigit, fraction.dropWhile isDigit)
    | _ => ([], rest)
  let digits := decimalValue (before ++ after)
  let point : Int := -(after.length : Int)
  if before.isEmpty && after.isEmpty then none
  else match rest with
    | [] => Binary64.ofDecimal? negative digits point
    | e :: exponent =>
        let size := digits? (unsigned exponent)
        if e != 'e' && e != 'E' then none
        else size.bind fun size =>
          let down := exponent.head? = some '-'
          Binary64.ofDecimal? negative digits (if down then point - size else point + size)

/-- The float that a text is. A number beyond the largest float is none. -/
def float? (text : String) : Option Float :=
  let cs := text.toList
  let unplussed := match cs with
    | '+' :: rest => if (rest.head?.map isSign).getD false then none else some rest
    | _ => some cs
  if [".inf", ".Inf", ".INF"].contains (String.ofList (unplussed.getD [])) then some .special
  else if ["-.inf", "-.Inf", "-.INF", ".nan", ".NaN", ".NAN"].contains text then some .special
  else unplussed.bind fun cs =>
    (match cs with
      | '-' :: rest => decimal? true rest
      | _ => decimal? false cs).map .finite

namespace Scalar

/-- A whole number as a value. One that fits 128 bits only is refused. -/
def ofWhole (value : Int) : Option (Except Error Document) :=
  match Number.ofInt? value with
  | some number => some (.ok (.number number))
  | none => if isWide value then some (.error .outOfRange) else none

/-- A float as a value: null if it has no value in a document. -/
def ofFloat : Float → Document
  | .finite value => .number (.float value)
  | .special => .null

/-- The value of a plain scalar without a tag. -/
def ofPlain (text : String) : Except Error Document :=
  if text.isEmpty || isNull text then .ok .null
  else match bool? text with
    | some value => .ok (.bool value)
    | none =>
        match (whole? text).bind ofWhole with
        | some value => value
        | none =>
            -- A whole number beyond 128 bits gets here too, and is read as a float.
            if isZeroPadded text.toList then .ok (.string text)
            else match float? text with
              | some value => .ok (ofFloat value)
              | none => .ok (.string text)

/-- The tag of a name in the core schema. -/
def core (name : String) : List Char := ("tag:yaml.org,2002:" ++ name).toList

/-- A local tag, which no value here has. -/
def isLocal (properties : Properties) : Bool := (properties.tag.bind List.head?) = some '!'

/-- The value that a tag of the core schema asks for, if it is one that decides the value. -/
def ofTag? (tag : List Char) (text : String) : Option (Except Error Document) :=
  if tag = core "bool" then some (match bool? text with
    | some value => .ok (.bool value)
    | none => .error (.wrongType "a boolean"))
  else if tag = core "int" then some (match (whole? text).bind ofWhole with
    | some value => value
    | none => .error (.wrongType "an integer"))
  else if tag = core "float" then some (match float? text with
    | some value => .ok (ofFloat value)
    | none => .error (.wrongType "a float"))
  else if tag = core "null" then some (if isNull text then .ok .null else .error (.wrongType "null"))
  else none

/-- The value of a scalar: by its tag; by its text if it is plain; else a string. -/
def value (properties : Properties) (style : Style) (text : String) : Except Error Document :=
  if isLocal properties then .error .unknownTag
  else match properties.tag with
    | some tag => (ofTag? tag text).getD (.ok (.string text))
    | none => if style = .plain then ofPlain text else .ok (.string text)

end Scalar

end Converge.Yaml
