import Converge.Text.Chars

/-!
# Numeric addresses of hosts

An IPv4 address has up to four numbers with points between them, in base 10, 16 (`0x`) or 8 (`0`); the last of
them fills all bytes that are left. An IPv6 address has eight groups of digits in base 16, of which a run of
zeros may be left out once and the last two may be written as an IPv4 address in full.

## Main Definitions

* `Address.readsAsNumber` — whether a host has to be an IPv4 address.
* `Address.ipv4?`, `Address.ipv6?` — reading addresses.
* `Address.ipv4Text`, `Address.ipv6Text` — writing them.
-/

namespace Converge.Http.Address

open Chars

/-! ### IPv4 -/

/-- The number of a run of digits, if each of them is below the base; an empty run is zero. -/
def inBase? (base : Nat) (digits : List Char) : Option Nat :=
  digits.foldlM (fun value c => ((hexValue? c).filter (· < base)).map (base * value + ·)) 0

/-- A number with a mark of its base. -/
def number? : List Char → Option Nat
  | [] => none
  | '0' :: 'x' :: digits | '0' :: 'X' :: digits => inBase? 16 digits
  | '0' :: digit :: digits => inBase? 8 (digit :: digits)
  | digits => inBase? 10 digits

/-- The parts between the points; a point at the end does not count. -/
def parts (host : List Char) : List (List Char) :=
  let all := splitAt '.' host
  if 1 < all.length && all.getLast? = some [] then all.dropLast else all

/-- Whether the last part of a host is a number, so that the host has to be an IPv4 address. -/
def readsAsNumber (host : List Char) : Bool :=
  match (parts host).getLast? with
  | none => false
  | some last => (digits? last).isSome || (number? last).isSome

/-- The address of given numbers: each is a byte, but the last fills the bytes that are left. -/
def ofNumbers? (numbers : List Nat) : Option Nat :=
  match numbers.reverse with
  | [] => none
  | last :: others =>
      if 4 ≤ others.length || Nat.pow 256 (4 - others.length) ≤ last || others.any (256 ≤ ·) then none
      else some (others.reverse.foldl (fun value n => 256 * value + n) 0 * Nat.pow 256 (4 - others.length) + last)

/-- An IPv4 address. -/
def ipv4? (host : List Char) : Option Nat := ((parts host).mapM number?).bind ofNumbers?

/-- An IPv4 address as four bytes with points between them. -/
def ipv4Text (address : Nat) : String :=
  ".".intercalate ([3, 2, 1, 0].map fun place => (address / Nat.pow 256 place % 256).repr)

/-! ### IPv6 -/

/-- A group: up to four digits of base 16. -/
def group? (digits : List Char) : Option Nat :=
  if digits.isEmpty || 4 < digits.length then none else inBase? 16 digits

/-- A byte in decimal digits, without a zero in front. -/
def byte? (digits : List Char) : Option Nat :=
  match digits with
  | '0' :: _ :: _ => none
  | digits => (digits? digits).filter (· < 256)

/-- Four bytes with points between them, as two groups. -/
def quad? (text : List Char) : Option (List Nat) :=
  match (splitAt '.' text).mapM byte? with
  | some [a, b, c, d] => some [256 * a + b, 256 * c + d]
  | _ => none

/-- Groups with colons between them; what is last in the address may be four bytes. -/
def groups? (atEnd : Bool) (text : List Char) : Option (List Nat) :=
  if text.isEmpty then some []
  else
    let written := splitAt ':' text
    match written.getLast? with
    | none => none
    | some last =>
        if atEnd && last.contains '.' then
          (written.dropLast.mapM group?).bind fun groups => (quad? last).map (groups ++ ·)
        else written.mapM group?

/-- An IPv6 address as its eight groups. -/
def ipv6? (text : List Char) : Option (List Nat) :=
  match breakOn [':', ':'] text with
  | none => (groups? true text).filter (·.length = 8)
  | some (before, after) =>
      (groups? false before).bind fun left => (groups? true after).bind fun right =>
        if left.length + right.length < 8 then
          some (left ++ List.replicate (8 - left.length - right.length) 0 ++ right)
        else none

/-- The length of the longest run of zeros. -/
def longestRun (groups : List Nat) : Nat :=
  (groups.foldl (fun (longest, here) n =>
    if n = 0 then (max longest (here + 1), here + 1) else (longest, 0)) (0, 0)).1

/-- A group in digits of base 16. -/
def groupText (group : Nat) : List Char := Nat.toDigits 16 group

/-- Groups with colons between them. -/
def groupsText (groups : List Nat) : List Char := join [':'] (groups.map groupText)

/-- The groups before the first run of zeros of a length and those after it. -/
def cutRun (length : Nat) : List Nat → List Nat × List Nat
  | [] => ([], [])
  | n :: rest =>
      if (n :: rest).take length = List.replicate length 0 then ([], (n :: rest).drop length)
      else
        let (before, after) := cutRun length rest
        (n :: before, after)

/-- An IPv6 address with its first longest run of zeros left out. -/
def ipv6Text (groups : List Nat) : String :=
  let run := longestRun groups
  if run < 2 then String.ofList (groupsText groups)
  else
    let (before, after) := cutRun run groups
    String.ofList (groupsText before ++ [':', ':'] ++ groupsText after)

end Converge.Http.Address
