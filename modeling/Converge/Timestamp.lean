/-!
# Time stamps

A moment is written as its date and its time of day in UTC, `2024-02-29T12:30:05Z`.

## Main Definitions

* `Date.ofDays` — the date so many days after the first of January 1970.
* `Timestamp.text` — the stamp of the moment so many seconds after that day began.
-/

namespace Converge

/-- A day of the Gregorian calendar. -/
structure Date where
  year : Nat
  month : Nat
  day : Nat
  deriving Repr, DecidableEq

namespace Date

/-- Every fourth year is a leap year, but of the full centuries only every fourth. -/
def isLeap (year : Nat) : Bool := year % 4 = 0 && (year % 100 ≠ 0 || year % 400 = 0)

/-- The length of the months of a year. -/
def monthLengths (year : Nat) : List Nat :=
  [31, if isLeap year then 29 else 28, 31, 30, 31, 30, 31, 31, 30, 31, 30, 31]

/-- The length of a year. -/
def yearLength (year : Nat) : Nat := if isLeap year then 366 else 365

theorem yearLength_pos (year : Nat) : 0 < yearLength year := by
  unfold yearLength
  split <;> omega

/-- The year in which a day falls that is counted from the start of a given year, and its place in that year. -/
def yearOf (year day : Nat) : Nat × Nat :=
  if yearLength year ≤ day then yearOf (year + 1) (day - yearLength year) else (year, day)
termination_by day
decreasing_by
  have := yearLength_pos year
  omega

/-- The month in which a day of the year falls, and its place in that month. Both count from one. -/
def monthOf (month day : Nat) : List Nat → Nat × Nat
  | [] => (month, day + 1)
  | length :: lengths => if length ≤ day then monthOf (month + 1) (day - length) lengths else (month, day + 1)

/-- The date so many days after the first of January 1970. -/
def ofDays (days : Nat) : Date :=
  let (year, dayOfYear) := yearOf 1970 days
  let (month, day) := monthOf 1 dayOfYear (monthLengths year)
  ⟨year, month, day⟩

end Date

namespace Timestamp

/-- A number with zeros in front up to a width. -/
def padded (width n : Nat) : String :=
  let digits := n.repr.toList
  String.ofList (List.replicate (width - digits.length) '0' ++ digits)

/-- The stamp of the moment so many seconds after the beginning of 1970. -/
def text (seconds : Nat) : String :=
  let date := Date.ofDays (seconds / 86400)
  let time := seconds % 86400
  padded 4 date.year ++ "-" ++ padded 2 date.month ++ "-" ++ padded 2 date.day ++ "T"
    ++ padded 2 (time / 3600) ++ ":" ++ padded 2 (time / 60 % 60) ++ ":" ++ padded 2 (time % 60) ++ "Z"

end Timestamp

end Converge
