import Converge.Text.Chars

/-!
# Durations

A duration is a count of nanoseconds whose whole seconds fit a 64-bit word. People write durations as a
bare number of seconds or as terms such as `1m30s`; they are shown rounded down to what a reader cares about.

## Main Definitions

* `Duration` — the type, with the bound as part of it.
* `Duration.ofLiteral?` — reads a literal.
* `Duration.display`, `Duration.displayNanos` — the text shown to people.
* `Duration.literal` — the text written into files: whole milliseconds.
-/

namespace Converge

open Chars

/-- Nanoseconds in a second. -/
def nanosPerSecond : Nat := Nat.pow 10 9

/-- Nanoseconds in a millisecond. -/
def nanosPerMilli : Nat := Nat.pow 10 6

/-- A span of time in nanoseconds; its whole seconds fit a 64-bit word. -/
structure Duration where
  nanos : Nat
  nanos_lt : nanos < wordBound * nanosPerSecond
  deriving DecidableEq

namespace Duration

/-- The duration of so many nanoseconds, if it is in range. -/
def ofNanos? (nanos : Nat) : Option Duration :=
  if h : nanos < wordBound * nanosPerSecond then some ⟨nanos, h⟩ else none

/-- The duration of so many milliseconds, if it is in range. -/
def ofMillis? (millis : Nat) : Option Duration := ofNanos? (millis * nanosPerMilli)

/-- The duration of so many seconds, if it is in range. -/
def ofSeconds? (seconds : Nat) : Option Duration := ofNanos? (seconds * nanosPerSecond)

/-- Whole milliseconds. -/
def millis (d : Duration) : Nat := d.nanos / nanosPerMilli

/-- Whole seconds. -/
def seconds (d : Duration) : Nat := d.nanos / nanosPerSecond

/-- Ten seconds. -/
def tenSeconds : Duration := ⟨10 * nanosPerSecond, by decide⟩

/-- A quarter of a second. -/
def quarterSecond : Duration := ⟨250 * nanosPerMilli, by decide⟩

/-! ### Literals -/

/-- The units that a term of a literal may have. -/
inductive Scale where
  | milliseconds
  | seconds
  | minutes
  | hours
  deriving Repr, DecidableEq

/-- Nanoseconds in one unit. -/
def Scale.nanos : Scale → Nat
  | .milliseconds => nanosPerMilli
  | .seconds => nanosPerSecond
  | .minutes => 60 * nanosPerSecond
  | .hours => 3600 * nanosPerSecond

/-- A number with its unit, such as `30s`. -/
structure Term where
  count : Nat
  scale : Scale
  deriving Repr, DecidableEq

/-- The time a term stands for. Its count fits a 64-bit word, and so do its seconds. -/
def Term.nanos? (term : Term) : Option Nat :=
  if term.count < wordBound then (ofNanos? (term.count * term.scale.nanos)).map Duration.nanos else none

/-- The unit a text begins with, in either case, and what follows it: `ms` before `m`. -/
def scale? : List Char → Option (Scale × List Char)
  | [] => none
  | c :: rest =>
      match asciiLower c with
      | 'h' => some (.hours, rest)
      | 's' => some (.seconds, rest)
      | 'm' => match rest with
        | d :: after => if asciiLower d = 's' then some (.milliseconds, after) else some (.minutes, rest)
        | [] => some (.minutes, [])
      | _ => none

theorem length_lt_of_scale? {cs rest : List Char} {scale : Scale}
    (h : scale? cs = some (scale, rest)) : rest.length < cs.length := by
  cases cs with
  | nil => simp [scale?] at h
  | cons c cs =>
      simp only [scale?] at h
      split at h
      · simp only [Option.some.injEq, Prod.mk.injEq] at h
        simp [h.2]
      · simp only [Option.some.injEq, Prod.mk.injEq] at h
        simp [h.2]
      · split at h
        · split at h <;>
          · simp only [Option.some.injEq, Prod.mk.injEq] at h
            simp only [← h.2, List.length_cons]
            omega
        · simp only [Option.some.injEq, Prod.mk.injEq] at h
          simp [← h.2]
      · simp at h

/-- The terms a text consists of: each a run of digits and a unit. -/
def terms? (cs : List Char) : Option (List Term) :=
  match cs with
  | [] => some []
  | c :: cs =>
      match digits? ((c :: cs).takeWhile isDigit), _h : scale? ((c :: cs).dropWhile isDigit) with
      | some count, some (scale, rest) => (terms? rest).map (⟨count, scale⟩ :: ·)
      | _, _ => none
termination_by cs.length
decreasing_by
  have := length_lt_of_scale? _h
  have := (List.dropWhile_sublist (l := c :: cs) isDigit).length_le
  omega

/-- The sum of the terms, if every term and the sum are in range. -/
def total? (terms : List Term) : Option Duration :=
  (terms.mapM Term.nanos?).bind fun spans => ofNanos? (spans.foldl (· + ·) 0)

/-- Reads a trimmed literal: bare digits are seconds, anything else is a non-empty sequence of terms. -/
def ofLiteralChars? (cs : List Char) : Option Duration :=
  let literal := trim cs
  if literal.isEmpty then none
  else if literal.all isDigit then (unsigned? wordBound literal).bind ofSeconds?
  else (terms? literal).bind total?

/-- `ofLiteralChars?` on a string. -/
def ofLiteral? (text : String) : Option Duration := ofLiteralChars? text.toList

/-- The literal written into files: whole milliseconds. -/
def literal (d : Duration) : String := d.millis.repr ++ "ms"

/-! ### Display -/

/-- The text shown to people for so many nanoseconds, rounded down: milliseconds below a second, tenths
below a minute, seconds below an hour, minutes from there on. Parts that are zero are left out. -/
def displayNanos (nanos : Nat) : String :=
  let millis := nanos / nanosPerMilli
  let seconds := nanos / nanosPerSecond
  if millis < 1000 then millis.repr ++ "ms"
  else if seconds < 60 then
    let tenths := millis % 1000 / 100
    if tenths = 0 then seconds.repr ++ "s" else seconds.repr ++ "." ++ tenths.repr ++ "s"
  else if seconds < 3600 then
    let rest := seconds % 60
    (seconds / 60).repr ++ "m" ++ (if rest = 0 then "" else rest.repr ++ "s")
  else
    let rest := seconds / 60 % 60
    (seconds / 3600).repr ++ "h" ++ (if rest = 0 then "" else rest.repr ++ "m")

/-- The text shown to people. -/
def display (d : Duration) : String := displayNanos d.nanos

end Duration

end Converge
