import Converge.CommandLine.Option

/-!
# Words of the command line

The words that follow a verb are read one by one. The value of an option stands in its own word or is the next one;
it is read when the next option or the end shows that it is complete.

## Main Definitions

* `Reading` — what was read, and an option whose value is still to come or still to be read.
* `Reading.word` — the reading after a further word.
* `Settings.ofWords` — the settings of the words after a verb.

## Design Notes

A word that is no option of the verb is refused as soon as it comes, before the value in front of it is read.
-/

namespace Converge.CommandLine

open Chars

/-- What was read of the words after a verb. -/
structure Reading where
  verb : Verb
  settings : Settings
  /-- An option whose value has not been read yet, and the value once it has come. -/
  pending : Option (OptionName × Option String)
  /-- Two dashes alone were read: no word that follows is an option. -/
  plain : Bool

namespace Reading

/-- Nothing was read. -/
def start (verb : Verb) : Reading := ⟨verb, .empty, none, false⟩

/-- Reads the value that is pending. -/
def settle (reading : Reading) : Except Refusal Reading :=
  match reading.pending with
  | none => .ok reading
  | some (_, none) => .error .usage
  | some (option, some text) =>
      (reading.settings.give option text).map fun settings => { reading with settings := settings, pending := none }

/-- An option, with the value that stands in the same word if there is one. -/
def takeOption (reading : Reading) (option : OptionName) (attached : Option (List Char)) :
    Except Refusal Reading :=
  if !option.takesValue && attached.isSome then .error .usage
  else reading.settle.bind fun reading =>
    if option.takesValue && attached.isNone then .ok { reading with pending := some (option, none) }
    else (reading.settings.give option (String.ofList (attached.getD []))).map
      fun settings => { reading with settings := settings }

/-- Options by their letters in one word. What follows the letter of an option with a value is the value. -/
def takeLetters (reading : Reading) : List Char → Except Refusal Reading
  | [] => .ok reading
  | letter :: rest =>
      match reading.verb.withLetter? letter with
      | none => .error .usage
      | some option =>
          if option.takesValue then
            reading.takeOption option (match rest with
              | [] => none
              | '=' :: value => some value
              | value => some value)
          else (reading.takeOption option none).bind fun reading => reading.takeLetters rest

/-- An option by its long name, with the value that follows a `=`. -/
def takeLong (reading : Reading) (text : List Char) : Except Refusal Reading :=
  let (name, value) := match splitFirst '=' text with
    | some (name, value) => (name, some value)
    | none => (text, none)
  match reading.verb.withLong? (String.ofList name) with
  | none => .error .usage
  | some option => reading.takeOption option value

/-- A word that is no option, if there is a place for it. -/
def takePlain (reading : Reading) (text : String) : Except Refusal Reading :=
  if reading.verb.places ≤ reading.settings.words.length then .error .usage
  else reading.settle.map fun reading =>
    { reading with settings := { reading.settings with words := reading.settings.words ++ [text] } }

/-- The reading after a further word. -/
def word (reading : Reading) (text : String) : Except Refusal Reading :=
  if reading.plain then reading.takePlain text
  else match text.toList with
    | ['-', '-'] => .ok { reading with plain := true }
    | '-' :: '-' :: rest => reading.takeLong rest
    | '-' :: letter :: rest => reading.takeLetters (letter :: rest)
    | _ =>
        -- The value that is still to come has the first claim on a word.
        match reading.pending with
        | some (option, none) => .ok { reading with pending := some (option, some text) }
        | _ => reading.takePlain text

end Reading

/-- The settings of the words after a verb. -/
def Settings.ofWords (verb : Verb) (words : List String) : Except Refusal Settings := do
  let reading ← words.foldlM Reading.word (Reading.start verb)
  return (← reading.settle).settings

end Converge.CommandLine
