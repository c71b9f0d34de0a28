import Converge.Bindings
import Converge.Duration
import Converge.Yaml.Reader

/-!
# Options of the command line

Each verb of the command line has options, which are given by a long name or, some of them, by a letter, and places
for words that are no options. The settings of a call collect what was given; values are read as they come in.

## Main Definitions

* `Verb` — what is asked for, with its options and its places.
* `OptionName` — an option, with its names.
* `Refusal` — why a command line is refused.
* `readBinding`, `readDuration` — the values of options.
* `Settings`, `Settings.give` — what was given so far.
-/

namespace Converge.CommandLine

open Chars

/-! ### Names -/

/-- An option. -/
inductive OptionName where
  | memory
  | filename
  | set
  | wait
  | timeout
  | interval
  | scope
  | selector
  deriving Repr, DecidableEq

namespace OptionName

/-- The long name of an option, which follows two dashes. -/
def long : OptionName → String
  | .memory => "memory"
  | .filename => "filename"
  | .set => "set"
  | .wait => "wait"
  | .timeout => "timeout"
  | .interval => "interval"
  | .scope => "namespace"
  | .selector => "selector"

/-- The letter of an option, which follows one dash. -/
def letter? : OptionName → Option Char
  | .filename => some 'f'
  | .scope => some 'n'
  | .selector => some 'l'
  | _ => none

/-- Whether an option has a value. -/
def takesValue : OptionName → Bool
  | .memory | .wait => false
  | _ => true

end OptionName

/-- What a command line asks for. -/
inductive Verb where
  | create
  | update
  | delete
  | get
  | list
  | render
  deriving Repr, DecidableEq

namespace Verb

/-- All verbs. -/
def all : List Verb := [.create, .update, .delete, .get, .list, .render]

/-- The name of a verb. -/
def name : Verb → String
  | .create => "create"
  | .update => "update"
  | .delete => "delete"
  | .get => "get"
  | .list => "list"
  | .render => "render"

/-- The verb of a name. -/
def named? (name : String) : Option Verb := all.find? (·.name = name)

/-- The options of a verb. -/
def options : Verb → List OptionName
  | .create | .update | .delete => [.memory, .filename, .set, .wait, .timeout, .interval]
  | .get | .render => [.memory, .filename, .set]
  | .list => [.memory, .scope, .selector]

/-- The option of a verb with a long name. -/
def withLong? (verb : Verb) (long : String) : Option OptionName := verb.options.find? (·.long = long)

/-- The option of a verb with a letter. -/
def withLetter? (verb : Verb) (letter : Char) : Option OptionName :=
  verb.options.find? (·.letter? = some letter)

/-- How many words that are no options a verb has: a list is given the parts of a type. -/
def places : Verb → Nat
  | .list => 2
  | _ => 0

end Verb

/-! ### Values -/

/-- Why a command line is refused: its form is not that of any call, or the value of an option is bad. -/
inductive Refusal where
  | usage
  | noBinding (text : String)
  | unnamedBinding (text : String)
  | badValue (name : String) (cause : Yaml.Error)
  | badDuration (text : String)
  deriving Repr, DecidableEq

/-- The words for a command line that is refused. -/
def Refusal.message : Refusal → String
  | .usage => "usage: settle [--memory] create|update|delete|get|list|render ..."
  | .noBinding text => "expected NAME=VALUE, got '" ++ text ++ "'"
  | .unnamedBinding text => "binding name is empty in '" ++ text ++ "'"
  | .badValue name cause => "invalid value for '" ++ name ++ "': " ++ cause.message
  | .badDuration text => "invalid duration '" ++ text ++ "' (expected e.g. 10s, 250ms, 1m30s)"

/-- A binding `NAME=VALUE`. The value is read as YAML, but nothing at all is the empty string. -/
def readBinding (text : String) : Except Refusal (String × Document) :=
  match splitFirst '=' text.toList with
  | none => .error (.noBinding text)
  | some (before, after) =>
      let name := String.ofList (trim before)
      if name.isEmpty then .error (.unnamedBinding text)
      else if after.isEmpty then .ok (name, .string "")
      else ((Yaml.read (String.ofList after)).mapError (Refusal.badValue name)).map fun value => (name, value)

/-- A duration. -/
def readDuration (text : String) : Except Refusal Duration :=
  match Duration.ofLiteral? text with
  | some duration => .ok duration
  | none => .error (.badDuration text)

/-! ### Settings -/

/-- What was given on a command line so far. -/
structure Settings where
  memory : Bool
  file : Option String
  bindings : List (String × Document)
  wait : Bool
  timeout : Option Duration
  interval : Option Duration
  scope : Option String
  selector : Option String
  words : List String

namespace Settings

/-- Nothing was given. -/
def empty : Settings := ⟨false, none, [], false, none, none, none, none, []⟩

/-- Something that may be given once. -/
def once {α : Type} (given : Option α) (value : Except Refusal α) : Except Refusal (Option α) :=
  if given.isSome then .error .usage else value.map some

/-- A switch that may be turned on once. -/
def on (given : Bool) : Except Refusal Bool := if given then .error .usage else .ok true

/-- The settings with a further option. Only bindings may be given more than once. -/
def give (settings : Settings) (option : OptionName) (text : String) : Except Refusal Settings :=
  match option with
  | .memory => (on settings.memory).map ({ settings with memory := · })
  | .wait => (on settings.wait).map ({ settings with wait := · })
  | .set => (readBinding text).map fun binding => { settings with bindings := settings.bindings ++ [binding] }
  | .filename =>
      (once settings.file (if text.isEmpty then .error .usage else .ok text)).map ({ settings with file := · })
  | .timeout => (once settings.timeout (readDuration text)).map ({ settings with timeout := · })
  | .interval => (once settings.interval (readDuration text)).map ({ settings with interval := · })
  | .scope => (once settings.scope (.ok text)).map ({ settings with scope := · })
  | .selector => (once settings.selector (.ok text)).map ({ settings with selector := · })

end Settings

end Converge.CommandLine
