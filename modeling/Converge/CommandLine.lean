import Converge.CommandLine.Word
import Converge.Operation

/-!
# The command line

A command line names a verb and gives it options. What it asks for is a command on a store in memory or on the store
that the environment names, or the version of the program.

## Main Definitions

* `Command` — an operation with what it is given.
* `Invocation` — what a command line asks for.
* `CommandLine.read` — reads a command line.
-/

namespace Converge

/-- A template file and the bindings for it. -/
structure TemplateCall where
  file : String
  bindings : Bindings

/-- An operation with what it is given. -/
inductive Command where
  | mutate (operation : Operation) (template : TemplateCall) (timeout interval : Option Duration)
  | get (template : TemplateCall)
  | render (template : TemplateCall)
  | list (apiVersion kind : String) (scope selector : Option String)

/-- What a command line asks for. -/
inductive Invocation where
  | version
  | run (memory : Bool) (command : Command)

namespace CommandLine

/-- The operation of a verb that writes, waiting or not. -/
def writing (verb : Verb) (wait : Bool) : Option Operation :=
  match verb, wait with
  | .create, false => some .create
  | .create, true => some .createAndWait
  | .update, false => some .update
  | .update, true => some .updateAndWait
  | .delete, false => some .delete
  | .delete, true => some .deleteAndWait
  | _, _ => none

/-- The command of a verb with its settings. Only a list goes without a template file, and only what waits has a
timeout or an interval. -/
def commandOf (verb : Verb) (settings : Settings) : Except Refusal Command :=
  if !settings.wait && (settings.timeout.isSome || settings.interval.isSome) then .error .usage
  else match verb, settings.file, settings.words with
    | .list, _, [apiVersion, kind] => .ok (.list apiVersion kind settings.scope settings.selector)
    | .list, _, _ | _, none, _ => .error .usage
    | verb, some file, _ =>
        let template : TemplateCall := ⟨file, Table.ofList settings.bindings⟩
        match writing verb settings.wait with
        | some operation => .ok (.mutate operation template settings.timeout settings.interval)
        | none => .ok (if verb = .get then .get template else .render template)

/-- What the words from a verb on ask for. -/
def readVerb (memory : Bool) (verb : Verb) (words : List String) : Except Refusal Invocation := do
  let settings ← Settings.ofWords verb words
  return .run (memory || settings.memory) (← commandOf verb settings)

/-- Reads the words in front of the verb. -/
def readFrom (memory : Bool) : List String → Except Refusal Invocation
  | [] => .error .usage
  | word :: words =>
      match Verb.named? word with
      | some verb => readVerb memory verb words
      | none =>
          if word = "--version" || (Chars.afterStart ['-', 'V'] word.toList).isSome then .ok .version
          else if word = "--memory" && !memory then readFrom true words
          else .error .usage

/-- Reads a command line. -/
def read (words : List String) : Except Refusal Invocation := readFrom false words

end CommandLine

end Converge
