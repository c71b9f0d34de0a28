import Converge.Config
import Converge.Yaml.Reader
import Converge.Yaml.Writer

/-!
# Configuration files

A configuration file is a YAML mapping with the fields `bindings`, `timeout` and `interval`, each of which may
be left out. Other fields are ignored. A duration is a number of seconds or a literal.

## Main Definitions

* `Config.ofStream` — the configuration that a YAML text describes.
* `Config.read` — the configuration of the text of a file.
* `Config.write` — the text of a configuration.

## Design Notes

A field that is given twice is refused, while of two bindings of one name the later counts. The
three fields may also stand in a sequence, in the order above.
-/

namespace Converge.Config

open Yaml

/-- A mapping that is left out: nothing at all behind a colon. -/
def isOmitted : Node → Bool
  | .scalar _ style text => style = .plain && text.isEmpty
  | _ => false

/-- A duration: seconds or a literal. -/
def readDuration (stream : Stream) (depth : Nat) (node : Node) : Step Duration := do
  let given ← value stream depth node
  let read := match given with
    | .string text => Duration.ofLiteral? text
    | document => document.natural?.bind Duration.ofSeconds?
  match read with
  | some duration => return duration
  | none => throw (.invalidValue "invalid duration")

/-- Bindings: a mapping, or nothing. -/
def readBindings (stream : Stream) (depth : Nat) (node : Node) : Step Bindings := do
  let node ← follow stream node
  -- Nothing behind the colon is an empty mapping, but a null that is written out is none.
  if isOmitted node then return Table.empty
  match node, depth with
  | .mapping _ entries, depth + 1 =>
      let read ← entries.mapM fun (key, item) => do
        return (← keyText stream key, ← value stream depth item)
      return Table.ofList read
  | .mapping _ _, 0 => throw .tooDeep
  | _, _ => throw (.wrongType "a map")

/-- The fields that have been read. -/
structure Fields where
  bindings : Option Bindings
  timeout : Option Duration
  interval : Option Duration

namespace Fields

/-- No field has been read. -/
def none : Fields := ⟨Option.none, Option.none, Option.none⟩

/-- The configuration of the fields, with what is standard for those left out. -/
def config (fields : Fields) : Config :=
  ⟨fields.bindings.getD standard.bindings, fields.timeout.getD standard.timeout,
    fields.interval.getD standard.interval⟩

/-- Reads an entry of a file. -/
def add (stream : Stream) (depth : Nat) (fields : Fields) (entry : Node × Node) : Step Fields := do
  match ← keyText stream entry.1 with
  | "bindings" =>
      if fields.bindings.isSome then throw (.repeatedField "bindings")
      return { fields with bindings := some (← readBindings stream depth entry.2) }
  | "timeout" =>
      if fields.timeout.isSome then throw (.repeatedField "timeout")
      return { fields with timeout := some (← readDuration stream depth entry.2) }
  | "interval" =>
      if fields.interval.isSome then throw (.repeatedField "interval")
      return { fields with interval := some (← readDuration stream depth entry.2) }
  | _ => return fields

/-- Reads the fields from a sequence. -/
def ofItems (stream : Stream) (depth : Nat) (items : List Node) : Step Fields := do
  if 3 < items.length then throw (.wrongType "three fields")
  let bindings ← items[0]?.mapM (readBindings stream depth)
  let timeout ← items[1]?.mapM (readDuration stream depth)
  let interval ← items[2]?.mapM (readDuration stream depth)
  return ⟨bindings, timeout, interval⟩

end Fields

/-- The configuration that a node describes. -/
def ofNode (stream : Stream) (node : Node) : Step Config := do
  let node ← follow stream node
  if isOmitted node then return standard
  match node with
  | .mapping _ entries => return (← entries.foldlM (Fields.add stream (depthLimit - 1)) .none).config
  | .sequence _ items => return (← Fields.ofItems stream (depthLimit - 1) items).config
  | _ => throw (.wrongType "a configuration")

/-- The configuration that a YAML text describes. -/
def ofStream (stream : Stream) : Except Yaml.Error Config :=
  match stream.root with
  | none => .ok standard
  | some root => (ofNode stream root).run' 0

/-- The configuration of the text of a file. -/
def read (text : String) : Except Yaml.Error Config :=
  if Chars.blank text then .ok standard else (Stream.ofText text).bind ofStream

/-- The text of a configuration, with the bindings in their order. -/
def write (config : Config) : String :=
  Yaml.write (.object
    [("bindings", .object config.bindings.entries), ("timeout", .string config.timeout.literal),
     ("interval", .string config.interval.literal)])

end Converge.Config
