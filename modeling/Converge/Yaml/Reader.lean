import Converge.Yaml.Node.Grammar
import Converge.Yaml.Scalar

/-!
# Reading YAML text

The nodes of a text become a document. Aliases stand for what they refer to, as long as that stays within
limits on the nesting and on the number of uses.

## Main Definitions

* `Step` — a reading that counts the uses of aliases.
* `value` — the document of a node.
* `read` — the document of a text.
-/

namespace Converge.Yaml

/-- A reading that counts the uses of aliases. -/
abbrev Step := StateT Nat (Except Error)

/-- Collections that are nested deeper than this are refused. -/
def depthLimit : Nat := 128

/-- The node itself, or the one that an alias refers to. -/
def follow (stream : Stream) : Node → Step Node
  | .alias number => do
      let uses := (← get) + 1
      if stream.aliasLimit < uses then throw .tooManyAliases
      set uses
      match stream.target? number with
      | some node => return node
      | none => throw .unknownAnchor
  | node => return node

/-- The text of a key: that of any scalar, whatever its tag. -/
def keyText (stream : Stream) (node : Node) : Step String := do
  match ← follow stream node with
  | .scalar _ _ text => return text
  | _ => throw (.wrongType "a string")

/-- The document of a node; `depth` is how many collections may still be opened. Of two entries with one key
the later counts. -/
def value (stream : Stream) : (depth : Nat) → Node → Step Document
  | 0, node => do
      match ← follow stream node with
      | .scalar properties style text => liftM (Scalar.value properties style text)
      | _ => throw .tooDeep
  | depth + 1, node => do
      match ← follow stream node with
      | .scalar properties style text => liftM (Scalar.value properties style text)
      | .sequence properties items =>
          if Scalar.isLocal properties then throw .unknownTag
          return .array (← items.mapM (value stream depth))
      | .mapping properties entries =>
          if Scalar.isLocal properties then throw .unknownTag
          let members ← entries.mapM fun (key, item) => do
            return (← keyText stream key, ← value stream depth item)
          return .object (Members.ofList members)
      | .alias _ => throw .unknownAnchor

/-- The document of a text; null if there is nothing in it. -/
def read (text : String) : Except Error Document := do
  let stream ← Stream.ofText text
  match stream.root with
  | none => return .null
  | some root => (value stream depthLimit root).run' 0

end Converge.Yaml
