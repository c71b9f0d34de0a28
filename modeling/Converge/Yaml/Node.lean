import Converge.Yaml.Token

/-!
# Nodes of YAML text

A text is read as a tree of nodes. An anchored node carries a number, by which aliases refer to it.

## Main Definitions

* `Node` — scalars, sequences, mappings and aliases.
* `Node.size` — how many scalars, aliases, and ends of collections a node has.
* `Node.anchored` — the anchored nodes inside of a node.
* `Stream` — the node of a text, with what its aliases refer to.
-/

namespace Converge.Yaml

/-- What is written before a node: the number of its anchor and its tag. -/
structure Properties where
  anchor : Option Nat
  tag : Option (List Char)
  deriving Repr, DecidableEq

/-- A node without an anchor and a tag. -/
def Properties.none : Properties := ⟨Option.none, Option.none⟩

/-- The properties of a scalar that is written out: the bare `!` says nothing about it. -/
def Properties.ofScalar (properties : Properties) : Properties :=
  if properties.tag = some ['!'] then { properties with tag := Option.none } else properties

/-- A node of YAML text. -/
inductive Node where
  | scalar (properties : Properties) (style : Style) (text : String)
  | sequence (properties : Properties) (items : List Node)
  | mapping (properties : Properties) (entries : List (Node × Node))
  | alias (number : Nat)
  deriving Repr, Inhabited

namespace Node

/-- A scalar that is left out. -/
def omitted (properties : Properties) : Node := .scalar properties .plain ""

mutual

/-- How many scalars, aliases, and starts and ends of collections a node has. -/
def size : Node → Nat
  | .scalar _ _ _ | .alias _ => 1
  | .sequence _ items => sizeItems items + 2
  | .mapping _ entries => sizeEntries entries + 2
termination_by structural n => n

/-- The sum of `size` over the items. -/
def sizeItems : List Node → Nat
  | [] => 0
  | item :: items => size item + sizeItems items
termination_by structural n => n

/-- The sum of `size` over the entries. -/
def sizeEntries : List (Node × Node) → Nat
  | [] => 0
  | entry :: entries => sizeEntry entry + sizeEntries entries
termination_by structural n => n

/-- The sum of `size` over a key and its value. -/
def sizeEntry : Node × Node → Nat
  | (key, value) => size key + size value
termination_by structural n => n

end

/-- A node under the number of its anchor, if it has one. -/
def underAnchor (properties : Properties) (node : Node) : List (Nat × Node) :=
  match properties.anchor with
  | some number => [(number, node)]
  | Option.none => []

mutual

/-- The anchored nodes in the order in which they begin. -/
def anchored : Node → List (Nat × Node)
  | .scalar properties style text => underAnchor properties (.scalar properties style text)
  | .alias _ => []
  | .sequence properties items => underAnchor properties (.sequence properties items) ++ anchoredItems items
  | .mapping properties entries =>
      underAnchor properties (.mapping properties entries) ++ anchoredEntries entries
termination_by structural n => n

/-- The anchored nodes of all items. -/
def anchoredItems : List Node → List (Nat × Node)
  | [] => []
  | item :: items => anchored item ++ anchoredItems items
termination_by structural n => n

/-- The anchored nodes of all entries. -/
def anchoredEntries : List (Node × Node) → List (Nat × Node)
  | [] => []
  | entry :: entries => anchoredEntry entry ++ anchoredEntries entries
termination_by structural n => n

/-- The anchored nodes of a key and its value. -/
def anchoredEntry : Node × Node → List (Nat × Node)
  | (key, value) => anchored key ++ anchored value
termination_by structural n => n

end

end Node

/-- The node of a text, what its aliases refer to, and how often aliases may be followed. -/
structure Stream where
  root : Option Node
  anchors : List (Nat × Node)
  aliasLimit : Nat

namespace Stream

/-- How many uses of aliases there may be for each part of a text. -/
def usesPerPart : Nat := 100

/-- A text with a node, or with nothing in it. Of two nodes with one number the later counts. -/
def ofRoot : Option Node → Stream
  | some root => ⟨some root, root.anchored.reverse, usesPerPart * root.size⟩
  | none => ⟨none, [], usesPerPart⟩

/-- The node that an alias refers to. -/
def target? (stream : Stream) (number : Nat) : Option Node :=
  (stream.anchors.find? (·.1 = number)).map (·.2)

end Stream

end Converge.Yaml
