import Converge.Yaml.Node
import Converge.Yaml.Token.Stream

/-!
# The grammar of YAML

Nodes are read from tokens by recursive descent, one token ahead.

## Main Definitions

* `Grammar` — the tokens that are left, the anchors seen so far and the handles of tags.
* `Grammar.node` — reads a node.
* `Stream.ofTokens`, `Stream.ofText` — the node of a text that holds at most one document.

## Design Notes

An anchor gets the count of the different names seen before it as its number. A name that is used again
therefore gets a new number, which the next new name may share; of nodes with one number the latest counts.
-/

namespace Converge.Yaml

/-- The tokens that are left, the number of each anchor's name, and the expansions of handles. -/
structure Grammar where
  tokens : List Token
  names : List (List Char × Nat)
  handles : List (List Char × List Char)

namespace Grammar

/-- A reading that goes on from one state to the next. -/
abbrev Step := StateT Grammar (Except Error)

/-- The next token. -/
def peek : Step Token := do return ((← get).tokens.head?).getD .streamEnd

/-- Passes over the next token. -/
def skip : Step Unit := modify fun g => { g with tokens := g.tokens.drop 1 }

/-- The next token, once one was passed over. -/
def advance : Step Token := do skip; peek

/-! ### Properties -/

/-- Gives an anchor its number. -/
def nameAnchor (name : List Char) : Step Nat := do
  let g ← get
  -- The count is taken before an older use of the name is dropped.
  let number := g.names.length
  let others := g.names.filter fun (other, _) => other != name
  set { g with names := others ++ [(name, number)] }
  return number

/-- The number that an alias refers to. -/
def anchorOf (name : List Char) : Step Nat := do
  match (← get).names.find? (·.1 = name) with
  | some (_, number) => return number
  | none => throw .unknownAnchor

/-- The handles that need no directive. -/
def standardHandles : List (List Char × List Char) :=
  [(['!'], ['!']), (['!', '!'], "tag:yaml.org,2002:".toList)]

/-- The tag of a handle and a suffix. -/
def expandTag (handle suffix : List Char) : Step (List Char) := do
  if handle.isEmpty then return suffix
  match (← get).handles.find? (·.1 = handle) with
  | some (_, expansion) => return expansion ++ suffix
  | none => throw .undefinedTagHandle

/-- Reads an anchor and a tag, in either order. -/
def properties : Step Properties := do
  match ← peek with
  | .anchor name =>
      match ← advance with
      | .tag handle suffix =>
          skip
          let tag ← expandTag handle suffix
          return ⟨some (← nameAnchor name), some tag⟩
      | _ => return ⟨some (← nameAnchor name), none⟩
  | .tag handle suffix =>
      match ← advance with
      | .anchor name =>
          skip
          let tag ← expandTag handle suffix
          return ⟨some (← nameAnchor name), some tag⟩
      | _ => return ⟨none, some (← expandTag handle suffix)⟩
  | _ => return .none

/-! ### Nodes -/

mutual

/-- Reads a node; block collections only where a block may stand, sequences without their own indentation only
where a mapping has them. Each call lowers the bound on their nesting. -/
def node : (bound : Nat) → (block unindented : Bool) → Step Node
  | 0, _, _ => throw .tooDeep
  | bound + 1, block, unindented => do
      match ← peek with
      | .alias name =>
          skip
          return .alias (← anchorOf name)
      | _ => pure ()
      let p ← properties
      match ← peek, block, unindented with
      | .blockEntry, _, true => return .sequence p (← unindentedItems bound)
      | .scalar style text, _, _ =>
          skip
          return .scalar p.ofScalar style (String.ofList text)
      | .flowSequenceStart, _, _ =>
          skip
          return .sequence p (← flowItems bound true)
      | .flowMappingStart, _, _ =>
          skip
          return .mapping p (← flowEntries bound true)
      | .blockSequenceStart, true, _ =>
          skip
          return .sequence p (← blockItems bound)
      | .blockMappingStart, true, _ =>
          skip
          return .mapping p (← blockEntries bound)
      | _, _, _ =>
          if p = .none then throw (.expected "node content")
          return Node.omitted p

/-- The items of a block sequence up to its end. -/
def blockItems : (bound : Nat) → Step (List Node)
  | 0 => throw .tooDeep
  | bound + 1 => do
      match ← peek with
      | .blockEntry =>
          match ← advance with
          | .blockEntry | .blockEnd => return Node.omitted .none :: (← blockItems bound)
          | _ =>
              let item ← node bound true false
              return item :: (← blockItems bound)
      | .blockEnd =>
          skip
          return []
      | _ => throw (.expected "'-' indicator")

/-- The items of a sequence without its own indentation. -/
def unindentedItems : (bound : Nat) → Step (List Node)
  | 0 => throw .tooDeep
  | bound + 1 => do
      match ← peek with
      | .blockEntry =>
          match ← advance with
          | .blockEntry | .key | .value | .blockEnd =>
              return Node.omitted .none :: (← unindentedItems bound)
          | _ =>
              let item ← node bound true false
              return item :: (← unindentedItems bound)
      | _ => return []

/-- The entries of a block mapping up to its end. -/
def blockEntries : (bound : Nat) → Step (List (Node × Node))
  | 0 => throw .tooDeep
  | bound + 1 => do
      match ← peek with
      | .key =>
          let key ← match ← advance with
            | .key | .value | .blockEnd => pure (Node.omitted .none)
            | _ => node bound true true
          let value ← match ← peek with
            | .value =>
                match ← advance with
                | .key | .value | .blockEnd => pure (Node.omitted .none)
                | _ => node bound true true
            | _ => pure (Node.omitted .none)
          return (key, value) :: (← blockEntries bound)
      | .blockEnd =>
          skip
          return []
      | _ => throw (.expected "key")

/-- The items of a flow sequence up to its end. -/
def flowItems : (bound : Nat) → (first : Bool) → Step (List Node)
  | 0, _ => throw .tooDeep
  | bound + 1, first => do
      let token ← match ← peek, first with
        | .flowSequenceEnd, _ => pure Token.flowSequenceEnd
        | token, true => pure token
        | .flowEntry, false => advance
        | _, false => throw (.expected "',' or ']'")
      match token with
      | .flowSequenceEnd =>
          skip
          return []
      | .key =>
          skip
          let pair ← flowPair bound
          return .mapping .none [pair] :: (← flowItems bound false)
      | _ =>
          let item ← node bound false false
          return item :: (← flowItems bound false)

/-- A single entry that stands as an item of a flow sequence. Where its key is left out, the token in place of
the key is passed over. -/
def flowPair : (bound : Nat) → Step (Node × Node)
  | 0 => throw .tooDeep
  | bound + 1 => do
      let key ← match ← peek with
        | .value | .flowEntry | .flowSequenceEnd => do
            skip
            pure (Node.omitted .none)
        | _ => node bound false false
      match ← peek with
      | .value =>
          match ← advance with
          | .flowEntry | .flowSequenceEnd => return (key, Node.omitted .none)
          | _ => return (key, ← node bound false false)
      | _ => return (key, Node.omitted .none)

/-- The entries of a flow mapping up to its end. -/
def flowEntries : (bound : Nat) → (first : Bool) → Step (List (Node × Node))
  | 0, _ => throw .tooDeep
  | bound + 1, first => do
      let token ← match ← peek, first with
        | .flowMappingEnd, _ => pure Token.flowMappingEnd
        | token, true => pure token
        | .flowEntry, false => advance
        | _, false => throw (.expected "',' or closing brace")
      match token with
      | .flowMappingEnd =>
          skip
          return []
      | .key =>
          let key ← match ← advance with
            | .value | .flowEntry | .flowMappingEnd => pure (Node.omitted .none)
            | _ => node bound false false
          let value ← match ← peek with
            | .value =>
                match ← advance with
                | .flowEntry | .flowMappingEnd => pure (Node.omitted .none)
                | _ => node bound false false
            | _ => pure (Node.omitted .none)
          return (key, value) :: (← flowEntries bound false)
      | _ =>
          let key ← node bound false false
          return (key, Node.omitted .none) :: (← flowEntries bound false)

end

/-! ### Documents -/

/-- The versions of YAML that are read. -/
def isReadable (major minor : Nat) : Bool := major = 1 && (minor = 1 || minor = 2)

/-- Reads the directives before a document: at most one version, and each handle once. -/
def directives (tokens : List Token) (versioned : Bool) (handles : List (List Char × List Char)) :
    Except Error (List Token × List (List Char × List Char)) :=
  match tokens with
  | .versionDirective major minor :: rest =>
      if versioned || !isReadable major minor then .error .badDirective
      else directives rest true handles
  | .tagDirective handle expansion :: rest =>
      if handles.any (·.1 = handle) then .error .badDirective
      else directives rest versioned (handles ++ [(handle, expansion)])
  | _ => .ok (tokens, handles)

/-- Nothing may follow a document but marks of its end. -/
def finish : Step Unit := do
  match (← get).tokens.dropWhile (· = .documentEnd) with
  | [] | .streamEnd :: _ => return ()
  | _ => throw .severalDocuments

/-- Reads the only document, if there is one. -/
def document (bound : Nat) : Step (Option Node) := do
  match ← peek with
  | .streamEnd => return none
  | .versionDirective _ _ | .tagDirective _ _ | .documentStart =>
      let (tokens, handles) ← directives (← get).tokens false []
      modify fun g => { g with tokens := tokens, handles := handles ++ standardHandles }
      if (← peek) != .documentStart then throw (.expected "<document start>")
      let root ← match ← advance with
        | .versionDirective _ _ | .tagDirective _ _ | .documentStart | .documentEnd | .streamEnd =>
            pure (Node.omitted .none)
        | _ => node bound true false
      finish
      return some root
  | _ =>
      let root ← node bound true false
      finish
      return some root

end Grammar

namespace Stream

/-- The node of the tokens of a text. -/
def ofTokens (tokens : List Token) : Except Error Stream := do
  let (root, _) ← (Grammar.document (4 * tokens.length + 8)).run ⟨tokens, [], Grammar.standardHandles⟩
  return ofRoot root

/-- The node of a text. -/
def ofText (text : String) : Except Error Stream := do ofTokens (← Token.all text.toList)

end Stream

end Converge.Yaml
