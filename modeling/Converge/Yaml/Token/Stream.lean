import Converge.Yaml.Token.Block
import Converge.Yaml.Token.Fold
import Converge.Yaml.Token.Property

/-!
# The tokens of a text

The text is cut into tokens from left to right. Two things are decided by what comes later or by the place of
a token: a scalar or collection turns out to be a key when a colon follows it on its line, and a change of
the indentation opens or closes a block collection.

## Main Definitions

* `Scanner` — the tokens so far and the state of the reading.
* `Scanner.next` — reads a further token.
* `Token.all` — the tokens of a text.

## Design Notes

Tokens are only ever appended. Where a token turns out to begin a key, the tokens that belong before it are
kept with its position and put in place at the end.
-/

namespace Converge.Yaml

open Chars

/-- The place of a token that may turn out to begin a key: its position among the tokens, where it stands
in the text, and whether it must be a key because it stands at the indentation of a block. -/
structure KeyPlace where
  position : Nat
  mark : Mark
  required : Bool

/-- Tokens that belong before the token at a position. -/
structure Promotion where
  position : Nat
  tokens : List Token

/-- The state of the reading. Tokens, promotions and what is open are kept with the latest first; each flow
collection that is open, and the block around them, has a place for a possible key. -/
structure Scanner where
  cursor : Cursor
  tokens : List Token
  count : Nat
  promotions : List Promotion
  indent : Int
  outer : List Int
  keyAllowed : Bool
  blockKey : Option KeyPlace
  flowKeys : List (Option KeyPlace)

namespace Scanner

/-- Nothing has been read yet. -/
def start (text : List Char) : Scanner :=
  ⟨⟨text, Mark.start⟩, [], 0, [], -1, [], true, none, []⟩

/-- Whether a flow collection is open. -/
def inFlow (s : Scanner) : Bool := !s.flowKeys.isEmpty

/-- The column of the next character. -/
def column (s : Scanner) : Int := s.cursor.mark.column

/-- Adds a token. -/
def emit (s : Scanner) (token : Token) : Scanner :=
  { s with tokens := token :: s.tokens, count := s.count + 1 }

/-- Goes on behind so many characters. -/
def skip (s : Scanner) (length : Nat) : Scanner := { s with cursor := s.cursor.skip length }

/-! ### Possible keys -/

/-- The place of the possible key in the innermost collection. -/
def key? (s : Scanner) : Option KeyPlace :=
  match s.flowKeys with
  | key :: _ => key
  | [] => s.blockKey

/-- Sets the place of the possible key in the innermost collection. -/
def withKey (s : Scanner) (key : Option KeyPlace) : Scanner :=
  match s.flowKeys with
  | _ :: outer => { s with flowKeys := key :: outer }
  | [] => { s with blockKey := key }

/-- Forgets the possible key; one that has to be a key lacks its colon. -/
def dropKey (s : Scanner) : Except Error Scanner :=
  match s.key? with
  | some place => if place.required then .error .missingColon else .ok (s.withKey none)
  | none => .ok s

/-- Notes that the next token may begin a key, where that is allowed. -/
def noteKey (s : Scanner) : Except Error Scanner :=
  if s.keyAllowed then do
    let s ← s.dropKey
    return s.withKey (some ⟨s.count, s.cursor.mark, !s.inFlow && s.indent = s.column⟩)
  else .ok s

/-- The most bytes between a key and its colon. -/
def keyLimit : Nat := 1024

/-- Whether a possible key is out of reach: on an earlier line, or too far back. -/
def isStale (s : Scanner) (place : KeyPlace) : Bool :=
  place.mark.line < s.cursor.mark.line || place.mark.index + keyLimit < s.cursor.mark.index

/-- Forgets a possible key that is out of reach. -/
def refresh (s : Scanner) : Option KeyPlace → Except Error (Option KeyPlace)
  | none => .ok none
  | some place =>
      if s.isStale place then (if place.required then .error .missingColon else .ok none)
      else .ok (some place)

/-- Forgets all possible keys that are out of reach. -/
def refreshKeys (s : Scanner) : Except Error Scanner := do
  let flowKeys ← s.flowKeys.mapM s.refresh
  let blockKey ← s.refresh s.blockKey
  return { s with flowKeys := flowKeys, blockKey := blockKey }

/-! ### Indentation -/

/-- Closes the block collections that stand deeper than a column; `levels` are those around the innermost. -/
def closeBlocks (column : Int) (s : Scanner) : List Int → Scanner
  | [] => s
  | level :: outer =>
      if column < s.indent then
        closeBlocks column { s.emit .blockEnd with indent := level, outer := outer } outer
      else s

/-- Closes the block collections that stand deeper than a column. Flow collections have no indentation. -/
def unroll (s : Scanner) (column : Int) : Scanner :=
  if s.inFlow then s else s.closeBlocks column s.outer

/-- Whether a column opens a block collection. -/
def opens (s : Scanner) (column : Int) : Bool := !s.inFlow && s.indent < column

/-- The indentation of a block collection that stands at a column. -/
def indentTo (s : Scanner) (column : Int) : Scanner :=
  { s with outer := s.indent :: s.outer, indent := column }

/-- Opens a block collection at the next character, where it stands deeper than the one around it. -/
def roll (s : Scanner) (opening : Token) : Scanner :=
  if s.opens s.column then (s.indentTo s.column).emit opening else s

/-! ### Between tokens -/

/-- Whether a character between tokens is passed over. A tab counts as a space where no key can begin. -/
def passes (flow keyAllowed : Bool) (mark : Mark) (c : Char) : Bool :=
  c == ' ' || (c == '\t' && (flow || !keyAllowed)) || (c == byteOrderMark && mark.column == 0)

/-- Passes over spaces, comments and line breaks, behind which a key may begin in a block. -/
def toToken (flow comment keyAllowed : Bool) (mark : Mark) : List Char → Bool × Cursor
  | [] => (keyAllowed, ⟨[], mark⟩)
  | c :: rest =>
      if isBreak c then toToken flow false (keyAllowed || !flow) (mark.newLine c) rest
      else if comment then toToken flow true keyAllowed (mark.next c) rest
      else if c == '#' then toToken flow true keyAllowed (mark.next c) rest
      else if passes flow keyAllowed mark c then toToken flow false keyAllowed (mark.next c) rest
      else (keyAllowed, ⟨c :: rest, mark⟩)

/-- Goes on to the next token. -/
def toNext (s : Scanner) : Except Error Scanner := do
  let (keyAllowed, cursor) := toToken s.inFlow false s.keyAllowed s.cursor.mark s.cursor.rest
  let s ← { s with keyAllowed := keyAllowed, cursor := cursor }.refreshKeys
  return s.unroll s.column

/-! ### Tokens -/

/-- The end of the text, which closes all blocks. -/
def streamEnd (s : Scanner) : Except Error Scanner := do
  let s ← (s.unroll (-1)).dropKey
  return s.emit .streamEnd

/-- A directive or a mark of a document, which close all blocks. -/
def topLevel (s : Scanner) (read : Cursor → Except Error (Token × Cursor)) : Except Error Scanner := do
  let s ← (s.unroll (-1)).dropKey
  let (token, cursor) ← read s.cursor
  return { s.emit token with cursor := cursor, keyAllowed := false }

/-- The opening mark of a flow collection. -/
def flowStart (s : Scanner) (token : Token) : Except Error Scanner := do
  let s ← s.noteKey
  return { (s.emit token).skip 1 with flowKeys := none :: s.flowKeys, keyAllowed := true }

/-- The closing mark of a flow collection. -/
def flowEnd (s : Scanner) (token : Token) : Except Error Scanner := do
  let s ← s.dropKey
  return { (s.emit token).skip 1 with flowKeys := s.flowKeys.drop 1, keyAllowed := false }

/-- The comma of a flow collection. -/
def flowEntry (s : Scanner) : Except Error Scanner := do
  let s ← s.dropKey
  return { (s.emit .flowEntry).skip 1 with keyAllowed := true }

/-- The dash of a block sequence. -/
def blockEntry (s : Scanner) : Except Error Scanner := do
  if !s.inFlow && !s.keyAllowed then throw (.misplaced "block sequence entries")
  let s ← (s.roll .blockSequenceStart).dropKey
  return { (s.emit .blockEntry).skip 1 with keyAllowed := true }

/-- The question mark before a key. -/
def explicitKey (s : Scanner) : Except Error Scanner := do
  if !s.inFlow && !s.keyAllowed then throw (.misplaced "mapping keys")
  let s ← (s.roll .blockMappingStart).dropKey
  return { (s.emit .key).skip 1 with keyAllowed := !s.inFlow }

/-- The colon before a value. If a token before it may begin a key it does so. -/
def value (s : Scanner) : Except Error Scanner :=
  match s.key? with
  | some place =>
      -- The mapping opens where its first key began, not where the colon stands.
      let column : Int := place.mark.column
      let opening := if s.opens column then [Token.blockMappingStart, .key] else [.key]
      let s := if s.opens column then s.indentTo column else s
      let s := { s.withKey none with promotions := ⟨place.position, opening⟩ :: s.promotions }
      .ok { (s.emit .value).skip 1 with keyAllowed := false }
  | none =>
      if !s.inFlow && !s.keyAllowed then .error (.misplaced "mapping values")
      else
        let s := s.roll .blockMappingStart
        .ok { (s.emit .value).skip 1 with keyAllowed := !s.inFlow }

/-- A token that may begin a key. -/
def keyStart (s : Scanner) (read : Cursor → Except Error (Token × Cursor)) : Except Error Scanner := do
  let s ← s.noteKey
  let (token, cursor) ← read s.cursor
  return { s.emit token with cursor := cursor, keyAllowed := false }

/-- A block scalar. -/
def block (s : Scanner) (literal : Bool) : Except Error Scanner := do
  let s ← s.dropKey
  let (text, cursor) ← blockScalar literal s.indent (s.cursor.skip 1)
  return { s.emit (.scalar .block text) with cursor := cursor, keyAllowed := true }

/-- A plain scalar. If it ends behind a line break a key may follow it. -/
def plainScalar (s : Scanner) : Except Error Scanner := do
  let s ← s.noteKey
  let read ← plain s.inFlow (s.indent + 1) Fold.start s.cursor.mark s.cursor.rest
  return { s.emit (.scalar .plain read.text) with cursor := read.cursor, keyAllowed := read.brokenAfter }

/-- A mark that begins no plain scalar. -/
def isIndicator (c : Char) : Bool :=
  ['-', '?', ':', ',', '[', ']', '\x7b', '\x7d', '#', '&', '*', '!', '|', '>', '\'', '"', '%', '@', '\x60'].contains c

/-- Whether a plain scalar begins with a character. -/
def beginsPlain (flow : Bool) (c : Char) (rest : List Char) : Bool :=
  !(isSpace c || isBreak c || isIndicator c)
    || (c == '-' && !(rest.head?.map isSpace).getD false)
    || (!flow && (c == '?' || c == ':') && !atGap rest)

/-- A mark of three characters. -/
def documentMark (token : Token) (cursor : Cursor) : Except Error (Token × Cursor) :=
  .ok (token, cursor.skip 3)

/-- A scalar in quotes. -/
def quoted (read : Cursor → Except Error (List Char × Cursor)) (cursor : Cursor) :
    Except Error (Token × Cursor) :=
  (read (cursor.skip 1)).map fun (text, behind) => (.scalar .quoted text, behind)

/-- A name behind its sign. -/
def named (token : List Char → Token) (cursor : Cursor) : Except Error (Token × Cursor) :=
  (anchorName (cursor.skip 1)).map fun (name, behind) => (token name, behind)

/-- Reads the token that begins with a character. -/
def token (s : Scanner) (c : Char) (rest : List Char) : Except Error Scanner :=
  let top := s.cursor.mark.column == 0
  let flow := s.inFlow
  if top && c == '%' then s.topLevel fun cursor => directive (cursor.skip 1)
  else if top && atMark '-' (c :: rest) then s.topLevel (documentMark .documentStart)
  else if top && atMark '.' (c :: rest) then s.topLevel (documentMark .documentEnd)
  else if c == '[' then s.flowStart .flowSequenceStart
  else if c == '\x7b' then s.flowStart .flowMappingStart
  else if c == ']' then s.flowEnd .flowSequenceEnd
  else if c == '\x7d' then s.flowEnd .flowMappingEnd
  else if c == ',' then s.flowEntry
  else if c == '-' && atGap rest then s.blockEntry
  else if c == '?' && (flow || atGap rest) then s.explicitKey
  else if c == ':' && (flow || atGap rest) then s.value
  else if c == '*' then s.keyStart (named .alias)
  else if c == '&' then s.keyStart (named .anchor)
  else if c == '!' then s.keyStart (tag flow)
  else if c == '|' && !flow then s.block true
  else if c == '>' && !flow then s.block false
  else if c == '\'' then
    s.keyStart (quoted fun cursor => singleQuoted Fold.start cursor.mark cursor.rest)
  else if c == '"' then
    s.keyStart (quoted fun cursor => doubleQuoted Fold.start none cursor.mark cursor.rest)
  else if beginsPlain flow c rest then s.plainScalar
  else .error .noToken

/-- Reads a further token; `none` stands for the end of the text. -/
def next (s : Scanner) : Except Error (Option Scanner) := do
  let s ← s.toNext
  match s.cursor.rest with
  | [] => return none
  | c :: rest => return some (← s.token c rest)

/-- Reads the tokens of the rest of a text. Each one takes at least one character, so the length of the
text bounds their number. -/
def run (s : Scanner) : Nat → Except Error Scanner
  | 0 => s.streamEnd
  | bound + 1 => do
      match ← s.next with
      | some s => s.run bound
      -- The blanks before the end are passed over once more: a key that lacks its colon shows there.
      | none => (← s.toNext).streamEnd

/-- The tokens in order, with those that were promoted put in place. -/
def spliced (s : Scanner) : List Token :=
  -- The latest promotion stands first, so it is the one that counts for its position.
  let promoted (position : Nat) : List Token :=
    ((s.promotions.find? (·.position = position)).map Promotion.tokens).getD []
  (s.tokens.reverse.zipIdx.map fun (token, position) => promoted position ++ [token]).flatten

end Scanner

/-- The tokens of a text. A mark of byte order before it is left out. -/
def Token.all (text : List Char) : Except Error (List Token) := do
  let text := match text with
    | c :: rest => if c == byteOrderMark then rest else text
    | [] => []
  if !text.all isAllowed then throw .forbiddenCharacter
  let text := normalBreaks text
  return (← (Scanner.start text).run text.length).spliced

end Converge.Yaml
