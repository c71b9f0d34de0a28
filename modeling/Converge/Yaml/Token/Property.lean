import Converge.Yaml.Token

/-!
# Anchors, tags and directives

## Main Definitions

* `anchorName` — the name behind `&` or `*`.
* `tag` — the handle and the suffix of a tag.
* `directive` — a directive at the start of a document.
-/

namespace Converge.Yaml

open Chars

/-- Reads the name of an anchor or an alias, which a gap or certain marks must follow. -/
def anchorName (cursor : Cursor) : Except Error (List Char × Cursor) :=
  let name := cursor.rest.takeWhile isWordChar
  let behind := cursor.skipWhile isWordChar
  let ends := atGap behind.rest || match behind.rest with
    | c :: _ => ['?', ':', ',', ']', '\x7d', '%', '@', '\x60'].contains c
    | [] => true
  if name.isEmpty || !ends then .error .badAnchor else .ok (name, behind)

/-! ### Tags -/

/-- A character of a tag; a verbatim tag may also contain some marks of flow collections. -/
def isTagChar (verbatim : Bool) (c : Char) : Bool :=
  isWordChar c || [';', '/', '?', ':', '@', '&', '=', '+', '$', '.', '%', '!', '~', '*', '\'', '(', ')'].contains c
    || (verbatim && [',', '[', ']'].contains c)

/-- The bytes that a text of a tag stands for, where `%` introduces a byte in base 16. -/
def tagBytes : List Char → Option (List UInt8)
  | [] => some []
  | '%' :: a :: b :: rest =>
      (hexValue? a).bind fun high => (hexValue? b).bind fun low =>
        (tagBytes rest).map (UInt8.ofNat (16 * high + low) :: ·)
  | c :: rest =>
      if c == '%' then none else (tagBytes rest).map ((String.ofList [c]).toUTF8.toList ++ ·)

/-- The text of a tag with its escapes replaced. -/
def tagText (cs : List Char) : Except Error (List Char) :=
  match (tagBytes cs).bind fun bytes => String.fromUTF8? ⟨bytes.toArray⟩ with
  | some text => .ok text.toList
  | none => .error .badTag

/-- Reads a handle: `!`, or a name between two of them. Without the second one the name is no handle. -/
def tagHandle (cursor : Cursor) : List Char × Cursor :=
  let name := (cursor.rest.drop 1).takeWhile isWordChar
  let behind := (cursor.skip 1).skipWhile isWordChar
  match behind.rest with
  | '!' :: _ => ('!' :: name ++ ['!'], behind.skip 1)
  | _ => ('!' :: name, behind)

/-- Whether a handle has both of its marks and stands apart from a bare `!`. -/
def isFullHandle (handle : List Char) : Bool := 1 < handle.length && handle.getLast? = some '!'

/-- Reads a tag: verbatim in brackets, behind a handle, or local. The bare `!` has no handle. -/
def tag (flow : Bool) (cursor : Cursor) : Except Error (Token × Cursor) := do
  let (token, behind) ←
    if cursor.rest.take 2 = ['!', '<'] then
      let start := cursor.skip 2
      let text := start.rest.takeWhile (isTagChar true)
      let behind := start.skipWhile (isTagChar true)
      if text.isEmpty || behind.rest.head? != some '>' then throw .badTag
      pure (Token.tag [] (← tagText text), behind.skip 1)
    else
      let (handle, start) := tagHandle cursor
      let text := start.rest.takeWhile (isTagChar false)
      let behind := start.skipWhile (isTagChar false)
      let suffix ← tagText text
      if isFullHandle handle then
        if text.isEmpty then throw .badTag
        pure (Token.tag handle suffix, behind)
      else
        let suffix := handle.drop 1 ++ suffix
        pure (if suffix.isEmpty then Token.tag [] ['!'] else Token.tag ['!'] suffix, behind)
  if atGap behind.rest || (flow && behind.rest.head? = some ',') then return (token, behind)
  else throw .badTag

/-! ### Directives -/

/-- Reads a number of a version, of at most nine digits. -/
def versionNumber (cursor : Cursor) : Except Error (Nat × Cursor) :=
  let digits := cursor.rest.takeWhile isDigit
  if digits.isEmpty || 9 < digits.length then .error .badDirective
  else .ok (decimalValue digits, cursor.skipWhile isDigit)

/-- Reads the version behind `%YAML`. -/
def versionDirective (cursor : Cursor) : Except Error (Token × Cursor) := do
  let (major, behind) ← versionNumber (cursor.skipWhile isSpace)
  if behind.rest.head? != some '.' then throw .badDirective
  let (minor, behind) ← versionNumber (behind.skip 1)
  return (.versionDirective major minor, behind)

/-- Reads the handle and its expansion behind `%TAG`. -/
def tagDirective (cursor : Cursor) : Except Error (Token × Cursor) := do
  let start := cursor.skipWhile isSpace
  if start.rest.head? != some '!' then throw .badDirective
  let (handle, behind) := tagHandle start
  if handle != ['!'] && handle.getLast? != some '!' then throw .badDirective
  if !(behind.rest.head?.map isSpace).getD false then throw .badDirective
  let start := behind.skipWhile isSpace
  let text := start.rest.takeWhile (isTagChar true)
  let behind := start.skipWhile (isTagChar true)
  if text.isEmpty || !atGap behind.rest then throw .badDirective
  return (.tagDirective handle (← tagText text), behind)

/-- Reads a directive behind its `%`, with the rest of its line. -/
def directive (cursor : Cursor) : Except Error (Token × Cursor) := do
  let name := cursor.rest.takeWhile isWordChar
  let behind := cursor.skipWhile isWordChar
  if name.isEmpty || !atGap behind.rest then throw .badDirective
  let (token, behind) ←
    if name = "YAML".toList then versionDirective behind
    else if name = "TAG".toList then tagDirective behind
    else throw .badDirective
  let spaces := behind.skipWhile isSpace
  let behind := match spaces.rest with
    | '#' :: _ => spaces.skipWhile (!isBreak ·)
    | _ => spaces
  if atLineEnd behind.rest then return (token, behind.skip 1) else throw .badDirective

end Converge.Yaml
