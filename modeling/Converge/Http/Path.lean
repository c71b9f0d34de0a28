import Converge.Http.Percent
import Converge.Identity
import Converge.Table

/-!
# Paths of resources

Objects are addressed by paths of their type, their namespace and their name:

* core group: `/api/VERSION[/namespaces/NAMESPACE]/PLURAL[/NAME]`
* other groups: `/apis/GROUP/VERSION[/namespaces/NAMESPACE]/PLURAL[/NAME]`

## Main Definitions

* `pluralOf` — the English plural of a word.
* `ResourcePath.collection`, `ResourcePath.object` — the paths.

## Design Notes

Namespace and name are encoded, so they are one segment each. Group, version and plural stand as they are.
-/

namespace Converge.Http

open Chars

/-- The endings of words that take `es`. -/
def hissingEndings : List (List Char) := [['s'], ['x'], ['c', 'h'], ['s', 'h']]

/-- The English plural of a word in small letters. -/
def pluralOf (word : List Char) : List Char :=
  if hissingEndings.any fun ending => (beforeEnd ending word).isSome then word ++ ['e', 's']
  else match word.reverse with
    | 'y' :: stem =>
        if stem.head?.any "aeiou".toList.contains then word ++ ['s'] else stem.reverse ++ ['i', 'e', 's']
    | _ => word ++ ['s']

namespace ResourcePath

/-- The plural of a kind: one that was agreed on, or the English one. -/
def plural (plurals : Table String String) (kind : String) : List Char :=
  match plurals.get? kind with
  | some agreed => agreed.toList
  | none => pluralOf (kind.toList.map asciiLower)

/-- The part of a path that stands for group and version. -/
def root (type : ResourceType) : List Char :=
  if type.group.isEmpty then "/api/".toList ++ type.version.toList
  else "/apis/".toList ++ type.group.toList ++ ['/'] ++ type.version.toList

/-- The part of a path that stands for a namespace. -/
def within : Option String → List Char
  | some scope => "/namespaces/".toList ++ Percent.segment scope.toList
  | none => []

/-- The path of all objects of a type, in a namespace or everywhere. -/
def collection (plurals : Table String String) (type : ResourceType) (scope : Option String) : List Char :=
  root type ++ within scope ++ ['/'] ++ plural plurals type.kind

/-- The path of an object. -/
def object (plurals : Table String String) (key : ObjectKey) : List Char :=
  collection plurals key.type key.scope ++ ['/'] ++ Percent.segment key.name.toList

end ResourcePath

end Converge.Http
