import Converge.Document.Basic
import Converge.Text.Chars

/-!
# Identity of resources

A resource document names its type by `apiVersion` and `kind` and itself by the name and, if it has one,
the namespace in its metadata. Together these are the key under which a store keeps it.

## Main Definitions

* `ResourceType` — group, version and kind.
* `ResourceType.ofApiVersion`, `ResourceType.apiVersion` — reading and writing `group/version`.
* `ObjectKey` — the key of an object.
* `ResourceType.ofDocument`, `ObjectKey.ofDocument` — the identity that a document states.
* `ObjectKey.le` — the order of keys.
-/

namespace Converge

open Chars

/-- Why a document has no identity. -/
inductive IdentityError where
  | notAnObject (typeName : String)
  | missingField (field : String)
  | invalidApiVersion (text : String)
  deriving Repr, DecidableEq

/-- The words for a missing identity. -/
def IdentityError.message : IdentityError → String
  | .notAnObject typeName => "resource document must be an object, got " ++ typeName
  | .missingField field => "resource document is missing '" ++ field ++ "'"
  | .invalidApiVersion text => "invalid apiVersion '" ++ text ++ "'"

/-- The type of a resource: its group (empty for the core group), version and kind. -/
structure ResourceType where
  group : String
  version : String
  kind : String
  deriving Repr, DecidableEq

namespace ResourceType

/-- Cuts a trimmed `apiVersion` into group and version: a version alone, or a group and a version with
one `/` between them. -/
def cutApiVersion (text : List Char) : Except IdentityError (List Char × List Char) :=
  if text.isEmpty then .error (.missingField "apiVersion")
  else match splitFirst '/' text with
    | none => .ok ([], text)
    | some (group, version) =>
        if version.contains '/' || group.isEmpty || version.isEmpty then
          .error (.invalidApiVersion (String.ofList text))
        else .ok (group, version)

/-- The type that an `apiVersion` and a kind name. -/
def ofApiVersion (apiVersion kind : String) : Except IdentityError ResourceType :=
  (cutApiVersion (trim apiVersion.toList)).map fun (group, version) =>
    ⟨String.ofList group, String.ofList version, kind⟩

/-- The `apiVersion` of a type. -/
def apiVersion (type : ResourceType) : String :=
  if type.group.isEmpty then type.version else type.group ++ "/" ++ type.version

/-- The text of a type in messages. -/
def display (type : ResourceType) : String := type.apiVersion ++ ", Kind=" ++ type.kind

/-- The type that a document states. -/
def ofDocument (document : Document) : Except IdentityError ResourceType :=
  if !document.isObject then .error (.notAnObject document.typeName)
  else match (document.get? "apiVersion").bind Document.string? with
    | none => .error (.missingField "apiVersion")
    | some apiVersion =>
        match ((document.get? "kind").bind Document.string?).filter (!blank ·) with
        | none => .error (.missingField "kind")
        | some kind => ofApiVersion apiVersion (trimmed kind)

end ResourceType

/-- The key of an object: its type, the namespace it lives in, if any, and its name. -/
structure ObjectKey where
  type : ResourceType
  scope : Option String
  name : String
  deriving Repr, DecidableEq

namespace ObjectKey

/-- The key of given parts; an empty namespace is none. -/
def of (type : ResourceType) (scope : Option String) (name : String) : ObjectKey :=
  ⟨type, scope.filter (!·.isEmpty), name⟩

/-- The key that a document states. -/
def ofDocument (document : Document) : Except IdentityError ObjectKey :=
  (ResourceType.ofDocument document).bind fun type =>
    match document.get? "metadata" with
    | none => .error (.missingField "metadata")
    | some metadata =>
        match (((metadata.get? "name").bind Document.string?).map trimmed).filter (!·.isEmpty) with
        | none => .error (.missingField "metadata.name")
        | some name => .ok (of type (((metadata.get? "namespace").bind Document.string?).map trimmed) name)

/-- The name, below its namespace if there is one. -/
def qualifiedName (key : ObjectKey) : String :=
  match key.scope with
  | some scope => scope ++ "/" ++ key.name
  | none => key.name

/-- The text of a key in messages. -/
def display (key : ObjectKey) : String := key.type.display ++ " " ++ key.qualifiedName

/-- The parts of a key in the order in which they are compared. -/
def parts (key : ObjectKey) : List (List Char) :=
  [key.type.group.toList, key.type.version.toList, key.type.kind.toList]
    ++ (match key.scope with
        | none => [[]]
        | some scope => ['+' :: scope.toList])
    ++ [key.name.toList]

/-- Keys are compared by group, version, kind, namespace (none comes first) and name. -/
def le (a b : ObjectKey) : Bool := !b.parts.lex a.parts Chars.comesBefore

end ObjectKey

end Converge
