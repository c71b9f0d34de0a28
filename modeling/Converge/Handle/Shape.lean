import Converge.Identity

/-!
# Shapes of resources

A shape is a resource type together with what its documents must look like. Documents that leave out their
type fields are taken to be of the type that is asked for.

## Main Definitions

* `Shape` — a resource type and how its values are read and written.
* `Shape.fill` — a document with the type fields of a shape.
* `Shape.check` — whether a document is of a shape.
* `Reading` — readers of values, from which shapes are put together.
-/

namespace Converge

/-- Why a document cannot be kept in a handle. -/
inductive CopyError where
  | typeMismatch (expected actual : String)
  | conversion (typeName message : String)
  | empty
  deriving Repr, DecidableEq

/-- The words for a refused document. -/
def CopyError.message : CopyError → String
  | .typeMismatch expected actual =>
      "type mismatch: handle expects " ++ expected ++ ", document is " ++ actual
  | .conversion typeName text => "cannot convert document into " ++ typeName ++ ": " ++ text
  | .empty => "handle has no state"

/-- A resource type: its type fields, its name, and how its values are read and written. A value that was
read is given in its written form. -/
structure Shape where
  apiVersion : String
  kind : String
  name : String
  read : Document → Except String Document
  write : Document → Except String Document

namespace Shape

/-- A document with the type fields of the shape, where it has none. What is no object has no fields. -/
def fill (shape : Shape) : Document → Document
  | .object members =>
      .object (Members.insertNew "kind" (.string shape.kind)
        (Members.insertNew "apiVersion" (.string shape.apiVersion) members))
  | document => document

/-- The type of the shape in messages. -/
def display (shape : Shape) : String := shape.apiVersion ++ ", Kind=" ++ shape.kind

/-- The text of a type field, or what the shape has there. -/
def stated (document : Document) (field default : String) : String :=
  ((document.get? field).bind Document.string?).getD default

/-- The type of a document in messages. -/
def displayOf (shape : Shape) (document : Document) : String :=
  let apiVersion := stated document "apiVersion" shape.apiVersion
  let kind := stated document "kind" shape.kind
  match ResourceType.ofApiVersion apiVersion kind with
  | .ok type => type.display
  | .error _ => apiVersion ++ ", Kind=" ++ kind

/-- Reads a document as the type of the shape. -/
def convert (shape : Shape) (document : Document) : Except CopyError Document :=
  (shape.read document).mapError (.conversion shape.name)

/-- A document is of the shape if it states the same type and can be read. -/
def check (shape : Shape) (document : Document) : Except CopyError Unit :=
  let actual := shape.displayOf document
  if actual = shape.display then (shape.convert (shape.fill document)).map fun _ => ()
  else .error (.typeMismatch shape.display actual)

/-- Shapes are told apart by their type fields and their name. -/
def same (a b : Shape) : Bool := a.apiVersion = b.apiVersion && a.kind = b.kind && a.name = b.name

end Shape

/-! ### Readers of values -/

/-- Reads a value and gives it in its written form. -/
abbrev Reading := Document → Except String Document

namespace Reading

/-- A value of a kind that was not expected. -/
def unexpected (document : Document) (expected : String) : Except String Document :=
  .error ("invalid type: " ++ document.typeName ++ ", expected " ++ expected)

/-- Any value. -/
def any : Reading := .ok

/-- A string. -/
def text : Reading
  | .string text => .ok (.string text)
  | document => unexpected document "a string"

/-- True or false. -/
def bool : Reading
  | .bool value => .ok (.bool value)
  | document => unexpected document "a boolean"

/-- A natural number below a bound. -/
def natural (bound : Nat) : Reading
  | .number (.integer (.ofNat n)) =>
      if n < bound then .ok (Document.ofNat n) else .error ("invalid value: integer " ++ n.repr)
  | document => unexpected document "a natural number"

/-- An object of any values. -/
def object : Reading
  | .object members => .ok (.object members)
  | document => unexpected document "a map"

/-- An object whose values are all read in one way. -/
def map (value : Reading) : Reading
  | .object members => do
      let entries ← members.mapM fun (name, member) => (value member).map fun read => (name, read)
      return .object entries
  | document => unexpected document "a map"

/-- What it means that a field is left out. -/
inductive Absence where
  | required
  | omitted
  | standard (value : Document)

/-- A field of a record. -/
structure Field where
  name : String
  value : Reading
  absence : Absence

/-- The entry of a field that is given or left out. A field that may be omitted may also be null. -/
def Field.entry (field : Field) (given : Option Document) : Except String (List (String × Document)) :=
  match given, field.absence with
  | none, .required => .error ("missing field " ++ field.name)
  | none, .omitted => .ok []
  | none, .standard value => .ok [(field.name, value)]
  | some .null, .omitted => .ok []
  | some document, _ => (field.value document).map fun read => [(field.name, read)]

/-- A record: an object, of which other members are ignored, or an array with the fields in order. -/
def record (fields : List Field) : Reading
  | .object members => do
      let entries ← fields.mapM fun field => field.entry (Members.lookup field.name members)
      return Document.ofEntries entries.flatten
  | .array items => do
      if fields.length < items.length then throw "invalid length"
      let entries ← fields.zipIdx.mapM fun (field, index) => field.entry items[index]?
      return Document.ofEntries entries.flatten
  | document => unexpected document "a record"

end Reading

end Converge
