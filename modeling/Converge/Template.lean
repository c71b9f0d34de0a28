import Converge.Identity
import Converge.Template.Expression
import Converge.Template.Segments
import Converge.Yaml.Reader

/-!
# Templates

A template is rendered with bindings: each of its segments is read as a document, and the expressions in the
strings and the names of members are replaced by values. A document has to be an object; an array
of objects stands for several documents, a segment without a value for none.

## Main Definitions

* `DocumentCount` — how many documents are wanted.
* `RenderError` — why there are no documents.
* `Template.fill` — a document with its expressions replaced.
* `Template.render` — the documents of a template, for any reader of segments.
* `Template.keys` — the keys of documents.

## Design Notes

A name that is not bound is an error and never an empty text, so no field is lost unseen. Members are visited
in the order of their names, a name before its value, and the first fault counts.
-/

namespace Converge

/-- How many documents are wanted. -/
inductive DocumentCount where
  | exactly (count : Nat)
  | atLeastOne
  deriving Repr, DecidableEq

namespace DocumentCount

/-- Whether so many documents are wanted. -/
def admits : DocumentCount → Nat → Bool
  | .exactly count, actual => actual == count
  | .atLeastOne, actual => 0 < actual

/-- The text of a wanted count in messages. -/
def display : DocumentCount → String
  | .exactly count => "exactly " ++ count.repr
  | .atLeastOne => "at least one"

end DocumentCount

/-- Why a template gives no documents. Segments and documents are counted from one; a location is the path
of names and positions to a text. -/
inductive RenderError where
  | notYaml (segment : Nat) (cause : Yaml.Error)
  | notMapping (segment : Nat)
  | fault (fault : Template.Fault) (segment : Nat) (location : List String)
  | wrongCount (wanted : DocumentCount) (actual : Nat)
  | missingIdentity (document : Nat) (cause : IdentityError)
  deriving Repr, DecidableEq

namespace RenderError

/-- The text of a location in messages. -/
def place (location : List String) : String :=
  if location.isEmpty then "<root>" else Chars.joined "." location

/-- The words for a fault of the syntax. -/
def ofSyntax (segment : Nat) (text : String) : String :=
  "template syntax error in document " ++ segment.repr ++ ": " ++ text

/-- The words for a failed rendering. -/
def message : RenderError → String
  | .notYaml segment cause => ofSyntax segment cause.message
  | .notMapping segment => ofSyntax segment "document must be a mapping"
  | .fault .unterminated segment location =>
      ofSyntax segment ("unterminated expression at " ++ place location)
  | .fault (.malformed expression) segment location =>
      ofSyntax segment ("malformed expression '" ++ expression ++ "' at " ++ place location)
  | .fault (.undefined path) segment location =>
      "undefined variable '" ++ path ++ "' in document " ++ segment.repr ++ " at " ++ place location
  | .wrongCount wanted actual =>
      "template rendered " ++ actual.repr ++ " document(s), expected " ++ wanted.display
  | .missingIdentity document cause =>
      "document " ++ document.repr ++ " cannot be addressed: " ++ cause.message

end RenderError

namespace Template

/-! ### Documents -/

/-- A fault at the place where it was found. -/
structure Finding where
  fault : Fault
  location : List String
  deriving Repr, DecidableEq

/-- The name of a member. -/
def nameOf (bindings : Bindings) (location : List String) (name : String) : Except Finding String :=
  ((valueOfText bindings name).mapError (⟨·, location⟩)).map fun value => String.ofList (written value)

mutual

/-- The document with its expressions replaced. -/
def fill (bindings : Bindings) (location : List String) : Document → Except Finding Document
  | .string text => (valueOfText bindings text).mapError (⟨·, location⟩)
  | .array items => (fillItems bindings location 0 items).map .array
  | .object members => (fillMembers bindings location members).map fun filled => .object (Members.ofList filled)
  | document => .ok document
termination_by structural document => document

/-- `fill` on each item, from a position on. -/
def fillItems (bindings : Bindings) (location : List String) (position : Nat) :
    List Document → Except Finding (List Document)
  | [] => .ok []
  | item :: items => do
      let first ← fill bindings (location ++ [position.repr]) item
      let rest ← fillItems bindings location (position + 1) items
      return first :: rest
termination_by structural items => items

/-- `fill` on each member. -/
def fillMembers (bindings : Bindings) (location : List String) :
    List (String × Document) → Except Finding (List (String × Document))
  | [] => .ok []
  | member :: members => do
      let first ← fillMember bindings location member
      let rest ← fillMembers bindings location members
      return first :: rest
termination_by structural members => members

/-- `fill` on a member: first its name, then its value. -/
def fillMember (bindings : Bindings) (location : List String) :
    String × Document → Except Finding (String × Document)
  | (name, value) => do
      let filled ← nameOf bindings (location ++ [name]) name
      return (filled, ← fill bindings (location ++ [name]) value)
termination_by structural member => member

end

/-! ### Templates -/

/-- The documents that the value of a segment stands for. -/
def documentsOf : Document → List Document
  | .null => []
  | .array items => items
  | document => [document]

/-- Fills a document of a segment. -/
def fillDocument (bindings : Bindings) (segment : Nat) (document : Document) : Except RenderError Document :=
  if document.isObject then
    (fill bindings [] document).mapError fun finding => .fault finding.fault segment finding.location
  else .error (.notMapping segment)

/-- The documents of a segment. -/
def renderSegment (read : String → Except Yaml.Error Document) (bindings : Bindings) (number : Nat)
    (segment : List Char) : Except RenderError (List Document) :=
  if isVoid segment then .ok []
  else match read (String.ofList segment) with
    | .error cause => .error (.notYaml number cause)
    | .ok value => (documentsOf value).mapM (fillDocument bindings number)

/-- The documents of a template. -/
def render (read : String → Except Yaml.Error Document) (text : String) (bindings : Bindings) :
    Except RenderError (List Document) :=
  (((segments text.toList).zipIdx 1).mapM fun (segment, number) =>
    renderSegment read bindings number segment).map List.flatten

/-- The keys of documents. -/
def keys (documents : List Document) : Except RenderError (List ObjectKey) :=
  (documents.zipIdx 1).mapM fun (document, number) =>
    (ObjectKey.ofDocument document).mapError (.missingIdentity number)

end Template

/-- Turns the text of a template into documents. -/
structure Renderer where
  render : String → Bindings → Except RenderError (List Document)

/-- The renderer of YAML templates. -/
def Renderer.yaml : Renderer := ⟨Template.render Yaml.read⟩

end Converge
