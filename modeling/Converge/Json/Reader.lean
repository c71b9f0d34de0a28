import Converge.Document.Basic
import Converge.Json.Token

/-!
# Reading JSON text

The tokens of a text are taken one by one; the collections that are still open lie on a stack.

## Main Definitions

* `Open` — a collection that is not closed yet.
* `Reading` — the state of the reading: open collections and what may come next.
* `read?` — the document of a text, `none` if the text is not one document.
-/

namespace Converge.Json

/-- A collection that is not closed yet: the items so far in reverse order, or the members so far with
the name of the member that is being read. -/
inductive Open where
  | array (items : List Document)
  | object (members : Members) (name : String)

/-- What may come next. -/
inductive Expects where
  | value
  | valueOrEnd
  | name
  | nameOrEnd
  | colon
  | separator
  | nothing (document : Document)

/-- The state of the reading. -/
structure Reading where
  stack : List Open
  expects : Expects

/-- Collections that are nested deeper than this are refused. -/
def depthLimit : Nat := 127

namespace Reading

/-- Nothing has been read yet. -/
def start : Reading := ⟨[], .value⟩

/-- Puts a finished value in its place. -/
def place (stack : List Open) (value : Document) : Reading :=
  match stack with
  | [] => ⟨[], .nothing value⟩
  | .array items :: outer => ⟨.array (value :: items) :: outer, .separator⟩
  | .object members name :: outer => ⟨.object (members.insert name value) "" :: outer, .separator⟩

/-- Opens a collection. -/
def enter? (stack : List Open) (inner : Open) (expects : Expects) : Option Reading :=
  if stack.length < depthLimit then some ⟨inner :: stack, expects⟩ else none

/-- A value that begins with the token. -/
def value? (stack : List Open) : Token → Option Reading
  | .null => some (place stack .null)
  | .bool value => some (place stack (.bool value))
  | .number value => some (place stack (.number value))
  | .string text => some (place stack (.string text))
  | .openArray => enter? stack (.array []) .valueOrEnd
  | .openObject => enter? stack (.object [] "") .nameOrEnd
  | _ => none

/-- Closes the innermost collection. -/
def close? : List Open → Token → Option Reading
  | .array items :: outer, .closeArray => some (place outer (.array items.reverse))
  | .object members _ :: outer, .closeObject => some (place outer (.object members))
  | _, _ => none

/-- The name of the next member. -/
def name? : List Open → Token → Option Reading
  | .object members _ :: outer, .string name => some ⟨.object members name :: outer, .colon⟩
  | _, _ => none

/-- The reading after a further token. -/
def step? (reading : Reading) (token : Token) : Option Reading :=
  match reading.expects with
  | .value => value? reading.stack token
  | .valueOrEnd => if token = .closeArray then close? reading.stack token else value? reading.stack token
  | .name => name? reading.stack token
  | .nameOrEnd => if token = .closeObject then close? reading.stack token else name? reading.stack token
  | .colon => if token = .colon then some ⟨reading.stack, .value⟩ else none
  | .separator =>
      if token = .comma then
        match reading.stack with
        | .array _ :: _ => some ⟨reading.stack, .value⟩
        | .object _ _ :: _ => some ⟨reading.stack, .name⟩
        | [] => none
      else close? reading.stack token
  | .nothing _ => none

end Reading

/-- The document of a text; a member that is given twice keeps its last value. -/
def read? (text : String) : Option Document :=
  match (Token.all? text.toList).bind fun tokens => tokens.foldlM Reading.step? Reading.start with
  | some ⟨[], .nothing document⟩ => some document
  | _ => none

end Converge.Json
