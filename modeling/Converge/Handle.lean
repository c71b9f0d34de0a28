import Converge.Handle.Shape
import Converge.Version

/-!
# Resource handles

A handle stands for one object: it carries the last known state of the object, from which its key is read.
A typed handle has a shape besides.

## Main Definitions

* `Handle` — state and shape.
* `Handle.document`, `Handle.key`, `Handle.version?` — what the state says.
* `Handle.toTyped` — the state as a value of a type.
* `Copier` — what documents a handle accepts.
-/

namespace Converge

/-- The last known state of an object, and the shape it must have. -/
structure Handle where
  state : Option Document
  shape : Option Shape

namespace Handle

/-- A handle for any document, without a state. -/
def empty : Handle := ⟨none, none⟩

/-- A handle for any document. -/
def ofDocument (document : Document) : Handle := ⟨some document, none⟩

/-- A handle for documents of a shape, without a state. -/
def ofShape (shape : Shape) : Handle := ⟨none, some shape⟩

/-- A handle for documents of a shape whose state is a value of its type. -/
def ofTyped (shape : Shape) (value : Document) : Except CopyError Handle :=
  match shape.write value with
  | .ok written => .ok ⟨some (shape.fill written), some shape⟩
  | .error message => .error (.conversion shape.name message)

/-- The handle with another state. -/
def withState (handle : Handle) (document : Document) : Handle := { handle with state := some document }

/-- The state, with the type fields of the shape where it has none. -/
def document (handle : Handle) : Option Document :=
  match handle.shape with
  | some shape => handle.state.map shape.fill
  | none => handle.state

/-- The key of the object. -/
def key (handle : Handle) : Except IdentityError ObjectKey :=
  match handle.document with
  | some document => ObjectKey.ofDocument document
  | none => .error (.missingField "metadata.name")

/-- The version of the state. -/
def version? (handle : Handle) : Option Version := handle.state.bind Version.ofDocument?

/-- The state as a value of a type, in its written form. -/
def toTyped (handle : Handle) (shape : Shape) : Except CopyError Document :=
  match handle.document with
  | none => .error .empty
  | some document => (shape.check document).bind fun _ => shape.convert document

/-- Handles are equal if their states and their shapes are. -/
def same (a b : Handle) : Bool :=
  (match a.state, b.state with
    | some s, some t => s.same t
    | none, none => true
    | _, _ => false)
  && (match a.shape, b.shape with
    | some s, some t => s.same t
    | none, none => true
    | _, _ => false)

end Handle

/-- Decides which documents a handle accepts. -/
structure Copier where
  check : Document → Handle → Except CopyError Unit

namespace Copier

/-- A handle without a shape accepts any document, one with a shape the documents of that shape. -/
def byShape : Copier where
  check document handle :=
    match handle.shape with
    | some shape => shape.check document
    | none => .ok ()

/-- The handle with a document that it accepts. -/
def copy (copier : Copier) (document : Document) (handle : Handle) : Except CopyError Handle :=
  (copier.check document handle).map fun _ => handle.withState document

end Copier

end Converge
