import Converge.Bindings
import Converge.Handle.Shape
import Converge.Selector
import Converge.Version

/-!
# Written forms of identities

Types, keys and selectors are exchanged as objects. Reading ignores members it does not know; a namespace may
be left out or null, labels may be left out.

## Main Definitions

* `ResourceType.toDocument`, `ResourceType.ofForm?` — a type.
* `ObjectKey.toDocument`, `ObjectKey.ofForm?` — a key.
* `Selector.toDocument`, `Selector.ofForm?` — a selector.
-/

namespace Converge

open Reading

/-- The text of a member that has been read. -/
def textOf (form : Document) (name : String) : String :=
  ((form.get? name).bind Document.string?).getD ""

/-- The text of a member that may be missing. -/
def textOf? (form : Document) (name : String) : Option String := (form.get? name).bind Document.string?

namespace ResourceType

/-- The object of a type. -/
def toDocument (type : ResourceType) : Document :=
  Document.ofEntries
    [("group", .string type.group), ("version", .string type.version), ("kind", .string type.kind)]

/-- Reads the object of a type. -/
def form : Reading :=
  record [⟨"group", text, .required⟩, ⟨"version", text, .required⟩, ⟨"kind", text, .required⟩]

/-- The type of a form that has been read. -/
def ofRead (read : Document) : ResourceType :=
  ⟨textOf read "group", textOf read "version", textOf read "kind"⟩

/-- The type that an object describes. -/
def ofForm? (document : Document) : Option ResourceType := (form document).toOption.map ofRead

end ResourceType

/-- A namespace, null if there is none. -/
def scopeDocument : Option String → Document
  | some scope => .string scope
  | none => .null

namespace ObjectKey

/-- The object of a key. -/
def toDocument (key : ObjectKey) : Document :=
  Document.ofEntries
    [("gvk", key.type.toDocument), ("namespace", scopeDocument key.scope), ("name", .string key.name)]

/-- Reads the object of a key. -/
def form : Reading :=
  record [⟨"gvk", ResourceType.form, .required⟩, ⟨"namespace", text, .omitted⟩, ⟨"name", text, .required⟩]

/-- The key that an object describes. -/
def ofForm? (document : Document) : Option ObjectKey :=
  (form document).toOption.map fun read =>
    ⟨ResourceType.ofRead ((read.get? "gvk").getD .null), textOf? read "namespace", textOf read "name"⟩

end ObjectKey

namespace Selector

/-- The object of a selector. -/
def toDocument (selector : Selector) : Document :=
  Document.ofEntries
    [("gvk", selector.type.toDocument), ("namespace", scopeDocument selector.scope),
     ("labels", Document.ofEntries (selector.labels.entries.map fun (name, value) => (name, .string value)))]

/-- Reads the object of a selector. -/
def form : Reading :=
  record [⟨"gvk", ResourceType.form, .required⟩, ⟨"namespace", text, .omitted⟩,
    ⟨"labels", map text, .standard (.object [])⟩]

/-- The selector that an object describes. -/
def ofForm? (document : Document) : Option Selector :=
  (form document).toOption.map fun read =>
    { type := ResourceType.ofRead ((read.get? "gvk").getD .null)
      scope := textOf? read "namespace"
      labels := Table.ofList (((read.get? "labels").getD .null).members.map fun (name, value) =>
        (name, (value.string?).getD "")) }

end Selector

/-- The version that a document is: a string. -/
def Version.ofForm? : Document → Option Version
  | .string text => some ⟨text⟩
  | _ => none

end Converge
