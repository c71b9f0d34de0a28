import Converge.Document.Basic
import Converge.Table

/-!
# Bindings

Bindings give values to the names that a template uses. They come in layers, of which a later one counts.

## Main Definitions

* `Bindings` — documents under names, in order of insertion.
* `Bindings.ofDocument?`, `Bindings.toDocument` — from and to an object.
* `Bindings.merge` — the bindings of several layers.
-/

namespace Converge

/-- Documents under names, in order of insertion. -/
abbrev Bindings := Table String Document

namespace Bindings

/-- The members of an object as bindings; anything else is none. -/
def ofDocument? : Document → Option Bindings
  | .object members => some (Table.ofList members)
  | _ => none

/-- The bindings as an object. -/
def toDocument (bindings : Bindings) : Document := Document.ofEntries bindings.entries

/-- The bindings of all layers: a name keeps its first place and takes its last value. -/
def merge (layers : List Bindings) : Bindings :=
  layers.foldl (fun merged layer => merged.insertAll layer.entries) Table.empty

end Bindings

end Converge
