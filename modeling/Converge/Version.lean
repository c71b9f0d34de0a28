import Converge.Document.Basic
import Converge.Json.Writer
import Converge.Text.Chars

/-!
# Resource versions

A store stamps every object with a version. Versions are opaque texts; where both are numbers they are
ordered.

## Main Definitions

* `Version` — the text of a version.
* `Version.ofDocument?` — the version that a document carries.
* `Version.number?` — the number that a version is.
* `Version.isAtLeast` — whether one version has reached another.
-/

namespace Converge

open Chars

/-- The version of an object. -/
structure Version where
  text : String
  deriving Repr, DecidableEq

namespace Version

/-- The version in the metadata of a document: a text that is not blank, or a number. -/
def ofDocument? (document : Document) : Option Version :=
  match (document.get? "metadata").bind (·.get? "resourceVersion") with
  | some (.string text) => if blank text then none else some ⟨trimmed text⟩
  | some (.number value) => some ⟨value.write Json.layout⟩
  | _ => none

/-- The number that a version is, if it fits a 64-bit word. -/
def number? (version : Version) : Option Nat := unsigned? wordBound version.text.toList

/-- Numbers are compared as numbers, other versions have to be equal. -/
def isAtLeast (version other : Version) : Bool :=
  match version.number?, other.number? with
  | some observed, some stamped => stamped ≤ observed
  | _, _ => version.text == other.text

end Version

end Converge
