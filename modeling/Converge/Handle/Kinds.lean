import Converge.Handle.Shape

/-!
# Some kinds of resources

Shapes of common resource types, and of some types that are unusual: one whose `apiVersion` is none, one
whose value is a bare string, and one that can be read but not written.

## Main Definitions

* `Kinds.configMap`, `Kinds.secret`, `Kinds.deployment` — common types.
* `Kinds.odd`, `Kinds.plain`, `Kinds.broken` — unusual types.
* `Kinds.named?` — the shape of a name.
-/

namespace Converge.Kinds

open Reading

/-- A shape whose values are written the way they were read. -/
def shape (apiVersion kind : String) (read : Reading) : Shape := ⟨apiVersion, kind, kind, read, .ok⟩

/-- Texts under names; none if left out. -/
def dataField : Field := ⟨"data", map text, .standard (.object [])⟩

/-- Configuration texts, with a name and perhaps a namespace. -/
def configMap : Shape :=
  shape "v1" "ConfigMap" (record
    [⟨"metadata", record [⟨"name", text, .required⟩, ⟨"namespace", text, .omitted⟩], .required⟩, dataField])

/-- Secret texts, with any metadata. -/
def secret : Shape := shape "v1" "Secret" (record [⟨"metadata", object, .required⟩, dataField])

/-- A count of replicas that may be paused; the metadata hold texts only. -/
def deployment : Shape :=
  shape "apps/v1" "Deployment" (record
    [⟨"metadata", map text, .required⟩,
     ⟨"spec", record [⟨"replicas", natural (Nat.pow 2 32), .required⟩, ⟨"paused", bool, .omitted⟩], .required⟩])

/-- A type whose `apiVersion` has more than one `/`. -/
def odd : Shape := shape "a/b/c" "Odd" (record [⟨"metadata", object, .required⟩])

/-- A type whose value is a string. -/
def plain : Shape := shape "v1" "Plain" text

/-- A type that reads anything and cannot be written. -/
def broken : Shape := ⟨"v1", "Broken", "Broken", fun _ => .ok .null, fun _ => .error "cannot be written"⟩

/-- The shape of a name. -/
def named? (name : String) : Option Shape :=
  [configMap, secret, deployment, odd, plain, broken].find? (·.name = name)

end Converge.Kinds
