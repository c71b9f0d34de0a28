import Converge.Document.Basic

/-!
# Merge patches

A merge patch is a document that says what to change in another one. An object patches member by member,
null takes a member away, and anything else takes the place of what was there.

## Main Definitions

* `Document.mergePatch` — the patched document.
-/

namespace Converge.Document

mutual

/-- The target after the patch. A target that is no object counts as an empty one under an object patch. -/
def mergePatch (target : Document) : Document → Document
  | .object members => .object (patchMembers target.members members)
  | patch => patch
termination_by structural patch => patch

/-- Applies the members of a patch one after the other. -/
def patchMembers (target : Members) : List (String × Document) → Members
  | [] => target
  | member :: rest => patchMembers (patchMember target member) rest
termination_by structural patch => patch

/-- Applies one member of a patch: null takes the member away, anything else patches its value. -/
def patchMember (target : Members) : String × Document → Members
  | (name, patch) =>
      match patch with
      | .null => target.erase name
      | patch => target.insert name (mergePatch ((target.lookup name).getD .null) patch)
termination_by structural patch => patch

end

end Converge.Document
