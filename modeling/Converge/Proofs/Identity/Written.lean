import Converge.Proofs.Document.Members
import Converge.Proofs.Identity
import Converge.Proofs.Text.Splitting
import Converge.Proofs.Text.Trimming

/-!
# Identities that are written and read again

An `apiVersion` is a version, or a group and a version with one `/` between them. It is trimmed as a whole and not part
by part, so a type that was read is written as the text that it was read from, without the blanks around it, and is read
from that again. The other texts of a document are trimmed too, and what is trimmed stays as it is the second time: the
document with nothing but the parts of a key in it states this key.

## Main Definitions

* `ResourceType.NamedBy` — a text consists of the group and the version of a type.
* `ObjectKey.document` — the document that states a key and nothing else.

## Main Statements

* `ResourceType.ofApiVersion_eq_ok_iff` — the type that is read from a text is the one whose parts it consists of.
* `ResourceType.apiVersion_of_ofApiVersion` — a type is written as it was read.
* `ObjectKey.states_document` — a key that some document states is stated by its own document.
* `ObjectKey.read_again_as_written` — types and keys are read again as they were read first.
-/

namespace Converge

open Chars

namespace ResourceType

/-! ### Groups and versions -/

/-- A text consists of a version, whose group is empty, or of a group and a version with a `/` between them. -/
inductive NamedBy : List Char → List Char → List Char → Prop
  | core {version : List Char} (nonempty : version ≠ []) (plain : '/' ∉ version) : NamedBy version [] version
  | grouped {group version : List Char} (groupNonempty : group ≠ []) (nonempty : version ≠ [])
      (groupPlain : '/' ∉ group) (plain : '/' ∉ version) : NamedBy (group ++ '/' :: version) group version

variable {text group version : List Char} {apiVersion kind : String} {type : ResourceType}

/-- A text is cut into the group and the version that it consists of. -/
theorem cutApiVersion_eq_ok_iff : cutApiVersion text = .ok (group, version) ↔ NamedBy text group version := by
  constructor
  · intro h
    rw [cutApiVersion] at h
    split at h
    · cases h
    · next nonempty =>
        split at h
        · next hsplit =>
            cases h
            exact .core (by simpa using nonempty) (splitFirst_eq_none_iff.1 hsplit)
        · next front back hsplit =>
            split at h
            · cases h
            · next hparts =>
                cases h
                simp only [Bool.or_eq_true, List.isEmpty_iff, List.contains_iff_mem, not_or] at hparts
                obtain ⟨rfl, hplain⟩ := splitFirst_eq_some_iff.1 hsplit
                exact .grouped hparts.1.2 hparts.2 hplain hparts.1.1
  · rintro (⟨nonempty, plain⟩ | ⟨groupNonempty, nonempty, groupPlain, plain⟩)
    · rw [cutApiVersion, if_neg (by simpa using nonempty), splitFirst_eq_none_iff.2 plain]
    · have hempty : (group ++ '/' :: version).isEmpty = false := by simp
      rw [cutApiVersion, hempty, splitFirst_append groupPlain]
      simp [groupNonempty, nonempty, plain]

/-- **The type that is read from a text** is the one whose group and version the text consists of, within the blanks
around it. -/
theorem ofApiVersion_eq_ok_iff : ofApiVersion apiVersion kind = .ok type ↔
    NamedBy (trim apiVersion.toList) type.group.toList type.version.toList ∧ type.kind = kind := by
  rw [ofApiVersion, map_eq_ok_iff, ← cutApiVersion_eq_ok_iff]
  constructor
  · rintro ⟨⟨group, version⟩, hcut, rfl⟩
    rw [String.toList_ofList, String.toList_ofList]
    exact ⟨hcut, rfl⟩
  · rintro ⟨hcut, rfl⟩
    exact ⟨_, hcut, by simp only [String.ofList_toList]⟩

/-- The texts that a type is read from. -/
theorem exists_namedBy_iff : (∃ group version, NamedBy text group version) ↔
    text ≠ [] ∧ ('/' ∉ text ∨ ∃ group version, text = group ++ '/' :: version ∧ group ≠ [] ∧ version ≠ [] ∧
      '/' ∉ group ∧ '/' ∉ version) := by
  constructor
  · rintro ⟨group, version, ⟨nonempty, plain⟩ | ⟨groupNonempty, nonempty, groupPlain, plain⟩⟩
    · exact ⟨nonempty, .inl plain⟩
    · exact ⟨by simp, .inr ⟨_, _, rfl, groupNonempty, nonempty, groupPlain, plain⟩⟩
  · rintro ⟨nonempty, plain | ⟨group, version, rfl, groupNonempty, versionNonempty, groupPlain, plain⟩⟩
    · exact ⟨[], text, .core nonempty plain⟩
    · exact ⟨group, version, .grouped groupNonempty versionNonempty groupPlain plain⟩

/-- A type is written as the text that consists of its group and its version. -/
theorem toList_apiVersion (h : NamedBy text type.group.toList type.version.toList) : type.apiVersion.toList = text := by
  rw [apiVersion]
  generalize hgroup : type.group.toList = group at h
  generalize hversion : type.version.toList = version at h
  cases h with
  | core =>
      have hempty : type.group.isEmpty = true := String.isEmpty_iff.2 (String.toList_eq_nil_iff.1 hgroup)
      rw [if_pos hempty, hversion]
  | grouped groupNonempty =>
      have hne : ¬ type.group.isEmpty = true := by
        rw [String.isEmpty_iff, ← String.toList_eq_nil_iff, hgroup]
        exact groupNonempty
      rw [if_neg hne, String.toList_append, String.toList_append, hgroup, hversion, List.append_assoc]
      rfl

/-- **A type is written as it was read**, but for the blanks around it. -/
theorem apiVersion_of_ofApiVersion (h : ofApiVersion apiVersion kind = .ok type) :
    type.apiVersion = trimmed apiVersion := by
  rw [← String.toList_inj, trimmed, String.toList_ofList]
  exact toList_apiVersion (ofApiVersion_eq_ok_iff.1 h).1

/-- A type is read from the text that it is written as. -/
theorem ofApiVersion_apiVersion (h : ofApiVersion apiVersion kind = .ok type) :
    ofApiVersion type.apiVersion kind = .ok type := by
  rw [apiVersion_of_ofApiVersion h, ofApiVersion, trimmed, String.toList_ofList, (tight_trim _).trim_eq]
  exact h

end ResourceType

namespace ObjectKey

/-! ### Documents with nothing but a key -/

/-- The document that states a key and nothing else. -/
def document (key : ObjectKey) : Document :=
  .ofEntries [("apiVersion", .string key.type.apiVersion), ("kind", .string key.type.kind),
    ("metadata", .ofEntries
      (("name", .string key.name) :: key.scope.toList.map fun scope => ("namespace", .string scope)))]

variable (key : ObjectKey)

theorem text?_apiVersion_document : key.document.text? ["apiVersion"] = some key.type.apiVersion := by
  rw [Document.text?_singleton]
  exact congrArg (Option.bind · Document.string?) (Members.lookup_ofList _ _)

theorem text?_kind_document : key.document.text? ["kind"] = some key.type.kind := by
  rw [Document.text?_singleton]
  exact congrArg (Option.bind · Document.string?) (Members.lookup_ofList _ _)

/-- The metadata are the name and, if there is one, the namespace. -/
theorem get?_metadata_document : key.document.get? "metadata" = some (.ofEntries
    (("name", .string key.name) :: key.scope.toList.map fun scope => ("namespace", .string scope))) :=
  Members.lookup_ofList _ _

theorem text?_name_document : key.document.text? ["metadata", "name"] = some key.name := by
  rw [Document.text?_pair, get?_metadata_document, Option.bind_some]
  cases hscope : key.scope <;> exact congrArg (Option.bind · Document.string?) (Members.lookup_ofList _ _)

theorem text?_namespace_document : key.document.text? ["metadata", "namespace"] = key.scope := by
  rw [Document.text?_pair, get?_metadata_document, Option.bind_some]
  cases hscope : key.scope <;> exact congrArg (Option.bind · Document.string?) (Members.lookup_ofList _ _)

variable {key} {document : Document}

/-- **A key that some document states is stated by its own document.** -/
theorem states_document (h : document.States key) : key.document.States key := by
  obtain ⟨-, ⟨text, -, htype⟩, ⟨kind, -, hblank, hkind⟩, ⟨name, -, hname, hnonempty⟩, hscope⟩ := h
  refine ⟨rfl, ⟨_, text?_apiVersion_document key, ResourceType.ofApiVersion_apiVersion htype⟩,
    ⟨_, text?_kind_document key, ?_, ?_⟩, ⟨_, text?_name_document key, ?_, hnonempty⟩, ?_⟩
  · rw [← hkind, blank, trimmed, String.toList_ofList, ← isEmpty_trim, (tight_trim _).trim_eq, isEmpty_trim]
    exact hblank
  · rw [← hkind, trimmed_trimmed]
  · rw [← hname, trimmed_trimmed]
  · rw [text?_namespace_document]
    cases hnamespace : key.scope with
    | none => rfl
    | some scope =>
        rw [hnamespace, Option.filter_eq_some_iff] at hscope
        obtain ⟨hscope, hne⟩ := hscope
        obtain ⟨namespace', -, rfl⟩ := Option.map_eq_some_iff.1 hscope
        rw [Option.map_some, trimmed_trimmed, Option.filter_some, if_pos hne]

/-- **Types and keys are read again as they were read first.** A type is read from an `apiVersion` if this is, within
the blanks around it, a version or a group and a version with one `/` between them. It is written as that text and is
read from it again. So a key that a document has is also the key of the document with nothing but its parts. -/
theorem read_again_as_written (apiVersion kind : String) (document : Document) :
    let text := trim apiVersion.toList
    ((∃ type, ResourceType.ofApiVersion apiVersion kind = .ok type) ↔
      text ≠ [] ∧ ('/' ∉ text ∨ ∃ group version, text = group ++ '/' :: version ∧ group ≠ [] ∧ version ≠ [] ∧
        '/' ∉ group ∧ '/' ∉ version)) ∧
    (∀ type, ResourceType.ofApiVersion apiVersion kind = .ok type →
      type.apiVersion = trimmed apiVersion ∧ type.kind = kind ∧
        ResourceType.ofApiVersion type.apiVersion kind = .ok type) ∧
    ∀ key, ofDocument document = .ok key → ofDocument key.document = .ok key := by
  refine ⟨?_, fun type htype => ?_, fun key hkey => ?_⟩
  · rw [← ResourceType.exists_namedBy_iff]
    constructor
    · rintro ⟨type, htype⟩
      exact ⟨_, _, (ResourceType.ofApiVersion_eq_ok_iff.1 htype).1⟩
    · rintro ⟨group, version, hnamed⟩
      refine ⟨⟨String.ofList group, String.ofList version, kind⟩, ResourceType.ofApiVersion_eq_ok_iff.2 ⟨?_, rfl⟩⟩
      rwa [String.toList_ofList, String.toList_ofList]
  · exact ⟨ResourceType.apiVersion_of_ofApiVersion htype, ResourceType.kind_of_ofApiVersion htype,
      ResourceType.ofApiVersion_apiVersion htype⟩
  · exact ofDocument_eq_ok_iff.2 (states_document (ofDocument_eq_ok_iff.1 hkey))

/-- A document with blanks around all its texts, and inside its `apiVersion`, has a key that is read again without the
former and with the latter. -/
theorem read_again_as_written_within_blanks :
    let stated : Document := .ofEntries [("apiVersion", .string "\ta b/\u2003v1\u00A0"), ("kind", .string " Thing\n"),
      ("metadata", .ofEntries [("name", .string " x"), ("namespace", .string "s ")])]
    let key : ObjectKey := ⟨⟨"a b", "\u2003v1", "Thing"⟩, some "s", "x"⟩
    ResourceType.ofApiVersion "\ta b/\u2003v1\u00A0" "Thing" = .ok key.type ∧ key.type.apiVersion = "a b/\u2003v1" ∧
      ResourceType.ofApiVersion "a b/\u2003v1" "Thing" = .ok key.type ∧
      ofDocument stated = .ok key ∧ ofDocument key.document = .ok key := by
  intro stated key
  have htype : ResourceType.ofApiVersion "\ta b/\u2003v1\u00A0" "Thing" = .ok key.type := by decide
  have hkey : ofDocument stated = .ok key := by decide
  obtain ⟨-, hwritten, hagain⟩ := read_again_as_written "\ta b/\u2003v1\u00A0" "Thing" stated
  obtain ⟨htext, -, hread⟩ := hwritten key.type htype
  have htrimmed : key.type.apiVersion = "a b/\u2003v1" := htext.trans (by decide)
  exact ⟨htype, htrimmed, htrimmed ▸ hread, hkey, hagain key hkey⟩

end ObjectKey

end Converge
