import Converge.Handle.Kinds
import Converge.Proofs.Identity.Written

/-!
# Documents of another type

A shape refuses documents of other types. It compares the text of its own type with that of the document, and not the
two types. In the text of the document the kind stands as it is written, with the blanks around it, which are no part of
the kind that identifies the document. And the texts do not always tell where the `apiVersion` ends.

## Main Definitions

* `ResourceType.RunsInto` — what a type says in its kind is said by another one in its `apiVersion`.
* `Shape.Mismatches` — a shape refuses a document as one of another type.

## Main Statements

* `ResourceType.display_eq_iff` — which types have the same text.
* `Shape.refused_for_type_or_blanks` — which documents are refused.
-/

namespace Converge

open Chars

/-! ### A mark that stands between two parts of a text -/

section Marked

variable {α : Type} {head : α} {mark part other front back : List α}

/-- A mark that starts unlike it goes on does not overlap with a later occurrence of itself. -/
theorem nil_or_exists_of_mark_eq (hmark : head ∉ mark) (h : head :: mark ++ back = front ++ (head :: mark ++ other)) :
    front = [] ∧ back = other ∨
      ∃ between, front = head :: mark ++ between ∧ back = between ++ (head :: mark ++ other) := by
  cases front with
  | nil => exact .inl ⟨rfl, List.append_cancel_left h⟩
  | cons first front =>
      rw [List.cons_append, List.cons_append, List.cons_eq_cons] at h
      obtain ⟨rfl, h⟩ := h
      refine .inr ?_
      obtain ⟨between, rfl, hback⟩ | ⟨overlap, hoverlap, hother⟩ := List.append_eq_append_iff.1 h
      · exact ⟨between, rfl, hback⟩
      · cases overlap with
        | nil => exact ⟨[], by rw [hoverlap, List.append_nil, List.append_nil], hother.symm⟩
        | cons second overlap =>
            obtain ⟨rfl, -⟩ := List.cons_eq_cons.1 hother
            exact absurd (hoverlap ▸ List.mem_append_right front List.mem_cons_self) hmark

/-- Two texts with a mark in each are the same if they are so on both sides of it, or if one of them has the mark a
second time, where the other one has its only one. -/
theorem append_mark_append_eq_iff {front' back' : List α} (hmark : head ∉ mark) :
    front ++ (head :: mark ++ back) = front' ++ (head :: mark ++ back') ↔
      front = front' ∧ back = back' ∨
        (∃ between, front' = front ++ (head :: mark ++ between) ∧ back = between ++ (head :: mark ++ back')) ∨
        ∃ between, front = front' ++ (head :: mark ++ between) ∧ back' = between ++ (head :: mark ++ back) := by
  constructor
  · intro h
    obtain ⟨rest, rfl, hrest⟩ | ⟨rest, rfl, hrest⟩ := List.append_eq_append_iff.1 h
    · obtain ⟨rfl, rfl⟩ | ⟨between, rfl, hback⟩ := nil_or_exists_of_mark_eq hmark hrest
      · exact .inl ⟨(List.append_nil _).symm, rfl⟩
      · exact .inr (.inl ⟨between, rfl, hback⟩)
    · obtain ⟨rfl, rfl⟩ | ⟨between, rfl, hback⟩ := nil_or_exists_of_mark_eq hmark hrest
      · exact .inl ⟨List.append_nil _, rfl⟩
      · exact .inr (.inr ⟨between, rfl, hback⟩)
  · rintro (⟨rfl, rfl⟩ | ⟨between, rfl, rfl⟩ | ⟨between, rfl, rfl⟩)
    · rfl
    · simp only [List.append_assoc]
    · simp only [List.append_assoc]

end Marked

/-! ### Types and their texts -/

namespace ResourceType

/-- What stands between the `apiVersion` and the kind in the text of a type. -/
def mark : List Char := ", Kind=".toList

/-- The kind of a type goes on with a mark, in such a way that another type, which has more in its `apiVersion` and less
in its kind, has the same text. -/
def RunsInto (type other : ResourceType) : Prop :=
  ∃ between, other.apiVersion.toList = type.apiVersion.toList ++ (mark ++ between) ∧
    type.kind.toList = between ++ (mark ++ other.kind.toList)

variable {type other : ResourceType}

/-- **Which types have the same text**: those that have the same parts, and those that run into one another. -/
theorem display_eq_iff : type.display = other.display ↔
    type.apiVersion = other.apiVersion ∧ type.kind = other.kind ∨ type.RunsInto other ∨ other.RunsInto type := by
  have hmark : ',' ∉ " Kind=".toList := by decide
  have htext (type : ResourceType) : type.display.toList = type.apiVersion.toList ++ (mark ++ type.kind.toList) := by
    rw [display, String.toList_append, String.toList_append, List.append_assoc]
    rfl
  rw [← String.toList_inj, ← String.toList_inj, ← String.toList_inj, htext, htext]
  exact append_mark_append_eq_iff hmark

/-- A type that runs into another one has a mark in its kind, and the other one has it in its `apiVersion`. -/
theorem RunsInto.marks (h : type.RunsInto other) : mark <:+: type.kind.toList ∧ mark <:+: other.apiVersion.toList := by
  obtain ⟨between, hversion, hkind⟩ := h
  refine ⟨⟨between, other.kind.toList, ?_⟩, ⟨type.apiVersion.toList, between, ?_⟩⟩
  · rw [hkind, List.append_assoc]
  · rw [hversion, List.append_assoc]

/-- Types that were read from an `apiVersion` are the same if their parts are. -/
theorem eq_iff_of_ofApiVersion {text text' kind kind' : String} (h : ofApiVersion text kind = .ok type)
    (h' : ofApiVersion text' kind' = .ok other) :
    type.apiVersion = other.apiVersion ∧ type.kind = other.kind ↔ type = other := by
  constructor
  · rintro ⟨hversion, hkind⟩
    rw [apiVersion_of_ofApiVersion h, apiVersion_of_ofApiVersion h', trimmed, trimmed, String.ofList_inj] at hversion
    rw [kind_of_ofApiVersion h, kind_of_ofApiVersion h'] at hkind
    rw [ofApiVersion, hversion, hkind] at h
    rw [ofApiVersion] at h'
    exact Except.ok.inj (h.symm.trans h')
  · rintro rfl
    exact ⟨rfl, rfl⟩

/-- A type with another kind is read from the same `apiVersion`. -/
theorem ofApiVersion_kind {text kind : String} (h : ofApiVersion text kind = .ok type) (kind' : String) :
    ofApiVersion text kind' = .ok { type with kind := kind' } := by
  obtain ⟨parts, hparts, rfl⟩ := map_eq_ok_iff.1 h
  exact map_eq_ok_iff.2 ⟨parts, hparts, rfl⟩

end ResourceType

namespace Shape

/-- A shape refuses a document as one of another type. -/
def Mismatches (shape : Shape) (document : Document) : Prop :=
  ∃ expected actual, shape.check document = .error (.typeMismatch expected actual)

/-- A document is refused if its type has another text than that of the shape. -/
theorem mismatches_iff_display_ne {shape : Shape} {document : Document} :
    shape.Mismatches document ↔ shape.displayOf document ≠ shape.display := by
  rw [Mismatches, check]
  split
  · next heq =>
      refine iff_of_false ?_ (not_not.2 heq)
      rintro ⟨expected, actual, hcheck⟩
      rw [convert] at hcheck
      cases hread : shape.read (shape.fill document) with
      | ok value =>
          rw [hread] at hcheck
          cases hcheck
      | error message =>
          rw [hread] at hcheck
          cases hcheck
  · next hne => exact iff_of_true ⟨_, _, rfl⟩ hne

/-- The text of an addressed document has the kind as it is written. -/
theorem displayOf_of_ofDocument {shape : Shape} {document : Document} {type : ResourceType} {written : String}
    (addressed : ResourceType.ofDocument document = .ok type) (stated : document.text? ["kind"] = some written) :
    shape.displayOf document = ({ type with kind := written } : ResourceType).display := by
  obtain ⟨-, ⟨text, hversion, htype⟩, -⟩ := ResourceType.ofDocument_eq_ok_iff.1 addressed
  rw [Document.text?_singleton] at hversion stated
  rw [displayOf, Shape.stated, Shape.stated, hversion, stated]
  simp only [Option.getD_some, ResourceType.ofApiVersion_kind htype]

/-- A shape has the text of its type. -/
theorem display_of_ofApiVersion {shape : Shape} {declared : ResourceType}
    (tight : trimmed shape.apiVersion = shape.apiVersion)
    (wellFormed : ResourceType.ofApiVersion shape.apiVersion shape.kind = .ok declared) :
    shape.display = declared.display := by
  rw [display, ResourceType.display, ResourceType.apiVersion_of_ofApiVersion wellFormed, tight,
    ResourceType.kind_of_ofApiVersion wellFormed]

/-- **Which documents are refused as ones of another type.** Take a shape whose type fields are well-formed and have no
blanks around them, and a document that has a type. It is refused if the type is another one, but also if there are
blanks around its kind, whatever its type; unless one of the two types, with the kind as it is written, runs into the
other one. That cannot be if there is no mark in the type fields of the shape. -/
theorem refused_for_type_or_blanks {shape : Shape} {document : Document} {declared type : ResourceType} {written : String}
    (tight : trimmed shape.apiVersion = shape.apiVersion) (tightKind : trimmed shape.kind = shape.kind)
    (wellFormed : ResourceType.ofApiVersion shape.apiVersion shape.kind = .ok declared)
    (addressed : ResourceType.ofDocument document = .ok type) (stated : document.text? ["kind"] = some written) :
    let asWritten : ResourceType := { type with kind := written }
    (shape.Mismatches document ↔
      (type ≠ declared ∨ trimmed written ≠ written) ∧ ¬ (asWritten.RunsInto declared ∨ declared.RunsInto asWritten)) ∧
    (¬ ResourceType.mark <:+: shape.apiVersion.toList → ¬ ResourceType.mark <:+: shape.kind.toList →
      (shape.Mismatches document ↔ type ≠ declared ∨ trimmed written ≠ written)) := by
  intro asWritten
  obtain ⟨-, ⟨text, -, htype⟩, written', hwritten, -, hkind⟩ := ResourceType.ofDocument_eq_ok_iff.1 addressed
  cases stated.symm.trans hwritten
  have hdeclared : declared.apiVersion = shape.apiVersion ∧ declared.kind = shape.kind :=
    ⟨(ResourceType.apiVersion_of_ofApiVersion wellFormed).trans tight, ResourceType.kind_of_ofApiVersion wellFormed⟩
  have hkept (plain : trimmed written = written) : asWritten = type := by
    have hwritten : written = type.kind := plain.symm.trans hkind
    rw [show asWritten = { type with kind := written } from rfl, hwritten]
  have hsame : asWritten = declared ↔ type = declared ∧ trimmed written = written := by
    constructor
    · intro heq
      have hspelled : written = shape.kind := (congrArg ResourceType.kind heq).trans hdeclared.2
      have hplain : trimmed written = written := by rw [hspelled, tightKind]
      exact ⟨(hkept hplain).symm.trans heq, hplain⟩
    · rintro ⟨htypes, hplain⟩
      exact (hkept hplain).trans htypes
  have hrefused : shape.Mismatches document ↔
      (type ≠ declared ∨ trimmed written ≠ written) ∧
        ¬ (asWritten.RunsInto declared ∨ declared.RunsInto asWritten) := by
    rw [mismatches_iff_display_ne, displayOf_of_ofDocument addressed stated, display_of_ofApiVersion tight wellFormed,
      ne_eq, ResourceType.display_eq_iff, not_or,
      ResourceType.eq_iff_of_ofApiVersion (ResourceType.ofApiVersion_kind htype written) wellFormed, hsame,
      not_and_or]
  refine ⟨hrefused, fun noMark noMark' => hrefused.trans (and_iff_left ?_)⟩
  rw [← hdeclared.1] at noMark
  rw [← hdeclared.2] at noMark'
  rintro (hinto | hinto)
  · exact noMark hinto.marks.2
  · exact noMark' hinto.marks.1

/-- A document with a name, of a kind of the core group. -/
def ofKind (kind : String) : Document :=
  .object [("apiVersion", .string "v1"), ("kind", .string kind), ("metadata", .object [("name", .string "a")])]

/-- A document with secrets is none with configuration texts. -/
theorem secret_refused_for_type : Kinds.configMap.Mismatches (ofKind "Secret") := by
  have htype : ResourceType.ofDocument (ofKind "Secret") = .ok ⟨"", "v1", "Secret"⟩ := by decide
  have hdeclared : ResourceType.ofApiVersion "v1" "ConfigMap" = .ok ⟨"", "v1", "ConfigMap"⟩ := by decide
  have hkind : (ofKind "Secret").text? ["kind"] = some "Secret" := by decide
  have htight : trimmed Kinds.configMap.apiVersion = Kinds.configMap.apiVersion := by decide
  obtain ⟨-, hrefused⟩ := refused_for_type_or_blanks htight (by decide) hdeclared htype hkind
  exact (hrefused (by decide) (by decide)).2 (.inl (by decide))

/-- Blanks around the kind of a document are no part of the type that it is addressed by, but a document with
configuration texts is refused for them. -/
theorem refused_for_blank_before_kind :
    ResourceType.ofDocument (ofKind " ConfigMap") =
        ResourceType.ofApiVersion Kinds.configMap.apiVersion Kinds.configMap.kind ∧
      Kinds.configMap.Mismatches (ofKind " ConfigMap") := by
  refine ⟨by decide, "v1, Kind=ConfigMap", "v1, Kind= ConfigMap", by decide⟩

end Shape

end Converge
