import Converge.Identity
import Converge.Proofs.Document.Patching
import Converge.Proofs.Except

/-!
# The texts that state a key

A document states its key by four texts: the `apiVersion`, the kind, and in the metadata the name and the namespace.
Each of them decides on its own part of the key, so a document that changes keeps its key exactly if each text goes on
stating its part.

## Main Definitions

* `Document.States` — the four texts of a document state the parts of a key.

## Main Statements

* `ObjectKey.ofDocument_eq_ok_iff` — a document has the key whose parts its texts state.
* `ObjectKey.ofDocument_mergePatch_iff` — whether a patch keeps the key does not depend on the document.
-/

namespace Converge

open Chars

namespace Document

theorem text?_singleton (document : Document) (name : String) :
    document.text? [name] = (document.get? name).bind string? := by
  rw [text?, under?_cons]
  cases document.get? name <;> rfl

theorem text?_pair (document : Document) (name other : String) :
    document.text? [name, other] = ((document.get? name).bind (·.get? other)).bind string? := by
  rw [text?, under?_cons]
  cases document.get? name with
  | none => rfl
  | some value =>
      rw [Option.bind_some, Option.bind_some]
      exact text?_singleton value other

/-- The texts of a document state the parts of a key, each its own. -/
structure States (document : Document) (key : ObjectKey) : Prop where
  isObject : document.isObject
  type : ∃ text, document.text? ["apiVersion"] = some text ∧
    ResourceType.ofApiVersion text key.type.kind = .ok key.type
  kind : ∃ text, document.text? ["kind"] = some text ∧ blank text = false ∧ trimmed text = key.type.kind
  name : ∃ text, document.text? ["metadata", "name"] = some text ∧ trimmed text = key.name ∧ key.name.isEmpty = false
  scope : ((document.text? ["metadata", "namespace"]).map trimmed).filter (!·.isEmpty) = key.scope

end Document

namespace ResourceType

theorem kind_of_ofApiVersion {apiVersion kind : String} {type : ResourceType}
    (h : ofApiVersion apiVersion kind = .ok type) : type.kind = kind := by
  obtain ⟨parts, -, rfl⟩ := map_eq_ok_iff.1 h
  rfl

theorem ofDocument_eq_ok_iff {document : Document} {type : ResourceType} :
    ofDocument document = .ok type ↔
      document.isObject ∧
        (∃ text, document.text? ["apiVersion"] = some text ∧ ofApiVersion text type.kind = .ok type) ∧
        ∃ text, document.text? ["kind"] = some text ∧ blank text = false ∧ trimmed text = type.kind := by
  rw [Document.text?_singleton, Document.text?_singleton]
  unfold ofDocument
  cases hobject : document.isObject with
  | false => simp
  | true =>
      cases hversion : (document.get? "apiVersion").bind Document.string? with
      | none => simp
      | some apiVersion =>
          cases hkind : (document.get? "kind").bind Document.string? with
          | none => simp
          | some kind =>
              cases hblank : blank kind with
              | true => simp [hblank, Option.filter_some]
              | false =>
                  simp only [Bool.not_true, Bool.false_eq_true, ↓reduceIte, Option.filter_some, hblank,
                    Bool.not_false, Option.some.injEq, exists_eq_left', true_and]
                  constructor
                  · intro h
                    have hsame := kind_of_ofApiVersion h
                    exact ⟨hsame ▸ h, hsame.symm⟩
                  · rintro ⟨h, hsame⟩
                    rwa [hsame]

end ResourceType

namespace ObjectKey

/-- **A document has the key whose parts its texts state.** -/
theorem ofDocument_eq_ok_iff {document : Document} {key : ObjectKey} :
    ofDocument document = .ok key ↔ document.States key := by
  have hstep : ofDocument document = .ok key ↔ ResourceType.ofDocument document = .ok key.type ∧
      (∃ text, document.text? ["metadata", "name"] = some text ∧ trimmed text = key.name ∧ key.name.isEmpty = false) ∧
      ((document.text? ["metadata", "namespace"]).map trimmed).filter (!·.isEmpty) = key.scope := by
    rw [Document.text?_pair, Document.text?_pair]
    unfold ofDocument
    cases htype : ResourceType.ofDocument document with
    | error e => simp [Except.bind]
    | ok type =>
        cases hmetadata : document.get? "metadata" with
        | none => simp [Except.bind]
        | some metadata =>
            cases hname : (metadata.get? "name").bind Document.string? with
            | none => simp [Except.bind, hname]
            | some name =>
                obtain ⟨type', scope, name'⟩ := key
                cases hempty : (trimmed name).isEmpty with
                | true =>
                    simp only [Except.bind, hname, Option.map_some, Option.filter_some, hempty, Bool.not_true,
                      Bool.false_eq_true, ↓reduceIte, Option.bind_some, Option.some.injEq, exists_eq_left', reduceCtorEq,
                      false_iff, not_and]
                    rintro - ⟨rfl, hnonempty⟩
                    rw [hempty] at hnonempty
                    cases hnonempty
                | false =>
                    simp only [Except.bind, hname, Option.map_some, Option.filter_some, hempty, Bool.not_false,
                      ↓reduceIte, of, Except.ok.injEq, mk.injEq, Option.bind_some, Option.some.injEq, exists_eq_left']
                    constructor
                    · rintro ⟨rfl, rfl, rfl⟩
                      exact ⟨rfl, ⟨rfl, hempty⟩, rfl⟩
                    · rintro ⟨rfl, ⟨rfl, -⟩, rfl⟩
                      exact ⟨rfl, rfl, rfl⟩
  rw [hstep, ResourceType.ofDocument_eq_ok_iff]
  constructor
  · rintro ⟨⟨hobject, htype, hkind⟩, hname, hscope⟩
    exact ⟨hobject, htype, hkind, hname, hscope⟩
  · rintro ⟨hobject, htype, hkind, hname, hscope⟩
    exact ⟨⟨hobject, htype, hkind⟩, hname, hscope⟩

variable {patch document document' : Document} {key : ObjectKey}

/-- A patch leaves two texts of the same standing both with it or both without. -/
theorem text?_mergePatch_iff (ordered : patch.Ordered) (hobject : patch.isObject) {p : Option String → Prop}
    {names : List String} (h : p (document.text? names)) (h' : p (document'.text? names)) :
    p ((document.mergePatch patch).text? names) ↔ p ((document'.mergePatch patch).text? names) := by
  obtain hkeeps | ⟨text, hsame⟩ := Document.text?_mergePatch ordered hobject names
  · rw [hkeeps, hkeeps]
    exact iff_of_true h h'
  · rw [hsame, hsame]

/-- **Whether a patch keeps the key does not depend on the document**, since each text is decided on alone. -/
theorem ofDocument_mergePatch_iff (ordered : patch.Ordered) (hobject : patch.isObject)
    (named : ofDocument document = .ok key) (named' : ofDocument document' = .ok key) :
    ofDocument (document.mergePatch patch) = .ok key ↔ ofDocument (document'.mergePatch patch) = .ok key := by
  obtain ⟨-, htype, hkind, hname, hscope⟩ := ofDocument_eq_ok_iff.1 named
  obtain ⟨-, htype', hkind', hname', hscope'⟩ := ofDocument_eq_ok_iff.1 named'
  have hisObject : ∀ target : Document, (target.mergePatch patch).isObject := by
    obtain ⟨members, rfl⟩ := Document.exists_object_of_isObject hobject
    exact fun target => rfl
  have texts {p : Option String → Prop} {names : List String} (h : p (document.text? names))
      (h' : p (document'.text? names)) := text?_mergePatch_iff ordered hobject h h'
  have scopes := texts (p := fun text? => (text?.map trimmed).filter (!·.isEmpty) = key.scope) hscope hscope'
  have types := texts (p := fun text? => ∃ text, text? = some text ∧
    ResourceType.ofApiVersion text key.type.kind = .ok key.type) htype htype'
  have kinds := texts (p := fun text? => ∃ text, text? = some text ∧ blank text = false ∧ trimmed text = key.type.kind)
    hkind hkind'
  have names := texts (p := fun text? => ∃ text, text? = some text ∧ trimmed text = key.name ∧
    key.name.isEmpty = false) hname hname'
  rw [ofDocument_eq_ok_iff, ofDocument_eq_ok_iff]
  constructor
  · rintro ⟨-, ptype, pkind, pname, pscope⟩
    exact ⟨hisObject _, types.1 ptype, kinds.1 pkind, names.1 pname, scopes.1 pscope⟩
  · rintro ⟨-, ptype, pkind, pname, pscope⟩
    exact ⟨hisObject _, types.2 ptype, kinds.2 pkind, names.2 pname, scopes.2 pscope⟩

end ObjectKey

end Converge
