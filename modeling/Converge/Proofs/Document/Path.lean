import Converge.Proofs.Document.Members

/-!
# Paths into documents

A document is a tree: below an array stand its items, below an object the values of its members. A path says which
way to go down, and so names a position in the tree.

## Main Definitions

* `Document.Step`, `Document.at?` — a step down, and what stands at the end of a path.
* `Document.Step.text` — how a step is written.

## Main Statements

* `Document.byParts` — induction on the parts of a document.
* `Document.Ordered.at?` — what stands somewhere in a document whose objects are in order is such a document.
-/

namespace Converge.Document

/-- Induction on the parts of a document. -/
@[elab_as_elim]
theorem byParts {motive : Document → Prop} (null : motive .null) (bool : ∀ value, motive (.bool value))
    (number : ∀ value, motive (.number value)) (string : ∀ text, motive (.string text))
    (array : ∀ items, (∀ item ∈ items, motive item) → motive (.array items))
    (object : ∀ members, (∀ member ∈ members, motive member.2) → motive (.object members)) :
    ∀ document, motive document
  | .null => null
  | .bool value => bool value
  | .number value => number value
  | .string text => string text
  | .array items => array items fun item _ => byParts null bool number string array object item
  | .object members => object members fun member _ => byParts null bool number string array object member.2
termination_by document => sizeOf document
decreasing_by
  · have := List.sizeOf_lt_of_mem ‹item ∈ items›
    rw [Document.array.sizeOf_spec]
    omega
  · obtain ⟨name, value⟩ := member
    have := List.sizeOf_lt_of_mem ‹(name, value) ∈ members›
    rw [Prod.mk.sizeOf_spec] at this
    rw [Document.object.sizeOf_spec]
    dsimp only
    omega

/-- A step down: to an item of an array or to the value of a member of an object. -/
inductive Step where
  | item (position : Nat)
  | member (name : String)
  deriving Repr, DecidableEq

/-- A step as a text: the name of a member, or the number of a position. -/
def Step.text : Step → String
  | item position => position.repr
  | member name => name

/-- What a step leads to. -/
def step? : Document → Step → Option Document
  | .array items, .item position => items[position]?
  | .object members, .member name => Members.lookup name members
  | _, _ => none

/-- What stands at the end of a path. -/
def at? : Document → List Step → Option Document
  | document, [] => some document
  | document, step :: path => (document.step? step).bind (·.at? path)

@[simp] theorem at?_nil (document : Document) : document.at? [] = some document := by
  cases document <;> rfl

theorem at?_cons (document : Document) (step : Step) (path : List Step) :
    document.at? (step :: path) = (document.step? step).bind (·.at? path) := by
  cases document <;> rfl

theorem at?_cons_eq_some_iff {document value : Document} {step : Step} {path : List Step} :
    document.at? (step :: path) = some value ↔
      ∃ next, document.step? step = some next ∧ next.at? path = some value := by
  rw [at?_cons, Option.bind_eq_some_iff]

/-! ### Objects in order -/

theorem orderedItems_iff {items : List Document} : OrderedItems items ↔ ∀ item ∈ items, item.Ordered := by
  induction items with
  | nil => simp [OrderedItems]
  | cons item items ih => rw [OrderedItems, ih, List.forall_mem_cons]

theorem orderedMembers_iff {members : Members} :
    OrderedMembers members ↔ ∀ member ∈ members, member.2.Ordered := by
  induction members with
  | nil => simp [OrderedMembers]
  | cons member members ih => rw [OrderedMembers, ih, List.forall_mem_cons, OrderedMember]

theorem Ordered.step? {document next : Document} {step : Step} (h : document.Ordered)
    (hstep : document.step? step = some next) : next.Ordered := by
  unfold Document.step? at hstep
  split at hstep
  · rw [Ordered, orderedItems_iff] at h
    exact h next (List.mem_of_getElem? hstep)
  · rw [Ordered, orderedMembers_iff] at h
    exact h.2 _ (Members.mem_of_lookup hstep)
  · cases hstep

/-- What stands somewhere in a document whose objects are in order is such a document. -/
theorem Ordered.at? {document value : Document} {path : List Step} (h : document.Ordered)
    (hat : document.at? path = some value) : value.Ordered := by
  induction path generalizing document with
  | nil =>
      rw [at?_nil, Option.some.injEq] at hat
      exact hat ▸ h
  | cons step path ih =>
      obtain ⟨next, hstep, hat⟩ := at?_cons_eq_some_iff.1 hat
      exact ih (h.step? hstep) hat

end Converge.Document
