import Converge.Number

/-!
# Documents

The values that templates, bindings and stores exchange: null, booleans, numbers, strings, arrays and
objects. The members of an object stand in ascending order of their names (by code points), each name once.

## Main Definitions

* `Document` — the type, with decidable equality.
* `Members.insert`, `Members.lookup`, `Members.erase`, `Members.without` — the members of an object as an
  ordered table.
* `Document.get?`, `Document.string?` — looking into a document.
* `Document.Ordered` — all objects in a document have their members in order, which can be decided.

## Design Notes

Insertion is a single pass that replaces on collision, so the look-up laws hold of every list of members,
ordered or not.
-/

namespace Converge

/-- A value of a document. -/
inductive Document where
  | null
  | bool (value : Bool)
  | number (value : Number)
  | string (text : String)
  | array (items : List Document)
  | object (members : List (String × Document))
  deriving Repr, Inhabited

/-- The members of an object: names and values. -/
abbrev Members := List (String × Document)

/-! ### Equality -/

namespace Document

mutual

/-- Decides whether two documents are equal. -/
def decEq : (a b : Document) → Decidable (a = b)
  | .null, .null => isTrue rfl
  | .bool a, .bool b => decidable_of_iff (a = b) (by simp)
  | .number a, .number b => decidable_of_iff (a = b) (by simp)
  | .string a, .string b => decidable_of_iff (a = b) (by simp)
  | .array a, .array b =>
      match decEqItems a b with
      | isTrue h => isTrue (by rw [h])
      | isFalse h => isFalse (by simpa using h)
  | .object a, .object b =>
      match decEqMembers a b with
      | isTrue h => isTrue (by rw [h])
      | isFalse h => isFalse (by simpa using h)
  | .null, .bool _ | .null, .number _ | .null, .string _ | .null, .array _ | .null, .object _
  | .bool _, .null | .bool _, .number _ | .bool _, .string _ | .bool _, .array _ | .bool _, .object _
  | .number _, .null | .number _, .bool _ | .number _, .string _ | .number _, .array _
  | .number _, .object _
  | .string _, .null | .string _, .bool _ | .string _, .number _ | .string _, .array _
  | .string _, .object _
  | .array _, .null | .array _, .bool _ | .array _, .number _ | .array _, .string _
  | .array _, .object _
  | .object _, .null | .object _, .bool _ | .object _, .number _ | .object _, .string _
  | .object _, .array _ => isFalse (by simp)
termination_by structural a => a

/-- Decides whether two lists of documents are equal. -/
def decEqItems : (a b : List Document) → Decidable (a = b)
  | [], [] => isTrue rfl
  | a :: as, b :: bs =>
      match decEq a b, decEqItems as bs with
      | isTrue h, isTrue hs => isTrue (by rw [h, hs])
      | isFalse h, _ => isFalse (by simp [h])
      | _, isFalse hs => isFalse (by simp [hs])
  | [], _ :: _ | _ :: _, [] => isFalse (by simp)
termination_by structural a => a

/-- Decides whether two lists of members are equal. -/
def decEqMembers : (a b : List (String × Document)) → Decidable (a = b)
  | [], [] => isTrue rfl
  | a :: as, b :: bs =>
      match decEqMember a b, decEqMembers as bs with
      | isTrue h, isTrue hs => isTrue (by rw [h, hs])
      | isFalse h, _ => isFalse (by simp [h])
      | _, isFalse hs => isFalse (by simp [hs])
  | [], _ :: _ | _ :: _, [] => isFalse (by simp)
termination_by structural a => a

/-- Decides whether two members are equal. -/
def decEqMember : (a b : String × Document) → Decidable (a = b)
  | (m, a), (n, b) =>
      match (inferInstance : Decidable (m = n)), decEq a b with
      | isTrue h, isTrue hs => isTrue (by rw [h, hs])
      | isFalse h, _ => isFalse (by simp [h])
      | _, isFalse hs => isFalse (by simp [hs])
termination_by structural a => a

end

instance : DecidableEq Document := decEq

end Document

/-! ### Members as a table -/

namespace Members

/-- The value under a name. -/
def lookup (name : String) : Members → Option Document
  | [] => none
  | (key, value) :: rest => if key = name then some value else lookup name rest

/-- Puts a value under a name, in order; a value that stood there is replaced. -/
def insert (name : String) (value : Document) : Members → Members
  | [] => [(name, value)]
  | (key, old) :: rest =>
      if key = name then (name, value) :: rest
      else if key < name then (key, old) :: insert name value rest
      else (name, value) :: (key, old) :: rest

/-- The members without a name. -/
def erase (name : String) (members : Members) : Members := members.filter (·.1 != name)

/-- Puts a value under a name that has none. -/
def insertNew (name : String) (value : Document) (members : Members) : Members :=
  match members.lookup name with
  | some _ => members
  | none => members.insert name value

/-- The members without those of some names. -/
def without (names : List String) (members : Members) : Members :=
  members.filter fun member => !names.contains member.1

/-- The table of a list of entries; of two entries with one name the later counts. -/
def ofList (entries : List (String × Document)) : Members :=
  entries.foldl (fun members (name, value) => members.insert name value) []

/-- The names stand in ascending order, each once. -/
def Ordered (members : Members) : Prop := members.Pairwise fun a b => a.1 < b.1

@[simp] theorem lookup_nil (name : String) : lookup name [] = none := rfl

/-- What was put under a name is found there. -/
theorem lookup_insert_self (name : String) (value : Document) (members : Members) :
    (members.insert name value).lookup name = some value := by
  induction members with
  | nil => simp [insert, lookup]
  | cons head rest ih =>
      obtain ⟨key, old⟩ := head
      by_cases hk : key = name
      · simp [insert, lookup, hk]
      · by_cases hlt : key < name <;> simp [insert, lookup, hk, hlt, ih]

/-- Putting a value under a name leaves the other names alone. -/
theorem lookup_insert_of_ne {name other : String} (h : other ≠ name) (value : Document)
    (members : Members) : (members.insert name value).lookup other = members.lookup other := by
  induction members with
  | nil => simp [insert, lookup, Ne.symm h]
  | cons head rest ih =>
      obtain ⟨key, old⟩ := head
      by_cases hk : key = name
      · subst hk; simp [insert, lookup, Ne.symm h]
      · by_cases hlt : key < name
        · simp only [insert, hk, hlt, ↓reduceIte, lookup, ih]
        · simp [insert, lookup, hk, hlt, Ne.symm h]

/-- An erased name is not found. -/
theorem lookup_erase_self (name : String) (members : Members) :
    (members.erase name).lookup name = none := by
  induction members with
  | nil => rfl
  | cons head rest ih =>
      obtain ⟨key, old⟩ := head
      by_cases hk : key = name <;> simp_all [erase, lookup]

/-- Erasing a name leaves the other names alone. -/
theorem lookup_erase_of_ne {name other : String} (h : other ≠ name) (members : Members) :
    (members.erase name).lookup other = members.lookup other := by
  induction members with
  | nil => rfl
  | cons head rest ih =>
      obtain ⟨key, old⟩ := head
      by_cases hk : key = name
      · subst hk; simp_all [erase, lookup, Ne.symm h]
      · by_cases ho : key = other <;> simp_all [erase, lookup]

/-- Names that stay keep their values. -/
theorem lookup_without {name : String} {names : List String} (h : name ∉ names) (members : Members) :
    (members.without names).lookup name = members.lookup name := by
  induction members with
  | nil => rfl
  | cons head rest ih =>
      obtain ⟨key, value⟩ := head
      by_cases hk : key = name
      · subst hk; simp [without, lookup, h]
      · by_cases hn : key ∈ names <;> simp_all [without, lookup]

/-- A value put under one of the names does not show once these are gone. -/
theorem without_insert {name : String} {names : List String} (h : name ∈ names) (value : Document)
    (members : Members) : (members.insert name value).without names = members.without names := by
  induction members with
  | nil => simp [insert, without, h]
  | cons head rest ih =>
      obtain ⟨key, old⟩ := head
      by_cases hk : key = name
      · subst hk; simp [insert, without, h]
      · by_cases hlt : key < name
        · simp only [without] at ih ⊢
          simp only [insert, hk, hlt, ↓reduceIte, List.filter_cons, ih]
        · simp [insert, without, hk, hlt, h]

/-- Of two values put under one name the later counts. -/
theorem insert_insert (name : String) (first second : Document) (members : Members) :
    (members.insert name first).insert name second = members.insert name second := by
  induction members with
  | nil => simp [insert]
  | cons head rest ih =>
      obtain ⟨key, old⟩ := head
      by_cases hk : key = name
      · simp [insert, hk]
      · by_cases hlt : key < name <;> simp [insert, hk, hlt, ih]

end Members

/-! ### Looking into documents -/

namespace Document

/-- The members of an object; nothing else has members. -/
def members : Document → Members
  | .object members => members
  | _ => []

/-- Whether the document is an object. -/
def isObject : Document → Bool
  | .object _ => true
  | _ => false

/-- The value of a member. -/
def get? (document : Document) (name : String) : Option Document := document.members.lookup name

/-- The text of a string. -/
def string? : Document → Option String
  | .string text => some text
  | _ => none

/-- The number of a natural number. -/
def natural? : Document → Option Nat
  | .number value => value.natural?
  | _ => none

/-- A natural number as a document. -/
def ofNat (n : Nat) : Document := .number (.integer n)

/-- An object made of entries; of two entries with one name the later counts. -/
def ofEntries (entries : List (String × Document)) : Document := .object (Members.ofList entries)

/-- What kind of value a document is, for messages. -/
def typeName : Document → String
  | .null => "null"
  | .bool _ => "boolean"
  | .number _ => "number"
  | .string _ => "string"
  | .array _ => "array"
  | .object _ => "object"

/-! ### Equality of values -/

mutual

/-- Equality where the two zeros of floats are one number. -/
def same : Document → Document → Bool
  | .null, .null => true
  | .bool a, .bool b => a == b
  | .number a, .number b => a.same b
  | .string a, .string b => a == b
  | .array a, .array b => sameItems a b
  | .object a, .object b => sameMembers a b
  | _, _ => false
termination_by structural a => a

/-- `same` on each item. -/
def sameItems : List Document → List Document → Bool
  | [], [] => true
  | a :: as, b :: bs => same a b && sameItems as bs
  | _, _ => false
termination_by structural a => a

/-- `same` on each member, the names being equal. -/
def sameMembers : List (String × Document) → List (String × Document) → Bool
  | [], [] => true
  | a :: as, b :: bs => sameMember a b && sameMembers as bs
  | _, _ => false
termination_by structural a => a

/-- `same` on a member, the names being equal. -/
def sameMember : String × Document → String × Document → Bool
  | (m, a), (n, b) => m == n && same a b
termination_by structural a => a

end

/-! ### Order inside a document -/

mutual

/-- Every object in the document has its members in order. -/
def Ordered : Document → Prop
  | .array items => OrderedItems items
  | .object members => Members.Ordered members ∧ OrderedMembers members
  | _ => True
termination_by structural d => d

/-- `Ordered` of every item. -/
def OrderedItems : List Document → Prop
  | [] => True
  | item :: items => Ordered item ∧ OrderedItems items
termination_by structural d => d

/-- `Ordered` of every member's value. -/
def OrderedMembers : List (String × Document) → Prop
  | [] => True
  | member :: members => OrderedMember member ∧ OrderedMembers members
termination_by structural d => d

/-- `Ordered` of a member's value. -/
def OrderedMember : String × Document → Prop
  | (_, value) => Ordered value
termination_by structural d => d

end

instance (members : Members) : Decidable (Members.Ordered members) :=
  inferInstanceAs (Decidable (List.Pairwise _ members))

mutual

/-- Decides whether every object in a document has its members in order. -/
def decOrdered : (document : Document) → Decidable (Ordered document)
  | .array items => decOrderedItems items
  | .object members => @instDecidableAnd _ _ inferInstance (decOrderedMembers members)
  | .null | .bool _ | .number _ | .string _ => .isTrue trivial
termination_by structural d => d

/-- Decides `OrderedItems`. -/
def decOrderedItems : (items : List Document) → Decidable (OrderedItems items)
  | [] => .isTrue trivial
  | item :: items => @instDecidableAnd _ _ (decOrdered item) (decOrderedItems items)
termination_by structural d => d

/-- Decides `OrderedMembers`. -/
def decOrderedMembers : (members : List (String × Document)) → Decidable (OrderedMembers members)
  | [] => .isTrue trivial
  | member :: members => @instDecidableAnd _ _ (decOrderedMember member) (decOrderedMembers members)
termination_by structural d => d

/-- Decides `OrderedMember`. -/
def decOrderedMember : (member : String × Document) → Decidable (OrderedMember member)
  | (_, value) => decOrdered value
termination_by structural d => d

end

instance : DecidablePred Ordered := decOrdered

end Document

end Converge
