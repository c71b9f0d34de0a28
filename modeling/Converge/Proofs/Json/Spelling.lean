import Converge.Http.Store
import Converge.Json.Writer
import Converge.Proofs.Document.Path

/-!
# The characters of JSON text

A document is written as one text, put together from the texts of its parts. The characters of the text are those of the
parts, one after the other. So what is read of a body that was written is known from these, and the text need not be put
together and taken apart again.

## Main Definitions

* `Json.spelling` — the characters of a document in compact JSON text.

## Main Statements

* `Json.toList_write` — they are what is written.
* `HttpStore.documentOf_write` — what is read of a body is read of its characters.
-/

namespace Converge

namespace Json

mutual

/-- The characters of a document in compact JSON text. -/
def spelling : Document → List Char
  | .null => ['n', 'u', 'l', 'l']
  | .bool true => ['t', 'r', 'u', 'e']
  | .bool false => ['f', 'a', 'l', 's', 'e']
  | .number value => (value.write layout).toList
  | .string text => '"' :: text.toList.flatMap escape ++ ['"']
  | .array items => '[' :: [','].intercalate (itemSpellings items) ++ [']']
  | .object members => '\x7b' :: [','].intercalate (memberSpellings members) ++ ['\x7d']
termination_by structural d => d

/-- The characters of every item. -/
def itemSpellings : List Document → List (List Char)
  | [] => []
  | item :: items => spelling item :: itemSpellings items
termination_by structural d => d

/-- The characters of every member. -/
def memberSpellings : List (String × Document) → List (List Char)
  | [] => []
  | member :: members => memberSpelling member :: memberSpellings members
termination_by structural d => d

/-- The characters of a member. -/
def memberSpelling : String × Document → List Char
  | (name, value) => '"' :: name.toList.flatMap escape ++ '"' :: ':' :: spelling value
termination_by structural d => d

end

theorem toList_quote (text : String) : (quote text).toList = '"' :: text.toList.flatMap escape ++ ['"'] := by
  simp [quote]

/-- The parts of a collection are spelled one by one. -/
theorem toList_writeItems {items : List Document} (h : ∀ item ∈ items, (write item).toList = spelling item) :
    (writeItems items).map String.toList = itemSpellings items := by
  induction items with
  | nil => rfl
  | cons item items ih =>
      rw [List.forall_mem_cons] at h
      rw [writeItems, itemSpellings, List.map_cons, h.1, ih h.2]

theorem toList_writeMembers {members : List (String × Document)}
    (h : ∀ member ∈ members, (write member.2).toList = spelling member.2) :
    (writeMembers members).map String.toList = memberSpellings members := by
  induction members with
  | nil => rfl
  | cons member members ih =>
      obtain ⟨name, value⟩ := member
      rw [List.forall_mem_cons] at h
      rw [writeMembers, memberSpellings, List.map_cons, ih h.2, writeMember, memberSpelling, String.toList_append,
        String.toList_append, toList_quote, h.1]
      simp

/-- **The spelling of a document is what is written.** -/
theorem toList_write (document : Document) : (write document).toList = spelling document := by
  induction document using Document.byParts with
  | null => rfl
  | bool value => cases value <;> rfl
  | number value => rfl
  | string text => exact toList_quote text
  | array items ih =>
      rw [write, String.toList_append, String.toList_append, String.toList_intercalate, toList_writeItems ih]
      rfl
  | object members ih =>
      rw [write, String.toList_append, String.toList_append, String.toList_intercalate, toList_writeMembers ih]
      rfl

/-- What is read of a text that was written. -/
def reread? (document : Document) : Option Document :=
  match (Token.all? (spelling document)).bind fun tokens => tokens.foldlM Reading.step? Reading.start with
  | some ⟨[], .nothing document⟩ => some document
  | _ => none

theorem read?_write (document : Document) : read? (write document) = reread? document := by
  rw [read?, toList_write]
  rfl

end Json

/-- A body that was written is read from its spelling. -/
theorem HttpStore.documentOf_write {document : Document} (filled : Chars.allBlank (Json.spelling document) = false)
    (reads : Json.reread? document = some document) : documentOf (Json.write document) = .ok document := by
  rw [documentOf, Chars.blank, Json.toList_write, filled, Json.read?_write, reads]
  rfl

end Converge
