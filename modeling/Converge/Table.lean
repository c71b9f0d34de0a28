/-!
# Tables in order of insertion

A table holds values under keys. Its keys stand in the order in which they were first inserted; inserting
a key again replaces its value and keeps its place.

## Main Definitions

* `Table` — entries whose keys are distinct.
* `Table.insert`, `Table.erase`, `Table.get?`, `Table.ofList` — the operations.
* `Table.others` — the entries of all keys but one, which an operation on that key leaves as they are.
-/

namespace Converge

/-- Values under distinct keys, in order of insertion. -/
structure Table (κ α : Type) where
  entries : List (κ × α)
  nodup : (entries.map (·.1)).Nodup

namespace Table

variable {κ α : Type}

instance [DecidableEq κ] [DecidableEq α] : DecidableEq (Table κ α) := fun a b =>
  decidable_of_iff (a.entries = b.entries) (by cases a; cases b; simp)

/-- The table without entries. -/
def empty : Table κ α := ⟨[], by simp⟩

instance : Inhabited (Table κ α) := ⟨empty⟩

/-- The keys in their order. -/
def keys (table : Table κ α) : List κ := table.entries.map (·.1)

/-- The values in the order of their keys. -/
def values (table : Table κ α) : List α := table.entries.map (·.2)

/-- The count of entries. -/
def size (table : Table κ α) : Nat := table.entries.length

/-- Whether there are no entries. -/
def isEmpty (table : Table κ α) : Bool := table.entries.isEmpty

variable [DecidableEq κ]

/-- Puts a value under a key: in the place the key has, or behind all others. -/
def put (key : κ) (value : α) : List (κ × α) → List (κ × α)
  | [] => [(key, value)]
  | (k, old) :: rest => if k = key then (key, value) :: rest else (k, old) :: put key value rest

/-- The keys after a value was put: those from before, and the new key if it was not among them. -/
theorem keys_put (key : κ) (value : α) (entries : List (κ × α)) :
    (put key value entries).map (·.1) =
      if key ∈ entries.map (·.1) then entries.map (·.1) else entries.map (·.1) ++ [key] := by
  induction entries with
  | nil => simp [put]
  | cons head rest ih =>
      obtain ⟨k, old⟩ := head
      by_cases h : k = key
      · simp [put, h]
      · simp only [put, h, ↓reduceIte, List.map_cons, ih, List.mem_cons, Ne.symm h, false_or]
        split <;> simp

theorem nodup_put (key : κ) (value : α) {entries : List (κ × α)}
    (h : (entries.map (·.1)).Nodup) : ((put key value entries).map (·.1)).Nodup := by
  rw [keys_put]
  split
  · exact h
  · next hn => exact List.nodup_append.2 ⟨h, by simp, by simp_all; exact fun a b hb e => hn b (e ▸ hb)⟩

/-- The table with a value under a key. -/
def insert (table : Table κ α) (key : κ) (value : α) : Table κ α :=
  ⟨put key value table.entries, nodup_put key value table.nodup⟩

/-- The table without a key; the other entries keep their order. -/
def erase (table : Table κ α) (key : κ) : Table κ α :=
  ⟨table.entries.filter (·.1 != key), (List.filter_sublist.map _).nodup table.nodup⟩

/-- The value under a key. -/
def get? (table : Table κ α) (key : κ) : Option α :=
  (table.entries.find? (·.1 = key)).map (·.2)

/-- Whether a key has a value. -/
def contains (table : Table κ α) (key : κ) : Bool := (table.get? key).isSome

/-- Inserts entries one after the other. -/
def insertAll (table : Table κ α) (entries : List (κ × α)) : Table κ α :=
  entries.foldl (fun table (key, value) => table.insert key value) table

/-- The table of entries inserted one after the other. -/
def ofList (entries : List (κ × α)) : Table κ α := empty.insertAll entries

/-! ### Entries and look-ups -/

/-- The entries of the other keys, in their order. -/
def others (table : Table κ α) (key : κ) : List (κ × α) := table.entries.filter (·.1 != key)

/-- A value is found under a key exactly if the two make an entry. -/
theorem get?_eq_some_iff {table : Table κ α} {key : κ} {value : α} :
    table.get? key = some value ↔ (key, value) ∈ table.entries := by
  obtain ⟨entries, nodup⟩ := table
  unfold get?
  induction entries with
  | nil => simp
  | cons head rest ih =>
      obtain ⟨k, v⟩ := head
      simp only [List.map_cons, List.nodup_cons, List.mem_map, Prod.exists, exists_and_right,
        exists_eq_right, not_exists] at nodup
      by_cases h : k = key
      · subst h
        simpa [eq_comm] using fun hmem => absurd hmem (nodup.1 value)
      · simpa [h, Ne.symm h] using ih nodup.2

/-- The entries of the other keys decide what is found under the other keys. -/
theorem get?_congr_of_others {table table' : Table κ α} {key other : κ} (h : other ≠ key)
    (heq : table.others key = table'.others key) : table.get? other = table'.get? other := by
  have hmem : ∀ value, (other, value) ∈ table.entries ↔ (other, value) ∈ table'.entries := by
    intro value
    have := congrArg ((other, value) ∈ ·) heq
    simpa [others, h] using this
  ext value
  rw [get?_eq_some_iff, get?_eq_some_iff, hmem]

/-- An insertion leaves the entries of the other keys as they are. -/
theorem others_insert (table : Table κ α) (key : κ) (value : α) :
    (table.insert key value).others key = table.others key := by
  obtain ⟨entries, nodup⟩ := table
  simp only [others, insert]
  clear nodup
  induction entries with
  | nil => simp [put]
  | cons head rest ih =>
      obtain ⟨k, v⟩ := head
      by_cases h : k = key <;> simp_all [put]

/-- A removal leaves the entries of the other keys as they are. -/
theorem others_erase (table : Table κ α) (key : κ) :
    (table.erase key).others key = table.others key := by
  simp [others, erase]

/-- What was inserted under a key is found there. -/
theorem get?_insert_self (table : Table κ α) (key : κ) (value : α) :
    (table.insert key value).get? key = some value := by
  rw [get?_eq_some_iff]
  simp only [insert]
  induction table.entries with
  | nil => simp [put]
  | cons head rest ih => by_cases h : head.1 = key <;> simp [put, h, ih]

/-- Nothing is found under a key that was removed. -/
theorem get?_erase_self (table : Table κ α) (key : κ) : (table.erase key).get? key = none := by
  simp [get?, erase]

end Table

end Converge
