import Converge.Table
import Mathlib.Data.List.Basic
import Mathlib.Data.List.Induction
import Mathlib.Data.List.Nodup

/-!
# Tables filled entry by entry

An insertion takes a key that is there to its own place and any other one to the end. So the keys of a table that is
filled stand in the order of their first appearance, and under each of them is the value that came last. These two, the
keys in their order and what is found under each, are all there is to a table.

## Main Statements

* `Table.entries_insert_of_not_mem`, `Table.entries_insert_of_entries_eq` — where an insertion puts a value.
* `Table.keys_insertAll` — the keys are in the order of their first appearance.
* `Table.get?_insertAll`, `Table.get?_ofList_eq_some_iff` — of the values for one key the last one counts.
* `Table.ext_get?` — a table is given by its keys and what is found under them.
* `Table.ofList_entries` — a table that is filled with the entries of a table is that table.
-/

namespace Converge.Table

variable {κ α : Type} [DecidableEq κ] {table other : Table κ α} {key : κ} {old : α} {front back : List (κ × α)}

/-! ### First appearances -/

/-- What is put behind a list appears there first unless it is in the list. -/
theorem eraseDups_concat (items : List κ) (item : κ) :
    (items ++ [item]).eraseDups = if item ∈ items then items.eraseDups else items.eraseDups ++ [item] := by
  rw [List.eraseDups_append]
  by_cases h : item ∈ items <;> simp [List.removeAll, List.eraseDups_cons, h]

theorem eraseDups_of_nodup {items : List κ} (h : items.Nodup) : items.eraseDups = items := by
  induction items using List.reverseRecOn with
  | nil => rfl
  | append_singleton items item ih =>
      obtain ⟨hitems, -, hdisjoint⟩ := List.nodup_append.1 h
      have hitem : item ∉ items := fun hmem => hdisjoint item hmem item List.mem_cons_self rfl
      rw [eraseDups_concat, if_neg hitem, ih hitems]

/-- What appears twice within a part appears twice in the whole. -/
theorem eraseDups_append_eraseDups_append (before middle after : List κ) :
    (before ++ middle.eraseDups ++ after).eraseDups = (before ++ middle ++ after).eraseDups := by
  -- What comes first is kept, so whether an item is kept is only known from the items in front of it.
  induction after using List.reverseRecOn with
  | nil =>
      rw [List.append_nil, List.append_nil]
      induction middle using List.reverseRecOn with
      | nil => rfl
      | append_singleton middle item ih =>
          rw [← List.append_assoc, eraseDups_concat (before ++ middle), ← ih, eraseDups_concat middle]
          by_cases h : item ∈ middle
          · rw [if_pos h, if_pos (List.mem_append_right before h)]
          · have hmem : item ∈ before ++ middle.eraseDups ↔ item ∈ before ++ middle := by
              rw [List.mem_append, List.mem_append, List.mem_eraseDups]
            rw [if_neg h, ← List.append_assoc, eraseDups_concat]
            simp only [hmem]
  | append_singleton after item ih =>
      have hmem : item ∈ before ++ middle.eraseDups ++ after ↔ item ∈ before ++ middle ++ after := by
        simp only [List.mem_append, List.mem_eraseDups]
      rw [← List.append_assoc, ← List.append_assoc, eraseDups_concat, eraseDups_concat, ih]
      simp only [hmem]

/-! ### Keys and entries -/

theorem mem_keys_iff : key ∈ table.keys ↔ ∃ value, table.get? key = some value := by
  simp only [keys, List.mem_map, get?_eq_some_iff, Prod.exists, exists_and_right, exists_eq_right]

theorem contains_iff : table.contains key = true ↔ key ∈ table.keys := by
  rw [contains, Option.isSome_iff_exists, mem_keys_iff]

theorem get?_eq_none_iff : table.get? key = none ↔ table.contains key = false := by
  rw [contains, Option.isSome_eq_false_iff, Option.isNone_iff_eq_none]

/-- The entry of a key stands between entries of other keys. -/
theorem exists_entries_eq (h : table.get? key = some old) :
    ∃ front back, table.entries = front ++ (key, old) :: back ∧ key ∉ front.map (·.1) ∧ key ∉ back.map (·.1) := by
  obtain ⟨front, back, hentries⟩ := List.append_of_mem (get?_eq_some_iff.1 h)
  have hnodup : ((front ++ (key, old) :: back).map (·.1)).Nodup := hentries ▸ table.nodup
  rw [List.map_append, List.map_cons, List.nodup_middle, List.nodup_cons, List.mem_append, not_or] at hnodup
  exact ⟨front, back, hentries, hnodup.1⟩

/-- The entries are the keys with what is found under them. -/
theorem entries_eq_filterMap (table : Table κ α) :
    table.entries = table.keys.filterMap fun key => (table.get? key).map (key, ·) := by
  have hfound : ∀ entry ∈ table.entries, ((table.get? entry.1).map (entry.1, ·)) = some entry := by
    intro entry hentry
    rw [get?_eq_some_iff.2 hentry]
    rfl
  rw [keys, List.filterMap_map]
  exact (List.filterMap_some.symm.trans (List.filterMap_congr fun entry hentry => (hfound entry hentry).symm))

/-- A table is given by its keys in their order and by what is found under them. -/
theorem ext_get? (hkeys : table.keys = other.keys) (found : ∀ key, table.get? key = other.get? key) :
    table = other := by
  have hentries : table.entries = other.entries := by
    rw [entries_eq_filterMap table, entries_eq_filterMap other, hkeys]
    simp only [found]
  cases table
  cases other
  cases hentries
  rfl

/-! ### One insertion -/

/-- A value for a key passes by the entries of other keys. -/
theorem put_append_of_not_mem (h : key ∉ front.map (·.1)) (value : α) (rest : List (κ × α)) :
    put key value (front ++ rest) = front ++ put key value rest := by
  induction front with
  | nil => rfl
  | cons head front ih =>
      rw [List.map_cons, List.mem_cons, not_or] at h
      rw [List.cons_append, put, if_neg (Ne.symm h.1), ih h.2, List.cons_append]

/-- A value for a new key goes to the end. -/
theorem entries_insert_of_not_mem (h : key ∉ table.keys) (value : α) :
    (table.insert key value).entries = table.entries ++ [(key, value)] := by
  have hput := put_append_of_not_mem h value []
  rwa [List.append_nil] at hput

/-- A value for a key that is there goes to its place. -/
theorem entries_insert_of_entries_eq (h : table.entries = front ++ (key, old) :: back) (hfront : key ∉ front.map (·.1))
    (value : α) : (table.insert key value).entries = front ++ (key, value) :: back := by
  show put key value table.entries = _
  rw [h, put_append_of_not_mem hfront, put, if_pos rfl]

/-- A removal takes an entry out of its place. -/
theorem entries_erase_of_entries_eq (h : table.entries = front ++ (key, old) :: back) (hfront : key ∉ front.map (·.1))
    (hback : key ∉ back.map (·.1)) : (table.erase key).entries = front ++ back := by
  have hstay : ∀ {part : List (κ × α)}, key ∉ part.map (·.1) → part.filter (·.1 != key) = part := by
    intro part hpart
    refine List.filter_eq_self.2 fun entry hentry => bne_iff_ne.2 ?_
    rintro rfl
    exact hpart (List.mem_map_of_mem hentry)
  show table.entries.filter _ = _
  rw [h, List.filter_append, hstay hfront, List.filter_cons_of_neg (by simp), hstay hback]

theorem put_put (key : κ) (first second : α) (entries : List (κ × α)) :
    put key second (put key first entries) = put key second entries := by
  induction entries with
  | nil => simp [put]
  | cons head rest ih =>
      obtain ⟨k, old⟩ := head
      by_cases h : k = key
      · simp [put, h]
      · simp [put, h, ih]

/-- Of two values put under one key the later counts. -/
theorem insert_insert (table : Table κ α) (key : κ) (first second : α) :
    (table.insert key first).insert key second = table.insert key second := by
  simp only [insert, put_put]

theorem keys_insert (table : Table κ α) (key : κ) (value : α) :
    (table.insert key value).keys = if key ∈ table.keys then table.keys else table.keys ++ [key] :=
  keys_put key value table.entries

theorem get?_insert_of_ne {name : κ} (h : name ≠ key) (table : Table κ α) (value : α) :
    (table.insert key value).get? name = table.get? name :=
  get?_congr_of_others h (others_insert table key value)

/-! ### Many insertions -/

theorem insertAll_append (table : Table κ α) (first second : List (κ × α)) :
    table.insertAll (first ++ second) = (table.insertAll first).insertAll second :=
  List.foldl_append

theorem insertAll_concat (table : Table κ α) (entries : List (κ × α)) (key : κ) (value : α) :
    table.insertAll (entries ++ [(key, value)]) = (table.insertAll entries).insert key value :=
  insertAll_append table entries [(key, value)]

/-- Keys are in the order in which they appeared first. -/
theorem keys_insertAll (table : Table κ α) (entries : List (κ × α)) :
    (table.insertAll entries).keys = (table.keys ++ entries.map (·.1)).eraseDups := by
  induction entries using List.reverseRecOn with
  | nil =>
      rw [List.map_nil, List.append_nil]
      exact (eraseDups_of_nodup table.nodup).symm
  | append_singleton entries entry ih =>
      obtain ⟨key, value⟩ := entry
      have hmem : key ∈ (table.insertAll entries).keys ↔ key ∈ table.keys ++ entries.map (·.1) := by
        rw [ih, List.mem_eraseDups]
      rw [insertAll_concat, keys_insert, List.map_append, ← List.append_assoc, List.map_singleton, eraseDups_concat,
        ← ih]
      simp only [hmem]

/-- Under a key is the value of the last entry with it, else what was there before. -/
theorem get?_insertAll (table : Table κ α) (entries : List (κ × α)) (key : κ) :
    (table.insertAll entries).get? key =
      ((entries.reverse.find? (·.1 = key)).map (·.2)).or (table.get? key) := by
  induction entries using List.reverseRecOn with
  | nil => rfl
  | append_singleton entries entry ih =>
      obtain ⟨name, value⟩ := entry
      rw [insertAll_concat, List.reverse_append, List.reverse_singleton, List.singleton_append]
      by_cases h : name = key
      · rw [h, get?_insert_self, List.find?_cons_of_pos (by simp)]
        rfl
      · rw [get?_insert_of_ne (Ne.symm h), ih, List.find?_cons_of_neg (by simpa using h)]

theorem keys_ofList (entries : List (κ × α)) : (ofList entries).keys = (entries.map (·.1)).eraseDups :=
  keys_insertAll empty entries

/-- Of the entries with one key the last one counts. -/
theorem get?_ofList_eq_some_iff {entries : List (κ × α)} {value : α} :
    (ofList entries).get? key = some value ↔
      ∃ earlier later, entries = earlier ++ (key, value) :: later ∧ ∀ entry ∈ later, entry.1 ≠ key := by
  rw [ofList, get?_insertAll, show (empty : Table κ α).get? key = none from rfl, Option.or_none]
  constructor
  · intro h
    obtain ⟨⟨name, found⟩, hfind, rfl⟩ := Option.map_eq_some_iff.1 h
    obtain ⟨hname, later, earlier, hentries, hlater⟩ := List.find?_eq_some_iff_append.1 hfind
    obtain rfl : name = key := by simpa using hname
    refine ⟨earlier.reverse, later.reverse, ?_, fun entry hentry => ?_⟩
    · rw [← List.reverse_reverse entries, hentries, List.reverse_append, List.reverse_cons, List.append_assoc,
        List.singleton_append]
    · simpa using hlater entry (List.mem_reverse.1 hentry)
  · rintro ⟨earlier, later, rfl, hlater⟩
    have hnone : later.reverse.find? (·.1 = key) = none := by
      rw [List.find?_eq_none]
      intro entry hentry
      simpa using hlater entry (List.mem_reverse.1 hentry)
    rw [List.reverse_append, List.reverse_cons, List.append_assoc, List.find?_append, hnone, Option.none_or,
      List.singleton_append, List.find?_cons_of_pos (by simp)]
    rfl

/-- A table that is filled with the entries of a table is that table. -/
theorem ofList_entries (table : Table κ α) : ofList table.entries = table := by
  refine ext_get? ?_ fun key => ?_
  · rw [keys_ofList]
    exact eraseDups_of_nodup table.nodup
  · ext value
    rw [get?_ofList_eq_some_iff]
    constructor
    · rintro ⟨earlier, later, hentries, -⟩
      rw [get?_eq_some_iff, hentries]
      exact List.mem_append_right earlier List.mem_cons_self
    · intro h
      obtain ⟨earlier, later, hentries, -, hlater⟩ := exists_entries_eq h
      refine ⟨earlier, later, hentries, fun entry hentry => ?_⟩
      rintro rfl
      exact hlater (List.mem_map_of_mem hentry)

/-- The entries of a table go in as a whole: what it has under a key comes before what was there. -/
theorem get?_insertAll_entries (table layer : Table κ α) (key : κ) :
    (table.insertAll layer.entries).get? key = (layer.get? key).or (table.get? key) := by
  have hlayer := congrArg (get? · key) (ofList_entries layer)
  rw [ofList, get?_insertAll, show (empty : Table κ α).get? key = none from rfl, Option.or_none] at hlayer
  rw [get?_insertAll, hlayer]

end Converge.Table
