import Converge.Document.Basic
import Mathlib.Data.List.Dedup
import Mathlib.Data.List.Induction
import Mathlib.Data.String.Basic

/-!
# Members of an object made of entries

An object is made of entries by putting one after the other into it. What is found in it under a name is the value
of the last entry with this name; its names are those of the entries, each once and in order.

## Main Statements

* `Ordered.ext` — members in order are given by what is found under each name.
* `ordered_ofList` — the members of an object that is made of entries are in order.
* `lookup_ofList_of_last` — of the entries with one name the last one counts.
* `length_ofList_eq_iff` — no entry is lost exactly if the names of the entries are distinct.
-/

namespace Converge.Members

/-- The names of members. -/
def names (members : Members) : List String := members.map (·.1)

/-! ### Looking up -/

/-- The first member with a name is found under it. -/
theorem lookup_of_first {name : String} {before : Members} (h : ∀ member ∈ before, member.1 ≠ name)
    (value : Document) (after : Members) : lookup name (before ++ (name, value) :: after) = some value := by
  induction before with
  | nil => rw [List.nil_append, lookup, if_pos rfl]
  | cons head before ih =>
      rw [List.forall_mem_cons] at h
      rw [List.cons_append, lookup, if_neg h.1, ih h.2]

/-- What is found under a name is the value of the first member with it. -/
theorem exists_first_of_lookup {name : String} {value : Document} {members : Members}
    (h : members.lookup name = some value) :
    ∃ before after, members = before ++ (name, value) :: after ∧ ∀ member ∈ before, member.1 ≠ name := by
  induction members with
  | nil => cases h
  | cons head members ih =>
      obtain ⟨key, old⟩ := head
      rw [lookup] at h
      split at h
      · next hkey =>
          obtain rfl := hkey
          cases h
          exact ⟨[], members, rfl, by simp⟩
      · next hkey =>
          obtain ⟨before, after, rfl, hbefore⟩ := ih h
          exact ⟨(key, old) :: before, after, rfl, List.forall_mem_cons.2 ⟨hkey, hbefore⟩⟩

theorem mem_of_lookup {name : String} {value : Document} {members : Members}
    (h : members.lookup name = some value) : (name, value) ∈ members := by
  obtain ⟨before, after, rfl, -⟩ := exists_first_of_lookup h
  exact List.mem_append_right before List.mem_cons_self

/-- Something is found under a name exactly if it is the name of a member. -/
theorem exists_lookup_iff {name : String} {members : Members} :
    (∃ value, members.lookup name = some value) ↔ name ∈ members.names := by
  constructor
  · rintro ⟨value, h⟩
    exact List.mem_map_of_mem (f := Prod.fst) (mem_of_lookup h)
  · intro h
    induction members with
    | nil => cases h
    | cons head members ih =>
        rw [lookup]
        split
        · exact ⟨_, rfl⟩
        · next hkey =>
            rw [names, List.map_cons, List.mem_cons] at h
            exact ih (h.resolve_left (Ne.symm hkey))

/-! ### Members in order -/

/-- Members in order have distinct names. -/
theorem Ordered.nodup {members : Members} (h : members.Ordered) : members.names.Nodup := by
  rw [List.Nodup, names, List.pairwise_map]
  exact List.Pairwise.imp ne_of_lt h

/-- A member of members in order is found under its name. -/
theorem Ordered.lookup_of_mem {members : Members} (h : members.Ordered) {name : String} {value : Document}
    (hmem : (name, value) ∈ members) : members.lookup name = some value := by
  obtain ⟨before, after, rfl⟩ := List.append_of_mem hmem
  refine lookup_of_first (fun member hmember => ?_) value after
  exact ne_of_lt ((List.pairwise_append.1 h).2.2 member hmember _ List.mem_cons_self)

/-- In front of a member in order stand those with smaller names. -/
theorem Ordered.mem_before_iff {before after : Members} {name other : String} {value content : Document}
    (h : Ordered (before ++ (name, value) :: after)) (hmem : (other, content) ∈ before ++ (name, value) :: after) :
    (other, content) ∈ before ↔ other < name := by
  obtain ⟨-, hafter, hbefore⟩ := List.pairwise_append.1 h
  constructor
  · intro hother
    exact hbefore _ hother _ List.mem_cons_self
  · intro hless
    obtain hother | hother := List.mem_append.1 hmem
    · exact hother
    · obtain heq | hother := List.mem_cons.1 hother
      · cases heq
        exact absurd hless (lt_irrefl name)
      · exact absurd hless ((List.pairwise_cons.1 hafter).1 _ hother).asymm

theorem mem_insert {name : String} {value : Document} {members : Members} {member : String × Document}
    (h : member ∈ members.insert name value) : member = (name, value) ∨ member ∈ members := by
  induction members with
  | nil => exact .inl (List.mem_singleton.1 h)
  | cons head members ih =>
      rw [insert] at h
      split at h
      · exact (List.mem_cons.1 h).imp_right (List.mem_cons_of_mem head)
      · split at h
        · obtain rfl | h := List.mem_cons.1 h
          · exact .inr List.mem_cons_self
          · exact (ih h).imp_right (List.mem_cons_of_mem head)
        · exact List.mem_cons.1 h

/-- An insertion keeps members in order. -/
theorem Ordered.insert {members : Members} (h : members.Ordered) (name : String) (value : Document) :
    (members.insert name value).Ordered := by
  induction members with
  | nil => exact List.pairwise_singleton ..
  | cons head members ih =>
      obtain ⟨key, old⟩ := head
      obtain ⟨hhead, hrest⟩ := List.pairwise_cons.1 h
      rw [Members.insert]
      split
      · next hkey =>
          subst hkey
          exact List.pairwise_cons.2 ⟨hhead, hrest⟩
      · next hkey =>
          split
          · next hlt =>
              refine List.pairwise_cons.2 ⟨fun member hmember => ?_, ih hrest⟩
              obtain rfl | hmember := mem_insert hmember
              · exact hlt
              · exact hhead member hmember
          · next hlt =>
              have hname : name < key := (lt_trichotomy name key).resolve_right fun hor =>
                hor.elim (fun heq => hkey heq.symm) hlt
              refine List.pairwise_cons.2 ⟨fun member hmember => ?_, h⟩
              obtain rfl | hmember := List.mem_cons.1 hmember
              · exact hname
              · exact lt_trans hname (hhead member hmember)

/-- Members in order are the same if the same is found in them under every name. -/
theorem Ordered.ext {members others : Members} (h : members.Ordered) (h' : others.Ordered)
    (found : ∀ name, members.lookup name = others.lookup name) : members = others := by
  have hnodup : ∀ {list : Members}, list.Ordered → list.Nodup := fun hlist => List.Nodup.of_map _ hlist.nodup
  have hperm : members.Perm others := by
    rw [List.perm_ext_iff_of_nodup (hnodup h) (hnodup h')]
    intro member
    constructor
    · intro hmem
      exact mem_of_lookup ((found member.1).symm.trans (h.lookup_of_mem hmem))
    · intro hmem
      exact mem_of_lookup ((found member.1).trans (h'.lookup_of_mem hmem))
  refine hperm.eq_of_pairwise (fun member other _ _ hlt hgt => ?_) h h'
  exact absurd hlt (lt_asymm hgt)

/-! ### Entries -/

theorem ofList_concat (entries : Members) (name : String) (value : Document) :
    ofList (entries ++ [(name, value)]) = (ofList entries).insert name value := by
  rw [ofList, List.foldl_append]
  rfl

/-- The members of an object that is made of entries are in order. -/
theorem ordered_ofList (entries : Members) : (ofList entries).Ordered := by
  induction entries using List.reverseRecOn with
  | nil => exact List.Pairwise.nil
  | append_singleton entries entry ih =>
      rw [ofList_concat]
      exact ih.insert entry.1 entry.2

/-- A member of an object that is made of entries is one of them. -/
theorem mem_of_mem_ofList {entries : Members} {member : String × Document} (h : member ∈ ofList entries) :
    member ∈ entries := by
  induction entries using List.reverseRecOn with
  | nil => cases h
  | append_singleton entries entry ih =>
      rw [ofList_concat] at h
      rw [List.mem_append, List.mem_singleton]
      exact (mem_insert h).symm.imp_left ih

/-- What is found under a name is what is found first from the end. -/
theorem lookup_ofList (name : String) (entries : Members) :
    (ofList entries).lookup name = lookup name entries.reverse := by
  induction entries using List.reverseRecOn with
  | nil => rfl
  | append_singleton entries entry ih =>
      obtain ⟨key, value⟩ := entry
      rw [ofList_concat, List.reverse_append, List.reverse_singleton, List.singleton_append, lookup]
      split
      · next hkey =>
          subst hkey
          exact lookup_insert_self ..
      · next hkey => rw [lookup_insert_of_ne (Ne.symm hkey), ih]

/-- Of the entries with one name the last one counts. -/
theorem lookup_ofList_of_last {name : String} {after : Members} (h : ∀ entry ∈ after, entry.1 ≠ name)
    (before : Members) (value : Document) :
    (ofList (before ++ (name, value) :: after)).lookup name = some value := by
  rw [lookup_ofList, List.reverse_append, List.reverse_cons, List.append_assoc, List.singleton_append]
  exact lookup_of_first (fun entry hentry => h entry (List.mem_reverse.1 hentry)) value before.reverse

/-- The names are those of the entries. -/
theorem mem_names_ofList {name : String} {entries : Members} :
    name ∈ (ofList entries).names ↔ name ∈ entries.names := by
  rw [← exists_lookup_iff, lookup_ofList, exists_lookup_iff, names, List.map_reverse, List.mem_reverse, names]

/-- The names of the entries, each once. -/
theorem names_ofList_perm (entries : Members) : (ofList entries).names.Perm entries.names.dedup := by
  rw [List.perm_ext_iff_of_nodup (ordered_ofList entries).nodup (List.nodup_dedup _)]
  intro name
  rw [mem_names_ofList, List.mem_dedup]

/-- No entry is lost exactly if the names of the entries are distinct. -/
theorem length_ofList_eq_iff {entries : Members} :
    (ofList entries).length = entries.length ↔ entries.names.Nodup := by
  have hlength : (ofList entries).length = entries.names.dedup.length := by
    rw [← (names_ofList_perm entries).length_eq, names, List.length_map]
  have hentries : entries.length = entries.names.length := (List.length_map _).symm
  rw [hlength, hentries, ← List.dedup_eq_self]
  exact ⟨(List.dedup_sublist _).eq_of_length, congrArg List.length⟩

end Converge.Members
