import Converge.Proofs.Document.Path
import Converge.Proofs.Pairing
import Converge.Template

/-!
# What a document is filled to

Filling a document succeeds in one way only, and where in a template the document stands has no part in it: the
location goes into errors alone. So success is a relation between a document and what it is filled to. It goes down
the document, item by item and member by member.

## Main Definitions

* `Template.FillsTo` — a document and what it is filled to.
* `Template.NamesTo` — the name of a member and what it becomes.

## Main Statements

* `Template.fill_eq_ok_iff` — wherever a document stands, it is filled to the same.
* `Template.fillsTo_array_iff`, `Template.fillsTo_object_iff` — the relation for an array and for an object.
-/

namespace Converge.Template

variable {bindings : Bindings} {location : List String}

/-- The bindings turn the name of a member into another one. -/
def NamesTo (bindings : Bindings) (name filled : String) : Prop :=
  ∃ value, valueOfText bindings name = .ok value ∧ String.ofList (written value) = filled

/-- The bindings fill a document to another one. -/
def FillsTo (bindings : Bindings) (document filled : Document) : Prop :=
  fill bindings [] document = .ok filled

/-- A name becomes one name only. -/
theorem NamesTo.unique {name filled filled' : String} (h : NamesTo bindings name filled)
    (h' : NamesTo bindings name filled') : filled = filled' := by
  obtain ⟨value, hvalue, rfl⟩ := h
  obtain ⟨value', hvalue', rfl⟩ := h'
  rw [Except.ok.inj (hvalue.symm.trans hvalue')]

/-- A document is filled to one document only. -/
theorem FillsTo.unique {document filled filled' : Document} (h : FillsTo bindings document filled)
    (h' : FillsTo bindings document filled') : filled = filled' :=
  Except.ok.inj (Eq.trans (Eq.symm h) h')

theorem nameOf_eq_ok_iff {name filled : String} :
    nameOf bindings location name = .ok filled ↔ NamesTo bindings name filled := by
  rw [nameOf, map_eq_ok_iff, NamesTo]
  simp only [mapError_eq_ok_iff]

instance (name filled : String) : Decidable (NamesTo bindings name filled) :=
  decidable_of_iff (nameOf bindings [] name = .ok filled) nameOf_eq_ok_iff

/-! ### Items and members -/

/-- A list of documents is filled one by one. -/
theorem fillItems_eq_ok_iff {items filled : List Document}
    (h : ∀ item ∈ items, ∀ location result, fill bindings location item = .ok result ↔ FillsTo bindings item result)
    (position : Nat) :
    fillItems bindings location position items = .ok filled ↔ List.Forall₂ (FillsTo bindings) items filled := by
  induction items generalizing filled position with
  | nil =>
      rw [fillItems, List.forall₂_nil_left_iff, Except.ok.injEq]
      exact eq_comm
  | cons item items ih =>
      rw [List.forall_mem_cons] at h
      rw [fillItems, List.forall₂_cons_left_iff]
      simp only [bind_eq_ok_iff, pure_eq_ok_iff, h.1, ih h.2]
      constructor
      · rintro ⟨first, hfirst, rest, hrest, rfl⟩
        exact ⟨first, rest, hfirst, hrest, rfl⟩
      · rintro ⟨first, rest, hfirst, hrest, rfl⟩
        exact ⟨first, hfirst, rest, hrest, rfl⟩

/-- Members are filled one by one, each in its name and in its value. -/
theorem fillMembers_eq_ok_iff {members filled : List (String × Document)}
    (h : ∀ member ∈ members, ∀ location result,
      fill bindings location member.2 = .ok result ↔ FillsTo bindings member.2 result) :
    fillMembers bindings location members = .ok filled ↔
      List.Forall₂ (fun member entry => NamesTo bindings member.1 entry.1 ∧ FillsTo bindings member.2 entry.2)
        members filled := by
  induction members generalizing filled with
  | nil =>
      rw [fillMembers, List.forall₂_nil_left_iff, Except.ok.injEq]
      exact eq_comm
  | cons member members ih =>
      obtain ⟨name, value⟩ := member
      rw [List.forall_mem_cons] at h
      rw [fillMembers, List.forall₂_cons_left_iff]
      simp only [fillMember, bind_eq_ok_iff, pure_eq_ok_iff, nameOf_eq_ok_iff, h.1, ih h.2]
      constructor
      · rintro ⟨_, ⟨name', hname, value', hvalue, rfl⟩, rest, hrest, rfl⟩
        exact ⟨(name', value'), rest, ⟨hname, hvalue⟩, hrest, rfl⟩
      · rintro ⟨entry, rest, ⟨hname, hvalue⟩, hrest, rfl⟩
        exact ⟨entry, ⟨entry.1, hname, entry.2, hvalue, rfl⟩, rest, hrest, rfl⟩

/-! ### Documents -/

/-- Wherever a document stands, it is filled to the same. -/
theorem fill_eq_ok_iff {document filled : Document} :
    fill bindings location document = .ok filled ↔ FillsTo bindings document filled := by
  induction document using Document.byParts generalizing location filled with
  | null | bool | number => exact Iff.rfl
  | string text =>
      rw [FillsTo, fill, fill, mapError_eq_ok_iff, mapError_eq_ok_iff]
  | array items ih =>
      rw [FillsTo, fill, fill, map_eq_ok_iff, map_eq_ok_iff]
      simp only [fillItems_eq_ok_iff fun item hitem location result => ih item hitem]
  | object members ih =>
      rw [FillsTo, fill, fill, map_eq_ok_iff, map_eq_ok_iff]
      simp only [fillMembers_eq_ok_iff fun member hmember location result => ih member hmember]

theorem fillsTo_string_iff {text : String} {filled : Document} :
    FillsTo bindings (.string text) filled ↔ valueOfText bindings text = .ok filled := by
  rw [FillsTo, fill, mapError_eq_ok_iff]

/-- An array is filled item by item. -/
theorem fillsTo_array_iff {items : List Document} {filled : Document} :
    FillsTo bindings (.array items) filled ↔
      ∃ results, List.Forall₂ (FillsTo bindings) items results ∧ filled = .array results := by
  rw [FillsTo, fill, map_eq_ok_iff]
  simp only [fillItems_eq_ok_iff fun item _ location result => fill_eq_ok_iff, eq_comm]

/-- An object is filled member by member, and what comes of it is put into an object again. -/
theorem fillsTo_object_iff {members : Members} {filled : Document} :
    FillsTo bindings (.object members) filled ↔
      ∃ entries, List.Forall₂ (fun member entry =>
          NamesTo bindings member.1 entry.1 ∧ FillsTo bindings member.2 entry.2) members entries ∧
        filled = .object (Members.ofList entries) := by
  rw [FillsTo, fill, map_eq_ok_iff]
  simp only [fillMembers_eq_ok_iff fun member _ location result => fill_eq_ok_iff, eq_comm]

/-! ### What stops the filling -/

/-- An array is filled if each of its items is. -/
theorem exists_fillsTo_array_iff {items : List Document} :
    (∃ filled, FillsTo bindings (.array items) filled) ↔ ∀ item ∈ items, ∃ filled, FillsTo bindings item filled := by
  rw [← exists_forall₂_iff]
  simp only [fillsTo_array_iff]
  constructor
  · rintro ⟨_, results, hresults, rfl⟩
    exact ⟨results, hresults⟩
  · rintro ⟨results, hresults⟩
    exact ⟨_, results, hresults, rfl⟩

/-- An object is filled if each of its members is, in its name and in its value. -/
theorem exists_fillsTo_object_iff {members : Members} :
    (∃ filled, FillsTo bindings (.object members) filled) ↔ ∀ member ∈ members,
      (∃ filled, NamesTo bindings member.1 filled) ∧ ∃ filled, FillsTo bindings member.2 filled := by
  have hentries : (∃ filled, FillsTo bindings (.object members) filled) ↔
      ∃ entries, List.Forall₂ (fun member (entry : String × Document) =>
        NamesTo bindings member.1 entry.1 ∧ FillsTo bindings member.2 entry.2) members entries := by
    simp only [fillsTo_object_iff]
    constructor
    · rintro ⟨_, entries, hentries, rfl⟩
      exact ⟨entries, hentries⟩
    · rintro ⟨entries, hentries⟩
      exact ⟨_, entries, hentries, rfl⟩
  rw [hentries, exists_forall₂_iff]
  simp only [Prod.exists, exists_and_left, exists_and_right]

/-- A list of documents is filled up to the first that is not, which is the one at its position. -/
theorem fillItems_eq_error_iff {items : List Document} {finding : Finding} (position : Nat) :
    fillItems bindings location position items = .error finding ↔ ∃ before item after,
      items = before ++ item :: after ∧ (∀ earlier ∈ before, ∃ filled, FillsTo bindings earlier filled) ∧
        fill bindings (location ++ [(position + before.length).repr]) item = .error finding := by
  induction items generalizing position with
  | nil => simp [fillItems]
  | cons head items ih =>
      rw [fillItems, bind_eq_error_iff]
      constructor
      · rintro (hhead | ⟨filled, hfilled, hrest⟩)
        · exact ⟨[], head, items, rfl, List.forall_mem_nil _, hhead⟩
        · obtain hrest | ⟨_, -, hpure⟩ := bind_eq_error_iff.1 hrest
          · obtain ⟨before, item, after, rfl, hbefore, hitem⟩ := (ih (position + 1)).1 hrest
            refine ⟨head :: before, item, after, rfl, ?_, ?_⟩
            · exact List.forall_mem_cons.2 ⟨⟨filled, fill_eq_ok_iff.1 hfilled⟩, hbefore⟩
            · rwa [List.length_cons, Nat.add_comm before.length, ← Nat.add_assoc]
          · cases hpure
      · rintro ⟨before, item, after, hitems, hbefore, hitem⟩
        cases before with
        | nil =>
            obtain ⟨rfl, rfl⟩ := List.cons_eq_cons.1 hitems
            exact .inl hitem
        | cons first before =>
            obtain ⟨rfl, rfl⟩ := List.cons_eq_cons.1 hitems
            obtain ⟨⟨filled, hfilled⟩, hbefore⟩ := List.forall_mem_cons.1 hbefore
            refine .inr ⟨filled, fill_eq_ok_iff.2 hfilled, bind_eq_error_iff.2 (.inl ?_)⟩
            refine (ih (position + 1)).2 ⟨before, item, after, rfl, hbefore, ?_⟩
            rwa [Nat.add_assoc, Nat.add_comm 1]

/-- A member is not filled because of its name, or else because of its value. -/
theorem fillMember_eq_error_iff {member : String × Document} {finding : Finding} :
    fillMember bindings location member = .error finding ↔
      nameOf bindings (location ++ [member.1]) member.1 = .error finding ∨
        (∃ filled, NamesTo bindings member.1 filled) ∧
          fill bindings (location ++ [member.1]) member.2 = .error finding := by
  rw [fillMember, bind_eq_error_iff]
  refine or_congr_right ?_
  simp only [nameOf_eq_ok_iff]
  constructor
  · rintro ⟨filled, hname, hvalue⟩
    obtain hvalue | ⟨_, -, hpure⟩ := bind_eq_error_iff.1 hvalue
    · exact ⟨⟨filled, hname⟩, hvalue⟩
    · cases hpure
  · rintro ⟨⟨filled, hname⟩, hvalue⟩
    exact ⟨filled, hname, bind_eq_error_iff.2 (.inl hvalue)⟩

/-- Members are filled up to the first that is not. -/
theorem fillMembers_eq_error_iff {members : Members} {finding : Finding} :
    fillMembers bindings location members = .error finding ↔ ∃ before member after,
      members = before ++ member :: after ∧
        (∀ earlier ∈ before,
          (∃ filled, NamesTo bindings earlier.1 filled) ∧ ∃ filled, FillsTo bindings earlier.2 filled) ∧
        fillMember bindings location member = .error finding := by
  have hmapM : fillMembers bindings location members = members.mapM (fillMember bindings location) := by
    induction members with
    | nil => rfl
    | cons member members ih => rw [fillMembers, ih, List.mapM_cons]
  have hmember (member : String × Document) : (∃ entry, fillMember bindings location member = .ok entry) ↔
      (∃ filled, NamesTo bindings member.1 filled) ∧ ∃ filled, FillsTo bindings member.2 filled := by
    obtain ⟨name, value⟩ := member
    simp only [fillMember, bind_eq_ok_iff, pure_eq_ok_iff, nameOf_eq_ok_iff, fill_eq_ok_iff]
    constructor
    · rintro ⟨_, name, hname, value, hvalue, rfl⟩
      exact ⟨⟨name, hname⟩, value, hvalue⟩
    · rintro ⟨⟨name, hname⟩, value, hvalue⟩
      exact ⟨_, name, hname, value, hvalue, rfl⟩
  rw [hmapM, mapM_eq_error_iff]
  simp only [hmember]

end Converge.Template
