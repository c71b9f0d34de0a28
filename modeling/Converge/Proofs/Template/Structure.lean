import Converge.Proofs.Template.Filling
import Converge.Yaml.Reader

/-!
# The shape of a filled document

Filling goes down a template and replaces texts and names, so what stands at a path of the template is found again,
filled, at the path whose names are filled too. There is one exception. Two members of one object may be given the
same name. The object then has room for one of them only, and the last one counts: the others are gone, and no error
tells of it.

## Main Definitions

* `Template.Reaches` — a way down a template on which no later member takes the name of the one that is followed,
  and the way that it becomes.
* `Template.Apart` — two members that are not given the same name.
* `Template.Resembles` — what filling keeps of a document and its parts.

## Main Statements

* `Template.Reaches.exists_filled` — at the end of such a way stands what the end of the way in the template is
  filled to.
* `Template.shape_kept_but_for_clashes` — every array, every object and every other value keeps its shape, and nothing
  is lost where names stay apart.
* `Template.clashing_names_lose_a_member` — a template whose names do not stay apart.
-/

namespace Converge.Template

open Document (Step)

variable {bindings : Bindings}

/-- A way down a template, and the way that it becomes once names are filled. Each member that is followed is the
last one to be given its name. -/
inductive Reaches (bindings : Bindings) : Document → List Step → List Step → Document → Prop
  | here (document : Document) : Reaches bindings document [] [] document
  | item {items : List Document} {position : Nat} {item value : Document} {path place : List Step}
      (found : items[position]? = some item) (rest : Reaches bindings item path place value) :
      Reaches bindings (.array items) (.item position :: path) (.item position :: place) value
  | member {before after : Members} {name filled : String} {child value : Document} {path place : List Step}
      (first : ∀ member ∈ before, member.1 ≠ name) (becomes : NamesTo bindings name filled)
      (last : ∀ member ∈ after, ¬ NamesTo bindings member.1 filled)
      (rest : Reaches bindings child path place value) :
      Reaches bindings (.object (before ++ (name, child) :: after)) (.member name :: path) (.member filled :: place)
        value

/-- Two members that are not given the same name. -/
def Apart (bindings : Bindings) (member other : String × Document) : Prop :=
  ∀ filled, NamesTo bindings member.1 filled → ¬ NamesTo bindings other.1 filled

/-- What filling keeps of a document: an array stays one of the same length, and an object one with the names that
its members are given, of which there are as many as members exactly if no two are the same. A text becomes its value,
and all else stays as it is. -/
def Resembles (bindings : Bindings) : Document → Document → Prop
  | .string text, filled => valueOfText bindings text = .ok filled
  | .array items, filled => ∃ results, filled = .array results ∧ results.length = items.length
  | .object members, filled => ∃ results : Members, filled = .object results ∧ results.Ordered ∧
      (∀ name, name ∈ results.names ↔ ∃ member ∈ members, NamesTo bindings member.1 name) ∧
      (results.length = members.length ↔ members.Pairwise (Apart bindings))
  | document, filled => filled = document

/-! ### Names -/

/-- Entries have distinct names exactly if the members that they come of stay apart. -/
theorem nodup_names_iff {members entries : Members}
    (h : List.Forall₂ (fun member entry => NamesTo bindings member.1 entry.1) members entries) :
    entries.names.Nodup ↔ members.Pairwise (Apart bindings) := by
  induction h with
  | nil => exact iff_of_true List.nodup_nil List.Pairwise.nil
  | @cons member entry members entries hname hrest ih =>
      have hapart : entry.1 ∉ Members.names entries ↔ ∀ other ∈ members, Apart bindings member other := by
        constructor
        · intro hnotMem other hother filled hfilled hsame
          obtain ⟨result, hresult, hbecomes⟩ := exists_result_of_forall₂ hrest hother
          refine hnotMem (List.mem_map.2 ⟨result, hresult, ?_⟩)
          rw [hname.unique hfilled, hbecomes.unique hsame]
        · intro h hmem
          obtain ⟨result, hresult, hsame⟩ := List.mem_map.1 hmem
          obtain ⟨other, hother, hbecomes⟩ := exists_mem_of_forall₂ hrest hresult
          exact h other hother entry.1 hname (hsame ▸ hbecomes)
      rw [Members.names, List.map_cons, List.nodup_cons, List.pairwise_cons]
      exact and_congr hapart ih

theorem resembles_of_fillsTo {document filled : Document} (h : FillsTo bindings document filled) :
    Resembles bindings document filled := by
  cases document with
  | null | bool | number => exact (Except.ok.inj h).symm
  | string text => exact fillsTo_string_iff.1 h
  | array items =>
      obtain ⟨results, hresults, rfl⟩ := fillsTo_array_iff.1 h
      exact ⟨results, rfl, hresults.length_eq.symm⟩
  | object members =>
      obtain ⟨entries, hentries, rfl⟩ := fillsTo_object_iff.1 h
      have hnames : List.Forall₂ (fun member entry => NamesTo bindings member.1 entry.1) members entries :=
        hentries.imp fun _ _ h => h.1
      refine ⟨_, rfl, Members.ordered_ofList entries, fun name => ?_, ?_⟩
      · rw [Members.mem_names_ofList]
        constructor
        · intro hname
          obtain ⟨entry, hentry, rfl⟩ := List.mem_map.1 hname
          exact exists_mem_of_forall₂ hnames hentry
        · rintro ⟨member, hmember, hbecomes⟩
          obtain ⟨entry, hentry, hname⟩ := exists_result_of_forall₂ hnames hmember
          exact List.mem_map.2 ⟨entry, hentry, hname.unique hbecomes⟩
      · rw [hentries.length_eq, Members.length_ofList_eq_iff]
        exact nodup_names_iff hnames

/-! ### Ways down -/

/-- The way that is followed in the template is a path of it. -/
theorem Reaches.at? {template value : Document} {path place : List Step}
    (h : Reaches bindings template path place value) : template.at? path = some value := by
  induction h with
  | here => exact Document.at?_nil _
  | item found _ ih => exact Document.at?_cons_eq_some_iff.2 ⟨_, found, ih⟩
  | member first _ _ _ ih =>
      exact Document.at?_cons_eq_some_iff.2 ⟨_, Members.lookup_of_first first _ _, ih⟩

/-- At the end of a way stands what the end of the way in the template is filled to. -/
theorem Reaches.exists_filled {template rendered value : Document} {path place : List Step}
    (h : Reaches bindings template path place value) (hfill : FillsTo bindings template rendered) :
    ∃ filled, rendered.at? place = some filled ∧ FillsTo bindings value filled := by
  induction h generalizing rendered with
  | here => exact ⟨rendered, Document.at?_nil rendered, hfill⟩
  | item found _ ih =>
      obtain ⟨results, hresults, rfl⟩ := fillsTo_array_iff.1 hfill
      obtain ⟨result, hresult, hitem⟩ := exists_getElem?_of_forall₂ hresults found
      obtain ⟨filled, hat, hfilled⟩ := ih hitem
      exact ⟨filled, Document.at?_cons_eq_some_iff.2 ⟨result, hresult, hat⟩, hfilled⟩
  | member _ becomes last _ ih =>
      obtain ⟨entries, hentries, rfl⟩ := fillsTo_object_iff.1 hfill
      obtain ⟨left, ⟨filledName, result⟩, right, -, ⟨hname, hchild⟩, hright, rfl⟩ := exists_split_of_forall₂ hentries
      obtain ⟨filled, hat, hfilled⟩ := ih hchild
      obtain rfl := hname.unique becomes
      -- No later entry has the name, so nothing is put over the entry of this member.
      have hlast : ∀ entry ∈ right, entry.1 ≠ filledName := by
        rintro entry hentry rfl
        obtain ⟨member, hmember, hsame, -⟩ := exists_mem_of_forall₂ hright hentry
        exact last member hmember hsame
      exact ⟨filled, Document.at?_cons_eq_some_iff.2 ⟨result, Members.lookup_ofList_of_last hlast left result, hat⟩,
        hfilled⟩

/-- Where names stay apart, every path of a template that is filled is such a way. -/
theorem exists_reaches {template rendered value : Document} {path : List Step}
    (hfill : FillsTo bindings template rendered)
    (apart : ∀ path members, template.at? path = some (.object members) → members.Pairwise (Apart bindings))
    (hat : template.at? path = some value) : ∃ place, Reaches bindings template path place value := by
  induction path generalizing template rendered with
  | nil =>
      rw [Document.at?_nil, Option.some.injEq] at hat
      exact ⟨[], hat ▸ .here template⟩
  | cons step path ih =>
      obtain ⟨next, hstep, hnext⟩ := Document.at?_cons_eq_some_iff.1 hat
      have apart' : ∀ path members, next.at? path = some (.object members) → members.Pairwise (Apart bindings) :=
        fun path members h => apart (step :: path) members (Document.at?_cons_eq_some_iff.2 ⟨next, hstep, h⟩)
      unfold Document.step? at hstep
      split at hstep
      · obtain ⟨results, hresults, rfl⟩ := fillsTo_array_iff.1 hfill
        obtain ⟨result, -, hitem⟩ := exists_getElem?_of_forall₂ hresults hstep
        obtain ⟨place, hreach⟩ := ih hitem apart' hnext
        exact ⟨_, .item hstep hreach⟩
      · obtain ⟨entries, hentries, rfl⟩ := fillsTo_object_iff.1 hfill
        -- What is found is the first member with the name; that no later one takes its name is what `apart` says.
        obtain ⟨before, after, rfl, first⟩ := Members.exists_first_of_lookup hstep
        obtain ⟨-, entry, -, -, ⟨hname, hchild⟩, -, -⟩ := exists_split_of_forall₂ hentries
        obtain ⟨place, hreach⟩ := ih hchild apart' hnext
        have hpairwise := (List.pairwise_append.1 (apart [] _ (Document.at?_nil _))).2.1
        have hlater := (List.pairwise_cons.1 hpairwise).1
        exact ⟨_, .member first hname (fun member hmember => hlater member hmember entry.1 hname) hreach⟩
      · cases hstep

/-- **Filling keeps the shape of a template, but for clashing names.** A way down the template on which each member
is the last one to be given its name leads, with its names filled, to what the end of the way is filled to, and this
is of the same shape: arrays are as long as they were, numbers, booleans and nulls are as they were, and objects have
the names that their members are given, and as many members as before exactly if no two are given the same. If this is
so all over the template, every path of the template is such a way. -/
theorem shape_kept_but_for_clashes {location : List String} {template rendered : Document}
    (h : fill bindings location template = .ok rendered) :
    (∀ path place value, Reaches bindings template path place value →
      template.at? path = some value ∧
      ∃ filled, rendered.at? place = some filled ∧ FillsTo bindings value filled ∧
        Resembles bindings value filled) ∧
    ((∀ path members, template.at? path = some (.object members) → members.Pairwise (Apart bindings)) →
      ∀ path value, template.at? path = some value → ∃ place, Reaches bindings template path place value) := by
  have hfill : FillsTo bindings template rendered := fill_eq_ok_iff.1 h
  refine ⟨?_, fun apart path value hat => exists_reaches hfill apart hat⟩
  intro path place value reaches
  obtain ⟨filled, hat, hfilled⟩ := reaches.exists_filled hfill
  exact ⟨reaches.at?, filled, hat, hfilled, resembles_of_fillsTo hfilled⟩

/-- An object with two members, of which one is named by a binding. -/
def levels : Document :=
  .object [("$\x7b\x7b key \x7d\x7d", .array [.ofNat 1, .string "$\x7b\x7b size \x7d\x7d"]), ("mode", .string "fast")]

/-- A named member keeps its array where no other member has the name. -/
theorem shape_kept_of_levels :
    let bindings := Table.ofList [("key", .string "level"), ("size", .ofNat 3)]
    let rendered := Document.object [("level", .array [.ofNat 1, .ofNat 3]), ("mode", .string "fast")]
    let items := Document.array [.ofNat 1, .string "$\x7b\x7b size \x7d\x7d"]
    fill bindings [] levels = .ok rendered ∧
      ∃ filled, rendered.at? [.member "level"] = some filled ∧ FillsTo bindings items filled ∧
        Resembles bindings items filled := by
  intro bindings rendered items
  have hfill : fill bindings [] levels = .ok rendered := by decide +kernel +revert
  have becomes : NamesTo bindings "$\x7b\x7b key \x7d\x7d" "level" := by decide +kernel +revert
  have stays : ¬ NamesTo bindings "mode" "level" := by decide +kernel +revert
  have reaches : Reaches bindings levels [.member "$\x7b\x7b key \x7d\x7d"] [.member "level"] items :=
    .member (List.forall_mem_nil _) becomes (List.forall_mem_singleton.2 stays) (.here items)
  exact ⟨hfill, ((shape_kept_but_for_clashes hfill).1 _ _ _ reaches).2⟩

/-- Two members of an object are given one name. Rendering goes well, one of them is left, and the other one is gone
with its array. -/
theorem clashing_names_lose_a_member :
    let text := "levels:\n  $\x7b\x7b key \x7d\x7d: [1, \"$\x7b\x7b size \x7d\x7d\"]\n  mode: fast\n"
    Yaml.read text = .ok (.object [("levels", levels)]) ∧ levels.members.length = 2 ∧
      render Yaml.read text (Table.ofList [("key", .string "mode"), ("size", .ofNat 3)]) =
        .ok [.object [("levels", .object [("mode", .string "fast")])]] := by
  decide +kernel

end Converge.Template
