import Converge.Document.MergePatch
import Converge.Proofs.Document.Path

/-!
# What a merge patch does

A patch is carried out member by member, and each member is patched in turn. Read path by path, it says of every
place in a document one of four things: that it goes, what stands there from now on, that an object stands there,
or nothing at all, and then the place stays as it is. Where two patches have no word on the same place, their order
does not matter.

## Main Definitions

* `Document.under?`, `Document.text?` — what stands, and what text stands, at the end of a path of names.
* `Document.patchedMember` — the value of a member after a patch.
* `Document.Silent` — a patch says nothing of a place.
* `Document.Independent` — two patches that say nothing of the same place.

## Main Statements

* `Document.get?_mergePatch` — a member of the result is the patched member of the target.
* `Document.patched_path_by_path` — what stands at each path of the result.
* `Document.mergePatch_mergePatch` — a patch that is applied again changes nothing.
* `Document.Independent.mergePatch_comm` — independent patches may be applied in either order.
* `Document.text?_mergePatch` — whether a patch decides on a text does not depend on the document.
-/

namespace Converge.Document

/-! ### Paths of names -/

theorem step?_member (document : Document) (name : String) : document.step? (.member name) = document.get? name := by
  cases document <;> rfl

/-- What stands at the end of a path of names, each of which leads into an object. -/
def under? (document : Document) (names : List String) : Option Document := document.at? (names.map .member)

@[simp] theorem under?_nil (document : Document) : document.under? [] = some document := at?_nil document

@[simp] theorem under?_cons (document : Document) (name : String) (names : List String) :
    document.under? (name :: names) = (document.get? name).bind (·.under? names) := by
  rw [under?, List.map_cons, at?_cons, step?_member]
  rfl

/-- Nothing stands under null, so a member that is missing may be taken for null. -/
theorem under?_getD_null (value : Option Document) (name : String) (names : List String) :
    (value.getD .null).under? (name :: names) = value.bind (·.under? (name :: names)) := by
  cases value with
  | none => exact under?_cons .null name names
  | some value => rfl

/-- What has something under a name is an object. -/
theorem exists_object_of_get? {document value : Document} {name : String} (h : document.get? name = some value) :
    ∃ members, document = .object members ∧ Members.lookup name members = some value := by
  cases document with
  | object members => exact ⟨members, rfl, h⟩
  | null | bool | number | string | array => cases h

theorem exists_object_of_isObject {document : Document} (h : document.isObject) :
    ∃ members, document = .object members := by
  cases document with
  | object members => exact ⟨members, rfl⟩
  | null | bool | number | string | array => cases h

/-- What has something at the end of a path is an object, and what it has under the first name is not null, unless
null is what stands there. -/
theorem exists_next_of_under? {document value : Document} {name : String} {names : List String}
    (h : document.under? (name :: names) = some value) (hnull : names = [] → value ≠ .null) :
    ∃ members next, document = .object members ∧ Members.lookup name members = some next ∧ next ≠ .null ∧
      next.under? names = some value := by
  obtain ⟨next, hnext, hrest⟩ := Option.bind_eq_some_iff.1 ((under?_cons ..).symm.trans h)
  obtain ⟨members, rfl, hlookup⟩ := exists_object_of_get? hnext
  refine ⟨members, next, rfl, hlookup, ?_, hrest⟩
  rintro rfl
  cases names with
  | nil => exact hnull rfl (Option.some.inj hrest).symm
  | cons => cases hrest

/-! ### Objects in order -/

theorem ordered_string (text : String) : (Document.string text).Ordered := True.intro

theorem ordered_ofNat (n : Nat) : (Document.ofNat n).Ordered := True.intro

namespace Ordered

variable {document value : Document} {entries : Members}

theorem get? (h : document.Ordered) {name : String} (hget : document.get? name = some value) : value.Ordered := by
  rw [← step?_member] at hget
  exact h.step? hget

theorem getD_null {name : String} (h : document.Ordered) : ((document.get? name).getD .null).Ordered := by
  cases hget : document.get? name with
  | none => exact True.intro
  | some value => exact h.get? hget

/-- The members of a document make an object in order; what is no object has none. -/
theorem members (h : document.Ordered) : (Document.object document.members).Ordered := by
  cases document with
  | object members => exact h
  | null | bool | number | string | array => exact ⟨List.Pairwise.nil, True.intro⟩

theorem insert (h : (Document.object entries).Ordered) (name : String) (hvalue : value.Ordered) :
    (Document.object (entries.insert name value)).Ordered := by
  refine ⟨Members.Ordered.insert h.1 name value, orderedMembers_iff.2 fun member hmember => ?_⟩
  obtain rfl | hold := Members.mem_insert hmember
  · exact hvalue
  · exact orderedMembers_iff.1 h.2 member hold

/-- Members that are picked from an object make an object in order. -/
theorem filter (h : (Document.object entries).Ordered) (picks : String × Document → Bool) :
    (Document.object (entries.filter picks)).Ordered := by
  refine ⟨List.Pairwise.filter _ h.1, orderedMembers_iff.2 fun member hmember => ?_⟩
  exact orderedMembers_iff.1 h.2 member (List.mem_of_mem_filter hmember)

/-- Objects in order are the same if the same stands in them under every name. -/
theorem object_eq {others : Members} (h : (Document.object entries).Ordered)
    (h' : (Document.object others).Ordered)
    (found : ∀ name, (Document.object entries).get? name = (Document.object others).get? name) :
    Document.object entries = .object others :=
  congrArg Document.object (Members.Ordered.ext h.1 h'.1 found)

end Ordered

/-! ### One member -/

/-- The value of a member after a patch that says nothing of it, that it goes, or how it changes. -/
def patchedMember (old : Option Document) : Option Document → Option Document
  | none => old
  | some .null => none
  | some patch => some ((old.getD .null).mergePatch patch)

@[simp] theorem patchedMember_none (old : Option Document) : patchedMember old none = old := rfl

@[simp] theorem patchedMember_null (old : Option Document) : patchedMember old (some .null) = none := rfl

theorem patchedMember_some {patch : Document} (h : patch ≠ .null) (old : Option Document) :
    patchedMember old (some patch) = some ((old.getD .null).mergePatch patch) := by
  cases patch with
  | null => exact absurd rfl h
  | bool | number | string | array | object => rfl

theorem mergePatch_of_not_object {patch : Document} (h : patch.isObject = false) (target : Document) :
    target.mergePatch patch = patch := by
  cases patch with
  | object => cases h
  | null | bool | number | string | array => rfl

theorem mergePatch_object (target : Document) (patch : Members) :
    target.mergePatch (.object patch) = .object (patchMembers target.members patch) := rfl

theorem lookup_patchMember_self (target : Members) (name : String) (patch : Document) :
    (patchMember target (name, patch)).lookup name = patchedMember (target.lookup name) (some patch) := by
  cases patch with
  | null => exact Members.lookup_erase_self name target
  | bool | number | string | array | object => exact Members.lookup_insert_self name _ target

theorem lookup_patchMember_of_ne {name other : String} (h : other ≠ name) (target : Members) (patch : Document) :
    (patchMember target (name, patch)).lookup other = target.lookup other := by
  cases patch with
  | null => exact Members.lookup_erase_of_ne h target
  | bool | number | string | array | object => exact Members.lookup_insert_of_ne h _ target

/-- Members of a patch with distinct names do not come into each other's way. The induction is on the members of
the patch, over all targets. -/
theorem lookup_patchMembers {patch : Members} (h : patch.names.Nodup) (target : Members) (name : String) :
    (patchMembers target patch).lookup name = patchedMember (target.lookup name) (patch.lookup name) := by
  induction patch generalizing target with
  | nil => rfl
  | cons member patch ih =>
      obtain ⟨key, value⟩ := member
      obtain ⟨hkey, hrest⟩ := List.nodup_cons.1 h
      rw [patchMembers, ih hrest, Members.lookup]
      by_cases hname : key = name
      · subst hname
        have hnone : Members.lookup key patch = none := by
          rw [Option.eq_none_iff_forall_ne_some]
          intro other hother
          exact hkey (Members.exists_lookup_iff.1 ⟨other, hother⟩)
        rw [hnone, patchedMember_none, lookup_patchMember_self, if_pos rfl]
      · rw [lookup_patchMember_of_ne (Ne.symm hname), if_neg hname]

/-- **A member of the result is the patched member of the target.** -/
theorem get?_mergePatch {patch : Members} (h : (Document.object patch).Ordered) (target : Document) (name : String) :
    (target.mergePatch (.object patch)).get? name = patchedMember (target.get? name) (patch.lookup name) :=
  lookup_patchMembers h.1.nodup target.members name

/-- Below a member that a patch changes, the result is the changed member. -/
theorem under?_mergePatch_cons {patch : Members} (h : (Document.object patch).Ordered) {name : String}
    {value : Document} (hvalue : patch.lookup name = some value) (hnull : value ≠ .null) (target : Document)
    (names : List String) :
    (target.mergePatch (.object patch)).under? (name :: names) =
      (((target.get? name).getD .null).mergePatch value).under? names := by
  rw [under?_cons, get?_mergePatch h, hvalue, patchedMember_some hnull, Option.bind_some]

/-! ### Results in order -/

theorem ordered_patchMember {target : Members} {member : String × Document} (h : (Document.object target).Ordered)
    (hvalue : ∀ old : Document, old.Ordered → (old.mergePatch member.2).Ordered) :
    (Document.object (patchMember target member)).Ordered := by
  obtain ⟨name, patch⟩ := member
  cases patch with
  | null => exact h.filter _
  | bool | number | string | array | object => exact h.insert name (hvalue _ h.getD_null)

/-- A patch in order keeps documents in order. The outer induction is on the parts of the patch, the inner one on
its members. -/
theorem Ordered.mergePatch {target patch : Document} (h : target.Ordered) (h' : patch.Ordered) :
    (target.mergePatch patch).Ordered := by
  induction patch using byParts generalizing target with
  | null | bool | number | string | array => exact h'
  | object patch ih =>
      rw [mergePatch_object]
      have hvalues : ∀ member ∈ patch, ∀ old : Document, old.Ordered → (old.mergePatch member.2).Ordered :=
        fun member hmember old hold => ih member hmember hold (orderedMembers_iff.1 h'.2 member hmember)
      have hmembers := h.members
      -- What the members of the patch are carried out on changes from one to the next.
      clear ih h h'
      generalize target.members = members at hmembers
      induction patch generalizing members with
      | nil => exact hmembers
      | cons member patch ih =>
          rw [List.forall_mem_cons] at hvalues
          exact ih hvalues.2 _ (ordered_patchMember hmembers hvalues.1)

/-! ### Path by path -/

/-- A patch says nothing of a place: on the way there, an object of the patch lacks the next name. -/
def Silent (patch : Document) (names : List String) : Prop :=
  ∃ front name rest members, names = front ++ name :: rest ∧ patch.under? front = some (.object members) ∧
    Members.lookup name members = none

section Paths

variable {patch : Document} (ordered : patch.Ordered) (target : Document)
include ordered

/-- Where a patch has null, nothing stands any more, and nothing below. -/
theorem under?_mergePatch_of_null {names : List String} (hnames : names ≠ [])
    (hnull : patch.under? names = some .null) (rest : List String) :
    (target.mergePatch patch).under? (names ++ rest) = none := by
  induction names generalizing patch target with
  | nil => exact absurd rfl hnames
  | cons name names ih =>
      cases names with
      | nil =>
          obtain ⟨value, hvalue, hrest⟩ := Option.bind_eq_some_iff.1 ((under?_cons ..).symm.trans hnull)
          obtain ⟨members, rfl, hlookup⟩ := exists_object_of_get? hvalue
          rw [under?_nil, Option.some.injEq] at hrest
          subst hrest
          rw [List.cons_append, under?_cons, get?_mergePatch ordered, hlookup, patchedMember_null, Option.bind_none]
      | cons next names =>
          obtain ⟨members, value, rfl, hlookup, hne, hrest⟩ := exists_next_of_under? hnull fun h => nomatch h
          rw [List.cons_append, under?_mergePatch_cons ordered hlookup hne]
          exact ih (ordered.get? hlookup) _ (List.cons_ne_nil next names) hrest

/-- Where a patch has a value that is neither an object nor null, this value stands. -/
theorem under?_mergePatch_of_value {names : List String} {value : Document} (hvalue : patch.under? names = some value)
    (hobject : value.isObject = false) (hnull : value ≠ .null) (rest : List String) :
    (target.mergePatch patch).under? (names ++ rest) = value.under? rest := by
  induction names generalizing patch target with
  | nil =>
      rw [under?_nil, Option.some.injEq] at hvalue
      rw [hvalue, mergePatch_of_not_object hobject, List.nil_append]
  | cons name names ih =>
      obtain ⟨members, next, rfl, hlookup, hne, hrest⟩ := exists_next_of_under? hvalue fun _ => hnull
      rw [List.cons_append, under?_mergePatch_cons ordered hlookup hne]
      exact ih (ordered.get? hlookup) _ hrest

/-- Where a patch has an object, an object stands. -/
theorem under?_mergePatch_of_object {names : List String} {members : Members}
    (hobject : patch.under? names = some (.object members)) :
    ∃ members', (target.mergePatch patch).under? names = some (.object members') := by
  induction names generalizing patch target with
  | nil =>
      rw [under?_nil, Option.some.injEq] at hobject
      rw [hobject, mergePatch_object]
      exact ⟨_, under?_nil _⟩
  | cons name names ih =>
      obtain ⟨patch, next, rfl, hlookup, hne, hrest⟩ := exists_next_of_under? hobject fun _ h => nomatch h
      rw [under?_mergePatch_cons ordered hlookup hne]
      exact ih (ordered.get? hlookup) _ hrest

/-- Where a patch runs out, all stays as it was. -/
theorem under?_mergePatch_of_missing {names : List String} {members : Members} {name : String}
    (hobject : patch.under? names = some (.object members)) (hmissing : members.lookup name = none)
    (rest : List String) :
    (target.mergePatch patch).under? (names ++ name :: rest) = target.under? (names ++ name :: rest) := by
  induction names generalizing patch target with
  | nil =>
      rw [under?_nil, Option.some.injEq] at hobject
      subst hobject
      rw [List.nil_append, under?_cons, under?_cons, get?_mergePatch ordered, hmissing, patchedMember_none]
  | cons first names ih =>
      obtain ⟨patch, next, rfl, hlookup, hne, hrest⟩ := exists_next_of_under? hobject fun _ h => nomatch h
      rw [List.cons_append, under?_mergePatch_cons ordered hlookup hne, ih (ordered.get? hlookup) _ hrest, under?_cons]
      cases names with
      | nil => exact under?_getD_null ..
      | cons => exact under?_getD_null ..

theorem Silent.under?_mergePatch {names : List String} (silent : patch.Silent names) :
    (target.mergePatch patch).under? names = target.under? names := by
  obtain ⟨front, name, rest, members, rfl, hobject, hmissing⟩ := silent
  exact under?_mergePatch_of_missing ordered target hobject hmissing rest

end Paths

/-- **A patch that is applied again changes nothing.** The induction is on the parts of the patch: under every name,
the second patch finds what the first one has left there. -/
theorem mergePatch_mergePatch {target patch : Document} (h : target.Ordered) (h' : patch.Ordered) :
    (target.mergePatch patch).mergePatch patch = target.mergePatch patch := by
  induction patch using byParts generalizing target with
  | null | bool | number | string | array => rfl
  | object patch ih =>
      have hordered := h.mergePatch h'
      refine (hordered.mergePatch h').object_eq hordered fun name => ?_
      show ((target.mergePatch (.object patch)).mergePatch (.object patch)).get? name =
        (target.mergePatch (.object patch)).get? name
      rw [get?_mergePatch h', get?_mergePatch h']
      cases hlookup : Members.lookup name patch with
      | none => rfl
      | some value =>
          by_cases hnull : value = .null
          · subst hnull
            rfl
          · have hvalue : value.Ordered := h'.get? hlookup
            rw [patchedMember_some hnull, patchedMember_some hnull, Option.getD_some,
              ih _ (Members.mem_of_lookup hlookup) h.getD_null hvalue]

/-- **A patch path by path.** Where the patch has null, nothing stands in the result, and nothing below. Where it has
a value that is no object, this value stands with all that is below it. Where it has an object, an object stands. And
where an object of the patch lacks the next name, the result is what the target was, whether something stood there or
not. A patch that is no object takes the place of the target, and a patch that is applied again changes nothing. -/
theorem patched_path_by_path {target patch : Document} (ordered : target.Ordered) (ordered' : patch.Ordered) :
    let result := target.mergePatch patch
    (∀ names rest, names ≠ [] → patch.under? names = some .null → result.under? (names ++ rest) = none) ∧
      (∀ names rest value, patch.under? names = some value → value.isObject = false → value ≠ .null →
        result.under? (names ++ rest) = value.under? rest) ∧
      (∀ names members, patch.under? names = some (.object members) →
        ∃ members', result.under? names = some (.object members')) ∧
      (∀ names name rest members, patch.under? names = some (.object members) → Members.lookup name members = none →
        result.under? (names ++ name :: rest) = target.under? (names ++ name :: rest)) ∧
      (patch.isObject = false → result = patch) ∧ result.mergePatch patch = result := by
  intro result
  refine ⟨?_, ?_, ?_, ?_, ?_, mergePatch_mergePatch ordered ordered'⟩
  · intro names rest hnames hnull
    exact under?_mergePatch_of_null ordered' target hnames hnull rest
  · intro names rest value hvalue hobject hnull
    exact under?_mergePatch_of_value ordered' target hvalue hobject hnull rest
  · intro names members hobject
    exact under?_mergePatch_of_object ordered' target hobject
  · intro names name rest members hobject hmissing
    exact under?_mergePatch_of_missing ordered' target hobject hmissing rest
  · intro hobject
    exact mergePatch_of_not_object hobject target

/-- An object takes the place of a text, and a null is below an object that the target does not have. -/
theorem patched_path_by_path_of_levels :
    let target := Document.object [("data", .object [("mode", .string "fast"), ("size", .ofNat 3)]), ("kind", .null)]
    let patch := Document.object
      [("data", .object [("extra", .object [("deep", .null)]), ("mode", .object [("level", .array [.null])]),
        ("size", .null)])]
    let result := target.mergePatch patch
    target.Ordered ∧ patch.Ordered ∧ result.under? ["data", "size", "unit"] = none ∧
      result.under? ["data", "mode", "level"] = some (.array [.null]) ∧
      (∃ members, result.under? ["data", "extra"] = some (.object members)) ∧
      result.under? ["kind"] = some .null ∧ result.mergePatch patch = result := by
  intro target patch result
  have ordered : target.Ordered := by decide +kernel
  have ordered' : patch.Ordered := by decide +kernel
  obtain ⟨hnull, hvalue, hobject, hmissing, -, hagain⟩ := patched_path_by_path ordered ordered'
  exact ⟨ordered, ordered', hnull ["data", "size"] ["unit"] (by decide) rfl,
    hvalue ["data", "mode", "level"] [] _ rfl rfl (by decide), hobject ["data", "extra"] _ rfl,
    hmissing [] "kind" [] _ rfl rfl, hagain⟩

/-! ### Independent patches -/

/-- Both are objects, and what they have under a name that they share is independent again. -/
inductive Independent : Document → Document → Prop
  | objects {members others : Members}
      (shared : ∀ name value other, members.lookup name = some value → others.lookup name = some other →
        Independent value other) :
      Independent (.object members) (.object others)

namespace Independent

variable {patch other : Document}

theorem ne_null (h : patch.Independent other) : patch ≠ .null ∧ other ≠ .null := by
  cases h
  constructor
  · intro h
    cases h
  · intro h
    cases h

/-- It is enough that members with the same name are independent. -/
theorem objects_of_mem {members others : Members}
    (h : ∀ member ∈ members, ∀ other ∈ others, member.1 = other.1 → Independent member.2 other.2) :
    Independent (.object members) (.object others) :=
  .objects fun _ _ _ hvalue hother =>
    h _ (Members.mem_of_lookup hvalue) _ (Members.mem_of_lookup hother) rfl

theorem isObject (h : patch.Independent other) : patch.isObject ∧ other.isObject := by
  cases h
  exact ⟨rfl, rfl⟩

theorem symm (h : patch.Independent other) : other.Independent patch := by
  induction h with
  | objects _ ih => exact .objects fun name value other hvalue hother => ih name other value hother hvalue

/-- **Independent patches may be applied in either order.** The induction is on their independence: a name that only
one of them has is changed by that one alone. -/
theorem mergePatch_comm (h : patch.Independent other) {target : Document} (ordered : target.Ordered)
    (hpatch : patch.Ordered) (hother : other.Ordered) :
    (target.mergePatch patch).mergePatch other = (target.mergePatch other).mergePatch patch := by
  induction h generalizing target with
  | @objects members others shared ih =>
      refine ((ordered.mergePatch hpatch).mergePatch hother).object_eq
        ((ordered.mergePatch hother).mergePatch hpatch) fun name => ?_
      show ((target.mergePatch (.object members)).mergePatch (.object others)).get? name =
        ((target.mergePatch (.object others)).mergePatch (.object members)).get? name
      simp only [get?_mergePatch hpatch, get?_mergePatch hother]
      cases hmember : Members.lookup name members with
      | none => rfl
      | some value =>
          cases hmember' : Members.lookup name others with
          | none => rfl
          | some value' =>
              obtain ⟨hnull, hnull'⟩ := (shared name value value' hmember hmember').ne_null
              rw [patchedMember_some hnull, patchedMember_some hnull', patchedMember_some hnull,
                patchedMember_some hnull', Option.getD_some, Option.getD_some,
                ih name value value' hmember hmember' ordered.getD_null (hpatch.get? hmember) (hother.get? hmember')]

end Independent

/-! ### Texts that a patch decides on -/

/-- The text that stands at the end of a path of names. -/
def text? (document : Document) (names : List String) : Option String := (document.under? names).bind string?

/-- **Whether a patch decides on a text does not depend on the document.** Either it leaves the text of every document
as it is, or all documents have the same there afterwards. -/
theorem text?_mergePatch {patch : Document} (ordered : patch.Ordered) (hobject : patch.isObject) (names : List String) :
    (∀ target : Document, (target.mergePatch patch).text? names = target.text? names) ∨
      ∃ text, ∀ target : Document, (target.mergePatch patch).text? names = text := by
  induction names generalizing patch with
  | nil =>
      obtain ⟨members, rfl⟩ := exists_object_of_isObject hobject
      exact .inr ⟨none, fun target => rfl⟩
  | cons name names ih =>
      obtain ⟨members, rfl⟩ := exists_object_of_isObject hobject
      cases hlookup : Members.lookup name members with
      | none =>
          refine .inl fun target => ?_
          rw [text?, text?, under?_cons, under?_cons, get?_mergePatch ordered, hlookup, patchedMember_none]
      | some value =>
          by_cases hnull : value = .null
          · subst hnull
            refine .inr ⟨none, fun target => ?_⟩
            rw [text?, under?_cons, get?_mergePatch ordered, hlookup, patchedMember_null]
            rfl
          · have hbelow : ∀ target : Document, (target.mergePatch (.object members)).text? (name :: names) =
                (((target.get? name).getD .null).mergePatch value).text? names := by
              intro target
              rw [text?, under?_mergePatch_cons ordered hlookup hnull]
              rfl
            cases hvalue : value.isObject with
            | false =>
                refine .inr ⟨value.text? names, fun target => ?_⟩
                rw [hbelow, mergePatch_of_not_object hvalue]
            | true =>
                obtain hkeeps | ⟨text, hsame⟩ := ih (ordered.get? hlookup) hvalue
                · refine .inl fun target => ?_
                  rw [hbelow, hkeeps, text?, text?, under?_cons]
                  -- No text stands in null, nor below it.
                  cases target.get? name with
                  | none => cases names <;> rfl
                  | some value => rfl
                · exact .inr ⟨text, fun target => (hbelow target).trans (hsame _)⟩

end Converge.Document
