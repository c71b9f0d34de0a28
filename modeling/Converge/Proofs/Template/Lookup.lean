import Converge.Proofs.Document.Path
import Converge.Proofs.Template.Whole
import Converge.Proofs.Text.Numeral
import Converge.Proofs.Text.Splitting
import Converge.Template

/-!
# Values that are addressed by paths

A text can name any part of a value that is bound: the name of the binding comes first, and behind it the names of
members and the positions of items on the way down, with dots in between. The text then becomes the part itself. If
the way ends before the path does, what is reported is the path.

## Main Definitions

* `Template.Component`, `Template.NoBlankBehind` — a text that can stand between two dots of a path, and at its end.
* `Template.addressing` — the text that names a part of a value.
* `Template.Leads` — where the components of a path lead.

## Main Statements

* `Template.leads_of_at?` — every part of a value has a path that leads to it.
* `Template.resolve_joined` — a path is resolved to where it leads.
* `Template.addressed_exactly` — what becomes of a text that names a part of a value.

## Design Notes

Whether a component is a name or a position is not a matter of the component but of the value it is applied to: `0` is
a position in an array and a name in an object. A position has more than one numeral, and all of them lead to the item.
Positions are read as words of 64 bits; no array in memory is longer than these count, but a list may be.
-/

namespace Converge.Template

open Chars
open Document (Step)

/-- A text that can stand between two dots of a path: it is not blank, and there is neither a dot nor a mark of an
expression in it. -/
structure Component (text : String) : Prop where
  notBlank : blank text = false
  undotted : '.' ∉ text.toList
  unopened : ¬ opening <:+: text.toList
  unclosed : ¬ closing <:+: text.toList

instance : DecidablePred Component := fun text =>
  decidable_of_iff (blank text = false ∧ '.' ∉ text.toList ∧ contains opening text.toList = false ∧
      contains closing text.toList = false) <| by
    rw [contains_eq_false_iff, contains_eq_false_iff]
    exact ⟨fun ⟨notBlank, undotted, unopened, unclosed⟩ => ⟨notBlank, undotted, unopened, unclosed⟩,
      fun h => ⟨h.notBlank, h.undotted, h.unopened, h.unclosed⟩⟩

/-- What comes last in a path does not end with a blank. -/
def NoBlankBehind (parts : List String) : Prop :=
  ∀ last ∈ parts.getLast?, ∀ c ∈ last.toList.getLast?, isBlank c = false

/-- The text that names the part of a value that a path leads to. -/
def addressing (path : String) : String := "$\x7b\x7b bindings." ++ path ++ " \x7d\x7d"

/-- Where the components of a path lead from a value: below an object to the member of this name, below an array to the
item at the position that the component is a numeral of, and below anything else nowhere. -/
inductive Leads : Document → List String → Document → Prop
  | here (value : Document) : Leads value [] value
  | member {members : Members} {name : String} {next target : Document} {parts : List String}
      (found : Members.lookup name members = some next) (rest : Leads next parts target) :
      Leads (.object members) (name :: parts) target
  | item {items : List Document} {numeral : String} {position : Nat} {next target : Document} {parts : List String}
      (isNumeral : Numeral numeral.toList position) (fits : position < wordBound) (found : items[position]? = some next)
      (rest : Leads next parts target) : Leads (.array items) (numeral :: parts) target

variable {bindings : Bindings} {name part : String} {parts : List String} {value next target : Document}

/-! ### Following a path -/

theorem step?_object_eq_some_iff {members : Members} :
    Expression.step? (.object members) part.toList = some next ↔ Members.lookup part members = some next := by
  rw [Expression.step?, String.ofList_toList]

theorem step?_array_eq_some_iff {items : List Document} : Expression.step? (.array items) part.toList = some next ↔
    ∃ position, Numeral part.toList position ∧ position < wordBound ∧ items[position]? = some next := by
  simp only [Expression.step?, Option.bind_eq_some_iff, unsigned?_eq_some_iff, and_assoc]

/-- The induction is on the components; from a value that is neither an array nor an object there is no step. -/
theorem foldlM_step?_eq_some_iff :
    (parts.map String.toList).foldlM Expression.step? value = some target ↔ Leads value parts target := by
  induction parts generalizing value with
  | nil =>
      constructor
      · intro h
        cases h
        exact .here target
      · intro h
        cases h
        rfl
  | cons part parts ih =>
      rw [List.map_cons, List.foldlM_cons]
      show (Expression.step? value part.toList).bind _ = some target ↔ _
      simp only [Option.bind_eq_some_iff, ih]
      constructor
      · rintro ⟨next, hstep, hrest⟩
        cases value with
        | object members => exact .member (step?_object_eq_some_iff.1 hstep) hrest
        | array items =>
            obtain ⟨position, hnumeral, hfits, hfound⟩ := step?_array_eq_some_iff.1 hstep
            exact .item hnumeral hfits hfound hrest
        | null | bool | number | string => cases hstep
      · intro h
        cases h with
        | member found rest => exact ⟨_, step?_object_eq_some_iff.2 found, rest⟩
        | item isNumeral fits found rest => exact ⟨_, step?_array_eq_some_iff.2 ⟨_, isNumeral, fits, found⟩, rest⟩

/-- A path is followed from the binding that its first component names. -/
theorem follow?_eq_some_iff : Expression.follow? bindings ((name :: parts).map String.toList) = some target ↔
    ∃ root, bindings.get? name = some root ∧ Leads root parts target := by
  rw [List.map_cons, Expression.follow?, String.ofList_toList]
  simp only [Option.bind_eq_some_iff, foldlM_step?_eq_some_iff]

/-- **Every part of a value has a path that leads to it**: the names and the positions on the way down. -/
theorem leads_of_at? {steps : List Step} (h : value.at? steps = some target)
    (fits : ∀ position, Step.item position ∈ steps → position < wordBound) :
    Leads value (steps.map Step.text) target := by
  induction steps generalizing value with
  | nil =>
      rw [Document.at?_nil, Option.some.injEq] at h
      exact h ▸ .here value
  | cons step steps ih =>
      obtain ⟨next, hstep, hrest⟩ := Document.at?_cons_eq_some_iff.1 h
      have hleads := ih hrest fun position hmem => fits position (List.mem_cons_of_mem step hmem)
      unfold Document.step? at hstep
      split at hstep
      · next items position => exact .item (numeral_repr_iff.2 rfl) (fits position List.mem_cons_self) hstep hleads
      · exact .member hstep hleads
      · cases hstep

/-! ### Components -/

/-- A position can stand in a path. -/
theorem component_repr (position : Nat) : Component position.repr := by
  have hdigits {pattern : List Char} (h : pattern <:+: position.repr.toList) : ∀ c ∈ pattern, isDigit c = true :=
    fun c hc => isDigit_of_mem_repr (h.subset hc)
  refine ⟨blank_repr position, ?_, ?_, ?_⟩
  · intro hdot
    cases isDigit_of_mem_repr hdot
  · intro hopening
    cases hdigits hopening '$' List.mem_cons_self
  · intro hclosing
    cases hdigits hclosing '\x7d' List.mem_cons_self

/-- The texts of steps are components if the names among them are. -/
theorem component_of_mem_steps {steps : List Step} (hname : Component name)
    (hmembers : ∀ member, Step.member member ∈ steps → Component member) :
    ∀ part ∈ name :: steps.map Step.text, Component part := by
  rw [List.forall_mem_cons, List.forall_mem_map]
  refine ⟨hname, ?_⟩
  intro step hstep
  cases step with
  | item position => exact component_repr position
  | member member => exact hmembers member hstep

/-! ### Paths in expressions -/

/-- The components of a path are those it was made of. -/
theorem splitAt_joined (components : ∀ part ∈ name :: parts, Component part) :
    splitAt '.' (joined "." (name :: parts)).toList = (name :: parts).map String.toList := by
  rw [joined, String.toList_ofList]
  refine splitAt_join (List.cons_ne_nil _ _) ?_
  rw [List.forall_mem_map]
  exact fun part hpart => (components part hpart).undotted

/-- **A path is resolved to where it leads**, and if it leads nowhere it is what is undefined. -/
theorem resolve_joined (components : ∀ part ∈ name :: parts, Component part) :
    Expression.resolve bindings ("bindings.".toList ++ (joined "." (name :: parts)).toList) =
      match Expression.follow? bindings ((name :: parts).map String.toList) with
      | some value => .ok value
      | none => .error (.undefined (joined "." (name :: parts))) := by
  have hpath : Expression.path ("bindings.".toList ++ (joined "." (name :: parts)).toList) =
      (joined "." (name :: parts)).toList := by
    rw [Expression.path, afterStart_eq_some_iff.2 rfl, Option.getD_some]
  have hparts : Expression.isPath (joined "." (name :: parts)).toList = true := by
    rw [Expression.isPath, splitAt_joined components, List.all_eq_true]
    simp only [List.forall_mem_map, Bool.not_eq_true']
    exact fun part hpart => (components part hpart).notBlank
  rw [Expression.resolve, hpath, hparts, splitAt_joined components, String.ofList_toList]
  rfl

/-! ### Paths in texts -/

/-- There is no blank at either end of a path, with what stands in front of it. -/
theorem tight_joined (components : ∀ part ∈ name :: parts, Component part) (ends : NoBlankBehind (name :: parts)) :
    Tight ("bindings.".toList ++ (joined "." (name :: parts)).toList) where
  head := by
    intro c hc
    cases hc
    decide
  last := by
    obtain ⟨last, hlast⟩ : ∃ last, (name :: parts).getLast? = some last :=
      ⟨_, List.getLast?_eq_some_getLast (List.cons_ne_nil name parts)⟩
    have hne : last.toList ≠ [] := by
      intro hempty
      have hblank := (components last (List.mem_of_getLast? hlast)).notBlank
      rw [blank, hempty] at hblank
      cases hblank
    have hjoin : (joined "." (name :: parts)).toList.getLast? = last.toList.getLast? := by
      rw [joined, String.toList_ofList]
      exact getLast?_join (by rw [List.getLast?_map, hlast]; rfl) hne
    intro c hc
    rw [List.getLast?_append, hjoin, List.getLast?_eq_some_getLast hne] at hc
    exact ends last hlast c ((List.getLast?_eq_some_getLast hne).trans hc)

/-- What is in no component of a path is not in the text around it either, if it has neither a dot nor a blank. -/
theorem not_infix_addressed {mark : List Char} (undotted : '.' ∉ mark) (unblank : ' ' ∉ mark) (nonempty : mark ≠ [])
    (front : ¬ mark <:+: " bindings".toList) (unmarked : ∀ part ∈ name :: parts, ¬ mark <:+: part.toList) :
    ¬ mark <:+: " bindings.".toList ++ (joined "." (name :: parts)).toList ++ [' '] := by
  rw [List.append_assoc]
  show ¬ mark <:+: " bindings".toList ++ '.' :: ((joined "." (name :: parts)).toList ++ [' '])
  intro h
  rcases infix_or_of_infix_append_cons undotted h with hfront | hrest
  · exact front hfront
  · rcases infix_or_of_infix_append_cons unblank hrest with hpath | hblank
    · rw [joined, String.toList_ofList] at hpath
      refine not_infix_join undotted nonempty ?_ hpath
      rw [List.forall_mem_map]
      exact unmarked
    · exact nonempty (List.infix_nil.1 hblank)

/-- The text that names a part of a value encloses the path. -/
theorem encloses_addressing (components : ∀ part ∈ name :: parts, Component part) :
    Encloses (addressing (joined "." (name :: parts))).toList
      (" bindings.".toList ++ (joined "." (name :: parts)).toList ++ [' ']) := by
  refine ⟨?_, ?_, [], [], rfl, rfl, ?_⟩
  · apply not_infix_addressed (by decide) (by decide) (by decide) (by decide)
    exact fun part hpart => (components part hpart).unopened
  · apply not_infix_addressed (by decide) (by decide) (by decide) (by decide)
    exact fun part hpart => (components part hpart).unclosed
  · rw [addressing, String.toList_append, String.toList_append]
    simp [opening, closing]

/-! ### Parts of values -/

section Parts

variable {location : List String}

/-- The text that names a part of a value becomes what the path is followed to. -/
theorem fill_addressing (components : ∀ part ∈ name :: parts, Component part) (ends : NoBlankBehind (name :: parts)) :
    fill bindings location (.string (addressing (joined "." (name :: parts)))) =
      match Expression.follow? bindings ((name :: parts).map String.toList) with
      | some value => .ok value
      | none => .error ⟨.undefined (joined "." (name :: parts)), location⟩ := by
  have htrim : trim (" bindings.".toList ++ (joined "." (name :: parts)).toList ++ [' ']) =
      "bindings.".toList ++ (joined "." (name :: parts)).toList :=
    trim_eq_iff.2 ⟨tight_joined components ends, [' '], [' '], rfl, rfl, rfl⟩
  rw [fill, valueOfText_of_encloses (encloses_addressing components), htrim, resolve_joined components]
  cases Expression.follow? bindings ((name :: parts).map String.toList) <;> rfl

theorem fill_addressing_eq_ok_iff (components : ∀ part ∈ name :: parts, Component part)
    (ends : NoBlankBehind (name :: parts)) :
    fill bindings location (.string (addressing (joined "." (name :: parts)))) = .ok target ↔
      ∃ root, bindings.get? name = some root ∧ Leads root parts target := by
  rw [← follow?_eq_some_iff, fill_addressing components ends]
  cases Expression.follow? bindings ((name :: parts).map String.toList) <;> simp

theorem fill_addressing_eq_error_iff (components : ∀ part ∈ name :: parts, Component part)
    (ends : NoBlankBehind (name :: parts)) {finding : Finding} :
    fill bindings location (.string (addressing (joined "." (name :: parts)))) = .error finding ↔
      finding = ⟨.undefined (joined "." (name :: parts)), location⟩ ∧
        ∀ root target, bindings.get? name = some root → ¬ Leads root parts target := by
  have hnowhere : (∀ root target, bindings.get? name = some root → ¬ Leads root parts target) ↔
      Expression.follow? bindings ((name :: parts).map String.toList) = none := by
    simp only [Option.eq_none_iff_forall_ne_some, ne_eq, follow?_eq_some_iff, not_exists, not_and]
    exact forall_comm
  rw [hnowhere, fill_addressing components ends]
  cases Expression.follow? bindings ((name :: parts).map String.toList) <;> simp [eq_comm]

end Parts

/-- **What becomes of a text that names a part of a value.** It becomes the part at the end of the way from the binding
down, if the name of the binding and the names of the members on the way are components of a path, the positions are
words, and what comes last does not end with a blank. Of any components the text becomes the value that they lead to,
and if they lead nowhere the fault is that the path is undefined. -/
theorem addressed_exactly (bindings : Bindings) (location : List String) (name : String) :
    (∀ root steps target, bindings.get? name = some root → root.at? steps = some target →
      Component name → (∀ member, Step.member member ∈ steps → Component member) →
      (∀ position, Step.item position ∈ steps → position < wordBound) →
      NoBlankBehind (name :: steps.map Step.text) →
      fill bindings location (.string (addressing (joined "." (name :: steps.map Step.text)))) = .ok target) ∧
    ∀ parts, (∀ part ∈ name :: parts, Component part) → NoBlankBehind (name :: parts) →
      (∀ target, fill bindings location (.string (addressing (joined "." (name :: parts)))) = .ok target ↔
        ∃ root, bindings.get? name = some root ∧ Leads root parts target) ∧
      ∀ finding, fill bindings location (.string (addressing (joined "." (name :: parts)))) = .error finding ↔
        finding = ⟨.undefined (joined "." (name :: parts)), location⟩ ∧
          ∀ root target, bindings.get? name = some root → ¬ Leads root parts target := by
  constructor
  · intro root steps target hroot hat hname hmembers hfits hends
    have hcomponents := component_of_mem_steps hname hmembers
    exact (fill_addressing_eq_ok_iff hcomponents hends).2 ⟨root, hroot, leads_of_at? hat hfits⟩
  · intro parts components ends
    exact ⟨fun _ => fill_addressing_eq_ok_iff components ends, fun _ => fill_addressing_eq_error_iff components ends⟩

/-- The binding has the name that stands in front of every path, and the member has that of a position. -/
theorem item_of_member_zero :
    let bindings : Bindings := .ofList [("bindings", .ofEntries [("0", .array [.null, .ofNat 7])])]
    fill bindings ["spec"] (.string (addressing "bindings.0.1")) = .ok (.ofNat 7) ∧
      fill bindings ["spec"] (.string (addressing "bindings.0.2")) = .error ⟨.undefined "bindings.0.2", ["spec"]⟩ := by
  intro bindings
  have hone : joined "." ("bindings" :: [Step.member "0", .item 1].map Step.text) = "bindings.0.1" := by
    decide +kernel
  have htwo : joined "." ["bindings", "0", "2"] = "bindings.0.2" := by decide +kernel
  have hlost : Expression.follow? bindings (["bindings", "0", "2"].map String.toList) = none := by decide +kernel
  rw [← hone, ← htwo]
  obtain ⟨found, lost⟩ := addressed_exactly bindings ["spec"] "bindings"
  constructor
  · refine found _ [.member "0", .item 1] _ rfl (by decide +kernel) (by decide +kernel) ?_ ?_ ?_
    · intro member hmember
      simp only [List.mem_cons, reduceCtorEq, Step.member.injEq, List.not_mem_nil, or_false] at hmember
      rw [hmember]
      decide +kernel
    · intro position hposition
      simp only [List.mem_cons, reduceCtorEq, Step.item.injEq, List.not_mem_nil, or_false, false_or] at hposition
      rw [hposition]
      decide
    · rintro last ⟨⟩ c ⟨⟩
      decide
  · obtain ⟨-, fault⟩ := lost ["0", "2"] (by decide +kernel) (by rintro last ⟨⟩ c ⟨⟩; decide)
    refine (fault _).2 ⟨rfl, ?_⟩
    intro root target hroot hleads
    cases hlost.symm.trans (follow?_eq_some_iff.2 ⟨root, hroot, hleads⟩)

end Converge.Template
