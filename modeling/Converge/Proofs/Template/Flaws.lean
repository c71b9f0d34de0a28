import Converge.Proofs.Template.Filling
import Converge.Proofs.Template.Reading
import Converge.Yaml.Reader

/-!
# The first flaw of a document

Texts stand in a document as strings and as names of members. They come in an order: items by their positions, members
by their names, and the name of a member before what is in its value. Filling a document looks at its texts in this
order, and what it reports is the first expression of the first text that is not sound, with the names and positions on
the way to that text.

## Main Definitions

* `Template.Place` — where a text stands in a document.
* `Template.Holds` — the texts of a document.
* `Template.Place.Precedes` — the order of the places of a document.
* `Template.FirstFlaw` — the first text without a value.

## Main Statements

* `Template.exists_fillsTo_iff` — a document is filled if each of its texts has a value.
* `Template.fill_eq_error_iff` — else the fault is that of the first text without a value.
* `Template.first_flaw_reported` — the same, said by the expressions of the texts.
* `Template.flaw_reported_in_sound_text` — a document that is not filled although each of its expressions has a value.
-/

namespace Converge.Template

open Chars
open Document (Step)

/-! ### Places -/

/-- Where a text stands in a document: the document is the text, or the text is the name of a member, or it stands
further down. -/
inductive Place where
  | here
  | name (member : String)
  | down (step : Step) (place : Place)

namespace Place

/-- The location of a place: the steps on the way to it, the member whose name stands there included. -/
def location : Place → List String
  | here => []
  | name member => [member]
  | down step place => step.text :: place.location

/-- The step in which the way to a place begins. -/
def first? : Place → Option Step
  | here => none
  | name member => some (.member member)
  | down step _ => some step

end Place

/-- The order of two steps from one document. -/
inductive StepBefore : Step → Step → Prop
  | item {position other : Nat} (less : position < other) : StepBefore (.item position) (.item other)
  | member {name other : String} (less : name < other) : StepBefore (.member name) (.member other)

/-- The order of the places of a document. -/
inductive Place.Precedes : Place → Place → Prop
  | apart {place other : Place} {step next : Step} (starts : place.first? = some step)
      (otherStarts : other.first? = some next) (before : StepBefore step next) : Precedes place other
  | name (member : String) (place : Place) : Precedes (.name member) (.down (.member member) place)
  | within {place other : Place} (step : Step) (before : Precedes place other) :
      Precedes (.down step place) (.down step other)

/-- The texts of a document, with their places. -/
inductive Holds : Document → Place → String → Prop
  | here (text : String) : Holds (.string text) .here text
  | name {members : Members} {name : String} {value : Document} (found : (name, value) ∈ members) :
      Holds (.object members) (.name name) name
  | item {items : List Document} {position : Nat} {item : Document} {place : Place} {text : String}
      (found : items[position]? = some item) (rest : Holds item place text) :
      Holds (.array items) (.down (.item position) place) text
  | member {members : Members} {name : String} {value : Document} {place : Place} {text : String}
      (found : (name, value) ∈ members) (rest : Holds value place text) :
      Holds (.object members) (.down (.member name) place) text

variable {bindings : Bindings} {location : List String} {items : List Document} {members : Members} {place : Place}
  {fault : Fault}

/-- There is a value for a text. -/
def Valued (bindings : Bindings) (text : String) : Prop := ∃ value, valueOfText bindings text = .ok value

/-- The first text of a document without a value, and its fault. -/
structure FirstFlaw (bindings : Bindings) (document : Document) (place : Place) (fault : Fault) : Prop where
  found : ∃ text, Holds document place text ∧ valueOfText bindings text = .error fault
  first : ∀ earlier text, Holds document earlier text → earlier.Precedes place → Valued bindings text

/-! ### Documents that are filled -/

theorem exists_namesTo_iff {name : String} : (∃ filled, NamesTo bindings name filled) ↔ Valued bindings name := by
  constructor
  · rintro ⟨filled, value, hvalue, -⟩
    exact ⟨value, hvalue⟩
  · rintro ⟨value, hvalue⟩
    exact ⟨_, value, hvalue, rfl⟩

/-- **A document is filled if each of its texts has a value.** -/
theorem exists_fillsTo_iff {document : Document} : (∃ filled, FillsTo bindings document filled) ↔
    ∀ place text, Holds document place text → Valued bindings text := by
  induction document using Document.byParts with
  | null | bool | number =>
      refine iff_of_true ⟨_, rfl⟩ ?_
      intro place text h
      cases h
  | string text =>
      simp only [fillsTo_string_iff]
      constructor
      · rintro h place _ ⟨⟩
        exact h
      · intro h
        exact h .here text (.here text)
  | array items ih =>
      rw [exists_fillsTo_array_iff]
      constructor
      · intro h place text hholds
        cases hholds with
        | item found rest =>
            have hitem := List.mem_of_getElem? found
            exact (ih _ hitem).1 (h _ hitem) _ _ rest
      · intro h item hitem
        obtain ⟨position, hposition⟩ := List.mem_iff_getElem?.1 hitem
        exact (ih item hitem).2 fun place text rest => h _ text (.item hposition rest)
  | object members ih =>
      rw [exists_fillsTo_object_iff]
      simp only [exists_namesTo_iff]
      constructor
      · intro h place text hholds
        cases hholds with
        | name found => exact (h _ found).1
        | member found rest => exact (ih _ found).1 (h _ found).2 _ _ rest
      · intro h member hmember
        refine ⟨h _ _ (.name hmember), (ih member hmember).2 ?_⟩
        intro place text rest
        exact h _ text (.member hmember rest)

/-! ### The first text without a value -/

/-- The first flaw of an array is that of the first item that is not filled. -/
theorem firstFlaw_array_iff : FirstFlaw bindings (.array items) place fault ↔ ∃ before item after rest,
    items = before ++ item :: after ∧ (∀ earlier ∈ before, ∃ filled, FillsTo bindings earlier filled) ∧
      place = .down (.item before.length) rest ∧ FirstFlaw bindings item rest fault := by
  constructor
  · rintro ⟨⟨text, hholds, hfault⟩, hfirst⟩
    cases hholds with
    | @item _ position item rest _ found hrest =>
        obtain ⟨hlt, hget⟩ := List.getElem?_eq_some_iff.1 found
        have hlength : (items.take position).length = position := List.length_take_of_le hlt.le
        refine ⟨items.take position, item, items.drop (position + 1), rest, ?_, ?_, ?_, ⟨text, hrest, hfault⟩, ?_⟩
        · rw [← hget, List.cons_getElem_drop_succ, List.take_append_drop]
        · intro earlier hearlier
          obtain ⟨index, hindex⟩ := List.mem_iff_getElem?.1 hearlier
          have hless : index < position := by
            rw [← hlength]
            exact (List.getElem?_eq_some_iff.1 hindex).1
          rw [List.getElem?_take_of_lt hless] at hindex
          refine exists_fillsTo_iff.2 fun other text hother => ?_
          exact hfirst _ text (.item hindex hother) (.apart rfl rfl (.item hless))
        · rw [hlength]
        · intro earlier text hearlier hbefore
          exact hfirst _ text (.item found hearlier) (.within _ hbefore)
  · rintro ⟨before, item, after, rest, rfl, hbefore, rfl, ⟨text, hholds, hfault⟩, hfirst⟩
    have hitem : (before ++ item :: after)[before.length]? = some item := by simp
    refine ⟨⟨text, .item hitem hholds, hfault⟩, ?_⟩
    intro earlier text hearlier hprecedes
    cases hearlier with
    | item found hother =>
        cases hprecedes with
        | apart starts otherStarts stepBefore =>
            cases starts
            cases otherStarts
            cases stepBefore with
            | item less =>
                rw [List.getElem?_append_left less] at found
                exact exists_fillsTo_iff.1 (hbefore _ (List.mem_of_getElem? found)) _ text hother
        | within _ hwithin =>
            cases found.symm.trans hitem
            exact hfirst _ text hother hwithin

/-- The members in front of one are filled exactly if there are values for all texts whose places begin with a smaller
name. -/
theorem filled_before_iff {before after : Members} {name : String} {value : Document}
    (ordered : Members.Ordered (before ++ (name, value) :: after)) :
    (∀ earlier ∈ before, Valued bindings earlier.1 ∧ ∃ filled, FillsTo bindings earlier.2 filled) ↔
      ∀ earlier text step, Holds (.object (before ++ (name, value) :: after)) earlier text →
        earlier.first? = some step → StepBefore step (.member name) → Valued bindings text := by
  constructor
  · intro h earlier text step hholds hstarts hstep
    cases hstep with
    | member less =>
        cases hholds with
        | name found =>
            cases hstarts
            exact (h _ ((ordered.mem_before_iff found).2 less)).1
        | member found rest =>
            cases hstarts
            exact exists_fillsTo_iff.1 (h _ ((ordered.mem_before_iff found).2 less)).2 _ text rest
  · rintro h ⟨other, content⟩ hother
    have hmem : (other, content) ∈ before ++ (name, value) :: after := List.mem_append_left _ hother
    have hless : StepBefore (.member other) (.member name) := .member ((ordered.mem_before_iff hmem).1 hother)
    refine ⟨h _ other _ (.name hmem) rfl hless, exists_fillsTo_iff.2 ?_⟩
    intro place text hholds
    exact h _ text _ (.member hmem hholds) rfl hless

/-- The first flaw of an object is that of the first member that is not filled, in its name or else in its value. -/
theorem firstFlaw_object_iff (ordered : members.Ordered) : FirstFlaw bindings (.object members) place fault ↔
    ∃ before name value after, members = before ++ (name, value) :: after ∧
      (∀ earlier ∈ before, Valued bindings earlier.1 ∧ ∃ filled, FillsTo bindings earlier.2 filled) ∧
      ((place = .name name ∧ valueOfText bindings name = .error fault) ∨
        ∃ rest, place = .down (.member name) rest ∧ Valued bindings name ∧ FirstFlaw bindings value rest fault) := by
  constructor
  · rintro ⟨⟨text, hholds, hfault⟩, hfirst⟩
    cases hholds with
    | @name _ _ value found =>
        obtain ⟨before, after, rfl⟩ := List.append_of_mem found
        refine ⟨before, text, value, after, rfl, (filled_before_iff ordered).2 ?_, .inl ⟨rfl, hfault⟩⟩
        intro earlier other step hearlier hstarts hstep
        exact hfirst earlier other hearlier (.apart hstarts rfl hstep)
    | @member _ name value rest _ found hrest =>
        obtain ⟨before, after, rfl⟩ := List.append_of_mem found
        refine ⟨before, name, value, after, rfl, (filled_before_iff ordered).2 ?_, .inr ⟨rest, rfl, ?_, ?_, ?_⟩⟩
        · intro earlier other step hearlier hstarts hstep
          exact hfirst earlier other hearlier (.apart hstarts rfl hstep)
        · exact hfirst _ name (.name found) (.name name rest)
        · exact ⟨text, hrest, hfault⟩
        · intro earlier other hother hprecedes
          exact hfirst _ other (.member found hother) (.within _ hprecedes)
  · rintro ⟨before, name, value, after, rfl, hbefore, hflaw⟩
    have hmem : (name, value) ∈ before ++ (name, value) :: after := List.mem_append_right before List.mem_cons_self
    rw [filled_before_iff ordered] at hbefore
    obtain ⟨rfl, hfault⟩ | ⟨rest, rfl, hname, ⟨text, hholds, hfault⟩, hfirst⟩ := hflaw
    · refine ⟨⟨name, .name hmem, hfault⟩, ?_⟩
      intro earlier text hearlier hprecedes
      cases hprecedes with
      | apart starts otherStarts stepBefore =>
          cases otherStarts
          exact hbefore earlier text _ hearlier starts stepBefore
    · refine ⟨⟨text, .member hmem hholds, hfault⟩, ?_⟩
      intro earlier other hearlier hprecedes
      cases hprecedes with
      | apart starts otherStarts stepBefore =>
          cases otherStarts
          exact hbefore earlier other _ hearlier starts stepBefore
      | name =>
          cases hearlier
          exact hname
      | within _ hwithin =>
          cases hearlier with
          | member found hother =>
              have hsame := (ordered.lookup_of_mem found).symm.trans (ordered.lookup_of_mem hmem)
              cases hsame
              exact hfirst _ other hother hwithin

/-- **What is reported is the fault of the first text without a value**, at its place. The induction is on the
document; an array and an object look for the first part that is not filled. -/
theorem fill_eq_error_iff {document : Document} (ordered : document.Ordered) {finding : Finding} :
    fill bindings location document = .error finding ↔ ∃ place,
      FirstFlaw bindings document place finding.fault ∧ finding.location = location ++ place.location := by
  induction document using Document.byParts generalizing location finding with
  | null | bool | number =>
      refine iff_of_false ?_ ?_
      · intro h
        cases h
      · rintro ⟨place, ⟨⟨text, hholds, -⟩, -⟩, -⟩
        cases hholds
  | string text =>
      rw [fill, mapError_eq_error_iff]
      constructor
      · rintro ⟨fault, hfault, rfl⟩
        refine ⟨.here, ⟨⟨text, .here text, hfault⟩, ?_⟩, (List.append_nil location).symm⟩
        intro earlier other _ hprecedes
        cases hprecedes with
        | apart _ otherStarts => cases otherStarts
      · rintro ⟨place, ⟨⟨other, hholds, hfault⟩, -⟩, hlocation⟩
        cases hholds
        refine ⟨finding.fault, hfault, ?_⟩
        rw [show location = finding.location from (List.append_nil location).symm.trans hlocation.symm]
  | array items ih =>
      rw [Document.Ordered, Document.orderedItems_iff] at ordered
      rw [fill, map_eq_error_iff, fillItems_eq_error_iff]
      simp only [firstFlaw_array_iff]
      constructor
      · rintro ⟨before, item, after, rfl, hbefore, hitem⟩
        have hmem : item ∈ before ++ item :: after := List.mem_append_right before List.mem_cons_self
        obtain ⟨rest, hflaw, hlocation⟩ := (ih item hmem (ordered item hmem)).1 hitem
        refine ⟨_, ⟨before, item, after, rest, rfl, hbefore, rfl, hflaw⟩, ?_⟩
        rw [hlocation, List.append_assoc, Nat.zero_add]
        rfl
      · rintro ⟨_, ⟨before, item, after, rest, rfl, hbefore, rfl, hflaw⟩, hlocation⟩
        have hmem : item ∈ before ++ item :: after := List.mem_append_right before List.mem_cons_self
        refine ⟨before, item, after, rfl, hbefore, (ih item hmem (ordered item hmem)).2 ⟨rest, hflaw, ?_⟩⟩
        rw [hlocation, List.append_assoc, Nat.zero_add]
        rfl
  | object members ih =>
      rw [Document.Ordered, Document.orderedMembers_iff] at ordered
      rw [fill, map_eq_error_iff, fillMembers_eq_error_iff]
      simp only [firstFlaw_object_iff ordered.1, fillMember_eq_error_iff, exists_namesTo_iff, nameOf,
        map_eq_error_iff, mapError_eq_error_iff]
      constructor
      · rintro ⟨before, ⟨name, value⟩, after, rfl, hbefore, ⟨fault, hfault, rfl⟩ | ⟨hname, hvalue⟩⟩
        · exact ⟨.name name, ⟨before, name, value, after, rfl, hbefore, .inl ⟨rfl, hfault⟩⟩, rfl⟩
        · have hmem : (name, value) ∈ before ++ (name, value) :: after :=
            List.mem_append_right before List.mem_cons_self
          obtain ⟨rest, hflaw, hlocation⟩ := (ih _ hmem (ordered.2 _ hmem)).1 hvalue
          refine ⟨_, ⟨before, name, value, after, rfl, hbefore, .inr ⟨rest, rfl, hname, hflaw⟩⟩, ?_⟩
          rw [hlocation, List.append_assoc]
          rfl
      · rintro ⟨_, ⟨before, name, value, after, rfl, hbefore, ⟨rfl, hfault⟩ | ⟨rest, rfl, hname, hflaw⟩⟩, hlocation⟩
        · refine ⟨before, (name, value), after, rfl, hbefore, .inl ⟨finding.fault, hfault, ?_⟩⟩
          rw [show location ++ [name] = finding.location from hlocation.symm]
        · have hmem : (name, value) ∈ before ++ (name, value) :: after :=
            List.mem_append_right before List.mem_cons_self
          refine ⟨before, (name, value), after, rfl, hbefore,
            .inr ⟨hname, (ih _ hmem (ordered.2 _ hmem)).2 ⟨rest, hflaw, ?_⟩⟩⟩
          rw [hlocation, List.append_assoc]
          rfl

/-! ### Reports -/

/-- In a location of an object there is at least the name of a member. -/
theorem location_ne_nil {document : Document} (object : document.isObject = true) {text : String}
    (holds : Holds document place text) : place.location ≠ [] := by
  cases holds with
  | here => cases object
  | name | item | member => exact List.cons_ne_nil _ _

/-- **The first flaw of a document is reported, at its place.** Every text is read in one way. A document is filled
exactly if every expression in its strings and in the names of its members, however far down, is closed, is a path of
names and leads to a value. What is reported otherwise is what is wrong with the first expression that is not so: the
expressions in front of it in its text are sound, and so are those of the texts at all places before. The location is
that of this text, and in an object it is written with points between its names and positions. -/
theorem first_flaw_reported (bindings : Bindings) {document : Document} (ordered : document.Ordered) :
    (∀ text, ∃! expressions, Reads text expressions) ∧
    ((∃ filled, fill bindings [] document = .ok filled) ↔ ∀ place text expressions, Holds document place text →
      Reads text.toList expressions → ∀ expression ∈ expressions, Sound bindings expression) ∧
    (∀ fault location, fill bindings [] document = .error ⟨fault, location⟩ ↔
      ∃ place text before expression after, Holds document place text ∧
        Reads text.toList (before ++ expression :: after) ∧ Wrong bindings expression fault ∧
        location = place.location ∧ (∀ earlier ∈ before, Sound bindings earlier) ∧
        ∀ earlier other expressions, Holds document earlier other → earlier.Precedes place →
          Reads other.toList expressions → ∀ expression ∈ expressions, Sound bindings expression) ∧
    (document.isObject = true → ∀ place text, Holds document place text →
      RenderError.place place.location = Chars.joined "." place.location) := by
  have hvalued (text : String) : Valued bindings text ↔ ∀ expressions, Reads text.toList expressions →
      ∀ expression ∈ expressions, Sound bindings expression := by
    constructor
    · intro h expressions hreads
      exact (exists_value_iff hreads).1 h
    · intro h
      obtain ⟨expressions, hreads⟩ := exists_reads text.toList
      exact (exists_value_iff hreads).2 (h expressions hreads)
  refine ⟨existsUnique_reads, ?_, ?_, ?_⟩
  · rw [show (∃ filled, fill bindings [] document = .ok filled) ↔ _ from exists_fillsTo_iff]
    simp only [hvalued]
    constructor
    · intro h place text expressions hholds
      exact h place text hholds expressions
    · intro h place text hholds expressions
      exact h place text expressions hholds
  · intro fault location
    rw [fill_eq_error_iff ordered]
    constructor
    · rintro ⟨place, ⟨⟨text, hholds, hfault⟩, hfirst⟩, hlocation⟩
      obtain ⟨expressions, hreads⟩ := exists_reads text.toList
      obtain ⟨before, expression, after, rfl, hbefore, hwrong⟩ := (valueOfText_eq_error_iff hreads).1 hfault
      refine ⟨place, text, before, expression, after, hholds, hreads, hwrong, hlocation, hbefore, ?_⟩
      intro earlier other expressions hother hprecedes
      exact (hvalued other).1 (hfirst earlier other hother hprecedes) expressions
    · rintro ⟨place, text, before, expression, after, hholds, hreads, hwrong, hlocation, hbefore, hfirst⟩
      refine ⟨place, ⟨⟨text, hholds, ?_⟩, ?_⟩, hlocation⟩
      · exact (valueOfText_eq_error_iff hreads).2 ⟨before, expression, after, rfl, hbefore, hwrong⟩
      · intro earlier other hother hprecedes
        exact (hvalued other).2 fun expressions => hfirst earlier other expressions hother hprecedes
  · intro hobject place text hholds
    rw [RenderError.place, List.isEmpty_eq_false_iff.2 (location_ne_nil hobject hholds)]
    rfl

/-- A document with a flaw behind a sound expression, another one behind it in the same text, and one more at a later
place. -/
def threeFlaws : Document :=
  .object [("m", .array [.string "$\x7b\x7b x \x7d\x7d",
    .object [("k", .string "$\x7b\x7bx\x7d\x7d$\x7b\x7by.z\x7d\x7d$\x7b\x7b")]]), ("z", .string "$\x7b\x7bq\x7d\x7d")]

/-- Of several flaws the first one is reported. -/
theorem first_flaw_reported_of_three :
    let bindings : Bindings := .ofList [("x", .ofNat 1)]
    threeFlaws.Ordered ∧ fill bindings [] threeFlaws = .error ⟨.undefined "y.z", ["m", "1", "k"]⟩ ∧
      ∃ place text before expression after, Holds threeFlaws place text ∧
        Reads text.toList (before ++ expression :: after) ∧ Wrong bindings expression (.undefined "y.z") ∧
        place.location = ["m", "1", "k"] := by
  intro bindings
  have ordered : threeFlaws.Ordered := by decide +kernel
  have hfill : fill bindings [] threeFlaws = .error ⟨.undefined "y.z", ["m", "1", "k"]⟩ := by decide +kernel
  obtain ⟨place, text, before, expression, after, hholds, hreads, hwrong, hlocation, -⟩ :=
    ((first_flaw_reported bindings ordered).2.2.1 _ _).1 hfill
  exact ⟨ordered, hfill, place, text, before, expression, after, hholds, hreads, hwrong, hlocation.symm⟩

/-- A document whose only expression has a brace behind it. -/
def bracedLevels : Document := .object [("levels", .array [.string "$\x7b\x7b x \x7d\x7d\x7d"])]

/-- Each expression of each text, from an opening to the first closing after it, has a value, and yet a path that leads
nowhere is reported. -/
theorem flaw_reported_in_sound_text :
    let bindings : Bindings := .ofList [("x", .ofNat 1)]
    let text := "levels:\n  - $\x7b\x7b x \x7d\x7d\x7d\n"
    Yaml.read text = .ok bracedLevels ∧ bracedLevels.Ordered ∧
      (∀ place text spans tail, Holds bracedLevels place text → Cut text.toList spans tail →
        ¬ opening <:+: tail ∧ ∀ span ∈ spans, ∃ value, span.value bindings = .ok value) ∧
      render Yaml.read text bindings = .error (.fault (.undefined "x \x7d") 1 ["levels", "0"]) := by
  intro bindings text
  refine ⟨by decide +kernel, by decide +kernel, ?_, by decide +kernel⟩
  have hname : Cut "levels".toList [] "levels".toList := .of_plain (contains_eq_false_iff.1 (by decide +kernel))
  have starts : FirstAt opening "$\x7b\x7b x \x7d\x7d\x7d".toList [] " x \x7d\x7d\x7d".toList :=
    breakOn_eq_some_iff.1 (by decide +kernel)
  have ends : FirstAt closing " x \x7d\x7d\x7d".toList " x ".toList ['\x7d'] :=
    breakOn_eq_some_iff.1 (by decide +kernel)
  have hstring : Cut "$\x7b\x7b x \x7d\x7d\x7d".toList [⟨[], " x ".toList⟩] ['\x7d'] :=
    .span starts ends (.of_plain (contains_eq_false_iff.1 (by decide +kernel)))
  intro place text spans tail hholds cut
  cases hholds with
  | name found =>
      cases List.mem_singleton.1 found
      obtain ⟨rfl, rfl⟩ := cut.unique hname
      exact ⟨contains_eq_false_iff.1 (by decide +kernel), List.forall_mem_nil _⟩
  | member found rest =>
      cases List.mem_singleton.1 found
      cases rest with
      | item found rest =>
          cases List.mem_singleton.1 (List.mem_of_getElem? found)
          cases rest
          obtain ⟨rfl, rfl⟩ := cut.unique hstring
          refine ⟨contains_eq_false_iff.1 (by decide +kernel), List.forall_mem_singleton.2 ⟨.ofNat 1, ?_⟩⟩
          decide +kernel

end Converge.Template
