import Converge.Proofs.Arguments.Becoming
import Converge.Proofs.Operation.Handles

/-!
# Which arguments are accepted

Arguments go to their slots one by one, and the first that cannot be placed ends the call. Yet whether they are
accepted, and with which slots, depends only on what is supplied of each kind: how much of it there is, and for
bindings and durations in which order. So everything is said here of the values of each kind, and a draft is read
as the values that it holds of each kind.

## Main Definitions

* `ItemKind` — the kinds of values that arguments bring.
* `supplied` — the values of a kind among arguments, in their order.
* `Argument.Classifies` — an argument is of some kind.
* `timeoutOf`, `intervalOf`, `InUse` — what the durations of a call are used for, and which slots are in use.
* `Accepted` — the argument lists that an operation accepts.
* `optionsOf` — the slots of an accepted call.

## Main Statements

* `forall_classifies_iff`, `supplied_eq_of_becomes` — what arguments supply are the items that they become.
* `Draft.add_eq_ok_iff`, `Draft.foldlM_add_eq_ok_iff` — placing values adds them to those of their kinds.
* `Draft.ofArguments_eq_ok_iff` — the draft of a list of arguments.
* `accepted_of_resolve`, `Accepted.resolve_eq`, `resolve_eq_ok_iff_accepted` — which calls are accepted, and with
  which slots.
-/

namespace Converge

/-! ### What an argument brings -/

/-- The kinds of values that arguments bring. A duration may be one for the timeout, one for the interval, or one
whose slot is left open. -/
inductive ItemKind where
  | template
  | bindings
  | object
  | objects
  | duration
  | timeout
  | interval
  | selector
  deriving Repr, DecidableEq

namespace ItemKind

/-- The values of a kind. -/
@[reducible] def Value : ItemKind → Type
  | .template => TemplateSource
  | .bindings => Bindings
  | .object => Handle
  | .objects => List Handle
  | .duration | .timeout | .interval => Duration
  | .selector => Selector

/-- The kinds of which a call takes one value only. -/
def Once : ItemKind → Prop
  | .bindings | .duration => False
  | _ => True

end ItemKind

/-- The value of a kind that goes to a slot. -/
def Item.as? : (kind : ItemKind) → Item → Option kind.Value
  | .template, .template source => some source
  | .bindings, .bindings layer => some layer
  | .object, .object handle => some handle
  | .objects, .objects handles => some handles
  | .duration, .duration span => some span
  | .timeout, .timeout span => some span
  | .interval, .interval span => some span
  | .selector, .selector picked => some picked
  | _, _ => none

/-- The values of a kind among arguments, in their order. -/
def supplied (kind : ItemKind) (arguments : List Argument) : List kind.Value :=
  arguments.filterMap fun argument => argument.item.toOption.bind (Item.as? kind)

/-- The text that an argument brings as a template: a template given as text, or any text that is neither a
duration nor the path of a file. -/
def Argument.templateText? : Argument → Option String
  | .template (.inline given) => some given
  | .text given | .value (.string given) =>
      if (Duration.ofLiteral? given).isSome || Path.looksLikeDocument given then none else some given
  | _ => none

/-- An argument is of some kind: a dynamic value is an object or a string, and a template is not empty once its
common indentation is taken away. -/
structure Argument.Classifies (argument : Argument) : Prop where
  value : ∀ document, argument = .value document → document.isObject = true ∨ ∃ text, document = .string text
  template : ∀ text, argument.templateText? = some text → Text.dedent text ≠ ""

/-- A text is of some kind unless it is a template that is empty. -/
theorem Item.exists_ofText_iff {text : String} :
    (∃ item, ofText text = .ok item) ↔
      ∀ given, Argument.templateText? (.text text) = some given → Text.dedent given ≠ "" := by
  cases hliteral : Duration.ofLiteral? text with
  | some span => simp [ofText, Argument.templateText?, hliteral]
  | none =>
      cases hpath : Path.looksLikeDocument text with
      | true => simp [ofText, Argument.templateText?, hliteral, hpath]
      | false => simp [ofText, Argument.templateText?, hliteral, hpath, ofTemplate_eq_ok_iff]

/-- A dynamic value is of some kind if it is an object or a string, unless it is an empty template. -/
theorem Argument.classifies_value_iff {document : Document} :
    (Argument.value document).Classifies ↔ (document.isObject = true ∨ ∃ text, document = .string text) ∧
      ∀ text, (Argument.value document).templateText? = some text → Text.dedent text ≠ "" := by
  constructor
  · intro h
    exact ⟨h.value document rfl, h.template⟩
  · rintro ⟨hvalue, htemplate⟩
    refine ⟨fun other hother => ?_, htemplate⟩
    cases hother
    exact hvalue

/-- Any other argument is of some kind unless it is an empty template. -/
theorem Argument.classifies_iff_of_ne {argument : Argument} (h : ∀ document, argument ≠ .value document) :
    argument.Classifies ↔ ∀ text, argument.templateText? = some text → Text.dedent text ≠ "" :=
  ⟨fun classifies => classifies.template,
    fun htemplate => ⟨fun document hvalue => (h document hvalue).elim, htemplate⟩⟩

theorem Argument.classifies_iff {argument : Argument} :
    argument.Classifies ↔ ∃ item, argument.item = .ok item := by
  cases argument with
  | value document =>
      rw [classifies_value_iff]
      cases document with
      | string given =>
          rw [Argument.item, Item.ofValue, Item.exists_ofText_iff]
          exact and_iff_right (.inr ⟨given, rfl⟩)
      | object members => simp [Argument.item, Item.ofValue, Document.isObject, templateText?]
      | null | bool | number | array => simp [Argument.item, Item.ofValue, Document.isObject]
  | text given =>
      rw [classifies_iff_of_ne (by simp), Argument.item, Item.exists_ofText_iff]
  | template source =>
      rw [classifies_iff_of_ne (by simp)]
      cases source with
      | inline given => simp [Argument.item, templateText?, Item.ofTemplate_eq_ok_iff]
      | file path => simp [Argument.item, templateText?]
  | bindings | object | objects | duration | timeout | interval | selector =>
      rw [classifies_iff_of_ne (by simp)]
      simp [Argument.item, templateText?]

@[simp] theorem supplied_nil {kind : ItemKind} : supplied kind [] = [] := rfl

theorem supplied_cons {kind : ItemKind} {argument : Argument} {arguments : List Argument} {item : Item}
    (h : argument.item = .ok item) :
    supplied kind (argument :: arguments) = (item.as? kind).toList ++ supplied kind arguments := by
  cases hvalue : item.as? kind <;> simp [supplied, h, hvalue, Except.toOption]

/-- Arguments are all of some kind if each of them becomes an item. -/
theorem forall_classifies_iff {arguments : List Argument} :
    (∀ argument ∈ arguments, argument.Classifies) ↔ ∃ items, List.Forall₂ Argument.Becomes arguments items := by
  simp only [Argument.classifies_iff, Argument.item_eq_ok_iff]
  induction arguments with
  | nil => exact ⟨fun _ => ⟨[], .nil⟩, fun _ => List.forall_mem_nil _⟩
  | cons argument arguments ih =>
      rw [List.forall_mem_cons, ih]
      constructor
      · rintro ⟨⟨item, becomes⟩, items, others⟩
        exact ⟨item :: items, .cons becomes others⟩
      · rintro ⟨_, _ | ⟨becomes, others⟩⟩
        exact ⟨⟨_, becomes⟩, _, others⟩

/-- **What is supplied of a kind** are the items of that kind that the arguments become, in the order of the arguments. -/
theorem supplied_eq_of_becomes {arguments : List Argument} {items : List Item}
    (h : List.Forall₂ Argument.Becomes arguments items) (kind : ItemKind) :
    supplied kind arguments = items.filterMap (Item.as? kind) := by
  induction h with
  | nil => rfl
  | cons becomes others ih =>
      rw [supplied_cons (Argument.item_eq_ok_iff.2 becomes), ih, List.filterMap_cons]
      cases Item.as? kind _ <;> rfl

/-! ### What a draft holds -/

namespace Draft

/-- The values that a draft holds of a kind. -/
def held (draft : Draft) : (kind : ItemKind) → List kind.Value
  | .template => draft.template.toList
  | .bindings => draft.bindings
  | .object => draft.object.toList
  | .objects => draft.objects.toList
  | .duration => draft.durations
  | .timeout => draft.timeout.toList
  | .interval => draft.interval.toList
  | .selector => draft.selector.toList

theorem held_empty (kind : ItemKind) : empty.held kind = [] := by
  cases kind <;> rfl

theorem length_held_le {draft : Draft} {kind : ItemKind} (h : kind.Once) : (draft.held kind).length ≤ 1 := by
  cases kind with
  | bindings | duration => cases h
  | template | object | objects | timeout | interval | selector => exact Option.length_toList_le

/-- The draft that holds values of each kind. -/
def ofHeld (values : (kind : ItemKind) → List kind.Value) : Draft where
  template := (values .template).head?
  bindings := values .bindings
  object := (values .object).head?
  objects := (values .objects).head?
  timeout := (values .timeout).head?
  interval := (values .interval).head?
  selector := (values .selector).head?
  durations := values .duration

theorem ofHeld_held (draft : Draft) : ofHeld draft.held = draft := by
  simp [ofHeld, held, Option.head?_toList]

/-- A draft is what it holds. -/
theorem eq_of_held {draft other : Draft} (h : ∀ kind, draft.held kind = other.held kind) : draft = other := by
  rw [← ofHeld_held draft, ← ofHeld_held other, funext h]

theorem toList_head? {α : Type} {values : List α} (h : values.length ≤ 1) : values.head?.toList = values := by
  match values, h with
  | [], _ => rfl
  | [_], _ => rfl

/-- Any values are held by a draft, as long as there is no second one where one is held only. -/
theorem held_ofHeld {values : (kind : ItemKind) → List kind.Value}
    (h : ∀ kind, kind.Once → (values kind).length ≤ 1) (kind : ItemKind) :
    (ofHeld values).held kind = values kind := by
  cases kind with
  | bindings | duration => rfl
  | template | object | objects | timeout | interval | selector => exact toList_head? (h _ trivial)

theorem held_eq_iff {draft : Draft} {values : (kind : ItemKind) → List kind.Value} :
    (∀ kind, draft.held kind = values kind) ↔
      (∀ kind : ItemKind, kind.Once → (values kind).length ≤ 1) ∧ draft = ofHeld values := by
  constructor
  · intro h
    refine ⟨fun kind honce => ?_, ?_⟩
    · rw [← h kind]
      exact length_held_le honce
    · rw [← funext h, ofHeld_held]
  · rintro ⟨honce, rfl⟩
    exact held_ofHeld honce

/-! ### Placing arguments -/

/-- A slot takes a value exactly if it then holds that value after what it held. -/
theorem place_eq_ok_iff_toList {α : Type} {slot : Slot} {held filled : Option α} {value : α} :
    place slot held value = .ok filled ↔ filled.toList = held.toList ++ [value] := by
  rw [place_eq_ok_iff]
  cases held <;> cases filled <;> simp

theorem held_of_add {draft next : Draft} {item : Item} (h : draft.add item = .ok next) (kind : ItemKind) :
    next.held kind = draft.held kind ++ (item.as? kind).toList := by
  cases item with
  | bindings | duration =>
      cases h
      cases kind <;> simp [held, Item.as?]
  | template | object | objects | timeout | interval | selector =>
      obtain ⟨filled, hplace, rfl⟩ := map_eq_ok_iff.1 h
      have hfilled := place_eq_ok_iff_toList.1 hplace
      cases kind <;> simp [held, Item.as?, hfilled]

/-- **Placing a value adds it to those of its kind, if a draft can hold them.** -/
theorem add_eq_ok_iff {draft next : Draft} {item : Item} :
    draft.add item = .ok next ↔ ∀ kind, next.held kind = draft.held kind ++ (item.as? kind).toList := by
  refine ⟨held_of_add, fun h => ?_⟩
  -- There is room for the value, and the draft that is reached holds what the other one does.
  obtain ⟨reached, hreached⟩ : ∃ reached, draft.add item = .ok reached := by
    cases item with
    | bindings | duration => exact ⟨_, rfl⟩
    | template => exact ⟨_, map_eq_ok_iff.2 ⟨_, place_eq_ok_iff_toList.2 (h .template), rfl⟩⟩
    | object => exact ⟨_, map_eq_ok_iff.2 ⟨_, place_eq_ok_iff_toList.2 (h .object), rfl⟩⟩
    | objects => exact ⟨_, map_eq_ok_iff.2 ⟨_, place_eq_ok_iff_toList.2 (h .objects), rfl⟩⟩
    | timeout => exact ⟨_, map_eq_ok_iff.2 ⟨_, place_eq_ok_iff_toList.2 (h .timeout), rfl⟩⟩
    | interval => exact ⟨_, map_eq_ok_iff.2 ⟨_, place_eq_ok_iff_toList.2 (h .interval), rfl⟩⟩
    | selector => exact ⟨_, map_eq_ok_iff.2 ⟨_, place_eq_ok_iff_toList.2 (h .selector), rfl⟩⟩
  have hnext : reached = next := eq_of_held fun kind => by rw [held_of_add hreached, h kind]
  rw [hreached, hnext]

/-- Arguments that are placed one by one add what is supplied of each kind. -/
theorem foldlM_add_eq_ok_iff {arguments : List Argument} {draft next : Draft} :
    arguments.foldlM (fun draft argument => argument.item.bind draft.add) draft = .ok next ↔
      (∀ argument ∈ arguments, argument.Classifies) ∧
        ∀ kind, next.held kind = draft.held kind ++ supplied kind arguments := by
  induction arguments generalizing draft with
  | nil =>
      rw [List.foldlM_nil, pure_eq_ok_iff]
      constructor
      · rintro rfl
        exact ⟨by simp, by simp⟩
      · rintro ⟨-, hheld⟩
        refine eq_of_held fun kind => ?_
        rw [hheld kind, supplied_nil, List.append_nil]
  | cons argument arguments ih =>
      rw [List.foldlM_cons, bind_eq_ok_iff, List.forall_mem_cons]
      constructor
      · rintro ⟨middle, hstep, hrest⟩
        obtain ⟨item, hitem, hadd⟩ := bind_eq_ok_iff.1 hstep
        obtain ⟨hclassify, hheld⟩ := ih.1 hrest
        refine ⟨⟨Argument.classifies_iff.2 ⟨item, hitem⟩, hclassify⟩, fun kind => ?_⟩
        rw [hheld kind, add_eq_ok_iff.1 hadd kind, supplied_cons hitem, List.append_assoc]
      · rintro ⟨⟨hfirst, hclassify⟩, hheld⟩
        obtain ⟨item, hitem⟩ := Argument.classifies_iff.1 hfirst
        have hnext : ∀ kind,
            next.held kind = (draft.held kind ++ (item.as? kind).toList) ++ supplied kind arguments := by
          intro kind
          rw [hheld kind, supplied_cons hitem, List.append_assoc]
        -- What is held in the end has room for what is held on the way.
        have hroom : ∀ kind, kind.Once → (draft.held kind ++ (item.as? kind).toList).length ≤ 1 := by
          intro kind honce
          have hlength : (next.held kind).length ≤ 1 := length_held_le honce
          rw [hnext kind, List.length_append] at hlength
          omega
        refine ⟨ofHeld _, bind_eq_ok_iff.2 ⟨item, hitem, add_eq_ok_iff.2 (held_ofHeld hroom)⟩, ?_⟩
        refine ih.2 ⟨hclassify, fun kind => ?_⟩
        rw [hnext kind, held_ofHeld hroom]

/-! ### Placing durations -/

/-- Durations without a slot take the timeout if it is open, then the interval, and there are no other slots. -/
theorem foldlM_addDuration_eq_ok_iff {durations : List Duration} {draft next : Draft} :
    durations.foldlM addDuration draft = .ok next ↔
      draft.timeout.toList.length + draft.interval.toList.length + durations.length ≤ 2 ∧
        next = { draft with
          timeout := draft.timeout.or durations.head?
          interval := draft.interval.or (if draft.timeout.isSome then durations else durations.tail).head? } := by
  induction durations generalizing draft with
  | nil =>
      rw [List.foldlM_nil, pure_eq_ok_iff]
      have htimeout := Option.length_toList_le (o := draft.timeout)
      have hinterval := Option.length_toList_le (o := draft.interval)
      simp only [List.length_nil, List.head?_nil, List.tail_nil, ite_self, Option.or_none]
      constructor
      · intro h
        exact ⟨by omega, h.symm⟩
      · intro h
        exact h.2.symm
  | cons duration durations ih =>
      rw [List.foldlM_cons, bind_eq_ok_iff]
      cases htimeout : draft.timeout with
      | none =>
          have hstep : draft.addDuration duration = .ok { draft with timeout := some duration } := by
            simp [addDuration, htimeout]
          simp only [hstep, Except.ok.injEq, exists_eq_left', ih]
          refine and_congr ?_ (by simp)
          simp only [Option.toList_some, Option.toList_none, List.length_cons, List.length_nil]
          omega
      | some span =>
          cases hinterval : draft.interval with
          | none =>
              have hstep : draft.addDuration duration = .ok { draft with interval := some duration } := by
                simp [addDuration, htimeout, hinterval, place, Except.map]
              simp only [hstep, Except.ok.injEq, exists_eq_left', ih]
              refine and_congr ?_ (by simp [htimeout])
              simp only [htimeout, Option.toList_some, Option.toList_none, List.length_cons, List.length_nil]
              omega
          | some other =>
              have hstep : draft.addDuration duration = .error (.repeated .interval) := by
                simp [addDuration, htimeout, hinterval, place, Except.map]
              rw [hstep]
              constructor
              · rintro ⟨middle, hmiddle, -⟩
                cases hmiddle
              · rintro ⟨hlength, -⟩
                simp only [Option.toList_some, List.length_cons, List.length_nil] at hlength
                omega

end Draft

/-! ### Accepted arguments -/

/-- The timeout of a call: the one that is named, or else the first duration without a slot. -/
def timeoutOf (arguments : List Argument) : Option Duration :=
  (supplied .timeout arguments).head?.or (supplied .duration arguments).head?

/-- The interval of a call: the one that is named, or else the first duration without a slot that the timeout
leaves. -/
def intervalOf (arguments : List Argument) : Option Duration :=
  (supplied .interval arguments).head?.or
    (if supplied .timeout arguments = [] then (supplied .duration arguments).tail
      else supplied .duration arguments).head?

/-- Whether arguments fill a slot. -/
def InUse (arguments : List Argument) : Slot → Prop
  | .template => supplied .template arguments ≠ []
  | .bindings => supplied .bindings arguments ≠ []
  | .object => supplied .object arguments ≠ []
  | .objects => supplied .objects arguments ≠ []
  | .timeout => (timeoutOf arguments).isSome = true
  | .interval => (intervalOf arguments).isSome = true
  | .selector => supplied .selector arguments ≠ []

/-- The argument lists that an operation accepts. -/
structure Accepted (operation : Operation) (arguments : List Argument) : Prop where
  classified : ∀ argument ∈ arguments, argument.Classifies
  once : ∀ kind : ItemKind, kind.Once → (supplied kind arguments).length ≤ 1
  durations : (supplied .timeout arguments).length + (supplied .interval arguments).length +
    (supplied .duration arguments).length ≤ 2
  exclusive : ¬ (InUse arguments .object ∧ InUse arguments .objects)
  permitted : ∀ slot, InUse arguments slot → slot ∈ operation.profile.permitted
  required : ∀ group ∈ operation.profile.required, ∃ slot ∈ group, InUse arguments slot
  template : InUse arguments .bindings → InUse arguments .template

/-- The slots of an accepted call. -/
def optionsOf (operation : Operation) (config : Config) (arguments : List Argument) : Options where
  template := (supplied .template arguments).head?
  bindings := (if config.bindings.isEmpty then [] else [config.bindings]) ++ supplied .bindings arguments
  object := (supplied .object arguments).head?
  objects := (supplied .objects arguments).head?
  timeout := (timeoutOf arguments).or (if operation.waits then some config.timeout else none)
  interval := (intervalOf arguments).or (if operation.waits then some config.interval else none)
  selector := (supplied .selector arguments).head?

namespace Draft

/-- The draft of arguments that are accepted. -/
def ofSupplied (arguments : List Argument) : Draft :=
  { ofHeld (supplied · arguments) with
    timeout := timeoutOf arguments
    interval := intervalOf arguments
    durations := [] }

/-- **The draft of a list of arguments holds what is supplied**, if every argument is of some kind, nothing that
is held once is supplied twice, and there are no more durations than slots for them. -/
theorem ofArguments_eq_ok_iff {arguments : List Argument} {draft : Draft} :
    ofArguments arguments = .ok draft ↔
      (∀ argument ∈ arguments, argument.Classifies) ∧
      (∀ kind : ItemKind, kind.Once → (supplied kind arguments).length ≤ 1) ∧
      (supplied .timeout arguments).length + (supplied .interval arguments).length +
        (supplied .duration arguments).length ≤ 2 ∧
      draft = ofSupplied arguments := by
  have hplaced : ∀ placed : Draft,
      arguments.foldlM (fun draft argument => argument.item.bind draft.add) empty = .ok placed ↔
        (∀ argument ∈ arguments, argument.Classifies) ∧
          (∀ kind : ItemKind, kind.Once → (supplied kind arguments).length ≤ 1) ∧
          placed = ofHeld (supplied · arguments) := by
    intro placed
    simp only [foldlM_add_eq_ok_iff, held_empty, List.nil_append, held_eq_iff]
  have hfilled : ({ ofHeld (supplied · arguments) with
      timeout := timeoutOf arguments
      interval := (ofHeld (supplied · arguments)).interval.or
        (if (ofHeld (supplied · arguments)).timeout.isSome then supplied .duration arguments
          else (supplied .duration arguments).tail).head?
      durations := [] } : Draft) = ofSupplied arguments := by
    cases htimeout : supplied .timeout arguments <;> simp [ofSupplied, ofHeld, intervalOf, htimeout]
  unfold ofArguments
  rw [bind_eq_ok_iff]
  simp only [hplaced, foldlM_addDuration_eq_ok_iff]
  constructor
  · rintro ⟨_, ⟨hclassified, honce, rfl⟩, hdurations, rfl⟩
    refine ⟨hclassified, honce, ?_, hfilled⟩
    simpa [ofHeld, toList_head? (honce .timeout trivial), toList_head? (honce .interval trivial)] using hdurations
  · rintro ⟨hclassified, honce, hdurations, rfl⟩
    refine ⟨_, ⟨hclassified, honce, rfl⟩, ?_, hfilled.symm⟩
    simpa [ofHeld, toList_head? (honce .timeout trivial), toList_head? (honce .interval trivial)] using hdurations

/-- The slots of a draft are without fault if they are those of the operation. -/
theorem fault?_eq_none_iff {draft : Draft} {operation : Operation} :
    draft.fault? operation = none ↔
      ¬ (draft.has .object = true ∧ draft.has .objects = true) ∧
      (∀ slot, draft.has slot = true → slot ∈ operation.profile.permitted) ∧
      (∀ group ∈ operation.profile.required, ∃ slot ∈ group, draft.has slot = true) ∧
      (draft.has .bindings = true → draft.has .template = true) := by
  have hexclusive : operation.profile.exclusive = [(.object, .objects)] := by cases operation <;> rfl
  have hall : ∀ slot, slot ∈ Slot.all := by
    intro slot
    cases slot <;> decide
  have hpair : operation.profile.exclusive.find? (fun pair => draft.has pair.1 && draft.has pair.2) = none ↔
      ¬ (draft.has .object = true ∧ draft.has .objects = true) := by
    simp [hexclusive]
  have hpermitted : Slot.all.find? (fun slot => draft.has slot && !operation.profile.permitted.contains slot) = none ↔
      ∀ slot, draft.has slot = true → slot ∈ operation.profile.permitted := by
    simp [List.find?_eq_none, hall]
  have hrequired : operation.profile.required.find? (fun group => !group.any draft.has) = none ↔
      ∀ group ∈ operation.profile.required, ∃ slot ∈ group, draft.has slot = true := by
    simp [List.find?_eq_none]
  rw [← hpair, ← hpermitted, ← hrequired]
  simp only [fault?]
  -- The first of the four faults that there is decides.
  generalize operation.profile.exclusive.find? _ = pair
  generalize Slot.all.find? _ = other
  generalize operation.profile.required.find? _ = group
  cases pair with
  | some pair => simp
  | none =>
      cases other with
      | some other => simp
      | none =>
          cases group with
          | some group => simp
          | none => simp

theorem has_ofSupplied_iff {arguments : List Argument} {slot : Slot} :
    (ofSupplied arguments).has slot = true ↔ InUse arguments slot := by
  cases slot with
  | timeout | interval => rfl
  | bindings => simp [has, ofSupplied, ofHeld, InUse]
  | template | object | objects | selector => simp [has, ofSupplied, ofHeld, InUse]

end Draft

theorem Draft.options_ofSupplied (operation : Operation) (config : Config) (arguments : List Argument) :
    (Draft.ofSupplied arguments).options operation config = optionsOf operation config arguments := by
  cases htimeout : timeoutOf arguments <;> cases hinterval : intervalOf arguments <;>
    cases hwaits : operation.waits <;>
    simp [Draft.options, Draft.ofSupplied, Draft.ofHeld, optionsOf, htimeout, hinterval, hwaits]

/-- A call that is accepted has valid arguments, and its slots are those of its arguments. -/
theorem accepted_of_resolve {operation : Operation} {arguments : List Argument} {config : Config} {options : Options}
    (h : resolve operation arguments config = .ok options) :
    Accepted operation arguments ∧ options = optionsOf operation config arguments := by
  obtain ⟨draft, hdraft, hfault, rfl⟩ := resolve_eq_ok_iff.1 h
  obtain ⟨hclassified, honce, hdurations, rfl⟩ := Draft.ofArguments_eq_ok_iff.1 hdraft
  obtain ⟨hexclusive, hpermitted, hrequired, htemplate⟩ := Draft.fault?_eq_none_iff.1 hfault
  simp only [Draft.has_ofSupplied_iff] at hexclusive hpermitted hrequired htemplate
  exact ⟨⟨hclassified, honce, hdurations, hexclusive, hpermitted, hrequired, htemplate⟩,
    Draft.options_ofSupplied operation config arguments⟩

/-- Valid arguments are accepted. -/
theorem Accepted.resolve_eq {operation : Operation} {arguments : List Argument} (h : Accepted operation arguments)
    (config : Config) : resolve operation arguments config = .ok (optionsOf operation config arguments) := by
  have hdraft : Draft.ofArguments arguments = .ok (Draft.ofSupplied arguments) :=
    Draft.ofArguments_eq_ok_iff.2 ⟨h.classified, h.once, h.durations, rfl⟩
  have hfault : (Draft.ofSupplied arguments).fault? operation = none := by
    rw [Draft.fault?_eq_none_iff]
    simp only [Draft.has_ofSupplied_iff]
    exact ⟨h.exclusive, h.permitted, h.required, h.template⟩
  exact resolve_eq_ok_iff.2 ⟨_, hdraft, hfault, Draft.options_ofSupplied operation config arguments⟩

/-- **Exactly the valid argument lists are accepted, and nothing of them is lost.** -/
theorem resolve_eq_ok_iff_accepted {operation : Operation} {arguments : List Argument} {config : Config}
    {options : Options} :
    resolve operation arguments config = .ok options ↔
      Accepted operation arguments ∧ options = optionsOf operation config arguments := by
  constructor
  · exact accepted_of_resolve
  · rintro ⟨haccepted, rfl⟩
    exact haccepted.resolve_eq config

/-- A named interval, a text that is a duration, one that is a path and an object make a call that waits. A call that does
not wait has no slot for the durations. -/
theorem resolve_eq_ok_iff_accepted_of_texts :
    let web := Argument.value (.object [("name", .string "web")])
    let arguments := [Argument.interval .tenSeconds, .text " 30s", .text " pods.YAML ", web]
    let options : Options :=
      { template := some (.file "pods.YAML"), bindings := [Table.ofList [("name", .string "web")]], object := none,
        objects := none, timeout := some ⟨30 * nanosPerSecond, by decide⟩, interval := some .tenSeconds,
        selector := none }
    Accepted .createAndWait arguments ∧ resolve .createAndWait arguments .standard = .ok options ∧
      ∀ other, resolve .create arguments .standard ≠ .ok other := by
  intro web arguments options
  have hliteral : Item.OfText " 30s" (.duration ⟨30 * nanosPerSecond, by decide⟩) :=
    .duration (Duration.ofLiteralChars?_eq_some_iff.1 (by decide +kernel))
  have hpath : Item.OfText " pods.YAML " (.template (.file "pods.YAML")) := by
    have hname : Chars.trimmed " pods.YAML " = "pods.YAML" := by decide +kernel
    rw [← hname]
    exact .file (Duration.ofLiteral?_eq_none_iff.1 (by decide +kernel)) (Path.looksLikeDocument_iff.1 (by decide +kernel))
  have hbecomes : List.Forall₂ Argument.Becomes arguments [.interval .tenSeconds,
      .duration ⟨30 * nanosPerSecond, by decide⟩, .template (.file "pods.YAML"),
      .bindings (Table.ofList [("name", .string "web")])] :=
    .cons (.interval _) (.cons (.text hliteral) (.cons (.text hpath) (.cons (Argument.becomes_members _) .nil)))
  have hsupplied := supplied_eq_of_becomes hbecomes
  have htemplate : InUse arguments .template := by
    rw [InUse, hsupplied]
    exact List.cons_ne_nil _ _
  have haccepted : Accepted .createAndWait arguments :=
    { classified := forall_classifies_iff.2 ⟨_, hbecomes⟩
      once := fun kind honce => by
        rw [hsupplied]
        cases kind with
        | bindings | duration => cases honce
        | template | object | objects | timeout | interval | selector => decide
      durations := by
        rw [hsupplied, hsupplied, hsupplied]
        decide
      exclusive := fun h => h.1 (hsupplied .object)
      permitted := fun slot h => by
        cases slot with
        | object => exact absurd (hsupplied .object) h
        | objects => exact absurd (hsupplied .objects) h
        | selector => exact absurd (hsupplied .selector) h
        | template | bindings | timeout | interval => decide
      required := fun group hgroup => by
        cases List.mem_singleton.1 hgroup
        exact ⟨.template, List.mem_cons_self, htemplate⟩
      template := fun _ => htemplate }
  have hoptions : options = optionsOf .createAndWait .standard arguments := by
    simp only [optionsOf, timeoutOf, intervalOf, hsupplied]
    rfl
  refine ⟨haccepted, resolve_eq_ok_iff_accepted.2 ⟨haccepted, hoptions⟩, fun other hother => ?_⟩
  obtain ⟨hcreate, -⟩ := resolve_eq_ok_iff_accepted.1 hother
  have htimeout : InUse arguments .timeout := by
    rw [InUse, timeoutOf, hsupplied, hsupplied]
    rfl
  exact absurd (hcreate.permitted .timeout htimeout) (by decide)

end Converge
