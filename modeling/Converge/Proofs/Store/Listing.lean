import Converge.Proofs.Identity
import Converge.Proofs.Store.Lifetime
import Converge.Proofs.Table

/-!
# What a list shows, and in which order

A selector reads the key of an object off its document. In a store that is reached by a run this is the key that the
object is stored under, so a list shows what was asked for. Its order is that of the table: a write takes the object
of its key out of its place and puts there what it leaves, and only an object that is new goes to the end. Hence the
objects of a run stand in the order of their creations, an object that is removed and created again counting from its
last one.

## Main Definitions

* `Selector.Picks` — an object is one that a selector asks for.
* `MemoryStore.CreatedAt` — which request of a run created the object under a key.
* `MemoryStore.CreatedBefore`, `MemoryStore.Chronological` — the order of creation.

## Main Statements

* `Selector.accepts_iff` — a selector accepts the documents that it asks for.
* `MemoryStore.entries_set` — what a write does to the objects in their order.
* `MemoryStore.CreatedAt.unique` — an object was created once.
* `MemoryStore.keys_run` — the objects of a run stand in the order of their creation.
* `MemoryStore.lists_in_order_of_creation` — what a list shows, in which order, and what a write does to it.
-/

namespace Converge

/-! ### What a selector asks for -/

namespace Selector

/-- An object is one that a selector asks for: of its type, in its namespace if it names one, and with all of its
labels. -/
structure Picks (selector : Selector) (key : ObjectKey) (document : Document) : Prop where
  type : key.type = selector.type
  scope : ∀ scope, selector.scope = some scope → key.scope = some scope
  labels : ∀ name value, selector.labels.get? name = some value →
    document.text? ["metadata", "labels", name] = some value

theorem carries_iff {document : Document} {name value : String} :
    carries document (name, value) = true ↔ document.text? ["metadata", "labels", name] = some value := by
  rw [carries, decide_eq_true_iff, Document.text?, Document.under?_cons]
  cases document.get? "metadata" with
  | none => rfl
  | some metadata =>
      rw [Option.bind_some, Option.bind_some, Document.under?_cons]
      cases metadata.get? "labels" with
      | none => rfl
      | some labels =>
          rw [Option.bind_some, Option.bind_some, ← Document.text?, Document.text?_singleton]

/-- **A selector accepts the documents that it asks for.** -/
theorem accepts_iff {selector : Selector} {document : Document} {key : ObjectKey}
    (named : ObjectKey.ofDocument document = .ok key) :
    selector.accepts document = true ↔ selector.Picks key document := by
  have hscope : (selector.scope.isNone || decide (key.scope = selector.scope)) = true ↔
      ∀ scope, selector.scope = some scope → key.scope = some scope := by
    cases selector.scope <;> simp
  have hlabels : selector.labels.entries.all (carries document) = true ↔
      ∀ name value, selector.labels.get? name = some value →
        document.text? ["metadata", "labels", name] = some value := by
    simp only [List.all_eq_true, Prod.forall, carries_iff, Table.get?_eq_some_iff]
  simp only [accepts, named, Bool.and_eq_true, decide_eq_true_iff, hscope, hlabels]
  constructor
  · rintro ⟨⟨htype, hscope⟩, hlabels⟩
    exact ⟨htype, hscope, hlabels⟩
  · rintro ⟨htype, hscope, hlabels⟩
    exact ⟨⟨htype, hscope⟩, hlabels⟩

end Selector

namespace MemoryStore

/-! ### Objects in their order -/

variable {store : MemoryStore} {request : Request} {key : ObjectKey}

/-- What stands in a table for an object that may be there. -/
def entriesOf (key : ObjectKey) : Option Document → List (ObjectKey × Document)
  | some document => [(key, document)]
  | none => []

/-- **What a write does to the objects in their order.** It takes the object of its key out of its place and puts there
what it leaves, and the place of an object that is not there is at the end. -/
theorem entries_set (key : ObjectKey) {left : Option Document}
    (present : left = none → (store.objects.get? key).isSome) :
    ∃ front back, store.objects.entries = front ++ entriesOf key (store.objects.get? key) ++ back ∧
      (store.set key left).objects.entries = front ++ entriesOf key left ++ back ∧
      key ∉ (front ++ back).map (·.1) ∧ (store.objects.get? key = none → back = []) := by
  cases hold : store.objects.get? key with
  | none =>
      have hnew : key ∉ store.objects.keys := by
        rw [Table.mem_keys_iff, hold]
        exact fun ⟨old, hsome⟩ => by cases hsome
      cases left with
      | none => simp [hold] at present
      | some document =>
          refine ⟨store.objects.entries, [], by simp [entriesOf], ?_, by rwa [List.append_nil], fun _ => rfl⟩
          rw [List.append_nil]
          exact Table.entries_insert_of_not_mem hnew document
  | some current =>
      obtain ⟨front, back, hentries, hfront, hback⟩ := Table.exists_entries_eq hold
      have hothers : key ∉ (front ++ back).map (·.1) := by
        rw [List.map_append, List.mem_append, not_or]
        exact ⟨hfront, hback⟩
      refine ⟨front, back, by rw [hentries, List.append_assoc]; rfl, ?_, hothers, fun h => by cases h⟩
      rw [List.append_assoc]
      cases left with
      | none => exact Table.entries_erase_of_entries_eq hentries hfront hback
      | some document => exact Table.entries_insert_of_entries_eq hentries hfront document

theorem Commit.present {left : Option Document} (h : Commit store request key left) :
    left = none → (store.objects.get? key).isSome := by
  intro hleft
  cases h with
  | create | update | patch => cases hleft
  | delete found => rw [found, Option.isSome_some]

/-! ### The order of creation -/

/-- The object under a key was created by the request at a position of a run, and has not been removed since. -/
def CreatedAt (requests : List Request) (key : ObjectKey) (position : Nat) : Prop :=
  ∃ before creation source after, requests = before ++ creation :: after ∧ before.length = position ∧
    creation.call = .create source ∧ (empty.run before).touches key creation = true ∧
    ((empty.run before).step creation).count (removes key) after = 0

/-- Of two objects of a run the one was created before the other. -/
def CreatedBefore (requests : List Request) (key other : ObjectKey) : Prop :=
  ∃ position position', CreatedAt requests key position ∧ CreatedAt requests other position' ∧ position < position'

namespace CreatedAt

variable {requests : List Request} {position position' : Nat}

theorem lt_length (h : CreatedAt requests key position) : position < requests.length := by
  obtain ⟨before, creation, source, after, rfl, rfl, -⟩ := h
  rw [List.length_append, List.length_cons]
  omega

/-- An object that is not removed is still the one that was created. -/
theorem concat (h : CreatedAt requests key position) (stays : (empty.run requests).removes key request = false) :
    CreatedAt (requests ++ [request]) key position := by
  obtain ⟨before, creation, source, after, rfl, hposition, hcall, htouches, halive⟩ := h
  refine ⟨before, creation, source, after ++ [request], by simp, hposition, hcall, htouches, ?_⟩
  rw [run_append, run_cons] at stays
  rw [count_append, halive, count, stays]
  rfl

/-- The last request may be the creation. -/
theorem of_last {source : Document} (hcall : request.call = .create source)
    (htouches : (empty.run requests).touches key request = true) :
    CreatedAt (requests ++ [request]) key requests.length :=
  ⟨requests, request, source, [], rfl, rfl, hcall, htouches, rfl⟩

/-- As long as an object is there, none is created under its key. -/
theorem not_lt (h : CreatedAt requests key position) (h' : CreatedAt requests key position') :
    ¬ position < position' := by
  intro hlt
  obtain ⟨before, creation, source, after, rfl, rfl, hcall, htouches, halive⟩ := h
  obtain ⟨before', creation', source', after', hsplit, rfl, hcall', htouches', -⟩ := h'
  -- The later creation is among the requests behind the earlier one.
  obtain ⟨between, rfl, hafter⟩ : ∃ between, before' = before ++ creation :: between ∧
      after = between ++ creation' :: after' := by
    obtain ⟨rest, rfl, hrest⟩ | ⟨rest, rfl, hrest⟩ := List.append_eq_append_iff.1 hsplit
    · cases rest with
      | nil => simp at hlt
      | cons head between =>
          obtain ⟨rfl, rfl⟩ := List.cons_eq_cons.1 hrest
          exact ⟨between, rfl, rfl⟩
    · rw [List.length_append] at hlt
      omega
  rw [hafter, count_append] at halive
  rw [run_append, run_cons] at htouches'
  obtain ⟨-, hstored⟩ := stored_of_create hcall htouches
  obtain ⟨last, -, hlast, -⟩ :=
    stamped_run between hstored (stamped_stampNew _ _ _) (Nat.add_eq_zero_iff.1 halive).1
  obtain hrewrites | hremoves := touches_cases hlast htouches'
  · simp [rewrites, hcall', brought?] at hrewrites
  · simp [removes, hcall'] at hremoves

/-- **An object was created once.** -/
theorem unique (h : CreatedAt requests key position) (h' : CreatedAt requests key position') :
    position = position' := by
  have hle := not_lt h h'
  have hge := not_lt h' h
  omega

end CreatedAt

/-- An object that was created, and not removed since, is there when all is done. -/
theorem CreatedBefore.concat {requests : List Request} {other : ObjectKey} (h : CreatedBefore requests key other)
    (stays : (empty.run requests).removes key request = false)
    (stays' : (empty.run requests).removes other request = false) :
    CreatedBefore (requests ++ [request]) key other := by
  obtain ⟨position, position', hkey, hother, hlt⟩ := h
  exact ⟨position, position', hkey.concat stays, hother.concat stays', hlt⟩

/-- Keys stand in the order in which the objects under them were created. -/
structure Chronological (requests : List Request) (keys : List ObjectKey) : Prop where
  created : ∀ key ∈ keys, ∃ position, CreatedAt requests key position
  ordered : keys.Pairwise (CreatedBefore requests)

namespace Chronological

variable {requests : List Request} {keys kept : List ObjectKey}

/-- A further request leaves the objects that it does not remove in their order. -/
theorem concat (h : Chronological requests keys) (among : kept.Sublist keys)
    (stays : ∀ key ∈ kept, (empty.run requests).removes key request = false) :
    Chronological (requests ++ [request]) kept where
  created key hkey := by
    obtain ⟨position, hposition⟩ := h.created key (among.subset hkey)
    exact ⟨position, hposition.concat (stays key hkey)⟩
  ordered := (h.ordered.sublist among).imp_of_mem fun hkey hother hbefore =>
    hbefore.concat (stays _ hkey) (stays _ hother)

/-- An object that is created comes after all others. -/
theorem concat_creation {source : Document} (h : Chronological requests keys) (hcall : request.call = .create source)
    (htouches : (empty.run requests).touches key request = true) :
    Chronological (requests ++ [request]) (keys ++ [key]) := by
  have hkept : Chronological (requests ++ [request]) keys :=
    h.concat (.refl keys) fun _ _ => by simp [removes, hcall]
  have hnew : CreatedAt (requests ++ [request]) key requests.length := .of_last hcall htouches
  constructor
  · intro other hother
    obtain hother | hother := List.mem_append.1 hother
    · exact hkept.created other hother
    · obtain rfl := List.mem_singleton.1 hother
      exact ⟨_, hnew⟩
  · refine List.pairwise_append.2 ⟨hkept.ordered, List.pairwise_singleton _ _, ?_⟩
    intro other hother last hlast
    obtain rfl := List.mem_singleton.1 hlast
    obtain ⟨position, hposition⟩ := h.created other hother
    have stays : (empty.run requests).removes other request = false := by simp [removes, hcall]
    exact ⟨position, _, hposition.concat stays, hnew, hposition.lt_length⟩

end Chronological

/-- **The objects of a run stand in the order of their creation.** The induction is on the requests, from the end. -/
theorem keys_run (requests : List Request) : Chronological requests (empty.run requests).objects.keys := by
  induction requests using List.reverseRecOn with
  | nil => exact ⟨fun key hkey => absurd hkey List.not_mem_nil, .nil⟩
  | append_singleton requests request ih =>
      have hrun : empty.run (requests ++ [request]) = (empty.run requests).step request := run_append ..
      rw [hrun]
      obtain ⟨key, left, hcommit⟩ | ⟨hcommits, hidle⟩ := (empty.run requests).commit_or_idle request
      · have htouches := hcommit.touches
        obtain ⟨front, back, hbefore, hafter, hothers, hend⟩ := entries_set key hcommit.present
        rw [Table.keys, hbefore] at ih
        rw [hcommit.step_eq, Table.keys, hafter]
        cases hcommit with
        | create named free =>
            -- There was no object under the key, so its place is behind all others.
            rw [hend free, free] at ih
            rw [hend free]
            simpa [entriesOf] using ih.concat_creation rfl htouches
        | update named found | patch named found =>
            rw [found] at ih
            exact ih.concat (by simp [entriesOf]) fun _ _ => by simp [removes]
        | delete found =>
            rw [entriesOf, List.append_nil]
            refine ih.concat (by simp) fun other hother => ?_
            have hne : other ≠ key := fun heq => hothers (heq ▸ hother)
            simp [removes, touches, StoreCall.key?, hne.symm]
      · rw [hidle]
        exact ih.concat (.refl _) fun _ _ => by simp [removes, touches, hcommits]

/-! ### What a list shows -/

variable {selector : Selector} {document : Document}

/-- In a store whose documents state their keys a list shows the objects that were asked for. -/
theorem mem_list_iff (sound : Sound store) :
    document ∈ store.list selector ↔
      ∃ key, store.objects.get? key = some document ∧ selector.Picks key document := by
  simp only [list, List.mem_filter, Table.values, List.mem_map, Prod.exists, exists_eq_right, ← Table.get?_eq_some_iff]
  constructor
  · rintro ⟨⟨key, hstored⟩, haccepts⟩
    exact ⟨key, hstored, (Selector.accepts_iff (sound.named hstored)).1 haccepts⟩
  · rintro ⟨key, hstored, hpicks⟩
    exact ⟨⟨key, hstored⟩, (Selector.accepts_iff (sound.named hstored)).2 hpicks⟩

/-- Documents that state their keys stand in a list in the order of these. -/
theorem list_pairwise (sound : Sound store) {relation : ObjectKey → ObjectKey → Prop}
    (h : store.objects.keys.Pairwise relation) (selector : Selector) :
    (store.list selector).Pairwise fun document document' => ∃ key key', ObjectKey.ofDocument document = .ok key ∧
      ObjectKey.ofDocument document' = .ok key' ∧ relation key key' := by
  refine List.Pairwise.filter _ (List.pairwise_map.2 ((List.pairwise_map.1 h).imp_of_mem fun hentry hentry' hrel => ?_))
  exact ⟨_, _, sound.named (Table.get?_eq_some_iff.2 hentry), sound.named (Table.get?_eq_some_iff.2 hentry'), hrel⟩

/-- A write that goes through changes a list in one place, which is the end if the object is new. -/
theorem list_step (h : store.touches key request) (selector : Selector) :
    ∃ front back, store.list selector = front ++ (store.objects.get? key).toList.filter selector.accepts ++ back ∧
      (store.step request).list selector =
        front ++ ((store.step request).objects.get? key).toList.filter selector.accepts ++ back ∧
      (store.objects.get? key = none → back = []) := by
  have hvalues : ∀ entry : Option Document, (entriesOf key entry).map (·.2) = entry.toList := by
    rintro (_ | document) <;> rfl
  obtain ⟨left, hcommit⟩ := commit_of_touches h
  obtain ⟨front, back, hbefore, hafter, -, hend⟩ := entries_set key hcommit.present
  rw [hcommit.step_eq, get?_set_self]
  refine ⟨(front.map (·.2)).filter selector.accepts, (back.map (·.2)).filter selector.accepts, ?_, ?_, ?_⟩
  · simp only [list, Table.values, hbefore, List.map_append, List.filter_append, hvalues]
  · simp only [list, Table.values, hafter, List.map_append, List.filter_append, hvalues]
  · intro hnew
    rw [hend hnew]
    rfl

/-- Nothing is left of an object that is removed. -/
theorem gone_of_removes (h : store.removes key request) :
    ∃ current, store.objects.get? key = some current ∧ (store.step request).objects.get? key = none := by
  obtain ⟨htouches, hcall⟩ := Bool.and_eq_true_iff.1 h
  obtain ⟨left, hcommit⟩ := commit_of_touches htouches
  rw [hcommit.step_eq, get?_set_self]
  cases hcommit with
  | delete found => exact ⟨_, found, rfl⟩
  | create | update | patch => cases hcall

/-- **A list shows exactly what was asked for, in the order of creation.** In every state that the store reaches, for
every selector: A list shows the stored documents of its type, its namespace and its labels, each of them once, and
each is what is read under its key. Every stored object has one creation, and in the list the documents follow each
other in the order of these. So an update or a patch replaces a document in its place, and a document that is removed
goes out of its place and, when an object is created under its key again, to the end. -/
theorem lists_in_order_of_creation (requests : List Request) (selector : Selector) :
    let store := empty.run requests
    let listed := store.list selector
    let shown := fun document : Document => [document].filter selector.accepts
    (∀ now, store.serve ⟨false, now, .list selector⟩ = (.ok listed, store)) ∧
      (∀ document, document ∈ listed ↔
        ∃ key, store.objects.get? key = some document ∧ selector.Picks key document) ∧
      listed.Nodup ∧
      (∀ document ∈ listed, ∃ key, ObjectKey.ofDocument document = .ok key ∧
        ∀ now, store.serve ⟨false, now, .get key⟩ = (.ok document, store)) ∧
      (∀ key, store.objects.contains key → ∃! position, CreatedAt requests key position) ∧
      (listed.Pairwise fun document document' => ∃ key key', ObjectKey.ofDocument document = .ok key ∧
        ObjectKey.ofDocument document' = .ok key' ∧ CreatedBefore requests key key') ∧
      (∀ key change, store.rewrites key change →
        ∃ current next front back, store.objects.get? key = some current ∧
          (store.step change).objects.get? key = some next ∧
          listed = front ++ shown current ++ back ∧
          (store.step change).list selector = front ++ shown next ++ back) ∧
      ∀ key removal, store.removes key removal →
        ∃ current front back, store.objects.get? key = some current ∧
          listed = front ++ shown current ++ back ∧
          (store.step removal).list selector = front ++ back ∧
          ∀ creation source, creation.call = .create source → (store.step removal).touches key creation →
            ∃ new, ((store.step removal).step creation).objects.get? key = some new ∧
              ((store.step removal).step creation).list selector = front ++ back ++ shown new := by
  intro store listed shown
  have sound : Sound store := sound_run requests
  obtain ⟨hcreated, hordered⟩ := keys_run requests
  refine ⟨fun now => rfl, fun document => mem_list_iff sound, ?_, ?_, ?_, list_pairwise sound hordered selector, ?_, ?_⟩
  · refine (list_pairwise sound store.objects.nodup selector).imp ?_
    rintro document _ ⟨key, key', hkey, hkey', hne⟩ rfl
    exact hne (Except.ok.inj (hkey.symm.trans hkey'))
  · intro document hdocument
    obtain ⟨key, hstored, -⟩ := (mem_list_iff sound).1 hdocument
    exact ⟨key, sound.named hstored, fun now => Prod.ext (find_eq_ok_iff.2 hstored) rfl⟩
  · intro key hcontains
    obtain ⟨position, hposition⟩ := hcreated key (Table.mem_keys_iff.2 (Option.isSome_iff_exists.1 hcontains))
    exact ⟨position, hposition, fun other hother => hother.unique hposition⟩
  · intro key change hchange
    obtain ⟨current, source, found, -, -, hnext⟩ := exists_rewritten hchange
    obtain ⟨front, back, hbefore, hafter, -⟩ := list_step (Bool.and_eq_true_iff.1 hchange).1 selector
    rw [found] at hbefore
    rw [hnext] at hafter
    exact ⟨current, _, front, back, found, hnext, hbefore, hafter⟩
  · intro key removal hremoval
    obtain ⟨current, found, hgone⟩ := gone_of_removes hremoval
    obtain ⟨front, back, hbefore, hafter, -⟩ := list_step (Bool.and_eq_true_iff.1 hremoval).1 selector
    rw [found] at hbefore
    rw [hgone] at hafter
    have hremoved : (store.step removal).list selector = front ++ back := by simpa using hafter
    refine ⟨current, front, back, found, hbefore, hremoved, ?_⟩
    intro creation source hcall htouches
    obtain ⟨-, hnew⟩ := stored_of_create hcall htouches
    obtain ⟨front', back', hbefore', hafter', hend⟩ := list_step htouches selector
    rw [hgone, hend hgone] at hbefore'
    rw [hnew, hend hgone] at hafter'
    refine ⟨_, hnew, ?_⟩
    rw [hafter', ← hremoved, hbefore']
    simp [shown]

/-- The first of two config maps is patched and stays in its place; removed and created again it is the last. -/
example :
    let named := fun store : MemoryStore =>
      (store.list (Selector.ofType ⟨"", "v1", "ConfigMap"⟩)).map (·.text? ["metadata", "name"])
    let patched := empty.run [atNoon (.create (configMap "b" [])), atNoon (.create (configMap "a" [])),
      atNoon (.patch (configMapKey "b") (.object []))]
    named patched = [some "b", some "a"] ∧
      named (patched.run [atNoon (.delete (configMapKey "b")), atNoon (.create (configMap "b" []))]) =
        [some "a", some "b"] := by
  decide +kernel

end MemoryStore

end Converge
