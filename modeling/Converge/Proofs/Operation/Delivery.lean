import Converge.Proofs.Operation.Handles

/-!
# Documents on their way to the handles

Documents are copied into handles one by one, and the first handle that refuses its document ends the
delivery. By then the handles before it have taken theirs.

## Main Definitions

* `FillsUpTo` — what a delivery leaves behind that ends at a handle.
* `Handle.Takes` — a handle stays as it is or takes a document that it accepts.

## Main Statements

* `Destinations.exists_taken_of_store` — however a delivery ends, every handle takes an accepted document or none.
* `Destinations.state_of_store_ok` — a delivery that gets through leaves each handle with its document.
* `Destinations.fillsUpTo_of_store` — a delivery that fails fills the handles up to the one that refuses.
* `FillsUpTo.eq_iff` — whether it has changed any handle.
-/

namespace Converge

/-- The handles before one take the documents, which they accept; that one refuses its own; it and those after
it are left as they were. -/
inductive FillsUpTo (copier : Copier) (cause : CopyError) : List Document → List Handle → List Handle → Prop
  | refuses {document : Document} {handle : Handle} (others : List Handle)
      (refused : copier.check document handle = .error cause) :
      FillsUpTo copier cause [] (handle :: others) (handle :: others)
  | takes {document : Document} {handle : Handle} {documents : List Document} {before after : List Handle}
      (accepted : copier.check document handle = .ok ())
      (rest : FillsUpTo copier cause documents before after) :
      FillsUpTo copier cause (document :: documents) (handle :: before) (handle.withState document :: after)

namespace FillsUpTo

variable {copier : Copier} {cause : CopyError} {documents : List Document} {before after : List Handle}

theorem length_eq (h : FillsUpTo copier cause documents before after) : after.length = before.length := by
  induction h with
  | refuses => rfl
  | takes accepted rest ih => simp [ih]

/-- The handles are all as they were exactly if each handle before the one that refuses held its document
already. -/
theorem eq_iff (h : FillsUpTo copier cause documents before after) :
    after = before ↔ (before.take documents.length).map Handle.state = documents.map some := by
  induction h with
  | refuses => simp
  | takes accepted rest ih =>
      rename_i document handle documents before after
      have hstate : handle.withState document = handle ↔ handle.state = some document := by
        cases handle
        simp [Handle.withState, eq_comm]
      simp [ih, hstate]

/-- Of two handles only the first can be filled before the second refuses. -/
theorem eq_of_pair {first second : Handle} (h : FillsUpTo copier cause documents [first, second] after)
    (changed : after ≠ [first, second]) :
    ∃ document, documents = [document] ∧ after = [first.withState document, second] := by
  cases h with
  | refuses others refused => exact absurd rfl changed
  | @takes document _ _ _ _ accepted rest =>
      cases rest with
      | refuses others refused => exact ⟨document, rfl, rfl⟩
      | takes accepted rest => cases rest

end FillsUpTo

/-- A handle stays as it is, or takes a document that it accepts. -/
def Handle.Takes (copier : Copier) (before after : Handle) : Prop :=
  after = before ∨ ∃ document, copier.check document before = .ok () ∧ after = before.withState document

namespace Destinations

section Delivery

variable (copier : Copier) (pairs : List (Target × Document)) (handles : List Handle)

theorem length_deliver : (deliver copier pairs handles).2.length = handles.length := by
  induction handles generalizing pairs with
  | nil => cases pairs <;> rfl
  | cons handle handles ih =>
      cases pairs with
      | nil => rfl
      | cons pair pairs =>
          rw [deliver]
          split
          · rfl
          · simp [ih]

/-- However a delivery ends, every handle takes a document that it accepts, or none. -/
theorem exists_taken_of_deliver {index : Nat} {before : Handle} (h : handles[index]? = some before) :
    ∃ after, (deliver copier pairs handles).2[index]? = some after ∧ before.Takes copier after := by
  induction handles generalizing pairs index with
  | nil => cases h
  | cons handle handles ih =>
      cases pairs with
      | nil => exact ⟨before, h, .inl rfl⟩
      | cons pair pairs =>
          rw [deliver]
          split
          · exact ⟨before, h, .inl rfl⟩
          · rename_i filled hcopy
            cases index with
            | zero =>
                cases h
                obtain ⟨⟨⟩, hcheck, rfl⟩ := map_eq_ok_iff.1 hcopy
                exact ⟨_, rfl, .inr ⟨pair.2, hcheck, rfl⟩⟩
            | succ index => exact ih pairs h

end Delivery

/-- A delivery keeps handles in the place of handles. Only an empty list of handles becomes longer. -/
theorem store_alike (copier : Copier) (destinations : Destinations) (targets : List Target)
    (documents : List Document) : (destinations.store copier targets documents).2.Alike destinations := by
  unfold store
  split
  · trivial
  · exact withHandles_alike _ _

theorem exists_taken_of_store (copier : Copier) (destinations : Destinations) (targets : List Target)
    (documents : List Document) {index : Nat} {before : Handle}
    (h : destinations.handles[index]? = some before) :
    ∃ after, (destinations.store copier targets documents).2.handles[index]? = some after ∧
      before.Takes copier after := by
  unfold store
  split
  · cases h
  · rw [handles_withHandles (length_deliver _ _ _)]
    exact exists_taken_of_deliver _ _ _ h

/-- After a delivery there are as many handles as before, and for an empty list as many as documents. -/
theorem length_handles_store (copier : Copier) (destinations : Destinations) (targets : List Target)
    (documents : List Document) :
    (destinations.store copier targets documents).2.handles.length =
      match destinations with
      | .objects [] => documents.length
      | _ => destinations.handles.length := by
  unfold store
  split
  · exact List.length_map _
  · rename_i hfilled
    have hlength := length_deliver copier (targets.zip documents) destinations.handles
    refine (congrArg List.length (handles_withHandles hlength)).trans (hlength.trans ?_)
    cases destinations with
    | none | object => rfl
    | objects handles =>
        cases handles with
        | nil => exact (hfilled rfl).elim
        | cons => rfl

theorem getElem?_of_deliver_ok {copier : Copier} {pairs : List (Target × Document)} {handles after : List Handle}
    (h : deliver copier pairs handles = (.ok (), after)) {index : Nat} {pair : Target × Document} {before : Handle}
    (hpair : pairs[index]? = some pair) (hbefore : handles[index]? = some before) :
    after[index]? = some (before.withState pair.2) := by
  induction pairs generalizing handles after index with
  | nil => cases hpair
  | cons first pairs ih =>
      cases handles with
      | nil => cases hbefore
      | cons handle handles =>
          rw [deliver] at h
          split at h
          · cases h
          · rename_i filled hcopy
            obtain ⟨⟨⟩, -, rfl⟩ := map_eq_ok_iff.1 hcopy
            rcases hrest : deliver copier pairs handles with ⟨result, others⟩
            simp only [hrest] at h
            cases h
            cases index with
            | zero =>
                cases hpair
                cases hbefore
                rfl
            | succ index => exact ih hrest hpair hbefore

/-- **A delivery that gets through leaves each handle with its document.** -/
theorem state_of_store_ok {copier : Copier} {destinations next : Destinations} {targets : List Target}
    {documents : List Document} (h : destinations.store copier targets documents = (.ok (), next))
    {index : Nat} {target : Target} {document : Document} {handle : Handle}
    (htarget : targets[index]? = some target) (hdocument : documents[index]? = some document)
    (hhandle : next.handles[index]? = some handle) : handle.state = some document := by
  unfold store at h
  split at h
  · cases h
    rw [handles, List.getElem?_map, hdocument] at hhandle
    cases hhandle
    rfl
  · rcases hdeliver : deliver copier (targets.zip documents) destinations.handles with ⟨result, after⟩
    simp only [hdeliver] at h
    cases h
    have hlength : after.length = destinations.handles.length := by
      have hlength := length_deliver copier (targets.zip documents) destinations.handles
      rwa [hdeliver] at hlength
    rw [handles_withHandles hlength] at hhandle
    obtain ⟨before, hbefore⟩ : ∃ before, destinations.handles[index]? = some before := by
      have hindex := (List.getElem?_eq_some_iff.1 hhandle).1
      exact ⟨_, List.getElem?_eq_getElem (hlength ▸ hindex)⟩
    have hpair : (targets.zip documents)[index]? = some (target, document) :=
      List.getElem?_zip_eq_some.2 ⟨htarget, hdocument⟩
    rw [getElem?_of_deliver_ok hdeliver hpair hbefore] at hhandle
    cases hhandle
    rfl

theorem fillsUpTo_of_deliver {copier : Copier} {targets : List Target} {documents : List Document}
    {handles after : List Handle} {failure : Failure}
    (h : deliver copier (targets.zip documents) handles = (.error failure, after)) :
    ∃ target cause taken, failure = .copy target cause ∧ taken <+: documents ∧
      FillsUpTo copier cause taken handles after := by
  induction handles generalizing targets documents after with
  | nil => cases targets <;> cases documents <;> cases h
  | cons handle handles ih =>
      cases targets with
      | nil => cases h
      | cons target targets =>
          cases documents with
          | nil => cases h
          | cons document documents =>
              rw [List.zip_cons_cons, deliver, Copier.copy] at h
              cases hcheck : copier.check document handle with
              | error cause =>
                  rw [hcheck] at h
                  cases h
                  exact ⟨_, cause, [], rfl, List.nil_prefix, .refuses handles hcheck⟩
              | ok accepted =>
                  rw [hcheck] at h
                  rcases hrest : deliver copier (targets.zip documents) handles with ⟨result, filled⟩
                  simp only [Except.map, hrest] at h
                  cases h
                  obtain ⟨target, cause, taken, hfailure, htaken, hfills⟩ := ih hrest
                  exact ⟨target, cause, document :: taken, hfailure,
                    List.cons_prefix_cons.2 ⟨rfl, htaken⟩, .takes hcheck hfills⟩

theorem fillsUpTo_of_store {copier : Copier} {destinations next : Destinations} {targets : List Target}
    {documents : List Document} {failure : Failure}
    (h : destinations.store copier targets documents = (.error failure, next)) :
    ∃ target cause taken after, failure = .copy target cause ∧ taken <+: documents ∧
      FillsUpTo copier cause taken destinations.handles after ∧ next = destinations.withHandles after := by
  unfold store at h
  split at h
  · cases h
  · rcases hdeliver : deliver copier (targets.zip documents) destinations.handles with ⟨result, after⟩
    simp only [hdeliver] at h
    cases h
    obtain ⟨target, cause, taken, hfailure, htaken, hfills⟩ := fillsUpTo_of_deliver hdeliver
    exact ⟨target, cause, taken, after, hfailure, htaken, hfills, rfl⟩

end Destinations

end Converge
