import Converge.Proofs.Document.Path
import Converge.Proofs.Except
import Converge.Yaml.Reader

/-!
# What is read is in order

Each mapping of a text is put into an object by `Members.ofList`, whatever the order of its entries is and whether
keys come twice. So all objects of a document that is read have their members in order. The reader counts the uses of
aliases as it goes; this count has no part in it, and `Step.Gives` leaves it out.

## Main Definitions

* `Yaml.Step.Gives` — a property of whatever a reading gives.

## Main Statements

* `Yaml.ordered_of_read` — a document that is read has all its objects in order.
-/

namespace Converge.Yaml

variable {α β : Type} {P : α → Prop} {Q : β → Prop}

namespace Step

/-- Whatever a reading gives, from any count of uses on, has the property. -/
def Gives (P : α → Prop) (step : Step α) : Prop :=
  ∀ uses uses' result, step.run uses = .ok (result, uses') → P result

/-- Nothing is said of the result. -/
theorem Gives.any (step : Step α) : Gives (fun _ => True) step := fun _ _ _ _ => trivial

theorem Gives.pure {result : α} (h : P result) : Gives P (Pure.pure result : Step α) := by
  intro uses uses' result' hrun
  cases hrun
  exact h

theorem Gives.throw (error : Error) : Gives P (throw error : Step α) := by
  intro uses uses' result hrun
  cases hrun

theorem Gives.lift {result : Except Error α} (h : ∀ value, result = .ok value → P value) :
    Gives P (liftM result : Step α) := by
  intro uses uses' value hrun
  cases result with
  | error => cases hrun
  | ok value =>
      cases hrun
      exact h value rfl

/-- One reading after the other gives what the second gives, which may count on what the first gives. -/
theorem Gives.bind {step : Step α} {next : α → Step β} (h : Gives P step)
    (hnext : ∀ value, P value → Gives Q (next value)) : Gives Q (step >>= next) := by
  intro uses uses' result hrun
  rw [StateT.run_bind, bind_eq_ok_iff] at hrun
  obtain ⟨⟨value, middle⟩, hvalue, hresult⟩ := hrun
  exact hnext value (h uses middle value hvalue) middle uses' result hresult

/-- Readings one after the other give as each of them does. -/
theorem Gives.mapM {step : α → Step β} {items : List α} (h : ∀ item ∈ items, Gives Q (step item)) :
    Gives (fun results => ∀ result ∈ results, Q result) (items.mapM step) := by
  induction items with
  | nil => exact Gives.pure (List.forall_mem_nil _)
  | cons item items ih =>
      rw [List.forall_mem_cons] at h
      rw [List.mapM_cons]
      refine h.1.bind fun first hfirst => (ih h.2).bind fun rest hrest => Gives.pure ?_
      exact List.forall_mem_cons.2 ⟨hfirst, hrest⟩

/-- Readings one after the other keep what each of them keeps. -/
theorem Gives.foldlM {step : β → α → Step β} {items : List α}
    (h : ∀ item ∈ items, ∀ value, Q value → Gives Q (step value item)) {value : β} (hvalue : Q value) :
    Gives Q (items.foldlM step value) := by
  induction items generalizing value with
  | nil => exact Gives.pure hvalue
  | cons item items ih =>
      rw [List.forall_mem_cons] at h
      rw [List.foldlM_cons]
      exact (h.1 value hvalue).bind fun next hnext => ih h.2 hnext

/-- A reading of what is there, if anything is, gives what it gives of anything. -/
theorem Gives.optionMapM {step : α → Step β} (h : ∀ item, Gives Q (step item)) (item : Option α) :
    Gives (fun result => ∀ value, result = some value → Q value) (item.mapM step) := by
  cases item with
  | none => exact Gives.pure fun value hvalue => by cases hvalue
  | some item =>
      refine (h item).bind fun value hvalue => Gives.pure fun other hother => ?_
      cases hother
      exact hvalue

end Step

/-! ### Scalars -/

namespace Scalar

theorem ordered_of_ofWhole {whole : Int} {result : Except Error Document} {value : Document}
    (h : ofWhole whole = some result) (hresult : result = .ok value) : value.Ordered := by
  rw [ofWhole] at h
  split at h
  · cases h
    cases hresult
    trivial
  · split at h <;> cases h
    cases hresult

theorem ordered_ofFloat (value : Float) : (ofFloat value).Ordered := by
  cases value <;> trivial

theorem ordered_of_ofPlain {text : String} {value : Document} (h : ofPlain text = .ok value) : value.Ordered := by
  rw [ofPlain] at h
  split at h
  · cases h
    trivial
  · split at h
    · cases h
      trivial
    · split at h
      · next result hwhole =>
          obtain ⟨whole, -, hresult⟩ := Option.bind_eq_some_iff.1 hwhole
          exact ordered_of_ofWhole hresult h
      · split at h
        · cases h
          trivial
        · split at h <;> cases h
          · exact ordered_ofFloat _
          · trivial

theorem ordered_of_ofTag {tag : List Char} {text : String} {result : Except Error Document} {value : Document}
    (h : ofTag? tag text = some result) (hresult : result = .ok value) : value.Ordered := by
  rw [ofTag?] at h
  split at h
  · cases h
    split at hresult <;> cases hresult
    trivial
  · split at h
    · cases h
      split at hresult
      · next result hwhole =>
          obtain ⟨whole, -, hwhole⟩ := Option.bind_eq_some_iff.1 hwhole
          exact ordered_of_ofWhole hwhole hresult
      · cases hresult
    · split at h
      · cases h
        split at hresult <;> cases hresult
        exact ordered_ofFloat _
      · split at h <;> cases h
        split at hresult <;> cases hresult
        trivial

/-- There is no object in the value of a scalar. -/
theorem ordered_of_value {properties : Properties} {style : Style} {text : String} {result : Document}
    (h : value properties style text = .ok result) : result.Ordered := by
  rw [value] at h
  split at h
  · cases h
  · split at h
    · next tag _ =>
        cases htag : ofTag? tag text with
        | none =>
            rw [htag] at h
            cases h
            trivial
        | some tagged =>
            rw [htag] at h
            exact ordered_of_ofTag htag h
    · split at h
      · exact ordered_of_ofPlain h
      · cases h
        trivial

end Scalar

/-! ### Documents -/

open Step (Gives)

/-- The document of a node has all its objects in order. -/
theorem value_gives_ordered (stream : Stream) (depth : Nat) (node : Node) :
    Gives Document.Ordered (value stream depth node) := by
  induction depth generalizing node with
  | zero =>
      rw [value]
      refine (Gives.any _).bind fun node _ => ?_
      split
      · exact Gives.lift fun result h => Scalar.ordered_of_value h
      · exact Gives.throw _
  | succ depth ih =>
      rw [value]
      refine (Gives.any _).bind fun node _ => ?_
      split
      · exact Gives.lift fun result h => Scalar.ordered_of_value h
      · next properties items =>
          split
          · exact Gives.throw _
          · refine (Gives.mapM fun item _ => ih item).bind fun results hresults => Gives.pure ?_
            exact Document.orderedItems_iff.2 hresults
      · next properties entries =>
          split
          · exact Gives.throw _
          · have hentry : ∀ entry ∈ entries, Gives (fun member : String × Document => member.2.Ordered)
                (do return (← keyText stream entry.1, ← value stream depth entry.2)) := fun entry _ =>
              (Gives.any _).bind fun key _ => (ih entry.2).bind fun result h => Gives.pure h
            refine (Gives.mapM hentry).bind fun members hmembers => Gives.pure ?_
            refine ⟨Members.ordered_ofList members, Document.orderedMembers_iff.2 fun member hmember => ?_⟩
            exact hmembers member (Members.mem_of_mem_ofList hmember)
      · exact Gives.throw _

/-- A document that is read has all its objects in order. -/
theorem ordered_of_read {text : String} {document : Document} (h : read text = .ok document) :
    document.Ordered := by
  rw [read] at h
  obtain ⟨stream, -, hroot⟩ := bind_eq_ok_iff.1 h
  split at hroot
  · cases hroot
    trivial
  · next root _ =>
      obtain ⟨⟨result, uses⟩, hrun, rfl⟩ := map_eq_ok_iff.1 hroot
      exact value_gives_ordered stream depthLimit root 0 uses result hrun

end Converge.Yaml
