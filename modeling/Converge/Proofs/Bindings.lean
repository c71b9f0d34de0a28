import Converge.Bindings
import Converge.Proofs.Table

/-!
# Layers of bindings

Layers are merged by going through their entries one after the other. What comes of it can be read off the layers
without merging: a name is looked up in the last layer first, and the names stand in the order in which they appear when
the layers are read from the first to the last. Neither changes when some layers that follow each other are merged
beforehand, so it does not matter in which groups layers come together.

## Main Statements

* `Bindings.get?_merge`, `Bindings.keys_merge` — what is bound to a name, and the order of the names.
* `Bindings.merge_append_merge_append` — layers next to each other may be merged beforehand.
* `Bindings.last_layer_counts` — the bindings of all layers, and the laws of merging.
-/

namespace Converge.Bindings

variable {name : String}

theorem merge_concat (layers : List Bindings) (layer : Bindings) :
    merge (layers ++ [layer]) = (merge layers).insertAll layer.entries :=
  List.foldl_append

/-- A name is looked up in the last layer first. -/
theorem get?_merge (layers : List Bindings) (name : String) :
    (merge layers).get? name = layers.reverse.findSome? (Table.get? · name) := by
  induction layers using List.reverseRecOn with
  | nil => rfl
  | append_singleton layers layer ih =>
      rw [merge_concat, Table.get?_insertAll_entries, List.reverse_append, List.reverse_singleton,
        List.findSome?_append, List.findSome?_singleton, ih]

/-- The names appear in the order in which the layers have them first. -/
theorem keys_merge (layers : List Bindings) : (merge layers).keys = (layers.flatMap Table.keys).eraseDups := by
  induction layers using List.reverseRecOn with
  | nil => rfl
  | append_singleton layers layer ih =>
      have hfirst := Table.eraseDups_append_eraseDups_append [] (layers.flatMap Table.keys) layer.keys
      rw [merge_concat, Table.keys_insertAll, ih, List.flatMap_append, List.flatMap_singleton]
      exact hfirst

theorem merge_singleton (layer : Bindings) : merge [layer] = layer := Table.ofList_entries layer

/-- Layers that follow each other may be merged beforehand. -/
theorem merge_append_merge_append (before middle after : List Bindings) :
    merge (before ++ merge middle :: after) = merge (before ++ middle ++ after) := by
  refine Table.ext_get? ?_ fun name => ?_
  · rw [keys_merge, keys_merge, List.flatMap_append, List.flatMap_cons, keys_merge middle, ← List.append_assoc,
      List.flatMap_append, List.flatMap_append]
    exact Table.eraseDups_append_eraseDups_append _ _ _
  · simp only [get?_merge, List.reverse_append, List.reverse_cons, List.append_assoc, List.findSome?_append,
      List.findSome?_singleton]

/-- What is bound to a name is what the last layer binds to it that has the name. -/
theorem get?_merge_eq_some_iff {layers : List Bindings} {value : Document} :
    (merge layers).get? name = some value ↔ ∃ earlier layer later, layers = earlier ++ layer :: later ∧
      layer.get? name = some value ∧ ∀ other ∈ later, other.contains name = false := by
  simp only [← Table.get?_eq_none_iff]
  rw [get?_merge, List.findSome?_eq_some_iff]
  constructor
  · rintro ⟨later, layer, earlier, hlayers, hvalue, hlater⟩
    refine ⟨earlier.reverse, layer, later.reverse, ?_, hvalue,
      fun other hother => hlater other (List.mem_reverse.1 hother)⟩
    rw [← List.reverse_reverse layers, hlayers, List.reverse_append, List.reverse_cons, List.append_assoc,
      List.singleton_append]
  · rintro ⟨earlier, layer, later, rfl, hvalue, hlater⟩
    refine ⟨later.reverse, layer, earlier.reverse, ?_, hvalue,
      fun other hother => hlater other (List.mem_reverse.1 hother)⟩
    rw [List.reverse_append, List.reverse_cons, List.append_assoc, List.singleton_append]

theorem contains_merge_iff {layers : List Bindings} :
    (merge layers).contains name = true ↔ ∃ layer ∈ layers, layer.contains name = true := by
  simp only [Table.contains_iff, keys_merge, List.mem_eraseDups, List.mem_flatMap]

/-- **The last layer with a name counts.** A name is bound if some layer binds it, and then to what the last such layer
binds to it, as a whole. The names stand in the order in which they appear first when the layers are read one after the
other. Layers that follow each other may be merged beforehand, one layer is what it is, and a layer without bindings is
as good as none; all this with the names in their order. -/
theorem last_layer_counts (layers : List Bindings) :
    (∀ name, (merge layers).contains name = true ↔ ∃ layer ∈ layers, layer.contains name = true) ∧
    (∀ name value, (merge layers).get? name = some value ↔ ∃ earlier layer later,
      layers = earlier ++ layer :: later ∧ layer.get? name = some value ∧
      ∀ other ∈ later, other.contains name = false) ∧
    (merge layers).keys = (layers.flatMap Table.keys).eraseDups ∧ (merge layers).keys.Nodup ∧
    (∀ before after, merge (before ++ merge layers :: after) = merge (before ++ layers ++ after)) ∧
    (∀ layer, merge [layer] = layer) ∧
    ∀ after, merge (layers ++ Table.empty :: after) = merge (layers ++ after) := by
  refine ⟨fun name => contains_merge_iff, fun name value => get?_merge_eq_some_iff, keys_merge layers,
    (merge layers).nodup, fun before after => merge_append_merge_append before layers after, merge_singleton,
    fun after => ?_⟩
  have hnone := merge_append_merge_append layers [] after
  rwa [List.append_nil] at hnone

/-- Defaults below two layers: the name that is bound again keeps its place, and its value is replaced as a whole. -/
example :
    let labels : List (String × String) → Document := fun entries =>
      .object (entries.map fun (name, value) => (name, .string value))
    let defaults := Table.ofList [("labels", labels [("app", "web"), ("tier", "front")]), ("size", .ofNat 1)]
    let layer := Table.ofList [("mode", .string "fast"), ("labels", labels [("app", "db")])]
    (merge [defaults, Table.empty, layer]).entries =
      [("labels", labels [("app", "db")]), ("size", .ofNat 1), ("mode", .string "fast")] := by
  rfl

end Converge.Bindings
