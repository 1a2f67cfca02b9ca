import EndpointDocs.Json.Value
import EndpointDocs.Proofs.KeyMap

/-!
# The order of fields

The fields of a JSON object have no order of their own: a value is written with its fields as they
are declared, and kept with its fields in ascending order. `Arranges` says what both have in
common, so that a reader can be shown to take either. Values whose objects all ascend, such as the
free-form values of examples, stay as they are (`sortKeys_of_sorted`).
-/

namespace EndpointDocs.Json

/-! ## Sorting -/

theorem sortItems_eq_map (items : List Json) : sortItems items = items.map sortKeys := by
  induction items with
  | nil => rfl
  | cons v rest ih => rw [sortItems, ih, List.map_cons]

theorem sortFields_eq_map (fields : List (String × Json)) :
    sortFields fields = fields.map fun p => (p.1, p.2.sortKeys) := by
  induction fields with
  | nil => rfl
  | cons p rest ih => rw [sortFields, ih, List.map_cons]

mutual

theorem sortKeys_of_sorted : ∀ v : Json, v.Sorted → v.sortKeys = v
  | .null, _ | .bool _, _ | .number _, _ | .string _, _ => rfl
  | .array items, h => by
    rw [sortKeys, sortItems_of_sorted items h]
  | .object fields, h => by
    rw [sortKeys, sortFields_of_sorted fields h.2, Entries.ofList_of_ascending h.1]

theorem sortItems_of_sorted : ∀ items : List Json, SortedItems items → sortItems items = items
  | [], _ => rfl
  | v :: rest, h => by
    rw [sortItems, sortKeys_of_sorted v h.1, sortItems_of_sorted rest h.2]

theorem sortFields_of_sorted : ∀ fields : List (String × Json), SortedFields fields →
    sortFields fields = fields
  | [], _ => rfl
  | (k, v) :: rest, h => by
    rw [sortFields, sortKeys_of_sorted v h.1, sortFields_of_sorted rest h.2]

end

theorem sorted_strings (texts : List String) : (strings texts).Sorted := by
  show SortedItems (texts.map Json.string)
  induction texts with
  | nil => trivial
  | cons t rest ih => exact ⟨trivial, ih⟩

/-! ## Arrangements -/

/-- A way to arrange the fields of objects at every level. It drops no field and adds none, and
fields that ascend keep their places. -/
structure Arranges (w : Json → Json) : Prop where
  items : ∀ vs, w (.array vs) = .array (vs.map w)
  fields : ∀ fs, ∃ gs, w (.object fs) = .object gs ∧ (∀ p ∈ gs, ∃ q ∈ fs, p = (q.1, w q.2)) ∧
    ∀ q ∈ fs, q.1 ∈ gs.map Prod.fst
  ascending : ∀ fs, Ascending fs → w (.object fs) = .object (fs.map fun p => (p.1, w p.2))
  sorted : ∀ v, v.Sorted → w v = v

namespace Arranges

variable {w : Json → Json}

theorem text (hw : Arranges w) (t : String) : w (.string t) = .string t := hw.sorted _ trivial

theorem texts (hw : Arranges w) (ts : List String) : w (strings ts) = strings ts :=
  hw.sorted _ (sorted_strings ts)

end Arranges

theorem arranges_id : Arranges id where
  items vs := by rw [List.map_id]; rfl
  fields fs := ⟨fs, rfl, fun p hp => ⟨p, hp, rfl⟩, fun q hq => List.mem_map_of_mem hq⟩
  ascending fs _ := by
    show Json.object fs = .object (fs.map id)
    rw [List.map_id]
  sorted _ _ := rfl

theorem arranges_sortKeys : Arranges sortKeys where
  items vs := by rw [sortKeys, sortItems_eq_map]
  fields fs := by
    refine ⟨Entries.ofList (sortFields fs), rfl, fun p hp => ?_, fun q hq => ?_⟩
    · have hmem := Entries.mem_of_mem_ofList hp
      rw [sortFields_eq_map] at hmem
      obtain ⟨q, hq, rfl⟩ := List.mem_map.1 hmem
      exact ⟨q, hq, rfl⟩
    · have hmem : (q.1, q.2.sortKeys) ∈ sortFields fs := by
        rw [sortFields_eq_map]
        exact List.mem_map.2 ⟨q, hq, rfl⟩
      exact Entries.key_mem_ofList (p := (q.1, q.2.sortKeys)) hmem
  ascending fs h := by
    rw [sortKeys, sortFields_eq_map, Entries.ofList_of_ascending]
    exact List.pairwise_map.2 h
  sorted := sortKeys_of_sorted

end EndpointDocs.Json
