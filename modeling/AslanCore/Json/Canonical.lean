import AslanCore.Json.Text

/-!
# Sorted keys

`json.dumps(value, sort_keys=True)` writes the fields of every object in the order of their names
(`Json.sortKeys`): it can be written if its fields can (`writable_sortKeys_obj`).
-/

namespace AslanCore

mutual

/-- The value with the fields of its objects in the order of their names. -/
def Json.sortKeys : Json → Json
  | .arr js => .arr (sortItems js)
  | .obj fields => .obj ((sortFields fields).mergeSort fun f g => f.1 ≤ g.1)
  | j => j

/-- The items, with the fields of their objects in order. -/
def sortItems : List Json → List Json
  | [] => []
  | j :: js => j.sortKeys :: sortItems js

/-- The fields, with the fields of the objects in them in order. -/
def sortFields : List (String × Json) → List (String × Json)
  | [] => []
  | (k, j) :: fields => (k, j.sortKeys) :: sortFields fields

end

theorem fieldsWritable_iff {fields : List (String × Json)} :
    fieldsWritable fields = true ↔ ∀ f ∈ fields, f.2.writable = true := by
  induction fields with
  | nil => exact ⟨nofun, fun _ => rfl⟩
  | cons f fields ih => rw [fieldsWritable, Bool.and_eq_true, ih, List.forall_mem_cons]

theorem forall_mem_sortFields {fields : List (String × Json)} {a : Json → Prop} :
    (∀ f ∈ sortFields fields, a f.2) ↔ ∀ f ∈ fields, a f.2.sortKeys := by
  induction fields with
  | nil => exact ⟨nofun, nofun⟩
  | cons f fields ih => rw [sortFields, List.forall_mem_cons, List.forall_mem_cons, ih]

/-- An object is written with sorted keys if all its fields are. -/
theorem writable_sortKeys_obj {fields : List (String × Json)} :
    (Json.obj fields).sortKeys.writable = true ↔ ∀ f ∈ fields, f.2.sortKeys.writable = true := by
  rw [Json.sortKeys, Json.writable, fieldsWritable_iff]
  simp only [List.mem_mergeSort]
  exact forall_mem_sortFields (a := fun j => j.writable = true)

end AslanCore
