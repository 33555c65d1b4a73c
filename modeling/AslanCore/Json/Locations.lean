import Mathlib.Data.Set.Insert
import AslanCore.Json

/-!
# Locations

A *location* of a JSON value leads from it into its containers, through the names of fields and the
indexes of items (`Json.At`). A value is written at a set of locations at once by `Json.mark`.

* `Json.mark_mark`: one set of locations after the other is their union;
* `Json.mark_eq_mark_iff`: which sets of locations are the same to mark.
-/

namespace AslanCore

/-- A step into a container. -/
inductive Step
  | key (k : String)
  | item (i : ℕ)

/-- The steps from a value to one that it contains. -/
abbrev Location := List Step

/-- The locations that go on from a step. -/
def after (s : Step) (A : Set Location) : Set Location := {p | s :: p ∈ A}

/-- The value `u` is at a location of a value. -/
inductive Json.At (u : Json) : Json → Location → Prop
  | here : At u u []
  | item {items : List Json} {i : ℕ} {j : Json} {p : Location} (hj : items[i]? = some j)
    (h : At u j p) : At u (.arr items) (.item i :: p)
  | key {fields : JsonObject} {k : String} {j : Json} {p : Location} (hj : (k, j) ∈ fields)
    (h : At u j p) : At u (.obj fields) (.key k :: p)

/-- It is no container. -/
def Json.IsLeaf : Json → Prop
  | .arr _ | .obj _ => False
  | _ => True

section

open Classical

mutual

/-- The value with `v` at the locations of the set. -/
noncomputable def Json.mark (v : Json) : Json → Set Location → Json
  | .arr items, A => if [] ∈ A then v else .arr (markItems v 0 items A)
  | .obj fields, A => if [] ∈ A then v else .obj (markFields v fields A)
  | j, A => if [] ∈ A then v else j

/-- The items from an index on. -/
noncomputable def markItems (v : Json) : ℕ → List Json → Set Location → List Json
  | _, [], _ => []
  | i, j :: items, A => Json.mark v j (after (.item i) A) :: markItems v (i + 1) items A

noncomputable def markFields (v : Json) : JsonObject → Set Location → JsonObject
  | [], _ => []
  | (k, j) :: fields, A => (k, Json.mark v j (after (.key k) A)) :: markFields v fields A

end

end

variable {v u j : Json} {items : List Json} {fields : JsonObject} {A B : Set Location}
  {p : Location} {i : ℕ} {k : String}

@[simp] theorem mem_after {s : Step} : p ∈ after s A ↔ s :: p ∈ A := Iff.rfl

theorem after_union {s : Step} : after s (A ∪ B) = after s A ∪ after s B := rfl

namespace Json

theorem mark_of_mem (h : [] ∈ A) : mark v j A = v := by
  cases j <;> exact if_pos h

theorem mark_of_isLeaf (hj : j.IsLeaf) (h : [] ∉ A) : mark v j A = j := by
  cases j with
  | arr | obj => exact hj.elim
  | _ => exact if_neg h

theorem mark_arr (h : [] ∉ A) : mark v (.arr items) A = .arr (markItems v 0 items A) := if_neg h

theorem mark_obj (h : [] ∉ A) : mark v (.obj fields) A = .obj (markFields v fields A) := if_neg h

/-- A value is at the root only of a leaf. -/
theorem At.of_isLeaf (hj : j.IsLeaf) (h : At u j p) : u = j ∧ p = [] := by
  cases h with
  | here => exact ⟨rfl, rfl⟩
  | item | key => exact hj.elim

end Json

open Json

/-! ### Items and fields -/

theorem getElem?_markItems (n : ℕ) : (markItems v i items A)[n]? =
    items[n]?.map fun j => mark v j (after (.item (i + n)) A) := by
  induction items generalizing i n with
  | nil => rfl
  | cons j items ih =>
    rw [markItems]
    rcases n with _ | n
    · rfl
    · rw [List.getElem?_cons_succ, List.getElem?_cons_succ, ih, Nat.add_right_comm, Nat.add_assoc]

theorem markFields_eq_map : markFields v fields A =
    fields.map fun f => (f.1, mark v f.2 (after (.key f.1) A)) := by
  induction fields with
  | nil => rfl
  | cons f fields ih => rw [markFields, ih, List.map_cons]

theorem markItems_eq_iff : markItems v 0 items A = markItems v 0 items B ↔
    ∀ i j, items[i]? = some j → mark v j (after (.item i) A) = mark v j (after (.item i) B) := by
  constructor
  · intro h i j hj
    have hi := congrArg (·[i]?) h
    simpa only [getElem?_markItems, hj, Option.map_some, Option.some.injEq, Nat.zero_add] using hi
  · intro h
    refine List.ext_getElem? fun i => ?_
    rw [getElem?_markItems, getElem?_markItems]
    refine Option.map_congr fun j hj => ?_
    rw [Nat.zero_add]
    exact h i j hj

theorem markFields_eq_iff : markFields v fields A = markFields v fields B ↔
    ∀ k j, (k, j) ∈ fields → mark v j (after (.key k) A) = mark v j (after (.key k) B) := by
  rw [markFields_eq_map, markFields_eq_map, List.map_inj_left, Prod.forall]
  simp only [Prod.mk.injEq, true_and]

/-! ### Values -/

namespace Json

/-- What holds of a container if it does of what is in it, holds of all values. -/
@[elab_as_elim]
theorem induct {P : Json → Prop} (hleaf : ∀ j : Json, j.IsLeaf → P j)
    (harr : ∀ items : List Json, (∀ j ∈ items, P j) → P (.arr items))
    (hobj : ∀ fields : JsonObject, (∀ f ∈ fields, P f.2) → P (.obj fields)) : ∀ j, P j
  | .arr items => harr items fun j _ => induct hleaf harr hobj j
  | .obj fields => hobj fields fun f hf =>
    have : sizeOf f.2 < 1 + sizeOf fields := by
      have hlt := List.sizeOf_lt_of_mem hf
      rw [Prod.mk.sizeOf_spec] at hlt
      omega
    induct hleaf harr hobj f.2
  | .null | .bool _ | .int _ | .float _ | .str _ | .notText => hleaf _ trivial

theorem isLeaf_or (j : Json) :
    j.IsLeaf ∨ (∃ items, j = .arr items) ∨ ∃ fields, j = .obj fields := by
  cases j with
  | arr items => exact .inr (.inl ⟨items, rfl⟩)
  | obj fields => exact .inr (.inr ⟨fields, rfl⟩)
  | _ => exact .inl trivial

/-- A value is not the one that is written, unless it was before. -/
theorem mark_eq_self_iff (hv : v.IsLeaf) (h : [] ∉ A) : mark v j A = v ↔ j = v := by
  rcases isLeaf_or j with hj | ⟨items, rfl⟩ | ⟨fields, rfl⟩
  · rw [mark_of_isLeaf hj h]
  · have hne : ∀ items, arr items ≠ v := by
      rintro items rfl
      exact hv
    rw [mark_arr h]
    exact iff_of_false (hne _) (hne _)
  · have hne : ∀ fields, obj fields ≠ v := by
      rintro fields rfl
      exact hv
    rw [mark_obj h]
    exact iff_of_false (hne _) (hne _)

/-- Every location of a value is in both sets or in none, holds `v` already, or is below one that is
    in both. -/
def SameMarks (v j : Json) (A B : Set Location) : Prop :=
  ∀ p u, At u j p → (p ∈ A ↔ p ∈ B) ∨ u = v ∨ ∃ q, q <+: p ∧ q ∈ A ∧ q ∈ B

theorem SameMarks.symm (h : SameMarks v j A B) : SameMarks v j B A := fun p u hu =>
  (h p u hu).imp Iff.symm (Or.imp_right fun ⟨q, hq, hA, hB⟩ => ⟨q, hq, hB, hA⟩)

theorem sameMarks_comm : SameMarks v j A B ↔ SameMarks v j B A :=
  ⟨SameMarks.symm, SameMarks.symm⟩

theorem sameMarks_of_mem (hA : [] ∈ A) (hB : [] ∈ B) : SameMarks v j A B := fun _ _ _ =>
  .inr (.inr ⟨[], List.nil_prefix, hA, hB⟩)

/-- If the root is in one of the sets only, it must hold `v`. -/
theorem sameMarks_iff_of_notMem (hv : v.IsLeaf) (hA : [] ∈ A) (hB : [] ∉ B) :
    SameMarks v j A B ↔ v = j := by
  constructor
  · intro h
    rcases h [] j .here with h | h | ⟨q, hq, -, hqB⟩
    · exact absurd (h.1 hA) hB
    · exact h.symm
    · exact absurd (List.prefix_nil.1 hq ▸ hqB) hB
  · rintro rfl p u hu
    exact .inr (.inl (hu.of_isLeaf hv).1)

/-- A step goes on to what is at the locations after it. -/
theorem sameMarks_after_iff {s : Step} (hA : [] ∉ A) :
    SameMarks v j (after s A) (after s B) ↔ ∀ p u, At u j p →
      (s :: p ∈ A ↔ s :: p ∈ B) ∨ u = v ∨ ∃ q, q <+: s :: p ∧ q ∈ A ∧ q ∈ B := by
  refine forall₃_congr fun p u _ => or_congr_right (or_congr_right ?_)
  constructor
  · rintro ⟨q, hq, hqA, hqB⟩
    exact ⟨s :: q, (List.prefix_cons_inj s).2 hq, hqA, hqB⟩
  · rintro ⟨_ | ⟨s', q⟩, hq, hqA, hqB⟩
    · exact absurd hqA hA
    · obtain ⟨rfl, hprefix⟩ := List.cons_prefix_cons.1 hq
      exact ⟨q, hprefix, hqA, hqB⟩

theorem sameMarks_arr (hA : [] ∉ A) (hB : [] ∉ B) : SameMarks v (.arr items) A B ↔
    ∀ i j, items[i]? = some j → SameMarks v j (after (.item i) A) (after (.item i) B) := by
  constructor
  · exact fun h i j hj => (sameMarks_after_iff hA).2 fun p u hu => h _ u (.item hj hu)
  · intro h p u hu
    rcases hu with _ | @⟨_, i, j, p, hj, hu⟩
    · exact .inl (iff_of_false hA hB)
    · exact (sameMarks_after_iff hA).1 (h i j hj) p u hu

theorem sameMarks_obj (hA : [] ∉ A) (hB : [] ∉ B) : SameMarks v (.obj fields) A B ↔
    ∀ k j, (k, j) ∈ fields → SameMarks v j (after (.key k) A) (after (.key k) B) := by
  constructor
  · exact fun h k j hj => (sameMarks_after_iff hA).2 fun p u hu => h _ u (.key hj hu)
  · intro h p u hu
    rcases hu with _ | _ | @⟨_, k, j, p, hj, hu⟩
    · exact .inl (iff_of_false hA hB)
    · exact (sameMarks_after_iff hA).1 (h k j hj) p u hu

/-- Two sets of locations are the same to mark exactly if they are so at every location of the
    value. -/
theorem mark_eq_mark_iff (hv : v.IsLeaf) : mark v j A = mark v j B ↔ SameMarks v j A B := by
  induction j using induct generalizing A B with | _ j ih => _
  all_goals
    by_cases hA : [] ∈ A <;> by_cases hB : [] ∈ B
    · rw [mark_of_mem hA, mark_of_mem hB]
      exact iff_of_true rfl (sameMarks_of_mem hA hB)
    · rw [mark_of_mem hA, eq_comm, mark_eq_self_iff hv hB, sameMarks_iff_of_notMem hv hA hB,
        eq_comm]
    · rw [mark_of_mem hB, mark_eq_self_iff hv hA, sameMarks_comm,
        sameMarks_iff_of_notMem hv hB hA, eq_comm]
  · rw [mark_of_isLeaf ih hA, mark_of_isLeaf ih hB]
    refine iff_of_true rfl fun p u hu => .inl ?_
    rw [(hu.of_isLeaf ih).2]
    exact iff_of_false hA hB
  · rw [mark_arr hA, mark_arr hB, sameMarks_arr hA hB, arr.injEq, markItems_eq_iff]
    exact forall₃_congr fun i j hj => ih j (List.mem_of_getElem? hj)
  · rw [mark_obj hA, mark_obj hB, sameMarks_obj hA hB, obj.injEq, markFields_eq_iff]
    exact forall₃_congr fun k j hj => ih (k, j) hj

/-- Nothing is changed if no location of the value is marked. -/
theorem mark_empty : mark v j ∅ = j := by
  induction j using induct with
  | hleaf j hj => exact mark_of_isLeaf hj (Set.notMem_empty _)
  | harr items ih =>
    rw [mark_arr (Set.notMem_empty _), arr.injEq]
    refine List.ext_getElem? fun i => ?_
    rw [getElem?_markItems]
    rcases hj : items[i]? with _ | j
    · rfl
    · exact congrArg some (ih j (List.mem_of_getElem? hj))
  | hobj fields ih =>
    rw [mark_obj (Set.notMem_empty _), obj.injEq, markFields_eq_map]
    conv_rhs => rw [← List.map_id fields]
    exact List.map_congr_left fun f hf => Prod.ext rfl (ih f hf)

/-- One set of locations is marked after the other. -/
theorem mark_mark (hv : v.IsLeaf) : mark v (mark v j A) B = mark v j (A ∪ B) := by
  induction j using induct generalizing A B with | _ j ih => _
  all_goals
    by_cases hA : [] ∈ A
    · rw [mark_of_mem hA, mark_of_mem (Set.mem_union_left B hA)]
      by_cases hB : [] ∈ B
      · exact mark_of_mem hB
      · exact mark_of_isLeaf hv hB
    by_cases hB : [] ∈ B
    · rw [mark_of_mem hB, mark_of_mem (Set.mem_union_right A hB)]
    have hAB : [] ∉ A ∪ B := fun h => h.elim hA hB
  · rw [mark_of_isLeaf ih hA, mark_of_isLeaf ih hB, mark_of_isLeaf ih hAB]
  · rw [mark_arr hA, mark_arr hB, mark_arr hAB, arr.injEq]
    refine List.ext_getElem? fun i => ?_
    simp only [getElem?_markItems, Option.map_map]
    exact Option.map_congr fun j hj => ih j (List.mem_of_getElem? hj)
  · rw [mark_obj hA, mark_obj hB, mark_obj hAB, obj.injEq]
    simp only [markFields_eq_map, List.map_map]
    exact List.map_congr_left fun f hf => Prod.ext rfl (ih f hf)

end Json

end AslanCore
