import Mathlib.Tactic.Common
import Mathlib.Data.List.Nodup

/-!
# Dictionaries

The dictionaries of Python, as lists of their items in the order of their insertion: an item that
is set again keeps its place (`dictSet`).
-/

namespace AslanCore

variable {κ ν : Type} [DecidableEq κ] {k k' : κ} {v v' : ν} {d : List (κ × ν)} {p : κ × ν}

/-- `d[k] = v`. -/
def dictSet (k : κ) (v : ν) : List (κ × ν) → List (κ × ν)
  | [] => [(k, v)]
  | p :: d => if p.1 = k then (k, v) :: d else p :: dictSet k v d

theorem mem_dictSet_self : (k, v) ∈ dictSet k v d := by
  induction d with
  | nil => exact List.mem_cons_self
  | cons p d ih =>
    rw [dictSet]
    split_ifs
    · exact List.mem_cons_self
    · exact List.mem_cons_of_mem _ ih

theorem mem_dictSet_of_ne (h : p.1 ≠ k) : p ∈ dictSet k v d ↔ p ∈ d := by
  have hne : p ≠ (k, v) := fun heq => h (heq ▸ rfl)
  induction d with
  | nil => simp [dictSet, hne]
  | cons q d ih =>
    rw [dictSet]
    split_ifs with hq
    · have hpq : p ≠ q := fun heq => h (heq ▸ hq)
      simp [hne, hpq]
    · simp only [List.mem_cons, ih]

/-- An item is the one that is set, or an item of another key. -/
theorem eq_or_mem_of_mem_dictSet (h : p ∈ dictSet k v d) : p = (k, v) ∨ p ∈ d := by
  induction d with
  | nil => exact .inl (List.mem_singleton.1 h)
  | cons q d ih =>
    rw [dictSet] at h
    split_ifs at h with hq
    · rcases List.mem_cons.1 h with rfl | h
      · exact .inl rfl
      · exact .inr (List.mem_cons_of_mem _ h)
    · rcases List.mem_cons.1 h with rfl | h
      · exact .inr List.mem_cons_self
      · exact (ih h).imp_right (List.mem_cons_of_mem _)

/-- The keys stay distinct. -/
theorem nodup_dictSet (h : (d.map Prod.fst).Nodup) : ((dictSet k v d).map Prod.fst).Nodup := by
  induction d with
  | nil => exact List.nodup_singleton k
  | cons q d ih =>
    rw [List.map_cons, List.nodup_cons] at h
    rw [dictSet]
    split_ifs with hq
    · rw [List.map_cons, List.nodup_cons]
      exact hq ▸ h
    · rw [List.map_cons, List.nodup_cons]
      refine ⟨fun hmem => ?_, ih h.2⟩
      obtain ⟨p, hp, hkey⟩ := List.mem_map.1 hmem
      rcases eq_or_mem_of_mem_dictSet hp with rfl | hp
      · exact hq hkey.symm
      · exact h.1 (hkey ▸ List.mem_map_of_mem hp)

theorem lookup_of_mem (hd : (d.map Prod.fst).Nodup) (h : (k, v) ∈ d) : d.lookup k = some v := by
  induction d with
  | nil => exact absurd h List.not_mem_nil
  | cons q d ih =>
    obtain ⟨hq, hd⟩ := List.nodup_cons.1 hd
    rcases List.mem_cons.1 h with rfl | h
    · rw [List.lookup_cons_self]
    · have hne : k ≠ q.1 := fun heq => hq (heq ▸ List.mem_map_of_mem h)
      rw [List.lookup_cons, beq_false_of_ne hne]
      exact ih hd h

theorem lookup_dictSet_self : (dictSet k v d).lookup k = some v := by
  induction d with
  | nil => rw [dictSet, List.lookup_cons_self]
  | cons q d ih =>
    rw [dictSet]
    split_ifs with hq
    · rw [List.lookup_cons_self]
    · rw [List.lookup_cons, beq_false_of_ne (Ne.symm hq)]
      exact ih

theorem lookup_dictSet_of_ne (h : k' ≠ k) : (dictSet k v d).lookup k' = d.lookup k' := by
  induction d with
  | nil => rw [dictSet, List.lookup_cons, beq_false_of_ne h]
  | cons q d ih =>
    rw [dictSet]
    split_ifs with hq
    · rw [List.lookup_cons, beq_false_of_ne h, List.lookup_cons, hq, beq_false_of_ne h]
    · rw [List.lookup_cons, List.lookup_cons, ih]

/-- The values are changed one by one. -/
theorem map_dictSet {ν' : Type} (f : ν → ν') :
    (dictSet k v d).map (fun p => (p.1, f p.2)) = dictSet k (f v) (d.map fun p => (p.1, f p.2)) := by
  induction d with
  | nil => rfl
  | cons q d ih =>
    rw [dictSet, List.map_cons, dictSet]
    split_ifs with hq
    · rfl
    · rw [List.map_cons, ih]

theorem lookup_map {ν' : Type} (f : ν → ν') :
    (d.map fun p => (p.1, f p.2)).lookup k = (d.lookup k).map f := by
  induction d with
  | nil => rfl
  | cons q d ih =>
    obtain ⟨k', v'⟩ := q
    rw [List.map_cons, List.lookup_cons, List.lookup_cons]
    cases k == k'
    · exact ih
    · rfl

theorem mem_of_lookup (h : d.lookup k = some v) : (k, v) ∈ d := by
  induction d with
  | nil => cases h
  | cons q d ih =>
    obtain ⟨k', v'⟩ := q
    rw [List.lookup_cons] at h
    by_cases hk : k = k'
    · rw [beq_iff_eq.2 hk] at h
      cases h
      exact hk ▸ List.mem_cons_self
    · rw [beq_false_of_ne hk] at h
      exact List.mem_cons_of_mem _ (ih h)

end AslanCore
