import Mathlib.Data.List.Nodup
import Mathlib.Data.List.Sort
import Mathlib.Data.Nat.Basic

/-!
# Ordered selections

What `SELECT … ORDER BY key LIMIT n` may return from the rows that satisfy its
condition: the order of rows with the same key is left to the database, and so is
which of them are returned at the limit.

* `IsTop`: the possible results;
* `IsTop.exists_of_nodup`: there is one.
-/

namespace AslanCore

/-- The rows `ys` are a result of ordering the rows `xs` by `key`, and keeping the
    first `n`. -/
structure IsTop {α : Type} (key : α → ℕ) (n : ℕ) (xs ys : List α) : Prop where
  nodup : ys.Nodup
  subset : ∀ y ∈ ys, y ∈ xs
  length : ys.length = min n xs.length
  sorted : ys.Pairwise fun y y' => key y ≤ key y'
  first : ∀ x ∈ xs, x ∉ ys → ∀ y ∈ ys, key y ≤ key x

namespace IsTop

variable {α : Type} {key : α → ℕ} {n : ℕ} {xs ys : List α}

instance [DecidableEq α] : Decidable (IsTop key n xs ys) :=
  decidable_of_iff (ys.Nodup ∧ (∀ y ∈ ys, y ∈ xs) ∧ ys.length = min n xs.length ∧
      (ys.Pairwise fun y y' => key y ≤ key y') ∧ ∀ x ∈ xs, x ∉ ys → ∀ y ∈ ys, key y ≤ key x)
    ⟨fun ⟨h₁, h₂, h₃, h₄, h₅⟩ => ⟨h₁, h₂, h₃, h₄, h₅⟩,
      fun h => ⟨h.nodup, h.subset, h.length, h.sorted, h.first⟩⟩

/-- Rows can always be ordered. -/
theorem exists_of_nodup (key : α → ℕ) (n : ℕ) (h : xs.Nodup) : ∃ ys, IsTop key n xs ys := by
  let le : α → α → Bool := fun x y => key x ≤ key y
  have hperm : (xs.mergeSort le).Perm xs := List.mergeSort_perm xs le
  have hmerge : (xs.mergeSort le).Pairwise fun x y => le x y = true :=
    List.pairwise_mergeSort (fun a b c => by simpa [le] using Nat.le_trans)
      (fun a b => by simpa [le] using Nat.le_total _ _) xs
  have hsorted : (xs.mergeSort le).Pairwise fun x y => key x ≤ key y :=
    hmerge.imp (by simp [le])
  refine ⟨(xs.mergeSort le).take n, (hperm.nodup_iff.2 h).sublist (List.take_sublist _ _),
    fun y hy => hperm.subset (List.mem_of_mem_take hy), by simp [hperm.length_eq],
    hsorted.sublist (List.take_sublist _ _), fun x hx hxn y hy => ?_⟩
  rw [← List.take_append_drop n (xs.mergeSort le)] at hsorted
  refine (List.pairwise_append.1 hsorted).2.2 y hy x ?_
  have hmem : x ∈ (xs.mergeSort le).take n ++ (xs.mergeSort le).drop n := by
    rw [List.take_append_drop]
    exact hperm.symm.subset hx
  exact (List.mem_append.1 hmem).resolve_left hxn

end IsTop

end AslanCore
