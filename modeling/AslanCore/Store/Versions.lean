import Mathlib.Data.Prod.Lex
import AslanCore.Store.DistinctOn

/-!
# Tables of versions

The rows of an append-only table are versions of keys, each known from its `asOf` on. Such a table
is read as of a point in time, where each key has its last version, or in an interval, which has all
versions that became known in it.

* `Versions.at`, `Versions.between`: the two reads;
* `Versions.mem_at`: what a read as of a point in time has;
* `Versions.mem_between_iff`: an interval has what became known in it and can be read at some point
  of it, since a version is the last one when it becomes known.
-/

namespace AslanCore

/-- A table of versions. -/
structure Versions (ρ κ τ : Type) where
  rows : List ρ
  key : ρ → κ
  asOf : ρ → τ
  /-- The primary key. -/
  nodup : (rows.map fun row => (key row, asOf row)).Nodup

namespace Versions

variable {ρ κ τ : Type} [LinearOrder κ] [LinearOrder τ] {t : Versions ρ κ τ} {row : ρ} {p t₁ t₂ : τ}
  {c : κ → Bool}

/-- The order of the keys, the last version first. -/
def sortKey (t : Versions ρ κ τ) (row : ρ) : κ ×ₗ τᵒᵈ :=
  toLex (t.key row, OrderDual.toDual (t.asOf row))

/-- `SELECT DISTINCT ON (key) * … WHERE as_of <= p ORDER BY key, as_of DESC`. -/
def «at» (t : Versions ρ κ τ) (p : τ) : List ρ :=
  distinctOn t.key (orderBy t.sortKey (t.rows.filter fun row => t.asOf row ≤ p))

/-- `SELECT * … WHERE c AND as_of >= t₁ AND as_of < t₂`. -/
def between (t : Versions ρ κ τ) (c : κ → Bool) (t₁ t₂ : τ) : List ρ :=
  t.rows.filter fun row => c (t.key row) ∧ t₁ ≤ t.asOf row ∧ t.asOf row < t₂

/-- As of a point in time, the last versions are read of those that are known. -/
theorem mem_at : row ∈ t.at p ↔
    row ∈ t.rows ∧ t.asOf row ≤ p ∧
      ∀ row' ∈ t.rows, t.key row' = t.key row → t.asOf row' ≤ p → t.asOf row' ≤ t.asOf row := by
  have hnodup : ((t.rows.filter fun row => t.asOf row ≤ p).map t.sortKey).Nodup := by
    have h := t.nodup.sublist (List.filter_sublist.map _ :
      ((t.rows.filter fun row => t.asOf row ≤ p).map fun row => (t.key row, t.asOf row)).Sublist _)
    rw [List.Nodup, List.pairwise_map] at h ⊢
    refine h.imp fun hne heq => hne ?_
    obtain ⟨hkey, hasOf⟩ := Prod.mk.inj (toLex.injective heq)
    exact Prod.ext hkey (OrderDual.toDual.injective hasOf)
  have hle : ∀ x y, t.key y = t.key x → (t.sortKey x ≤ t.sortKey y ↔ t.asOf y ≤ t.asOf x) := by
    intro x y hkey
    rw [sortKey, sortKey, Prod.Lex.toLex_le_toLex, hkey]
    simp
  rw [Versions.at, mem_distinctOn_iff_isLast hnodup hle]
  constructor
  · rintro ⟨hmem, hlast⟩
    obtain ⟨hrow, hp⟩ := List.mem_filter.1 hmem
    exact ⟨hrow, of_decide_eq_true hp, fun row' hrow' hkey hp' =>
      hlast row' (List.mem_filter.2 ⟨hrow', decide_eq_true hp'⟩) hkey⟩
  · rintro ⟨hrow, hp, hlast⟩
    refine ⟨List.mem_filter.2 ⟨hrow, decide_eq_true hp⟩, fun row' hrow' hkey => ?_⟩
    obtain ⟨hrow', hp'⟩ := List.mem_filter.1 hrow'
    exact hlast row' hrow' hkey (of_decide_eq_true hp')

/-- As of a point in time, a key has one version. -/
theorem eq_of_mem_at {row' : ρ} (h : row ∈ t.at p) (h' : row' ∈ t.at p)
    (hkey : t.key row = t.key row') : row = row' := by
  obtain ⟨hrow, hp, hlast⟩ := mem_at.1 h
  obtain ⟨hrow', hp', hlast'⟩ := mem_at.1 h'
  have hasOf : t.asOf row = t.asOf row' :=
    le_antisymm (hlast' row hrow hkey hp) (hlast row' hrow' hkey.symm hp')
  exact List.inj_on_of_nodup_map t.nodup hrow hrow' (Prod.ext hkey hasOf)

/-- A version is read from the moment when it becomes known. -/
theorem mem_at_asOf (h : row ∈ t.rows) : row ∈ t.at (t.asOf row) :=
  mem_at.2 ⟨h, le_rfl, fun _ _ _ hp => hp⟩

/-- What an interval has is what became known in it, and is read at some point of it. -/
theorem mem_between_iff : row ∈ t.between c t₁ t₂ ↔
    t₁ ≤ t.asOf row ∧ ∃ p, t₁ ≤ p ∧ p < t₂ ∧ row ∈ (t.at p).filter fun row => c (t.key row) := by
  rw [between, List.mem_filter, decide_eq_true_iff]
  constructor
  · rintro ⟨hrow, hc, hlower, hupper⟩
    exact ⟨hlower, t.asOf row, hlower, hupper, List.mem_filter.2 ⟨mem_at_asOf hrow, hc⟩⟩
  · rintro ⟨hlower, p, -, hp, hrow⟩
    obtain ⟨hrow, hc⟩ := List.mem_filter.1 hrow
    obtain ⟨hmem, hle, -⟩ := mem_at.1 hrow
    exact ⟨hmem, hc, hlower, hle.trans_lt hp⟩

end Versions

end AslanCore
