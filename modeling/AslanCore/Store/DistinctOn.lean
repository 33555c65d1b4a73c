import Mathlib.Data.List.Sort
import Mathlib.Data.List.MinMax
import Mathlib.Data.List.Nodup
import Mathlib.Tactic.Common

/-!
# Sorted selections, one row for each key

`SELECT DISTINCT ON (key) … ORDER BY sortKey` returns the first row, in the order of the
sort, of the rows with the same key.

* `orderBy`, `distinctOn`: the two clauses;
* `mem_distinctOn_orderBy`: the rows that are returned, where no two rows have the same
  sort key;
* `pairwise_distinctOn`, `pairwise_lt_orderBy`: they have different keys, and are sorted;
* `IsLast`, `mem_distinctOn_iff_isLast`: where the sort puts the later version of a key
  first, they are the last versions;
* `eq_of_pairwise_lt`: rows that are sorted are determined by which they are.
-/

namespace AslanCore

variable {α κ γ τ : Type} [LinearOrder κ] [DecidableEq γ] [LinearOrder τ] {sortKey : α → κ}
  {key : α → γ} {asOf : α → τ} {xs ys : List α} {x y : α}

/-- `ORDER BY sortKey`. -/
def orderBy (sortKey : α → κ) (xs : List α) : List α :=
  xs.insertionSort fun x y => sortKey x ≤ sortKey y

/-- `DISTINCT ON (key)`, of sorted rows: the first row of each key. -/
def distinctOn (key : α → γ) : List α → List α
  | [] => []
  | x :: xs => x :: (distinctOn key xs).filter fun y => decide (key y ≠ key x)

theorem perm_orderBy (sortKey : α → κ) (xs : List α) : (orderBy sortKey xs).Perm xs :=
  List.perm_insertionSort _ xs

@[simp] theorem mem_orderBy : x ∈ orderBy sortKey xs ↔ x ∈ xs := (perm_orderBy sortKey xs).mem_iff

theorem pairwise_orderBy (sortKey : α → κ) (xs : List α) :
    (orderBy sortKey xs).Pairwise fun x y => sortKey x ≤ sortKey y := by
  have : Std.Total fun x y => sortKey x ≤ sortKey y := ⟨fun x y => le_total _ _⟩
  have : IsTrans α fun x y => sortKey x ≤ sortKey y := ⟨fun _ _ _ => le_trans⟩
  exact List.pairwise_insertionSort _ xs

/-- Without two rows of the same sort key, the order is strict. -/
theorem pairwise_lt_orderBy (h : (xs.map sortKey).Nodup) :
    (orderBy sortKey xs).Pairwise fun x y => sortKey x < sortKey y := by
  have hn : ((orderBy sortKey xs).map sortKey).Nodup :=
    ((perm_orderBy sortKey xs).map sortKey).nodup_iff.2 h
  exact (List.pairwise_map.1 hn).imp₂ (fun _ _ hne hle => lt_of_le_of_ne hle hne)
    (pairwise_orderBy sortKey xs)

theorem sublist_distinctOn (key : α → γ) (xs : List α) : (distinctOn key xs).Sublist xs := by
  induction xs with
  | nil => exact List.Sublist.slnil
  | cons x xs ih => exact (List.filter_sublist.trans ih).cons_cons x

/-- No two rows have the same key. -/
theorem pairwise_distinctOn (key : α → γ) (xs : List α) :
    (distinctOn key xs).Pairwise fun x y => key x ≠ key y := by
  induction xs with
  | nil => exact List.Pairwise.nil
  | cons x xs ih =>
    refine List.pairwise_cons.2 ⟨fun y hy => ?_, ih.filter _⟩
    exact (of_decide_eq_true (List.mem_filter.1 hy).2).symm

/-- A row is returned if it is the first of its key. -/
theorem mem_distinctOn (h : xs.Pairwise fun x y => sortKey x < sortKey y) :
    x ∈ distinctOn key xs ↔ x ∈ xs ∧ ∀ y ∈ xs, key y = key x → sortKey x ≤ sortKey y := by
  induction xs with
  | nil => simp [distinctOn]
  | cons z xs ih =>
    obtain ⟨hz, h⟩ := List.pairwise_cons.1 h
    rw [distinctOn, List.mem_cons, List.mem_cons, List.mem_filter, ih h, List.forall_mem_cons]
    constructor
    · rintro (rfl | ⟨⟨hx, hmin⟩, hk⟩)
      · exact ⟨.inl rfl, fun _ => le_rfl, fun y hy _ => (hz y hy).le⟩
      · exact ⟨.inr hx, fun hzx => absurd hzx.symm (of_decide_eq_true hk), hmin⟩
    · rintro ⟨rfl | hx, hzx, hmin⟩
      · exact .inl rfl
      · -- the first row would come before `x`, had it the same key
        exact .inr ⟨⟨hx, hmin⟩, decide_eq_true fun hk => ((hz x hx).trans_le (hzx hk.symm)).false⟩

/-- `SELECT DISTINCT ON (key) … ORDER BY sortKey` returns, for each key, the row that comes
    first. -/
theorem mem_distinctOn_orderBy (h : (xs.map sortKey).Nodup) :
    x ∈ distinctOn key (orderBy sortKey xs) ↔
      x ∈ xs ∧ ∀ y ∈ xs, key y = key x → sortKey x ≤ sortKey y := by
  simp only [mem_distinctOn (pairwise_lt_orderBy h), mem_orderBy]

/-- Rows that are sorted, without two of the same sort key, are determined by which they
    are. -/
theorem eq_of_pairwise_lt (hx : xs.Pairwise fun x y => sortKey x < sortKey y)
    (hy : ys.Pairwise fun x y => sortKey x < sortKey y) (h : ∀ x, x ∈ xs ↔ x ∈ ys) : xs = ys := by
  have hnodup : ∀ {zs : List α}, (zs.Pairwise fun x y => sortKey x < sortKey y) → zs.Nodup :=
    fun hz => hz.imp fun hlt heq => (heq ▸ hlt).false
  refine List.Perm.eq_of_pairwise (fun x y _ _ hxy hyx => ?_) hx hy
    ((List.perm_ext_iff_of_nodup (hnodup hx) (hnodup hy)).2 h)
  exact absurd hyx hxy.asymm

/-- `x` is the last version of its key in `xs`. -/
structure IsLast (key : α → γ) (asOf : α → τ) (xs : List α) (x : α) : Prop where
  mem : x ∈ xs
  last : ∀ y ∈ xs, key y = key x → asOf y ≤ asOf x

namespace IsLast

omit [DecidableEq γ] in
/-- A key has one last version. -/
theorem unique (hn : (xs.map fun x => (key x, asOf x)).Nodup) (hx : IsLast key asOf xs x)
    (hy : IsLast key asOf xs y) (h : key x = key y) : x = y :=
  List.inj_on_of_nodup_map hn hx.mem hy.mem
    (Prod.ext h (le_antisymm (hy.last x hx.mem h) (hx.last y hy.mem h.symm)))

/-- A key with a version has a last one. -/
theorem exists_of_mem (key : α → γ) (asOf : α → τ) (h : x ∈ xs) :
    ∃ y, IsLast key asOf xs y ∧ key y = key x := by
  obtain ⟨y, hy⟩ := Option.ne_none_iff_exists'.1 (show
    (xs.filter fun y => decide (key y = key x)).argmax asOf ≠ none from fun hnone => by
      have hmem : x ∈ xs.filter fun y => decide (key y = key x) :=
        List.mem_filter.2 ⟨h, decide_eq_true rfl⟩
      rw [List.argmax_eq_none.1 hnone] at hmem
      exact absurd hmem List.not_mem_nil)
  obtain ⟨hmem, hkey⟩ := List.mem_filter.1 (List.argmax_mem hy)
  have hkey : key y = key x := of_decide_eq_true hkey
  refine ⟨y, ⟨hmem, fun z hz hzk => ?_⟩, hkey⟩
  exact List.le_of_mem_argmax (List.mem_filter.2 ⟨hz, decide_eq_true (hzk.trans hkey)⟩) hy

omit [DecidableEq γ] in
/-- It depends on which versions there are. -/
theorem congr (h : ∀ x, x ∈ xs ↔ x ∈ ys) :
    IsLast key asOf xs x ↔ IsLast key asOf ys x :=
  ⟨fun ⟨hmem, hlast⟩ => ⟨(h x).1 hmem, fun y hy => hlast y ((h y).2 hy)⟩,
    fun ⟨hmem, hlast⟩ => ⟨(h x).2 hmem, fun y hy => hlast y ((h y).1 hy)⟩⟩

omit [DecidableEq γ] in
/-- Versions of other keys do not matter. -/
theorem filter_iff {c : α → Bool} (hc : ∀ x y, key x = key y → c x = c y) :
    IsLast key asOf (xs.filter c) x ↔ IsLast key asOf xs x ∧ c x = true := by
  constructor
  · rintro ⟨hmem, hlast⟩
    obtain ⟨hmem, hx⟩ := List.mem_filter.1 hmem
    exact ⟨⟨hmem, fun y hy hk => hlast y (List.mem_filter.2 ⟨hy, (hc y x hk).trans hx⟩) hk⟩, hx⟩
  · rintro ⟨⟨hmem, hlast⟩, hx⟩
    exact ⟨List.mem_filter.2 ⟨hmem, hx⟩, fun y hy hk => hlast y (List.mem_filter.1 hy).1 hk⟩

end IsLast

/-- A sort that puts the later version of a key first selects the last versions. -/
theorem mem_distinctOn_iff_isLast (h : (xs.map sortKey).Nodup)
    (hk : ∀ x y, key y = key x → (sortKey x ≤ sortKey y ↔ asOf y ≤ asOf x)) :
    x ∈ distinctOn key (orderBy sortKey xs) ↔ IsLast key asOf xs x := by
  rw [mem_distinctOn_orderBy h]
  exact ⟨fun ⟨hmem, hmin⟩ => ⟨hmem, fun y hy hkey => (hk x y hkey).1 (hmin y hy hkey)⟩,
    fun ⟨hmem, hlast⟩ => ⟨hmem, fun y hy hkey => (hk x y hkey).2 (hlast y hy hkey)⟩⟩

end AslanCore
