import Mathlib.Data.List.TakeWhile
import Mathlib.Data.Prod.Lex
import AslanCore.Store.DistinctOn

/-!
# Selections with ties

Rows that are equal in the order of a sort come in any order, and `SELECT DISTINCT ON (key) …
ORDER BY key, version DESC` returns any of the last versions of a key.

* `IsOrdered`: the possible results of `ORDER BY`;
* `IsPage`: the rows that `ORDER BY` with a `LIMIT` may return, in whatever order;
* `MaySelect`: the possible results of `SELECT DISTINCT ON`;
* `MaySelect.isLast`, `exists_maySelect`: the rows that may be returned are the last versions;
* `MaySelect.map_eq`: where the last versions of a key agree on a value, it does not matter which
  of them is returned.
-/

namespace AslanCore

variable {α β κ γ τ : Type} [LinearOrder κ] [LinearOrder γ] [LinearOrder τ] {sortKey : α → κ}
  {key : α → γ} {version : α → τ} {f : α → β} {xs xs' ys ys' zs : List α} {x y : α}

/-- `ORDER BY sortKey` may return `ys`. -/
structure IsOrdered (sortKey : α → κ) (xs ys : List α) : Prop where
  perm : ys.Perm xs
  sorted : ys.Pairwise fun x y => sortKey x ≤ sortKey y

theorem isOrdered_orderBy (sortKey : α → κ) (xs : List α) :
    IsOrdered sortKey xs (orderBy sortKey xs) :=
  ⟨perm_orderBy sortKey xs, pairwise_orderBy sortKey xs⟩

/-- Any row may come last of those that are equal to it in the order. -/
theorem exists_isOrdered_last (sortKey : α → κ) (h : x ∈ xs) :
    ∃ l l', IsOrdered sortKey xs (l ++ x :: l') ∧ ∀ y ∈ l', sortKey x < sortKey y := by
  obtain ⟨zs, zs', rfl⟩ := List.append_of_mem h
  have hle : ∀ y ∈ orderBy sortKey ((zs ++ zs').filter fun y => sortKey y ≤ sortKey x),
      sortKey y ≤ sortKey x := fun y hy => by
    simpa using (List.mem_filter.1 (mem_orderBy.1 hy)).2
  have hlt : ∀ y ∈ orderBy sortKey ((zs ++ zs').filter fun y => !decide (sortKey y ≤ sortKey x)),
      sortKey x < sortKey y := fun y hy => by
    simpa using (List.mem_filter.1 (mem_orderBy.1 hy)).2
  refine ⟨orderBy sortKey ((zs ++ zs').filter fun y => sortKey y ≤ sortKey x), _, ⟨?_, ?_⟩, hlt⟩
  · refine List.perm_middle.trans (.trans (.cons x ?_) List.perm_middle.symm)
    exact ((perm_orderBy _ _).append (perm_orderBy _ _)).trans (List.filter_append_perm _ _)
  · refine List.pairwise_append.2 ⟨pairwise_orderBy _ _, List.pairwise_cons.2
      ⟨fun y hy => (hlt y hy).le, pairwise_orderBy _ _⟩, fun y hy z hz => ?_⟩
    rcases List.mem_cons.1 hz with rfl | hz
    · exact hle y hy
    · exact (hle y hy).trans (hlt z hz).le

/-- Without two rows of the same sort key, there is one order. -/
theorem IsOrdered.unique (hn : (xs.map sortKey).Nodup) (h : IsOrdered sortKey xs ys)
    (h' : IsOrdered sortKey xs ys') : ys = ys' := by
  have hlt : ∀ {zs}, IsOrdered sortKey xs zs → zs.Pairwise fun x y => sortKey x < sortKey y := by
    intro zs hzs
    have hne := List.pairwise_map.1 ((hzs.perm.map sortKey).nodup_iff.2 hn)
    exact hne.imp₂ (fun _ _ hne hle => lt_of_le_of_ne hle hne) hzs.sorted
  exact eq_of_pairwise_lt (hlt h) (hlt h') fun x => h.perm.mem_iff.trans h'.perm.mem_iff.symm

/-- Where there is one order, no two rows have the same sort key: either of them may come last. -/
theorem nodup_of_unique (hn : xs.Nodup)
    (h : ∀ ys ys', IsOrdered sortKey xs ys → IsOrdered sortKey xs ys' → ys = ys') :
    (xs.map sortKey).Nodup := by
  have hlast : ∀ {l l' m m' : List α} {x y : α}, l ++ x :: l' = m ++ y :: m' → x ≠ y →
      (∀ z ∈ l', sortKey x < sortKey z) → (∀ z ∈ m', sortKey y < sortKey z) →
      sortKey x ≠ sortKey y := by
    intro l l' m m' x y heq hne hx hy
    rcases List.append_eq_append_iff.1 heq with ⟨a, -, ha⟩ | ⟨a, -, ha⟩
    · rcases List.cons_eq_append_iff.1 ha with ⟨rfl, ha⟩ | ⟨a, rfl, rfl⟩
      · exact absurd (List.cons.inj ha).1 hne
      · exact (hx y (List.mem_append_right _ List.mem_cons_self)).ne
    · rcases List.cons_eq_append_iff.1 ha with ⟨rfl, ha⟩ | ⟨a, rfl, rfl⟩
      · exact absurd (List.cons.inj ha).1.symm hne
      · exact (hy x (List.mem_append_right _ List.mem_cons_self)).ne'
  refine List.Nodup.map_on (fun x hx y hy hkey => by_contra fun hne => ?_) hn
  obtain ⟨l, l', hl, hxl⟩ := exists_isOrdered_last sortKey hx
  obtain ⟨m, m', hm, hym⟩ := exists_isOrdered_last sortKey hy
  exact hlast (h _ _ hl hm) hne hxl hym hkey

/-- The rows that may be the first `n` in the order. -/
def IsPage (sortKey : α → κ) (n : ℕ) (xs page : List α) : Prop :=
  ∃ rest, (page ++ rest).Perm xs ∧ page.length = min n xs.length ∧
    ∀ x ∈ page, ∀ y ∈ rest, sortKey x ≤ sortKey y

theorem IsPage.subset {n : ℕ} {page : List α} (h : IsPage sortKey n xs page) (hx : x ∈ page) :
    x ∈ xs := by
  obtain ⟨rest, hperm, -⟩ := h
  exact hperm.mem_iff.1 (List.mem_append_left rest hx)

theorem isPage_take {n : ℕ} (h : IsOrdered sortKey xs zs) : IsPage sortKey n xs (zs.take n) := by
  refine ⟨zs.drop n, ?_, ?_, fun x hx y hy => ?_⟩
  · rw [List.take_append_drop]
    exact h.perm
  · rw [List.length_take, h.perm.length_eq]
  · have hsorted := h.sorted
    rw [← List.take_append_drop n zs] at hsorted
    exact (List.pairwise_append.1 hsorted).2.2 x hx y hy

/-- The rows of a page may come in any of their orders. -/
theorem IsPage.exists_isOrdered {n : ℕ} {page : List α} (h : IsPage sortKey n xs page)
    (hys : IsOrdered sortKey page ys) : ∃ zs, IsOrdered sortKey xs zs ∧ zs.take n = ys := by
  obtain ⟨rest, hperm, hlength, hle⟩ := h
  have hrest := isOrdered_orderBy sortKey rest
  refine ⟨ys ++ orderBy sortKey rest, ⟨(hys.perm.append hrest.perm).trans hperm, ?_⟩, ?_⟩
  · exact List.pairwise_append.2 ⟨hys.sorted, hrest.sorted, fun x hx y hy =>
      hle x (hys.perm.mem_iff.1 hx) y (hrest.perm.mem_iff.1 hy)⟩
  · have hlen := hperm.length_eq
    rw [List.length_append] at hlen
    rw [← hys.perm.length_eq] at hlength hlen
    by_cases hn : n ≤ xs.length
    · rw [min_eq_left hn] at hlength
      exact List.take_left' hlength
    · -- There is nothing left.
      have hnil : rest = [] := List.eq_nil_of_length_eq_zero (by omega)
      rw [hnil, orderBy, List.insertionSort_nil, List.append_nil]
      exact List.take_of_length_le (by omega)

/-- The order of `key`, and of the later versions first. -/
def laterFirst (key : α → γ) (version : α → τ) (x : α) : γ ×ₗ τᵒᵈ :=
  toLex (key x, OrderDual.toDual (version x))

theorem laterFirst_le_iff (h : key y = key x) :
    laterFirst key version x ≤ laterFirst key version y ↔ version y ≤ version x := by
  rw [laterFirst, laterFirst, Prod.Lex.toLex_le_toLex, h]
  simp

theorem key_le_of_laterFirst_le (h : laterFirst key version x ≤ laterFirst key version y) :
    key x ≤ key y := by
  rw [laterFirst, laterFirst, Prod.Lex.toLex_le_toLex] at h
  rcases h with h | ⟨h, -⟩
  · exact h.le
  · exact h.le

/-- `SELECT DISTINCT ON (key) … ORDER BY key, version DESC` may return `ys`. -/
def MaySelect (key : α → γ) (version : α → τ) (xs ys : List α) : Prop :=
  ∃ zs, IsOrdered (laterFirst key version) xs zs ∧ ys = distinctOn key zs

/-! ### Which rows are returned -/

/-- The first row of a key is returned. -/
theorem mem_distinctOn_append {zs' : List α} (h : ∀ y ∈ zs, key y ≠ key x) :
    x ∈ distinctOn key (zs ++ x :: zs') := by
  induction zs with
  | nil => exact List.mem_cons_self
  | cons z zs ih =>
    refine List.mem_cons_of_mem _ (List.mem_filter.2 ⟨ih fun y hy => ?_, decide_eq_true ?_⟩)
    · exact h y (List.mem_cons_of_mem _ hy)
    · exact (h z List.mem_cons_self).symm

/-- Every key has a row that is returned. -/
theorem exists_mem_distinctOn (key : α → γ) (h : x ∈ xs) :
    ∃ y ∈ distinctOn key xs, key y = key x := by
  induction xs with
  | nil => exact absurd h List.not_mem_nil
  | cons z xs ih =>
    by_cases hz : key x = key z
    · exact ⟨z, List.mem_cons_self, hz.symm⟩
    · have hx : x ∈ xs := (List.mem_cons.1 h).resolve_left fun heq => hz (heq ▸ rfl)
      obtain ⟨y, hy, hyx⟩ := ih hx
      refine ⟨y, List.mem_cons_of_mem _ (List.mem_filter.2 ⟨hy, decide_eq_true ?_⟩), hyx⟩
      exact fun hyz => hz (hyx.symm.trans hyz)

theorem isLast_of_mem_distinctOn
    (hzs : zs.Pairwise fun x y => laterFirst key version x ≤ laterFirst key version y)
    (h : x ∈ distinctOn key zs) : IsLast key version zs x := by
  induction zs with
  | nil => exact absurd h List.not_mem_nil
  | cons z zs ih =>
    obtain ⟨hz, hzs⟩ := List.pairwise_cons.1 hzs
    rcases List.mem_cons.1 h with rfl | h
    · refine ⟨List.mem_cons_self, fun y hy hkey => ?_⟩
      rcases List.mem_cons.1 hy with rfl | hy
      · exact le_rfl
      · exact (laterFirst_le_iff hkey).1 (hz y hy)
    · obtain ⟨h, hne⟩ := List.mem_filter.1 h
      obtain ⟨hmem, hlast⟩ := ih hzs h
      refine ⟨List.mem_cons_of_mem _ hmem, fun y hy hkey => ?_⟩
      rcases List.mem_cons.1 hy with rfl | hy
      · exact absurd hkey.symm (of_decide_eq_true hne)
      · exact hlast y hy hkey

namespace MaySelect

/-- The rows that are returned are last versions. -/
theorem isLast (h : MaySelect key version xs ys) (hx : x ∈ ys) : IsLast key version xs x := by
  obtain ⟨zs, hzs, rfl⟩ := h
  exact (IsLast.congr fun y => hzs.perm.mem_iff).1 (isLast_of_mem_distinctOn hzs.sorted hx)

theorem exists_mem (h : MaySelect key version xs ys) (hx : x ∈ xs) : ∃ y ∈ ys, key y = key x := by
  obtain ⟨zs, hzs, rfl⟩ := h
  exact exists_mem_distinctOn key (hzs.perm.mem_iff.2 hx)

/-- They come in the order of their keys. -/
theorem pairwise (h : MaySelect key version xs ys) : ys.Pairwise fun x y => key x < key y := by
  obtain ⟨zs, hzs, rfl⟩ := h
  exact (hzs.sorted.sublist (sublist_distinctOn key zs)).imp₂
    (fun _ _ hle hne => lt_of_le_of_ne (key_le_of_laterFirst_le hle) hne)
    (pairwise_distinctOn key zs)

/-- There is one row for each key. -/
theorem key_inj (h : MaySelect key version xs ys) (hx : x ∈ ys) (hy : y ∈ ys)
    (hkey : key x = key y) : x = y := by
  have hnodup : (ys.map key).Nodup := List.pairwise_map.2 (h.pairwise.imp ne_of_lt)
  exact List.inj_on_of_nodup_map hnodup hx hy hkey

end MaySelect

theorem maySelect_orderBy (key : α → γ) (version : α → τ) (xs : List α) :
    MaySelect key version xs (distinctOn key (orderBy (laterFirst key version) xs)) :=
  ⟨_, isOrdered_orderBy _ _, rfl⟩

/-- Any last version of a key may be returned. -/
theorem exists_maySelect (h : IsLast key version xs x) :
    ∃ ys, MaySelect key version xs ys ∧ x ∈ ys := by
  obtain ⟨l, l', rfl⟩ := List.append_of_mem h.mem
  -- Of rows that are equal in the order, the sort leaves the first one first.
  refine ⟨_, ⟨orderBy (laterFirst key version) (x :: (l ++ l')), ⟨?_, ?_⟩, rfl⟩, ?_⟩
  · exact (perm_orderBy _ _).trans List.perm_middle.symm
  · exact pairwise_orderBy _ _
  · rw [orderBy, List.insertionSort_cons, List.orderedInsert_eq_take_drop]
    refine mem_distinctOn_append fun y hy hkey => ?_
    have hmem : y ∈ l ++ x :: l' := by
      have hsort := (List.mem_insertionSort _).1 ((List.takeWhile_prefix _).subset hy)
      rcases List.mem_append.1 hsort with hy | hy
      · exact List.mem_append_left _ hy
      · exact List.mem_append_right _ (List.mem_cons_of_mem _ hy)
    have hlt := List.mem_takeWhile_imp hy
    rw [decide_eq_true_iff] at hlt
    exact hlt ((laterFirst_le_iff hkey).2 (h.last y hmem hkey))

/-! ### Where it does not matter -/

/-- Results that agree on a value for each key are equal, as far as keys and values go. -/
theorem map_eq_of_pairwise (h : ys.Pairwise fun x y => key x < key y)
    (h' : ys'.Pairwise fun x y => key x < key y)
    (hmem : ∀ x ∈ ys, ∃ y ∈ ys', key y = key x ∧ f y = f x)
    (hmem' : ∀ x ∈ ys', ∃ y ∈ ys, key y = key x ∧ f y = f x) :
    ys.map (fun x => (key x, f x)) = ys'.map fun x => (key x, f x) := by
  have hsorted : (ys.map fun x => (key x, f x)).Pairwise fun p q => p.1 < q.1 :=
    List.pairwise_map.2 h
  have hsorted' : (ys'.map fun x => (key x, f x)).Pairwise fun p q => p.1 < q.1 :=
    List.pairwise_map.2 h'
  refine eq_of_pairwise_lt hsorted hsorted' fun p => ?_
  simp only [List.mem_map]
  constructor
  · rintro ⟨x, hx, rfl⟩
    obtain ⟨y, hy, hkey, hval⟩ := hmem x hx
    exact ⟨y, hy, Prod.ext hkey hval⟩
  · rintro ⟨x, hx, rfl⟩
    obtain ⟨y, hy, hkey, hval⟩ := hmem' x hx
    exact ⟨y, hy, Prod.ext hkey hval⟩

/-- Results from rows with the same keys, whose last versions agree on a value, are equal as far as
    keys and values go. -/
theorem MaySelect.map_eq (h : MaySelect key version xs ys) (h' : MaySelect key version xs' ys')
    (hkeys : ∀ x ∈ xs, ∃ y ∈ xs', key y = key x) (hkeys' : ∀ x ∈ xs', ∃ y ∈ xs, key y = key x)
    (hval : ∀ x y, IsLast key version xs x → IsLast key version xs' y → key y = key x →
      f y = f x) :
    ys.map (fun x => (key x, f x)) = ys'.map fun x => (key x, f x) := by
  refine map_eq_of_pairwise h.pairwise h'.pairwise (fun x hx => ?_) fun x hx => ?_
  · obtain ⟨y, hy, hyx⟩ := hkeys x (h.isLast hx).mem
    obtain ⟨z, hz, hzy⟩ := h'.exists_mem hy
    exact ⟨z, hz, hzy.trans hyx, hval x z (h.isLast hx) (h'.isLast hz) (hzy.trans hyx)⟩
  · obtain ⟨y, hy, hyx⟩ := hkeys' x (h'.isLast hx).mem
    obtain ⟨z, hz, hzy⟩ := h.exists_mem hy
    have hkey : key x = key z := (hzy.trans hyx).symm
    exact ⟨z, hz, hkey.symm, (hval z x (h.isLast hz) (h'.isLast hx) hkey).symm⟩

end AslanCore
