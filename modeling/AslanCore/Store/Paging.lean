import Mathlib.Data.List.Nodup
import Mathlib.Data.List.Perm.Basic
import AslanCore.Store.Ties

/-!
# Pages of a selection

A client reads a selection page by page, with `LIMIT k OFFSET 0`, `LIMIT k OFFSET k` and so on. Each
page is a statement of its own, so that rows that are equal in the order of the sort may come in
another order each time. And where the rows are those of a join, a group of them may stand for what
the client wants to see once.

* `readPages`: the pages, each of a result of its own;
* `firstOf`, `lastOf`: the first and the last place that the ties of an item have among all items;
* `readOnce_iff`: whatever the orders, the pages have every item once exactly if no page ends
  among ties and no item has two rows, but for an item that comes last of all and ends the last page.
-/

namespace AslanCore

section Lists

variable {α : Type} {xs : List α} {f : α → Bool}

/-- The pages of `k` rows, the first ones. -/
theorem take_eq_flatMap (xs : List α) (k m : ℕ) :
    ((List.range m).flatMap fun i => (xs.drop (k * i)).take k) = xs.take (k * m) := by
  induction m with
  | zero => rfl
  | succ m ih =>
    rw [List.range_succ, List.flatMap_append, ih, List.flatMap_singleton, Nat.mul_succ, List.take_add]

/-- Elements of some classes, one class after the other. -/
theorem flatMap_filter_perm (xs : List α) (c : α → ℕ) (m : ℕ) :
    ((List.range m).flatMap fun i => xs.filter fun x => c x = i).Perm
      (xs.filter fun x => c x < m) := by
  induction m with
  | zero =>
    rw [List.range_zero, List.flatMap_nil, List.filter_eq_nil_iff.2]
    exact fun x _ h => Nat.not_lt_zero _ (of_decide_eq_true h)
  | succ m ih =>
    rw [List.range_succ, List.flatMap_append, List.flatMap_singleton]
    have hsplit := List.filter_append_perm (fun x => decide (c x < m)) (xs.filter fun x => c x < m + 1)
    rw [List.filter_filter, List.filter_filter] at hsplit
    refine (ih.append (.refl _)).trans (.trans (.of_eq ?_) hsplit)
    congr 1 <;> refine List.filter_congr fun x _ => ?_
    · rw [← Bool.decide_and, decide_eq_decide]
      omega
    · rw [← decide_not, ← Bool.decide_and, decide_eq_decide]
      omega

/-- A page is what satisfies a condition, if the condition says which places are in it. -/
theorem page_eq_filter {s k : ℕ}
    (h : ∀ (q : ℕ) (hq : q < xs.length), f xs[q] = true ↔ s ≤ q ∧ q < s + k) :
    (xs.drop s).take k = xs.filter f := by
  have hnone : ∀ ys : List α, (∀ y ∈ ys, f y = false) → ys.filter f = [] := fun ys hys =>
    List.filter_eq_nil_iff.2 fun y hy => by rw [hys y hy]; exact Bool.false_ne_true
  have hsplit : xs = xs.take s ++ ((xs.drop s).take k ++ (xs.drop s).drop k) := by
    rw [List.take_append_drop, List.take_append_drop]
  have hbefore : (xs.take s).filter f = [] := by
    refine hnone _ fun y hy => ?_
    obtain ⟨q, hq, rfl⟩ := List.getElem_of_mem hy
    rw [List.length_take] at hq
    rw [List.getElem_take, ← Bool.not_eq_true, h]
    omega
  have hafter : ((xs.drop s).drop k).filter f = [] := by
    refine hnone _ fun y hy => ?_
    obtain ⟨q, hq, rfl⟩ := List.getElem_of_mem hy
    simp only [List.length_drop] at hq
    rw [List.getElem_drop, List.getElem_drop, ← Bool.not_eq_true, h]
    omega
  have hpage : ((xs.drop s).take k).filter f = (xs.drop s).take k := by
    refine List.filter_eq_self.2 fun y hy => ?_
    obtain ⟨q, hq, rfl⟩ := List.getElem_of_mem hy
    rw [List.length_take, List.length_drop] at hq
    rw [List.getElem_take, List.getElem_drop, h]
    omega
  calc (xs.drop s).take k = ((xs.drop s).take k).filter f := hpage.symm
    _ = xs.filter f := by
      conv_rhs => rw [hsplit]
      rw [List.filter_append, List.filter_append, hbefore, hafter, List.nil_append, List.append_nil]

end Lists

/-- What a client sees that reads `m` pages of `k` rows: each of them is a page of a result of its own. -/
def readPages {α : Type} (k m : ℕ) (result : ℕ → List α) : List α :=
  (List.range m).flatMap fun i => ((result i).drop (k * i)).take k

/-! ### Places -/

section Places

variable {ι κ : Type} [LinearOrder κ] {key : ι → κ} {items ws : List ι} {g h : ι} {k m : ℕ}

/-- The first place that the ties of an item may have among the items. -/
def firstOf (key : ι → κ) (items : List ι) (g : ι) : ℕ := items.countP fun h => key h < key g

/-- The last place that they may have. -/
def lastOf (key : ι → κ) (items : List ι) (g : ι) : ℕ :=
  (items.countP fun h => key h ≤ key g) - 1

/-- In a sorted list, an item is among its ties. -/
theorem firstOf_le_and_le_lastOf (h : IsOrdered key items ws) {q : ℕ} (hq : q < ws.length) :
    firstOf key items ws[q] ≤ q ∧ q ≤ lastOf key items ws[q] := by
  have hsorted := h.sorted
  have hsplit : ws = ws.take q ++ ws[q] :: ws.drop (q + 1) := by
    rw [List.getElem_cons_drop, List.take_append_drop]
  have hlength : (ws.take q).length = q := by
    rw [List.length_take]
    omega
  rw [firstOf, lastOf, ← h.perm.countP_eq, ← h.perm.countP_eq]
  generalize ws[q] = g at hsplit ⊢
  rw [hsplit] at hsorted ⊢
  obtain ⟨-, hafter, hbefore⟩ := List.pairwise_append.1 hsorted
  constructor
  · have hnone : (g :: ws.drop (q + 1)).countP (fun h => key h < key g) = 0 := by
      refine List.countP_eq_zero.2 fun x hx hlt => ?_
      rw [decide_eq_true_iff] at hlt
      rcases List.mem_cons.1 hx with rfl | hx
      · exact hlt.false
      · exact (hlt.trans_le ((List.pairwise_cons.1 hafter).1 x hx)).false
    rw [List.countP_append, hnone, Nat.add_zero]
    exact List.countP_le_length.trans hlength.le
  · have hall : (ws.take q).countP (fun h => key h ≤ key g) = q := by
      rw [List.countP_eq_length.2 fun x hx => ?_, hlength]
      exact decide_eq_true (hbefore x hx g List.mem_cons_self)
    have hpos : 0 < (g :: ws.drop (q + 1)).countP fun h => key h ≤ key g :=
      List.countP_pos_iff.2 ⟨g, List.mem_cons_self, decide_eq_true le_rfl⟩
    rw [List.countP_append, hall]
    omega

theorem firstOf_le_lastOf (hg : g ∈ items) : firstOf key items g ≤ lastOf key items g := by
  have hws := isOrdered_orderBy key items
  obtain ⟨q, hq, rfl⟩ := List.getElem_of_mem (hws.perm.mem_iff.2 hg)
  obtain ⟨hfirst, hlast⟩ := firstOf_le_and_le_lastOf hws hq
  exact hfirst.trans hlast

theorem lastOf_lt (hg : g ∈ items) : lastOf key items g < items.length := by
  have hle : (items.countP fun h => key h ≤ key g) ≤ items.length := List.countP_le_length
  have hpos := List.length_pos_of_mem hg
  rw [lastOf]
  omega

/-- The ties of every item are in one page. -/
def Unsplit (key : ι → κ) (items : List ι) (k : ℕ) : Prop :=
  ∀ g ∈ items, firstOf key items g / k = lastOf key items g / k

/-- Where no page ends among ties, every page has the items that are to be there, in some order. -/
theorem readPages_perm (hk : 0 < k) (hunsplit : Unsplit key items k) {result : ℕ → List ι}
    (hm : items.length ≤ k * m) (h : ∀ i < m, IsOrdered key items (result i)) :
    (readPages k m result).Perm items := by
  have hpage : ∀ i < m, ((result i).drop (k * i)).take k =
      (result i).filter fun g => lastOf key items g / k = i := by
    intro i hi
    refine page_eq_filter fun q hq => ?_
    obtain ⟨hfirst, hlast⟩ := firstOf_le_and_le_lastOf (h i hi) hq
    have hsame := hunsplit _ ((h i hi).perm.mem_iff.1 (List.getElem_mem hq))
    have hle := Nat.div_le_div_right (c := k) hfirst
    have hle' := Nat.div_le_div_right (c := k) hlast
    have heq : lastOf key items (result i)[q] / k = q / k := by omega
    rw [decide_eq_true_iff, heq, Nat.div_eq_iff hk, Nat.mul_comm]
    omega
  have hall : (items.filter fun g => lastOf key items g / k < m) = items := by
    refine List.filter_eq_self.2 fun g hg => decide_eq_true ?_
    rw [Nat.div_lt_iff_lt_mul hk, Nat.mul_comm]
    exact (lastOf_lt hg).trans_le hm
  refine .trans (.flatMap_left _ fun i hi => ?_) ((flatMap_filter_perm items _ m).trans (.of_eq hall))
  rw [hpage i (List.mem_range.1 hi)]
  exact (h i (List.mem_range.1 hi)).perm.filter _

end Places

/-! ### Rows of items -/

section Rows

variable {α ι κ : Type} [DecidableEq ι] [LinearOrder κ] {key : ι → κ} {of : α → ι} {items : List ι}
  {rows : ι → List α} {g h : ι} {k m : ℕ}

/-- Every item has rows, that are its own. -/
structure RowsOf (of : α → ι) (items : List ι) (rows : ι → List α) : Prop where
  nodup : items.Nodup
  ne_nil : ∀ g ∈ items, rows g ≠ []
  of_eq : ∀ g ∈ items, ∀ r ∈ rows g, of r = g

/-- An item has a single row, or it comes after all others and ends the last page. -/
def Single (key : ι → κ) (items : List ι) (rows : ι → List α) (k : ℕ) : Prop :=
  ∀ g ∈ items, (rows g).length = 1 ∨ k ∣ items.length ∧ ∀ h ∈ items, h ≠ g → key h < key g

theorem mem_flatMap_rows (hrows : RowsOf of items rows) {r : α} (hr : r ∈ items.flatMap rows) :
    of r ∈ items ∧ r ∈ rows (of r) := by
  obtain ⟨g, hg, hr⟩ := List.mem_flatMap.1 hr
  rw [hrows.of_eq g hg r hr]
  exact ⟨hg, hr⟩

/-- Where items have one row each, their rows are the items. -/
theorem filter_map_rows (hrows : RowsOf of items rows) {p : ι → Bool}
    (hp : ∀ g ∈ items, p g = true → (rows g).length = 1) :
    ((items.flatMap rows).map of).filter p = items.filter p := by
  obtain ⟨-, -, hof⟩ := hrows
  induction items with
  | nil => rfl
  | cons g items ih =>
    obtain ⟨hg, hp⟩ := List.forall_mem_cons.1 hp
    obtain ⟨hofg, hof⟩ := List.forall_mem_cons.1 hof
    rw [List.flatMap_cons, List.map_append, List.filter_append, ih hp hof]
    by_cases hpg : p g = true
    · obtain ⟨r, hr⟩ := List.length_eq_one_iff.1 (hg hpg)
      have hr' : of r = g := hofg r (by rw [hr]; exact List.mem_singleton_self r)
      rw [hr, List.map_singleton, hr', List.filter_cons_of_pos hpg, List.filter_cons_of_pos hpg]
      rfl
    · have hnone : ((rows g).map of).filter p = [] := by
        refine List.filter_eq_nil_iff.2 fun x hx => ?_
        obtain ⟨r, hr, rfl⟩ := List.mem_map.1 hx
        rwa [hofg r hr]
      rw [hnone, List.filter_cons_of_neg hpg, List.nil_append]

/-- There are as many of them as items. -/
theorem countP_rows (hrows : RowsOf of items rows) {p : ι → Bool}
    (hp : ∀ g ∈ items, p g = true → (rows g).length = 1) :
    (items.flatMap rows).countP (fun r => p (of r)) = items.countP p := by
  have hmap : ((items.flatMap rows).map of).countP p = items.countP p := by
    rw [List.countP_eq_length_filter, filter_map_rows hrows hp, List.countP_eq_length_filter]
  rwa [List.countP_map] at hmap

/-- If there is an item with several rows, there are more rows than items. -/
theorem length_flatMap_rows (hrows : RowsOf of items rows) :
    items.length ≤ (items.flatMap rows).length ∧
      (∀ g ∈ items, (rows g).length ≠ 1 → items.length < (items.flatMap rows).length) := by
  obtain ⟨-, hne, -⟩ := hrows
  induction items with
  | nil => exact ⟨Nat.le_refl 0, nofun⟩
  | cons g items ih =>
    obtain ⟨hg, hne⟩ := List.forall_mem_cons.1 hne
    obtain ⟨hle, hlt⟩ := ih hne
    have hpos := List.length_pos_iff.2 hg
    rw [List.flatMap_cons, List.length_append, List.length_cons]
    refine ⟨by omega, fun h hh hmany => ?_⟩
    rcases List.mem_cons.1 hh with rfl | hh
    · omega
    · have := hlt h hh hmany
      omega

theorem map_readPages {β : Type} (f : α → β) (k m : ℕ) (result : ℕ → List α) :
    (readPages k m result).map f = readPages k m fun i => (result i).map f := by
  rw [readPages, readPages, List.map_flatMap]
  refine congrArg (List.flatMap · _) (funext fun i => ?_)
  rw [List.map_take, List.map_drop]

/-- In a sorted list, what is greater than all others comes last. -/
theorem eq_filter_append_filter {ws : List ι} (hsorted : ws.Pairwise fun x y => key x ≤ key y)
    (hlt : ∀ x ∈ ws, x ≠ g → key x < key g) :
    ws = (ws.filter fun x => x ≠ g) ++ ws.filter fun x => x = g := by
  induction ws with
  | nil => rfl
  | cons x ws ih =>
    obtain ⟨hx, hsorted⟩ := List.pairwise_cons.1 hsorted
    obtain ⟨hxlt, hlt⟩ := List.forall_mem_cons.1 hlt
    by_cases hxg : x = g
    · subst hxg
      have hall : ∀ y ∈ ws, y = x := fun y hy => by_contra fun hne => ((hlt y hy hne).trans_le (hx y hy)).false
      have hnone : (ws.filter fun y => y ≠ x) = [] :=
        List.filter_eq_nil_iff.2 fun y hy hne => of_decide_eq_true hne (hall y hy)
      have hsame : (ws.filter fun y => y = x) = ws :=
        List.filter_eq_self.2 fun y hy => decide_eq_true (hall y hy)
      rw [List.filter_cons_of_neg (by simp), List.filter_cons_of_pos (by simp), hnone, hsame,
        List.nil_append]
    · rw [List.filter_cons_of_pos (by simpa using hxg), List.filter_cons_of_neg (by simpa using hxg),
        List.cons_append, ← ih hsorted hlt]

/-- The number of the pages. -/
def pageCount (k total : ℕ) : ℕ := (total - 1) / k + 1

theorem le_mul_pageCount (hk : 0 < k) (total : ℕ) : total ≤ k * pageCount k total := by
  have h := Nat.lt_mul_div_succ (total - 1) hk
  rw [pageCount]
  omega

/-- The pages have what they would have if every item had a single row. -/
theorem exists_isOrdered_items (hrows : RowsOf of items rows) (hsingle : Single key items rows k)
    {ys : List α} (hys : IsOrdered (fun r => key (of r)) (items.flatMap rows) ys) :
    ∃ ws, IsOrdered key items ws ∧ ∀ i < pageCount k items.length,
      ((ys.map of).drop (k * i)).take k = (ws.drop (k * i)).take k := by
  have hperm : (ys.map of).Perm ((items.flatMap rows).map of) := hys.perm.map of
  have hsorted : (ys.map of).Pairwise fun x y => key x ≤ key y := List.pairwise_map.2 hys.sorted
  have hitems : ∀ x ∈ ys.map of, x ∈ items := by
    intro x hx
    obtain ⟨r, hr, rfl⟩ := List.mem_map.1 hx
    exact (mem_flatMap_rows hrows (hys.perm.mem_iff.1 hr)).1
  by_cases hone : ∀ g ∈ items, (rows g).length = 1
  · refine ⟨ys.map of, ⟨hperm.trans (.of_eq ?_), hsorted⟩, fun _ _ => rfl⟩
    have hall := filter_map_rows (p := fun _ => true) hrows fun g hg _ => hone g hg
    rwa [List.filter_true, List.filter_true] at hall
  -- There is an item with several rows, which come last.
  obtain ⟨g, hg, hmany⟩ : ∃ g ∈ items, (rows g).length ≠ 1 := by
    by_contra hnone
    exact hone fun g hg => by_contra fun hne => hnone ⟨g, hg, hne⟩
  obtain ⟨hdvd, hlt⟩ := (hsingle g hg).resolve_left hmany
  have hrest : ∀ h ∈ items, decide (h ≠ g) = true → (rows h).length = 1 := by
    intro h hh hne
    refine (hsingle h hh).resolve_right fun ⟨_, hlt'⟩ => ?_
    have hne := of_decide_eq_true hne
    exact (hlt h hh hne).asymm (hlt' g hg (Ne.symm hne))
  have hsplit := eq_filter_append_filter hsorted fun x hx => hlt x (hitems x hx)
  have hothers : ((ys.map of).filter fun x => x ≠ g).Perm (items.filter fun x => x ≠ g) :=
    (hperm.filter _).trans (.of_eq (filter_map_rows hrows hrest))
  have hself : items.Perm ((items.filter fun x => x ≠ g) ++ [g]) := by
    have herase := hrows.nodup.erase_eq_filter g
    have hperm := (List.perm_cons_erase hg).trans (List.perm_append_singleton g (items.erase g)).symm
    rw [herase] at hperm
    refine hperm.trans (.of_eq (congrArg (· ++ [g]) (List.filter_congr fun x _ => ?_)))
    by_cases hx : x = g <;> simp [hx]
  obtain ⟨rest, hfirst⟩ : ∃ rest, (ys.map of).filter (fun x => x = g) = g :: rest := by
    obtain ⟨r, hr⟩ := List.exists_mem_of_ne_nil _ (hrows.ne_nil g hg)
    have hmem : g ∈ (ys.map of).filter fun x => x = g := by
      refine List.mem_filter.2 ⟨hperm.mem_iff.2 (List.mem_map.2 ⟨r, ?_, hrows.of_eq g hg r hr⟩),
        decide_eq_true rfl⟩
      exact List.mem_flatMap.2 ⟨g, hg, hr⟩
    rcases hl : (ys.map of).filter fun x => x = g with _ | ⟨x, rest⟩
    · rw [hl] at hmem
      cases hmem
    · have hx : x ∈ (ys.map of).filter fun x => x = g := by
        rw [hl]
        exact List.mem_cons_self
      obtain rfl : x = g := of_decide_eq_true (List.mem_filter.1 hx).2
      exact ⟨rest, rfl⟩
  rw [hfirst] at hsplit
  have htake : (ys.map of).take items.length = ((ys.map of).filter fun x => x ≠ g) ++ [g] := by
    have hlength : items.length = ((ys.map of).filter fun x => x ≠ g).length + 1 := by
      rw [hself.length_eq, List.length_append, List.length_singleton, hothers.length_eq]
    generalize (ys.map of).filter (fun x => x ≠ g) = others at hsplit hlength ⊢
    rw [hsplit, hlength, List.take_length_add_append]
    rfl
  refine ⟨(ys.map of).take items.length, ⟨?_, hsorted.sublist (List.take_sublist _ _)⟩,
    fun i hi => ?_⟩
  · rw [htake]
    exact (hothers.append_right _).trans hself.symm
  · obtain ⟨c, hc⟩ := hdvd
    have hpos := List.length_pos_of_mem hg
    have hle : k * (i + 1) ≤ items.length := by
      have hi' : k * i ≤ items.length - 1 :=
        (Nat.mul_le_mul_left k (Nat.le_of_lt_succ hi)).trans (Nat.mul_div_le _ k)
      have hic : k * i < k * c := by omega
      rw [hc]
      exact Nat.mul_le_mul_left k (Nat.lt_of_mul_lt_mul_left hic)
    rw [List.drop_take, List.take_take, Nat.min_eq_left]
    rw [Nat.mul_succ] at hle
    omega

/-! ### Orders among ties -/

/-- An order of the rows where, of those that are equal in the order of the sort, the ones that satisfy
    `c` come last. -/
def tieBreak (key : ι → κ) (of : α → ι) (c : ι → Bool) (r : α) : κ ×ₗ Bool :=
  toLex (key (of r), c (of r))

theorem isOrdered_tieBreak (c : ι → Bool) (xs : List α) :
    IsOrdered (fun r => key (of r)) xs (orderBy (tieBreak key of c) xs) := by
  refine ⟨perm_orderBy _ _, (pairwise_orderBy (tieBreak key of c) xs).imp fun {x y} hle => ?_⟩
  rw [tieBreak, tieBreak, Prod.Lex.toLex_le_toLex] at hle
  rcases hle with hlt | ⟨heq, -⟩
  · exact hlt.le
  · exact heq.le

/-- In a sorted list, the row after all smaller ones is one of those that come next. -/
theorem exists_getElem_countP {τ : Type} [LinearOrder τ] {sortKey : α → τ} {ys : List α} {r : α}
    (hsorted : ys.Pairwise fun x y => sortKey x ≤ sortKey y) (hr : r ∈ ys) :
    ∃ x, ys[ys.countP fun y => sortKey y < sortKey r]? = some x ∧ sortKey x = sortKey r := by
  induction ys with
  | nil => cases hr
  | cons y ys ih =>
    obtain ⟨hy, hsorted⟩ := List.pairwise_cons.1 hsorted
    by_cases hlt : sortKey y < sortKey r
    · have hr' : r ∈ ys := (List.mem_cons.1 hr).resolve_left fun heq => (heq ▸ hlt).false
      rw [List.countP_cons, if_pos (decide_eq_true hlt), List.getElem?_cons_succ]
      exact ih hsorted hr'
    · have hle : sortKey y ≤ sortKey r := by
        rcases List.mem_cons.1 hr with rfl | hr
        · exact le_rfl
        · exact hy r hr
      have hnone : (y :: ys).countP (fun y => sortKey y < sortKey r) = 0 := by
        refine List.countP_eq_zero.2 fun x hx hxr => ?_
        have hxr := of_decide_eq_true hxr
        rcases List.mem_cons.1 hx with rfl | hx
        · exact hlt hxr
        · exact hlt ((hy x hx).trans_lt hxr)
      rw [hnone]
      exact ⟨y, rfl, le_antisymm hle (not_lt.1 hlt)⟩

/-- The page of a place. -/
theorem mem_page {ys : List α} {q : ℕ} {x : α} (hk : 0 < k) (hx : ys[q]? = some x) :
    x ∈ (ys.drop (k * (q / k))).take k := by
  have hle := Nat.mul_div_le q k
  have hlt := Nat.lt_mul_div_succ q hk
  rw [Nat.mul_succ] at hlt
  refine List.mem_of_getElem? (i := q - k * (q / k)) ?_
  rw [List.getElem?_take_of_lt (by omega), List.getElem?_drop, Nat.add_sub_cancel' hle, hx]

/-- The pages of a single result. -/
theorem readPages_const (k m : ℕ) (ys : List α) : readPages k m (fun _ => ys) = ys.take (k * m) :=
  take_eq_flatMap ys k m

/-- Whatever the orders, the pages have every item once. -/
def ReadOnce (key : ι → κ) (of : α → ι) (items : List ι) (rows : ι → List α) (k : ℕ) : Prop :=
  ∀ result : ℕ → List α,
    (∀ i, IsOrdered (fun r => key (of r)) (items.flatMap rows) (result i)) →
      ((readPages k (pageCount k items.length) result).map of).Perm items

/-- An item with several rows takes the place of another one, unless it comes last. -/
theorem ReadOnce.single (hread : ReadOnce key of items rows k) (hk : 0 < k)
    (hrows : RowsOf of items rows) : Single key items rows k := by
  intro g hg
  by_cases hone : (rows g).length = 1
  · exact .inl hone
  obtain ⟨xs, hxs⟩ : ∃ xs, items.flatMap rows = xs := ⟨_, rfl⟩
  obtain ⟨total, htotal⟩ : ∃ total, items.length = total := ⟨_, rfl⟩
  have hlt : total < xs.length := by
    rw [← hxs, ← htotal]
    exact (length_flatMap_rows hrows).2 g hg hone
  -- All pages are of one result, where the rows of the item come first of their ties.
  obtain ⟨ys, hys⟩ : ∃ ys, orderBy (tieBreak key of fun h => h ≠ g) xs = ys := ⟨_, rfl⟩
  have hordered : IsOrdered (fun r => key (of r)) xs ys := hys ▸ isOrdered_tieBreak _ xs
  have hperm := hread (fun _ => ys) fun _ => by rwa [hxs]
  rw [readPages_const, htotal] at hperm
  have hlength := hperm.length_eq
  rw [List.length_map, List.length_take, hordered.perm.length_eq, htotal] at hlength
  have hle := le_mul_pageCount hk total
  have hmul : k * pageCount k total = total := by omega
  rw [hmul] at hperm
  refine .inr ⟨⟨_, htotal.trans hmul.symm⟩, fun h hh hne => by_contra fun hle => ?_⟩
  have hle := not_lt.1 hle
  obtain ⟨r, hr, rfl⟩ := List.mem_map.1 (hperm.mem_iff.2 hh)
  -- So the other item comes after them all, and they are all there.
  have hdrop : (ys.drop total).countP (fun s => of s = g) = 0 := by
    refine List.countP_eq_zero.2 fun s hs hsg => ?_
    have hsg := of_decide_eq_true hsg
    have hsorted := pairwise_orderBy (tieBreak key of fun h => h ≠ g) xs
    rw [hys, ← List.take_append_drop total ys] at hsorted
    have hrs := (List.pairwise_append.1 hsorted).2.2 r hr s hs
    rw [tieBreak, tieBreak, Prod.Lex.toLex_le_toLex, hsg] at hrs
    rcases hrs with hlt | ⟨-, hbool⟩
    · exact (hlt.trans_le hle).false
    · dsimp only at hbool
      rw [decide_eq_true hne, decide_eq_false (not_not.2 rfl)] at hbool
      exact absurd hbool (by decide)
  have hmany : 2 ≤ ys.countP fun s => of s = g := by
    have hsub : (rows g).Sublist xs := by
      rw [← hxs, List.flatMap_def]
      exact List.sublist_flatten_of_mem (List.mem_map_of_mem hg)
    have hall : (rows g).countP (fun s => of s = g) = (rows g).length :=
      List.countP_eq_length.2 fun s hs => decide_eq_true (hrows.of_eq g hg s hs)
    have hpos := List.length_pos_iff.2 (hrows.ne_nil g hg)
    have hcount := hsub.countP_le (p := fun s => decide (of s = g))
    rw [hordered.perm.countP_eq]
    omega
  have honce : (ys.take total).countP (fun s => of s = g) ≤ 1 := by
    have hcount := List.nodup_iff_count_le_one.1 (hperm.nodup_iff.2 hrows.nodup) g
    rwa [List.count, List.countP_map] at hcount
  rw [← List.take_append_drop total ys, List.countP_append, hdrop] at hmany
  omega

/-- The items up to an item are those before it, its ties, and itself. -/
theorem lastOf_eq (hnodup : items.Nodup) (hg : g ∈ items) :
    lastOf key items g = items.countP fun h => key h < key g ∨ key h = key g ∧ h ≠ g := by
  have hperm := List.perm_cons_erase hg
  rw [lastOf, hperm.countP_eq, hperm.countP_eq, List.countP_cons, List.countP_cons,
    if_pos (decide_eq_true le_rfl), if_neg (by simp), Nat.add_sub_cancel, Nat.add_zero]
  refine List.countP_congr fun h hh => ?_
  have hne : h ≠ g := fun heq => hnodup.not_mem_erase (heq ▸ hh)
  rw [decide_eq_true_iff, decide_eq_true_iff, le_iff_lt_or_eq]
  simp [hne]

/-- A row of the item is at the first place of its ties in one order, and at the last in another. -/
theorem exists_place (hrows : RowsOf of items rows) (hg : g ∈ items)
    (hsingle : ∀ h ∈ items, key h ≤ key g → (rows h).length = 1) {c : ι → Bool} {p : ι → Bool}
    (hc : ∀ h, c h = c g → h = g) (hp : ∀ h, p h = true → key h ≤ key g)
    (hlt : ∀ h, toLex (key h, c h) < toLex (key g, c g) ↔ p h = true) :
    ∃ x, (orderBy (tieBreak key of c) (items.flatMap rows))[items.countP p]? = some x ∧ of x = g := by
  obtain ⟨r, hr⟩ := List.exists_mem_of_ne_nil _ (hrows.ne_nil g hg)
  have hrg := hrows.of_eq g hg r hr
  have hmem : r ∈ orderBy (tieBreak key of c) (items.flatMap rows) :=
    mem_orderBy.2 (List.mem_flatMap.2 ⟨g, hg, hr⟩)
  obtain ⟨x, hx, hsame⟩ := exists_getElem_countP (pairwise_orderBy (tieBreak key of c) _) hmem
  have hcount : (orderBy (tieBreak key of c) (items.flatMap rows)).countP
      (fun y => tieBreak key of c y < tieBreak key of c r) = items.countP p := by
    rw [(perm_orderBy _ _).countP_eq, ← countP_rows hrows fun h hh hph => hsingle h hh (hp h hph)]
    refine List.countP_congr fun y _ => ?_
    rw [decide_eq_true_iff, tieBreak, tieBreak, hrg]
    exact hlt (of y)
  rw [hcount] at hx
  rw [tieBreak, tieBreak, hrg] at hsame
  exact ⟨x, hx, hc _ (Prod.mk.inj (toLex.injective hsame)).2⟩

/-- An item among ties that are in two pages may be in both. -/
theorem ReadOnce.unsplit (hread : ReadOnce key of items rows k) (hk : 0 < k)
    (hrows : RowsOf of items rows) : Unsplit key items k := by
  intro g hg
  by_contra hne
  have hlt : firstOf key items g / k < lastOf key items g / k :=
    lt_of_le_of_ne (Nat.div_le_div_right (firstOf_le_lastOf hg)) hne
  -- The item has ties, so none up to it comes after all others.
  have hsingle : ∀ h ∈ items, key h ≤ key g → (rows h).length = 1 := by
    intro h hh hle
    refine (hread.single hk hrows h hh).resolve_right fun ⟨_, hlast⟩ => ?_
    by_cases hhg : g = h
    · subst hhg
      refine hne (congrArg (· / k) ?_)
      rw [lastOf_eq hrows.nodup hg, firstOf]
      refine List.countP_congr fun h' hh' => ?_
      rw [decide_eq_true_iff, decide_eq_true_iff]
      exact ⟨.inl, fun h => h.elim id fun h => hlast h' hh' h.2⟩
    · exact ((hlast g hg hhg).trans_le hle).false
  have hbefore : ∀ h, toLex (key h, decide (h ≠ g)) < toLex (key g, decide (g ≠ g)) ↔
      decide (key h < key g) = true := fun h => by
    simp [Prod.Lex.toLex_lt_toLex]
  have hafter : ∀ h, toLex (key h, decide (h = g)) < toLex (key g, decide (g = g)) ↔
      decide (key h < key g ∨ key h = key g ∧ h ≠ g) = true := fun h => by
    by_cases hh : h = g <;> simp [Prod.Lex.toLex_lt_toLex, hh]
  obtain ⟨x, hx, hxg⟩ := exists_place (c := fun h => h ≠ g) hrows hg hsingle (by simp)
    (fun h hlt => (of_decide_eq_true hlt).le) hbefore
  obtain ⟨y, hy, hyg⟩ := exists_place (c := fun h => h = g) hrows hg hsingle (by simp)
    (fun h hle => (of_decide_eq_true hle).elim le_of_lt fun h => h.1.le) hafter
  rw [← lastOf_eq hrows.nodup hg] at hy
  -- Up to the page of its last place, the item comes first of its ties, and last from there on.
  have hperm := hread (fun i => orderBy (tieBreak key of fun h =>
      if i < lastOf key items g / k then h ≠ g else h = g) (items.flatMap rows))
    fun i => isOrdered_tieBreak _ _
  have hnodup := hperm.nodup_iff.2 hrows.nodup
  rw [map_readPages, readPages, List.nodup_flatMap] at hnodup
  have hpages : lastOf key items g / k < pageCount k items.length := by
    refine Nat.lt_succ_of_le (Nat.div_le_div_right ?_)
    exact Nat.le_sub_one_of_lt (lastOf_lt hg)
  have hdisjoint := List.pairwise_iff_getElem.1 hnodup.2 (firstOf key items g / k)
    (lastOf key items g / k) (by rw [List.length_range]; omega) (by rwa [List.length_range]) hlt
  rw [List.getElem_range, List.getElem_range] at hdisjoint
  have hmem : ∀ {q : ℕ} {z : α} {zs : List α}, zs[q]? = some z → of z = g →
      g ∈ ((zs.map of).drop (k * (q / k))).take k := by
    intro q z zs hz hzg
    rw [← List.map_drop, ← List.map_take]
    exact List.mem_map.2 ⟨z, mem_page hk hz, hzg⟩
  refine hdisjoint (a := g) ?_ ?_
  · simp only [hlt, if_true]
    exact hmem hx hxg
  · simp only [lt_irrefl, if_false]
    exact hmem hy hyg

/-- Whatever the orders, the pages have every item once exactly if no page ends among ties and no item
    has two rows, but for one that comes last of all and ends the last page. -/
theorem readOnce_iff (hk : 0 < k) (hrows : RowsOf of items rows) :
    ReadOnce key of items rows k ↔ Unsplit key items k ∧ Single key items rows k := by
  constructor
  · intro hread
    exact ⟨hread.unsplit hk hrows, hread.single hk hrows⟩
  · rintro ⟨hunsplit, hsingle⟩ result hresult
    choose ws hws hpages using fun i => exists_isOrdered_items hrows hsingle (hresult i)
    have hread : readPages k (pageCount k items.length) (fun i => (result i).map of) =
        readPages k (pageCount k items.length) ws := by
      rw [readPages, readPages]
      exact List.flatMap_congr fun i hi => hpages i i (List.mem_range.1 hi)
    rw [map_readPages, hread]
    exact readPages_perm hk hunsplit (le_mul_pageCount hk _) fun i _ => hws i

end Rows

end AslanCore
