import AslanCore.Financials.Answers

/-!
# Series of one basis and of both

`get_metric_timeseries` returns the values of one basis, or joins those of both. The statement of one
basis puts the oldest period first, and the limit is a slice of its rows, so that a history that is
longer than the limit loses its newest periods.

* `TimeseriesPoint.onBasis`: what a point of both bases says of one of them;
* `SeriesAgree`: the series of a basis are those that the joined series has;
* `MetricTimeseriesQuery.current`: the rows that the query returns, of a basis;
* `seriesAgree_iff`: the series agree where there is nothing to put in order.
-/

namespace AslanCore

namespace Financials

variable {t : CanonicalTable} {q : MetricTimeseriesQuery} {b : RestatementBasis} {limit : ℤ}
  {rows ar cn : List CanonicalRow} {row : CanonicalRow} {j : Joined}

/-! ### Slices -/

section Slices

variable {α : Type} {xs : List α} {p : α → Bool}

theorem sliceTo_nil : sliceTo limit ([] : List α) = [] := by
  rw [sliceTo]
  split_ifs <;> exact List.take_nil

theorem sliceTo_eq_self (h : (sliceTo limit xs).length < limit) : sliceTo limit xs = xs := by
  rw [sliceTo] at h ⊢
  split_ifs at h ⊢ with hlimit
  · rw [List.length_take] at h
    exact List.take_of_length_le (by omega)
  · omega

theorem sliceTo_eq_nil_iff :
    sliceTo limit xs = [] ↔ limit = 0 ∨ limit < 0 ∧ xs.length ≤ limit.natAbs ∨ xs = [] := by
  rw [sliceTo]
  split_ifs with hlimit
  · rw [List.take_eq_nil_iff]
    constructor
    · rintro (h | h)
      · exact .inl (by omega)
      · exact .inr (.inr h)
    · rintro (h | ⟨h, -⟩ | h)
      · exact .inl (by omega)
      · omega
      · exact .inr h
  · rw [List.take_eq_nil_iff]
    constructor
    · rintro (h | h)
      · exact .inr (.inl ⟨by omega, by omega⟩)
      · exact .inr (.inr h)
    · rintro (h | ⟨-, h⟩ | h)
      · omega
      · exact .inl (by omega)
      · exact .inr h

theorem sliceTo_prefix : sliceTo limit xs <+: xs := by
  rw [sliceTo]
  split_ifs <;> exact List.take_prefix _ _

/-- The first elements are the last ones of a condition, in reverse, if there are none or one. -/
theorem sliceTo_eq_reverse_iff (hnodup : xs.Nodup) :
    sliceTo limit xs = sliceTo limit (xs.filter p).reverse ↔
      sliceTo limit xs = [] ∨
        ∃ x rest, xs = x :: rest ∧ p x ∧ (∀ y ∈ rest, ¬p y) ∧ (rest = [] ∨ limit = 1) := by
  constructor
  · intro h
    by_cases hnil : sliceTo limit xs = []
    · exact .inl hnil
    right
    -- The first element of both slices is the first one, and the last one of the condition.
    obtain ⟨x, l, hslice⟩ := List.exists_cons_of_ne_nil hnil
    obtain ⟨l₁, hxs⟩ : sliceTo limit xs <+: xs := sliceTo_prefix
    obtain ⟨l₂, hrev⟩ : sliceTo limit (xs.filter p).reverse <+: (xs.filter p).reverse :=
      sliceTo_prefix
    rw [← h, hslice, List.cons_append] at hrev
    rw [hslice, List.cons_append] at hxs
    generalize l ++ l₁ = rest at hxs
    subst hxs
    obtain ⟨hx, -⟩ := List.nodup_cons.1 hnodup
    have hfilter : (x :: rest).filter p = (l ++ l₂).reverse ++ [x] := by
      rw [← List.reverse_cons, hrev, List.reverse_reverse]
    have hpx : p x := by
      have hmem : x ∈ (x :: rest).filter p := by
        rw [hfilter]
        exact List.mem_append_right _ List.mem_cons_self
      exact (List.mem_filter.1 hmem).2
    have hone : rest.filter p = [] := by
      rw [List.filter_cons_of_pos hpx] at hfilter
      rcases hl : (l ++ l₂).reverse with _ | ⟨z, zs⟩
      · rw [hl] at hfilter
        exact (List.cons.inj hfilter).2
      · rw [hl] at hfilter
        have hmem : x ∈ rest.filter p := by
          rw [(List.cons.inj hfilter).2]
          exact List.mem_append_right _ List.mem_cons_self
        exact absurd (List.mem_filter.1 hmem).1 hx
    refine ⟨x, rest, rfl, hpx, List.filter_eq_nil_iff.1 hone, ?_⟩
    by_cases hrest : rest = []
    · exact .inl hrest
    right
    rw [List.filter_cons_of_pos hpx, hone, List.reverse_singleton] at h
    have hlength := congrArg List.length h
    have hpos := List.length_pos_of_ne_nil hrest
    have hslice := List.length_pos_of_ne_nil hnil
    rw [sliceTo, sliceTo] at hlength
    rw [sliceTo] at hslice
    split_ifs at hlength hslice <;>
      simp only [List.length_take, List.length_cons, List.length_nil] at hlength hslice <;> omega
  · rintro (hnil | ⟨x, rest, rfl, hpx, hnone, hone⟩)
    · rw [hnil]
      rcases sliceTo_eq_nil_iff.1 hnil with hlimit | ⟨hlimit, hlength⟩ | rfl
      · exact (sliceTo_eq_nil_iff.2 (.inl hlimit)).symm
      · have hle := List.length_filter_le p xs
        refine (sliceTo_eq_nil_iff.2 (.inr (.inl ⟨hlimit, ?_⟩))).symm
        rw [List.length_reverse]
        omega
      · exact sliceTo_nil.symm
    · rw [List.filter_cons_of_pos hpx, List.filter_eq_nil_iff.2 hnone, List.reverse_singleton]
      rcases hone with rfl | rfl
      · rfl
      · rfl

end Slices

/-! ### What the series say of a basis -/

/-- The point of one basis: the other column is `None`, and a CPI base date is one of a value that
    is normalized. -/
def TimeseriesPoint.onBasis (b : RestatementBasis) (p : TimeseriesPoint) : TimeseriesPoint :=
  match b with
  | .asReported => { p with cpiNormalized := none, cpiBaseDate := none }
  | .cpiNormalized => { p with asReported := none }

/-- The joined series, of the periods that have a value of the basis. -/
def restrictTo (b : RestatementBasis) (points : List TimeseriesPoint) : List TimeseriesPoint :=
  (points.filter fun p => (p.value b).isSome).map (.onBasis b)

/-- With a basis, `get_metric_timeseries` returns the newest periods of the joined series that have
    a value of it. The joined series is one that the limit did not cut. -/
def SeriesAgree (t : CanonicalTable) (q : MetricTimeseriesQuery) (b : RestatementBasis)
    (limit : ℤ) : Prop :=
  ∀ answer joined limit', MetricTimeseries t { q with restatementBasis := some b } limit answer →
    MetricTimeseries t { q with restatementBasis := none } limit' joined →
    joined.length < limit' → answer = sliceTo limit (restrictTo b joined)

/-- There is one row for each period, basis and `mapping_version`. -/
def MetricTimeseriesQuery.OneRow (q : MetricTimeseriesQuery) (t : CanonicalTable) : Prop :=
  ∀ row ∈ t.rows, ∀ row' ∈ t.rows, q.where_ row.restatementBasis row.toFinancialKey →
    row.toFinancialKey = row'.toFinancialKey → row.mappingVersion = row'.mappingVersion → row = row'

/-- The rows of a basis with the greatest `mapping_version` of their period. -/
def MetricTimeseriesQuery.current (q : MetricTimeseriesQuery) (t : CanonicalTable)
    (b : RestatementBasis) : List CanonicalRow :=
  (t.select (q.where_ b)).filter fun row => ∀ row' ∈ t.select (q.where_ b),
    row'.periodEnd = row.periodEnd → row'.mappingVersion ≤ row.mappingVersion

/-- Nothing is returned, or there is one period, or the oldest period is the only one with a value
    and the only one that is asked for. -/
def NothingToOrder (t : CanonicalTable) (q : MetricTimeseriesQuery) (b : RestatementBasis)
    (limit : ℤ) : Prop :=
  limit = 0 ∨ limit < 0 ∧ (q.current t b).length ≤ limit.natAbs ∨ q.current t b = [] ∨
    ∃ row ∈ q.current t b, row.value.isSome ∧
      ∀ row' ∈ q.current t b, row'.periodEnd ≠ row.periodEnd →
        limit = 1 ∧ row'.value = none ∧ row.periodEnd < row'.periodEnd

/-! ### The rows that are returned -/

/-- The columns of a basis. -/
def Joined.side (b : RestatementBasis) (j : Joined) : Option CanonicalRow :=
  match b with
  | .asReported => j.ar
  | .cpiNormalized => j.cn

section Rows

variable (h : MaySelect pointKey CanonicalRow.mappingVersion (t.select (q.where_ b)) rows)
include h

/-- The oldest period comes first. -/
theorem pairwise_periodEnd : rows.Pairwise fun x y => x.periodEnd < y.periodEnd := by
  refine List.Pairwise.imp_of_mem (fun {x y} hx hy hlt => ?_) h.pairwise
  rw [pointKey, pointKey, Prod.Lex.toLex_lt_toLex] at hlt
  rcases hlt with hlt | ⟨-, hlt⟩
  · exact hlt
  · rw [periodType_of_maySelect h hx, periodType_of_maySelect h hy] at hlt
    exact absurd hlt (lt_irrefl _)

/-- Where there is one row of each version, the rows are determined. -/
theorem mem_iff_mem_current (hone : q.OneRow t) : row ∈ rows ↔ row ∈ q.current t b := by
  have hkey : ∀ {x y}, x ∈ t.select (q.where_ b) → y ∈ t.select (q.where_ b) →
      (pointKey x = pointKey y ↔ x.periodEnd = y.periodEnd) := by
    intro x y hx hy
    obtain ⟨-, -, -, htype, -⟩ := of_decide_eq_true (List.mem_filter.1 hx).2
    obtain ⟨-, -, -, htype', -⟩ := of_decide_eq_true (List.mem_filter.1 hy).2
    rw [pointKey, pointKey, htype, htype']
    exact ⟨fun h => (Prod.mk.inj (toLex.injective h)).1, fun h => by rw [h]⟩
  rw [MetricTimeseriesQuery.current, List.mem_filter, decide_eq_true_iff]
  constructor
  · intro hrow
    obtain ⟨hmem, hlast⟩ := h.isLast hrow
    exact ⟨hmem, fun row' hrow' hend => hlast row' hrow' ((hkey hrow' hmem).2 hend)⟩
  · rintro ⟨hmem, hmax⟩
    obtain ⟨row', hrow', heq⟩ := h.exists_mem hmem
    obtain ⟨hmem', hlast⟩ := h.isLast hrow'
    obtain ⟨hrows, hc⟩ := List.mem_filter.1 hmem
    obtain ⟨hrows', hc'⟩ := List.mem_filter.1 hmem'
    have hversion : row.mappingVersion = row'.mappingVersion :=
      le_antisymm (hlast row hmem heq.symm) (hmax row' hmem' ((hkey hmem' hmem).1 heq))
    have hkeys := (distinguishes_pointKey q b row row' hc hc').1 heq.symm
    rwa [hone row hrows row' hrows' (where_basis hc) hkeys hversion]

theorem length_current (hone : q.OneRow t) : (q.current t b).length = rows.length := by
  have hrows : rows.Nodup := (pairwise_periodEnd h).imp fun hlt heq => (heq ▸ hlt).false
  have hcurrent : (q.current t b).Nodup :=
    ((List.Nodup.of_map _ t.primaryKey).filter _).filter _
  exact ((List.perm_ext_iff_of_nodup hcurrent hrows).2 fun row =>
    (mem_iff_mem_current h hone).symm).length_eq

end Rows

/-! ### The joined series -/

theorem nodup_fullJoin (har : ar.Nodup) (hcn : cn.Nodup) : (fullJoin ar cn).Nodup := by
  rw [fullJoin]
  refine List.nodup_append.2 ⟨List.nodup_flatMap.2 ⟨fun a _ => ?_, ?_⟩, ?_, ?_⟩
  · split
    · exact List.nodup_singleton _
    · exact (hcn.filter _).map fun c c' h => (Joined.both.inj h).2
  · refine har.imp fun {a a'} hne j hj hj' => hne ?_
    dsimp only at hj hj'
    have hleft : j.ar = some a := by
      split at hj
      · rw [List.mem_singleton.1 hj]
        rfl
      · obtain ⟨c, -, rfl⟩ := List.mem_map.1 hj
        rfl
    have hleft' : j.ar = some a' := by
      split at hj'
      · rw [List.mem_singleton.1 hj']
        rfl
      · obtain ⟨c, -, rfl⟩ := List.mem_map.1 hj'
        rfl
    exact Option.some.inj (hleft.symm.trans hleft')
  · exact (hcn.filter _).map fun c c' h => Joined.right.inj h
  · rintro j hj _ hj' rfl
    obtain ⟨c, -, rfl⟩ := List.mem_map.1 hj'
    obtain ⟨a, -, hj⟩ := List.mem_flatMap.1 hj
    split at hj
    · cases List.mem_singleton.1 hj
    · obtain ⟨c', -, hj⟩ := List.mem_map.1 hj
      cases hj

/-- The rows of a basis. -/
def sideRows (ar cn : List CanonicalRow) : RestatementBasis → List CanonicalRow
  | .asReported => ar
  | .cpiNormalized => cn

theorem maySelect_sideRows
    (har : MaySelect pointKey CanonicalRow.mappingVersion (t.select (q.where_ .asReported)) ar)
    (hcn : MaySelect pointKey CanonicalRow.mappingVersion (t.select (q.where_ .cpiNormalized)) cn)
    (b : RestatementBasis) :
    MaySelect pointKey CanonicalRow.mappingVersion (t.select (q.where_ b)) (sideRows ar cn b) := by
  rcases b with _ | _
  · exact har
  · exact hcn

theorem Separate.side_iff (h : Separate ar cn) (hj : j ∈ fullJoin ar cn) :
    j.side b = some row ↔ row ∈ sideRows ar cn b ∧ row.periodEnd = j.row.periodEnd := by
  rcases b with _ | _
  · exact h.ar_iff hj
  · exact h.cn_iff hj

/-- Every row of a basis is in the join. -/
theorem exists_joined_side (hrow : row ∈ sideRows ar cn b) :
    ∃ j ∈ fullJoin ar cn, j.side b = some row := by
  rcases b with _ | _
  · obtain ⟨j, hj, hside, -⟩ := exists_joined_ar hrow
    exact ⟨j, hj, hside⟩
  · obtain ⟨j, hj, hside, -⟩ := exists_joined_cn hrow
    exact ⟨j, hj, hside⟩

theorem value_ofJoined (b : RestatementBasis) (j : Joined) :
    (TimeseriesPoint.ofJoined j).value b = (j.side b).bind (·.value) := by
  cases b <;> rfl

/-- A point of the join says of a basis what the point of its row says. -/
theorem onBasis_ofJoined (hside : j.side b = some row) (hbasis : row.restatementBasis = b)
    (hend : row.periodEnd = j.row.periodEnd) (htype : row.periodType = j.row.periodType) :
    TimeseriesPoint.onBasis b (.ofJoined j) = .ofRow row := by
  subst hbasis
  cases hb : row.restatementBasis with
  | asReported =>
    rw [hb, Joined.side] at hside
    simp [TimeseriesPoint.onBasis, TimeseriesPoint.ofJoined, TimeseriesPoint.ofRow, hb, hside, hend,
      htype]
  | cpiNormalized =>
    rw [hb, Joined.side] at hside
    simp [TimeseriesPoint.onBasis, TimeseriesPoint.ofJoined, TimeseriesPoint.ofRow, hb, hside, hend,
      htype]

theorem periodEnd_onBasis (b : RestatementBasis) (p : TimeseriesPoint) :
    (p.onBasis b).periodEnd = p.periodEnd := by
  cases b <;> rfl

/-- The joined series has the values of a basis, the latest period first. -/
theorem restrictTo_eq {joined : List Joined}
    (har : MaySelect pointKey CanonicalRow.mappingVersion (t.select (q.where_ .asReported)) ar)
    (hcn : MaySelect pointKey CanonicalRow.mappingVersion (t.select (q.where_ .cpiNormalized)) cn)
    (hj : IsOrdered (fun j : Joined => OrderDual.toDual j.row.periodEnd) (fullJoin ar cn) joined) :
    restrictTo b (joined.map .ofJoined) =
      (((sideRows ar cn b).map .ofRow).filter fun p => (p.value b).isSome).reverse := by
  have hsep := separate_of_maySelect har hcn
  have hrows := maySelect_sideRows har hcn b
  have hnodup : ∀ {b rows}, MaySelect pointKey CanonicalRow.mappingVersion
      (t.select (q.where_ b)) rows → rows.Nodup := fun h =>
    (pairwise_periodEnd h).imp fun hlt heq => (heq ▸ hlt).false
  have hbasis : ∀ row ∈ sideRows ar cn b, row.restatementBasis = b := by
    intro row hrow
    obtain ⟨-, hc⟩ := List.mem_filter.1 (hrows.isLast hrow).mem
    obtain ⟨-, -, hbasis, -⟩ := of_decide_eq_true hc
    exact hbasis
  have htype : ∀ j ∈ fullJoin ar cn, j.row.periodType = q.periodType := by
    intro j hj
    rcases row_mem_of_mem_fullJoin hj with hmem | hmem
    · exact periodType_of_maySelect har hmem
    · exact periodType_of_maySelect hcn hmem
  have hpoint : ∀ {j row}, j ∈ fullJoin ar cn → j.side b = some row →
      row ∈ sideRows ar cn b ∧ TimeseriesPoint.onBasis b (.ofJoined j) = .ofRow row := by
    intro j row hj hside
    obtain ⟨hrow, hend⟩ := (hsep.side_iff hj).1 hside
    exact ⟨hrow, onBasis_ofJoined hside (hbasis row hrow) hend
      ((periodType_of_maySelect hrows hrow).trans (htype j hj).symm)⟩
  have hsorted : (restrictTo b (joined.map .ofJoined)).Pairwise fun x y =>
      OrderDual.toDual x.periodEnd < OrderDual.toDual y.periodEnd := by
    rw [restrictTo, List.pairwise_map]
    refine List.Pairwise.filter _ (List.pairwise_map.2 ?_)
    have hjoined : joined.Nodup := hj.perm.nodup_iff.2 (nodup_fullJoin (hnodup har) (hnodup hcn))
    refine (hj.sorted.and hjoined).imp_of_mem fun {x y} hx hy hxy => ?_
    obtain ⟨hle, hne⟩ := hxy
    rw [periodEnd_onBasis, periodEnd_onBasis]
    refine lt_of_le_of_ne hle fun heq => hne ?_
    exact hsep.eq_of_mem (hj.perm.mem_iff.1 hx) (hj.perm.mem_iff.1 hy) heq
  have hsorted' : (((sideRows ar cn b).map TimeseriesPoint.ofRow).filter
      fun p => (p.value b).isSome).reverse.Pairwise fun x y =>
        OrderDual.toDual x.periodEnd < OrderDual.toDual y.periodEnd := by
    refine List.pairwise_reverse.2 (List.Pairwise.filter _ (List.pairwise_map.2 ?_))
    exact (pairwise_periodEnd hrows).imp fun hlt => hlt
  -- Both are sorted, so that it is enough to compare the points.
  refine eq_of_pairwise_lt hsorted hsorted' fun p => ?_
  simp only [restrictTo, List.mem_map, List.mem_filter, List.mem_reverse]
  constructor
  · rintro ⟨_, ⟨⟨j, hmem, rfl⟩, hsome⟩, rfl⟩
    have hjmem := hj.perm.mem_iff.1 hmem
    rw [value_ofJoined] at hsome
    obtain ⟨v, hv⟩ := Option.isSome_iff_exists.1 hsome
    obtain ⟨row, hside, hval⟩ := Option.bind_eq_some_iff.1 hv
    obtain ⟨hrow, heq⟩ := hpoint hjmem hside
    refine ⟨⟨row, hrow, heq.symm⟩, ?_⟩
    rw [heq, value_ofRow (hbasis row hrow), hval]
    rfl
  · rintro ⟨⟨row, hrow, rfl⟩, hsome⟩
    obtain ⟨j, hjmem, hside⟩ := exists_joined_side hrow
    refine ⟨_, ⟨⟨j, hj.perm.mem_iff.2 hjmem, rfl⟩, ?_⟩, (hpoint hjmem hside).2⟩
    rw [value_ofJoined, hside, Option.bind_some, ← value_ofRow (hbasis row hrow)]
    exact hsome

/-! ### Where the series agree -/

/-- The possible answers for one basis and for both. -/
theorem seriesAgree_iff_slice : SeriesAgree t q b limit ↔ ∀ ar cn rows,
    MaySelect pointKey CanonicalRow.mappingVersion (t.select (q.where_ .asReported)) ar →
    MaySelect pointKey CanonicalRow.mappingVersion (t.select (q.where_ .cpiNormalized)) cn →
    MaySelect pointKey CanonicalRow.mappingVersion (t.select (q.where_ b)) rows →
    sliceTo limit (rows.map TimeseriesPoint.ofRow) = sliceTo limit
      (((sideRows ar cn b).map TimeseriesPoint.ofRow).filter fun p => (p.value b).isSome).reverse := by
  constructor
  · intro h ar cn rows har hcn hrows
    have hj := isOrdered_orderBy (fun j : Joined => OrderDual.toDual j.row.periodEnd)
      (fullJoin ar cn)
    generalize orderBy (fun j : Joined => OrderDual.toDual j.row.periodEnd) (fullJoin ar cn) =
      joined at hj
    rw [← restrictTo_eq har hcn hj]
    have hslice : sliceTo (joined.length + 1) (joined.map TimeseriesPoint.ofJoined) =
        joined.map .ofJoined := by
      rw [sliceTo, if_pos (by omega)]
      refine List.take_of_length_le ?_
      rw [List.length_map]
      omega
    refine h _ _ (joined.length + 1) ⟨rows, hrows, rfl⟩ ⟨ar, cn, joined, har, hcn, hj, hslice.symm⟩ ?_
    rw [List.length_map]
    omega
  · rintro h _ _ limit' ⟨rows, hrows, rfl⟩ ⟨ar, cn, joined, har, hcn, hj, rfl⟩ hlength
    rw [sliceTo_eq_self hlength, restrictTo_eq har hcn hj]
    exact h ar cn rows har hcn hrows

/-- The rows are those of the table, so that the condition is one on what is returned. -/
theorem nothingToOrder_iff (hone : q.OneRow t)
    (h : MaySelect pointKey CanonicalRow.mappingVersion (t.select (q.where_ b)) rows) :
    NothingToOrder t q b limit ↔ sliceTo limit (rows.map TimeseriesPoint.ofRow) = [] ∨
      ∃ x rest, rows.map TimeseriesPoint.ofRow = x :: rest ∧ (x.value b).isSome ∧
        (∀ y ∈ rest, ¬(y.value b).isSome) ∧ (rest = [] ∨ limit = 1) := by
  have hmem : ∀ row, row ∈ q.current t b ↔ row ∈ rows := fun row => (mem_iff_mem_current h hone).symm
  have hnil : q.current t b = [] ↔ rows = [] := by
    rw [← List.length_eq_zero_iff, length_current h hone, List.length_eq_zero_iff]
  have hvalue : ∀ row ∈ rows, (TimeseriesPoint.ofRow row).value b = row.value := by
    intro row hrow
    obtain ⟨-, hc⟩ := List.mem_filter.1 (h.isLast hrow).mem
    obtain ⟨-, -, hbasis, -⟩ := of_decide_eq_true hc
    exact value_ofRow hbasis
  have hsorted := pairwise_periodEnd h
  rw [sliceTo_eq_nil_iff, List.length_map, List.map_eq_nil_iff, NothingToOrder,
    length_current h hone, hnil, or_assoc, or_assoc]
  refine or_congr_right (or_congr_right (or_congr_right ?_))
  simp only [hmem]
  constructor
  · rintro ⟨row, hrow, hsome, hother⟩
    -- No period is before that of `row`.
    obtain ⟨l, rest, rfl⟩ := List.append_of_mem hrow
    obtain ⟨-, hcons, hlt⟩ := List.pairwise_append.1 hsorted
    have hfirst : l = [] := by
      refine List.eq_nil_iff_forall_not_mem.2 fun x hx => ?_
      have hx' := hlt x hx row List.mem_cons_self
      obtain ⟨-, -, hxlt⟩ := hother x (List.mem_append_left _ hx) hx'.ne
      exact (hxlt.trans hx').false
    subst hfirst
    have hrest : ∀ x ∈ rest, limit = 1 ∧ x.value = none := by
      intro x hx
      obtain ⟨hlimit, hnone, -⟩ := hother x (List.mem_cons_of_mem _ hx)
        ((List.pairwise_cons.1 hcons).1 x hx).ne'
      exact ⟨hlimit, hnone⟩
    refine ⟨_, _, rfl, ?_, ?_, ?_⟩
    · rw [hvalue row hrow]
      exact hsome
    · intro y hy
      obtain ⟨x, hx, rfl⟩ := List.mem_map.1 hy
      rw [hvalue x (List.mem_cons_of_mem _ hx), (hrest x hx).2]
      exact Bool.false_ne_true
    · rcases rest with _ | ⟨x, rest⟩
      · exact .inl rfl
      · exact .inr (hrest x List.mem_cons_self).1
  · rintro ⟨x, rest, hmap, hsome, hnone, hrest⟩
    obtain ⟨row, rest, rfl, rfl, rfl⟩ := List.map_eq_cons_iff.1 hmap
    rw [hvalue row List.mem_cons_self] at hsome
    refine ⟨row, List.mem_cons_self, hsome, fun row' hrow' hne => ?_⟩
    have hrow' : row' ∈ rest := (List.mem_cons.1 hrow').resolve_left fun heq => hne (heq ▸ rfl)
    have hnone' := hnone _ (List.mem_map_of_mem hrow')
    rw [hvalue row' (List.mem_cons_of_mem _ hrow'), Option.not_isSome_iff_eq_none] at hnone'
    refine ⟨hrest.resolve_left fun heq => ?_, hnone', (List.pairwise_cons.1 hsorted).1 row' hrow'⟩
    rw [List.map_eq_nil_iff.1 heq] at hrow'
    exact List.not_mem_nil hrow'

/-- The series of a basis is the one that the joined series has of it exactly if nothing is returned,
    or there is one period, with a value, or the only period that is asked for is the oldest one and
    no other one has a value. -/
theorem seriesAgree_iff (h : q.OneRow t) (b : RestatementBasis) (limit : ℤ) :
    SeriesAgree t q b limit ↔ NothingToOrder t q b limit := by
  have hnodup : ∀ {rows}, MaySelect pointKey CanonicalRow.mappingVersion
      (t.select (q.where_ b)) rows → (rows.map TimeseriesPoint.ofRow).Nodup := fun hrows =>
    List.pairwise_map.2 ((pairwise_periodEnd hrows).imp fun hlt heq =>
      hlt.ne (congrArg TimeseriesPoint.periodEnd heq))
  rw [seriesAgree_iff_slice]
  constructor
  · intro hslice
    have har := maySelect_orderBy pointKey CanonicalRow.mappingVersion
      (t.select (q.where_ .asReported))
    have hcn := maySelect_orderBy pointKey CanonicalRow.mappingVersion
      (t.select (q.where_ .cpiNormalized))
    have hrows := maySelect_sideRows har hcn b
    rw [nothingToOrder_iff h hrows, ← sliceTo_eq_reverse_iff (hnodup hrows)]
    exact hslice _ _ _ har hcn hrows
  · intro hnothing ar cn rows har hcn hrows
    have hside := maySelect_sideRows har hcn b
    have heq : sideRows ar cn b = rows := by
      refine eq_of_pairwise_lt (pairwise_periodEnd hside) (pairwise_periodEnd hrows) fun row => ?_
      rw [mem_iff_mem_current hside h, mem_iff_mem_current hrows h]
    rw [heq, sliceTo_eq_reverse_iff (hnodup hrows), ← nothingToOrder_iff h hrows]
    exact hnothing

/-! ### A history -/

/-- The revenue of a year. -/
def revenueRow (periodEnd : Date) (value : ℤ) : CanonicalRow where
  entityId := 1
  canonicalCode := "is.revenue"
  periodEnd := periodEnd
  periodType := .annual
  consolidation := "consolidated"
  restatementBasis := .asReported
  currencyCode := "TRY"
  accountingStandard := "tfrs"
  cpiBaseDate := cpiSentinel
  value := some (.finite value 0)
  mappingVersion := 1
  asOf := 1

/-- A company that has reported once. -/
def firstYear : CanonicalTable where
  rows := [revenueRow 19722 100]
  primaryKey := by decide +kernel
  check := by decide +kernel

/-- And twice. -/
def secondYear : CanonicalTable where
  rows := [revenueRow 19722 100, revenueRow 20088 120]
  primaryKey := by decide +kernel
  check := by decide +kernel

def revenueQuery : MetricTimeseriesQuery where
  entityId := 1
  canonicalCode := "is.revenue"
  restatementBasis := none
  periodType := .annual
  consolidation := .consolidated

/-- The series agree on one year. -/
theorem seriesAgree_firstYear : SeriesAgree firstYear revenueQuery .asReported 40 := by
  have hone : revenueQuery.OneRow firstYear := by
    intro row hrow row' hrow' _ _ _
    rw [List.mem_singleton.1 hrow, List.mem_singleton.1 hrow']
  have hcurrent : revenueQuery.current firstYear .asReported = [revenueRow 19722 100] := by rfl
  refine (seriesAgree_iff hone .asReported 40).2 (.inr (.inr (.inr ?_)))
  rw [hcurrent]
  refine ⟨_, List.mem_cons_self, rfl, fun row' hrow' hne => ?_⟩
  exact absurd (congrArg (·.periodEnd) (List.mem_singleton.1 hrow')) hne

/-- Of two years, the later one is not returned. -/
theorem not_seriesAgree_secondYear : revenueQuery.OneRow secondYear ∧
    ¬SeriesAgree secondYear revenueQuery .asReported 1 := by
  constructor
  · intro row hrow row' hrow' _ hkey _
    have hends : ∀ row ∈ secondYear.rows, ∀ row' ∈ secondYear.rows,
        row.periodEnd = row'.periodEnd → row.value = row'.value ∧ row.toMeasure = row'.toMeasure ∧
          row.mappingVersion = row'.mappingVersion ∧ row.asOf = row'.asOf := by
      decide +kernel
    obtain ⟨hvalue, hmeasure, hversion, hasOf⟩ :=
      hends row hrow row' hrow' (congrArg FinancialKey.periodEnd hkey)
    exact List.inj_on_of_nodup_map secondYear.primaryKey hrow hrow'
      (by rw [CanonicalRow.versionKey, CanonicalRow.versionKey, hkey, hmeasure, hversion, hasOf])
  · intro h
    have hselect : MaySelect pointKey CanonicalRow.mappingVersion
        (secondYear.select (revenueQuery.where_ .asReported))
        [revenueRow 19722 100, revenueRow 20088 120] := by
      refine ⟨[revenueRow 19722 100, revenueRow 20088 120], ⟨.of_eq (by rfl), ?_⟩, by rfl⟩
      exact List.pairwise_pair.2 (by decide +kernel)
    have hnone : MaySelect pointKey CanonicalRow.mappingVersion
        (secondYear.select (revenueQuery.where_ .cpiNormalized)) [] :=
      ⟨[], ⟨.of_eq (by rfl), .nil⟩, rfl⟩
    have hslice := seriesAgree_iff_slice.1 h _ _ _ hselect hnone hselect
    have hperiods := congrArg (List.map TimeseriesPoint.periodEnd) hslice
    revert hperiods
    decide +kernel

end Financials

end AslanCore
