import AslanCore.Timeseries.PointInTime
import AslanCore.Timeseries.Prices

/-!
# Prices and restatements

A value is restated by a row of the same series and `ts`, and a later `as_of`. The functions that
read prices do not collapse them: they use the value that `ObservationReader.range` reports, once
for each series and `ts`, where the rows that they may fetch have that value (`Settled`), and only
there (`collapsed_iff`).
-/

namespace AslanCore.Timeseries

variable {t : ObservationTable} {st : ObservationStore} {q : PriceQuery} {binds : Prop}
  {date : Timestamp → Date} {row : ObservationRow} {r r' : JoinedRow}
  {rows zs page : List JoinedRow} {limit : ℤ}

/-! ### What is reported -/

/-- `range`, without a point in time, reports the value of the row for its series and `ts`. -/
def Reported (t : ObservationTable) (row : ObservationRow) : Prop :=
  ∀ tsStart tsEnd, tsStart ≤ row.ts → row.ts < tsEnd →
    ∃ os o, ObservationReader.range t row.seriesId tsStart tsEnd none none = .ok os ∧ o ∈ os ∧
      o.ts = row.ts ∧ o.value = row.value

/-- The row has the value of the greatest `as_of` of its series and `ts`. -/
def Current (t : ObservationTable) (row : ObservationRow) : Prop :=
  ∃ last, IsLast ObservationRow.key ObservationRow.asOf t.rows last ∧ last.key = row.key ∧
    last.value = row.value

/-- The rows of a window that are last versions. -/
theorem mem_rowsAsOf_none {w : Timestamp → Bool} (seriesId : ℤ) :
    row ∈ rowsAsOf t seriesId w none ↔
      IsLast ObservationRow.key ObservationRow.asOf t.rows row ∧ row.seriesId = seriesId ∧
        w row.ts = true := by
  have hkey : ∀ x y : ObservationRow, x.key = y.key →
      decide (x.seriesId = seriesId ∧ w x.ts ∧ knownAt none x) =
        decide (y.seriesId = seriesId ∧ w y.ts ∧ knownAt none y) := by
    intro x y h
    obtain ⟨hs, hts⟩ := Prod.mk.inj h
    rw [hs, hts]
    rfl
  rw [mem_rowsAsOf, IsLast.filter_iff hkey, decide_eq_true_iff]
  exact and_congr_right fun _ => ⟨fun h => ⟨h.1, h.2.1⟩, fun h => ⟨h.1, h.2, rfl⟩⟩

theorem reported_iff : Reported t row ↔ Current t row := by
  constructor
  · intro h
    obtain ⟨os, o, hrange, ho, hts, hvalue⟩ := h row.ts (row.ts + 1) le_rfl (lt_add_one _)
    rw [range_eq] at hrange
    obtain rfl := Except.ok.inj hrange
    obtain ⟨last, hlast, rfl⟩ := List.mem_map.1 ho
    obtain ⟨hlast, hs, -⟩ := (mem_rowsAsOf_none _).1 hlast
    exact ⟨last, hlast, Prod.ext hs hts, hvalue⟩
  · rintro ⟨last, hlast, hkey, hvalue⟩ tsStart tsEnd hstart hend
    obtain ⟨hs, hts⟩ := Prod.mk.inj hkey
    refine ⟨_, _, range_eq .., List.mem_map_of_mem ((mem_rowsAsOf_none _).2 ⟨hlast, hs, ?_⟩), hts,
      hvalue⟩
    rw [hts]
    exact decide_eq_true ⟨hstart, hend⟩

/-! ### The join -/

theorem mem_joined : r ∈ st.joined ↔
    r.o ∈ st.observation.rows ∧ r.sc ∈ st.seriesCatalog ∧ r.sc.seriesId = r.o.seriesId := by
  rw [ObservationStore.joined, List.mem_flatMap]
  constructor
  · rintro ⟨o, ho, hr⟩
    obtain ⟨sc, hsc, rfl⟩ := List.mem_map.1 hr
    obtain ⟨hsc, hid⟩ := List.mem_filter.1 hsc
    exact ⟨ho, hsc, of_decide_eq_true hid⟩
  · rintro ⟨ho, hsc, hid⟩
    exact ⟨r.o, ho, List.mem_map.2 ⟨r.sc, List.mem_filter.2 ⟨hsc, decide_eq_true hid⟩, rfl⟩⟩

/-- Rows of one series have the same row of the catalog. -/
theorem sc_eq (hr : r ∈ st.joined) (hr' : r' ∈ st.joined) (h : r.o.key = r'.o.key) :
    r.sc = r'.sc := by
  obtain ⟨-, hsc, hid⟩ := mem_joined.1 hr
  obtain ⟨-, hsc', hid'⟩ := mem_joined.1 hr'
  exact List.inj_on_of_nodup_map st.primaryKey hsc hsc'
    (hid.trans ((Prod.mk.inj h).1.trans hid'.symm))

/-- A series has one row in the catalog. -/
theorem length_filter_catalog_le (st : ObservationStore) (seriesId : ℤ) :
    (st.seriesCatalog.filter fun sc => sc.seriesId = seriesId).length ≤ 1 := by
  have hnodup := st.primaryKey.sublist
    ((List.filter_sublist (p := fun sc : SeriesRow => decide (sc.seriesId = seriesId))).map
      (·.seriesId))
  have hid : ∀ sc ∈ st.seriesCatalog.filter fun sc => decide (sc.seriesId = seriesId),
      sc.seriesId = seriesId := fun sc hsc => of_decide_eq_true (List.mem_filter.1 hsc).2
  generalize st.seriesCatalog.filter (fun sc => decide (sc.seriesId = seriesId)) = xs at hnodup hid ⊢
  rcases xs with _ | ⟨x, _ | ⟨y, l⟩⟩
  · exact Nat.zero_le 1
  · exact le_rfl
  · have hx := hid x List.mem_cons_self
    have hy := hid y (List.mem_cons_of_mem _ List.mem_cons_self)
    rw [List.map_cons, List.map_cons, List.nodup_cons, hx, hy] at hnodup
    exact absurd List.mem_cons_self hnodup.1

/-- An observation is joined once. -/
theorem length_joined_le (st : ObservationStore) :
    st.joined.length ≤ st.observation.rows.length := by
  rw [ObservationStore.joined]
  induction st.observation.rows with
  | nil => exact le_rfl
  | cons o rows ih =>
    rw [List.flatMap_cons, List.length_append, List.length_cons, List.length_map]
    have := length_filter_catalog_le st o.seriesId
    omega

theorem mem_joined_of_select (hr : r ∈ st.select q) : r ∈ st.joined := (List.mem_filter.1 hr).1

/-! ### What may be fetched -/

/-- With a limit of all rows, what is fetched is a page of 2000. -/
theorem limitRows_eq (hlimit : st.observation.rows.length ≤ limit)
    (hzs : IsOrdered newestFirst (st.select q) zs) :
    limitRows (some (min limit 2000)) zs = .ok (zs.take 2000) := by
  have hlength : zs.length ≤ st.observation.rows.length := by
    rw [hzs.perm.length_eq]
    exact (List.length_filter_le _ _).trans (length_joined_le st)
  have hrange : ¬(min limit 2000 < -2 ^ 63 ∨ 2 ^ 63 ≤ min limit 2000) := by omega
  have hneg : ¬min limit 2000 < 0 := by omega
  simp only [limitRows, if_neg hrange, if_neg hneg]
  rcases le_total limit 2000 with hle | hle
  · rw [min_eq_left hle, List.take_of_length_le (by omega), List.take_of_length_le (by omega)]
  · rw [min_eq_right hle]
    rfl

/-- What a statement with a window may return. -/
theorem mayFetch_iff (hq : q.HasWindow) : q.MayFetch binds st limit rows ↔
    binds ∧ ∃ zs, IsOrdered newestFirst (st.select q) zs ∧
      limitRows (some (min limit 2000)) zs = .ok rows := by
  rcases q with _ | _ | _ | _
  · exact Iff.rfl
  · exact Iff.rfl
  · exact absurd hq id
  · exact Iff.rfl

theorem isPage_of_mayFetch (hq : q.HasWindow) (hlimit : st.observation.rows.length ≤ limit)
    (h : q.MayFetch binds st limit rows) :
    binds ∧ IsPage newestFirst 2000 (st.select q) rows ∧
      rows.Pairwise fun r r' => r'.o.ts ≤ r.o.ts := by
  obtain ⟨hbinds, zs, hzs, hrows⟩ := (mayFetch_iff hq).1 h
  rw [limitRows_eq hlimit hzs] at hrows
  obtain rfl := Except.ok.inj hrows
  exact ⟨hbinds, isPage_take hzs, hzs.sorted.sublist (List.take_sublist _ _)⟩

/-- A page may be fetched in any of its orders. -/
theorem exists_mayFetch (hq : q.HasWindow) (hbinds : binds)
    (hpage : IsPage newestFirst 2000 (st.select q) page) (hrows : IsOrdered newestFirst page rows) :
    ∃ limit : ℤ, st.observation.rows.length ≤ limit ∧ q.MayFetch binds st limit rows := by
  obtain ⟨zs, hzs, htake⟩ := hpage.exists_isOrdered hrows
  refine ⟨_, le_rfl, (mayFetch_iff hq).2 ⟨hbinds, zs, hzs, ?_⟩⟩
  rw [limitRows_eq le_rfl hzs, htake]

/-! ### The functions -/

/-- For each series and `ts`, a function uses the value that is reported, and that once. -/
structure Collapsed (date : Timestamp → Date) (binds : Prop) (st : ObservationStore)
    (q : PriceQuery) : Prop where
  reported : ∀ (limit : ℤ) rows, st.observation.rows.length ≤ limit →
    q.MayFetch binds st limit rows → ∀ r ∈ q.used date rows, Reported st.observation r.o
  once : ∀ (limit : ℤ) rows, st.observation.rows.length ≤ limit →
    q.MayFetch binds st limit rows → ((q.used date rows).map fun r => r.o.key).Nodup

/-- Which rows have to be current. The pages are the choices of the 2000 newest rows. -/
def Settled (date : Timestamp → Date) (st : ObservationStore) : PriceQuery → Prop
  | q@(.stockPrices ..) => ∀ page, IsPage newestFirst 2000 (st.select q) page →
    ∀ r ∈ page, r.sc.metric ∈ priceMetrics →
      (∀ r' ∈ page, SamePrice date r r' → r.o.ts ≤ r'.o.ts) → Current st.observation r.o
  | q@(.entityFundamentals _) => ∀ r ∈ st.select q, r.o.value ≠ none →
    (∀ r' ∈ st.select q, r'.sc.metric = r.sc.metric → r'.o.ts ≤ r.o.ts) →
      Current st.observation r.o
  | q => ∀ page, IsPage newestFirst 2000 (st.select q) page →
    (∀ r ∈ page, r.o.value ≠ none → Current st.observation r.o) ∧
      ((page.filter fun r => r.o.value.isSome).map fun r => r.o.key).Nodup

theorem nodup_used (h : ∀ r ∈ rows, r ∈ st.joined)
    (hne : rows.Pairwise fun r r' => ¬(r.o.ts = r'.o.ts ∧ r.sc = r'.sc)) :
    (rows.map fun r => r.o.key).Nodup :=
  List.pairwise_map.2 (hne.imp_of_mem fun hr hr' hne hkey =>
    hne ⟨(Prod.mk.inj hkey).2, sc_eq (h _ hr) (h _ hr') hkey⟩)

theorem collapsed_stockPrices {entityId : PgUuid} {start stop : Option Date} (hbinds : binds) :
    Collapsed date binds st (.stockPrices entityId start stop) ↔
      Settled date st (.stockPrices entityId start stop) := by
  have hq : (PriceQuery.stockPrices entityId start stop).HasWindow := trivial
  constructor
  · intro h page hpage r hr hmetric hfirst
    -- The row may come last of those that are equal to it in the order.
    obtain ⟨l, l', hordered, hlt⟩ := exists_isOrdered_last newestFirst hr
    obtain ⟨limit, hlimit, hfetch⟩ := exists_mayFetch hq hbinds hpage hordered
    refine reported_iff.1 (h.reported limit _ hlimit hfetch r ?_)
    refine mem_usedPrices.2 ⟨l, l', rfl, hmetric, fun r' hr' hsame => ?_⟩
    have hmem := hordered.perm.mem_iff.1 (List.mem_append_right l (List.mem_cons_of_mem r hr'))
    have hnewer : r'.o.ts < r.o.ts := hlt r' hr'
    exact absurd (hfirst r' hmem hsame) (not_le.2 hnewer)
  · intro h
    refine ⟨fun limit rows hlimit hfetch r hr => ?_, fun limit rows hlimit hfetch => ?_⟩
    · obtain ⟨-, hpage, hsorted⟩ := isPage_of_mayFetch hq hlimit hfetch
      obtain ⟨l, l', rfl, hmetric, hlast⟩ := mem_usedPrices.1 hr
      refine reported_iff.2 (h _ hpage r (List.mem_append_right l List.mem_cons_self) hmetric
        fun r' hr' hsame => ?_)
      obtain ⟨-, hsorted', hle⟩ := List.pairwise_append.1 hsorted
      rcases List.mem_append.1 hr' with hr' | hr'
      · exact hle r' hr' r List.mem_cons_self
      · rcases List.mem_cons.1 hr' with rfl | hr'
        · exact le_rfl
        · exact absurd hsame (hlast r' hr')
    · obtain ⟨-, hpage, -⟩ := isPage_of_mayFetch hq hlimit hfetch
      have hjoined : ∀ r ∈ usedPrices date rows, r ∈ st.joined := fun r hr =>
        mem_joined_of_select (hpage.subset ((sublist_usedPrices date rows).subset hr))
      refine nodup_used hjoined ?_
      refine (pairwise_usedPrices date rows).imp fun hne ⟨hts, hsc⟩ => hne ?_
      exact ⟨congrArg date hts.symm, congrArg (·.metric) hsc.symm⟩

/-- The functions that return a point for every row. -/
theorem collapsed_points (hq : q.HasWindow) (hbinds : binds)
    (hused : ∀ rows, q.used date rows = rows.filter fun r => r.o.value.isSome) :
    Collapsed date binds st q ↔ ∀ page, IsPage newestFirst 2000 (st.select q) page →
      (∀ r ∈ page, r.o.value ≠ none → Current st.observation r.o) ∧
        ((page.filter fun r => r.o.value.isSome).map fun r => r.o.key).Nodup := by
  constructor
  · intro h page hpage
    have hordered := isOrdered_orderBy newestFirst page
    obtain ⟨limit, hlimit, hfetch⟩ := exists_mayFetch hq hbinds hpage hordered
    have hreported := h.reported limit _ hlimit hfetch
    have honce := h.once limit _ hlimit hfetch
    rw [hused] at hreported honce
    refine ⟨fun r hr hvalue => reported_iff.1 (hreported r (List.mem_filter.2 ⟨?_, ?_⟩)), ?_⟩
    · exact hordered.perm.mem_iff.2 hr
    · exact Option.isSome_iff_ne_none.2 hvalue
    · exact ((hordered.perm.filter _).map _).nodup_iff.1 honce
  · intro h
    refine ⟨fun limit rows hlimit hfetch r hr => ?_, fun limit rows hlimit hfetch => ?_⟩
    · obtain ⟨-, hpage, -⟩ := isPage_of_mayFetch hq hlimit hfetch
      rw [hused] at hr
      obtain ⟨hr, hvalue⟩ := List.mem_filter.1 hr
      exact reported_iff.2 ((h rows hpage).1 r hr (Option.isSome_iff_ne_none.1 hvalue))
    · obtain ⟨-, hpage, -⟩ := isPage_of_mayFetch hq hlimit hfetch
      rw [hused]
      exact (h rows hpage).2

theorem collapsed_entityFundamentals {entityId : PgUuid} :
    Collapsed date binds st (.entityFundamentals entityId) ↔
      Settled date st (.entityFundamentals entityId) := by
  have hfilter : ∀ rows r, r ∈ (PriceQuery.entityFundamentals entityId).used date rows ↔
      r ∈ rows ∧ r.o.value ≠ none := by
    intro rows r
    exact List.mem_filter.trans (and_congr_right fun _ => Option.isSome_iff_ne_none)
  constructor
  · intro h r hr hvalue hlast
    have hnewest : IsLast (fun r : JoinedRow => r.sc.metric) (fun r => r.o.ts)
      (st.select (.entityFundamentals entityId)) r := ⟨hr, hlast⟩
    obtain ⟨rows, hselect, hmem⟩ := exists_maySelect hnewest
    exact reported_iff.1 (h.reported _ rows le_rfl hselect r ((hfilter rows r).2 ⟨hmem, hvalue⟩))
  · intro h
    refine ⟨fun limit rows _ hfetch r hr => ?_, fun limit rows _ hfetch => ?_⟩
    · have hselect : MaySelect (fun r : JoinedRow => r.sc.metric) (fun r => r.o.ts)
        (st.select (.entityFundamentals entityId)) rows := hfetch
      obtain ⟨hr, hvalue⟩ := (hfilter rows r).1 hr
      obtain ⟨hmem, hlast⟩ := hselect.isLast hr
      exact reported_iff.2 (h r hmem hvalue hlast)
    · have hselect : MaySelect (fun r : JoinedRow => r.sc.metric) (fun r => r.o.ts)
        (st.select (.entityFundamentals entityId)) rows := hfetch
      have hjoined : ∀ r ∈ (PriceQuery.entityFundamentals entityId).used date rows,
          r ∈ st.joined := fun r hr =>
        mem_joined_of_select (hselect.isLast ((hfilter rows r).1 hr).1).mem
      refine nodup_used hjoined ?_
      refine (hselect.pairwise.filter _).imp fun hlt ⟨_, hsc⟩ => ?_
      exact hlt.ne (congrArg (·.metric) hsc)

/-- A function collapses restatements where it does not return anything, because the parameters of
    its statement are not found, and where the rows that it may use are current. -/
theorem collapsed_iff (date : Timestamp → Date) (binds : Prop) (st : ObservationStore)
    (q : PriceQuery) :
    Collapsed date binds st q ↔ ((q.HasWindow → binds) → Settled date st q) := by
  by_cases hbinds : q.HasWindow → binds
  · rw [forall_prop_of_true hbinds]
    rcases q with _ | _ | _ | _
    · exact collapsed_stockPrices (hbinds trivial)
    · exact collapsed_points trivial (hbinds trivial) fun _ => rfl
    · exact collapsed_entityFundamentals
    · exact collapsed_points trivial (hbinds trivial) fun _ => rfl
  · refine iff_of_true ?_ fun h => absurd h hbinds
    obtain ⟨hq, hnot⟩ := Classical.not_imp.1 hbinds
    exact ⟨fun _ _ _ hfetch => absurd ((mayFetch_iff hq).1 hfetch).1 hnot,
      fun _ _ _ hfetch => absurd ((mayFetch_iff hq).1 hfetch).1 hnot⟩

/-! ### A ratio that is restated -/

/-- A ratio of an entity. -/
def ratioSeries : SeriesRow where
  sourceId := "bist"
  entityId := some 1
  metric := "fundamental_pe"
  frequency := .d1
  unit := "ratio"
  metadata := .obj []
  seriesId := 1
  seriesCode := "bist.pe"
  actor := none
  createdAt := 0
  updatedAt := 0

def ratioRow (asOf : Timestamp) (value : BitVec 64) : ObservationRow where
  seriesId := 1
  ts := 10
  asOf := asOf
  value := some value
  valueText := none
  qualityFlag := 0
  ingestionRunId := 1
  payloadHash := ""
  metadata := some []

/-- The ratio 2.0 is restated as 4.0. -/
def ratioStore : ObservationStore where
  observation := ⟨[ratioRow 20 0x4000000000000000, ratioRow 30 0x4010000000000000], by decide⟩
  seriesCatalog := [ratioSeries]
  primaryKey := List.nodup_singleton _
  seriesCodeKey := List.nodup_singleton _
  foreignKey := by
    intro o ho
    refine ⟨ratioSeries, List.mem_cons_self, ?_⟩
    rcases List.mem_pair.1 ho with rfl | rfl <;> rfl

/-- The ratio that is returned may be the one before the restatement. -/
theorem not_collapsed_ratio :
    ¬Collapsed (fun ts => ts / 86400000000) True ratioStore (.entityFundamentals 1) := by
  intro h
  have hselect : ∀ r ∈ ratioStore.joined, (PriceQuery.entityFundamentals 1).where_ r = true := by
    decide +kernel
  have hfetch : PriceQuery.MayFetch True ratioStore 500 (.entityFundamentals 1)
      [⟨ratioRow 20 0x4000000000000000, ratioSeries⟩] := by
    refine ⟨ratioStore.joined, ⟨?_, ?_⟩, ?_⟩
    · exact .of_eq (List.filter_eq_self.2 hselect).symm
    · exact List.pairwise_pair.2 le_rfl
    · rfl
  have hreported := h.reported 500 _ (by decide) hfetch _ List.mem_cons_self
  obtain ⟨last, hlast, -, hvalue⟩ := reported_iff.1 hreported
  rcases List.mem_pair.1 hlast.mem with rfl | rfl
  · exact absurd (hlast.last (ratioRow 30 0x4010000000000000) (by simp [ratioStore]) rfl) (by decide)
  · exact absurd hvalue (by decide)

end AslanCore.Timeseries
