import AslanCore.Timeseries.Reader
import Mathlib

/-!
# Reads as of a point in time

The reads of `ts.observation` agree on what is known of a series as of a point in time
(`IsAsOf`): the rows that `range` cuts to its limit, the last of which `latest` returns,
and which `ts.observation_at` has of the series (`reads_agree`). Rows that are recorded
after that point do not change them. Only where there is no point in time do they differ:
the library then reads all that is known, the function of the database nothing
(`observationAt_none`).

The rows are those of `rowsAsOf`, which `mem_rowsAsOf` says are the last versions, and
which are in the order of their `ts` (`pairwise_rowsAsOf`): they are determined by that.
-/

namespace AslanCore.Timeseries

open ObservationReader

variable {t t' : ObservationTable} {seriesId : ℤ} {window : Set Timestamp}
  {pit : Option Timestamp} {rows : List ObservationRow} {row : ObservationRow}
  {c : ObservationRow → Bool}

/-- What is known as of `pit` of a series, in a window: for each `ts`, in ascending order,
    the row of the last `as_of`. -/
structure IsAsOf (t : ObservationTable) (seriesId : ℤ) (window : Set Timestamp)
    (pit : Option Timestamp) (os : List Observation) : Prop where
  ascending : os.Pairwise fun o o' => o.ts < o'.ts
  sound : ∀ o ∈ os, ∃ row ∈ t.rows, Observation.ofRow row = o ∧ row.seriesId = seriesId ∧
    row.ts ∈ window ∧ knownAt pit row = true ∧
    ∀ row' ∈ t.rows, row'.seriesId = seriesId → row'.ts = row.ts → knownAt pit row' = true →
      row'.asOf ≤ row.asOf
  complete : ∀ row ∈ t.rows, row.seriesId = seriesId → row.ts ∈ window →
    knownAt pit row = true → ∃ o ∈ os, o.ts = row.ts

/-! ### Selections from the table -/

theorem ascending_le_iff {row row' : ObservationRow} (h : row'.key = row.key) :
    ascending row ≤ ascending row' ↔ row'.asOf ≤ row.asOf := by
  obtain ⟨hs, ht⟩ := Prod.mk.inj h
  rw [ascending, ascending, Prod.Lex.toLex_le_toLex, Prod.Lex.toLex_le_toLex, hs, ht]
  simp

theorem descending_le_iff {row row' : ObservationRow} (h : row'.key = row.key) :
    descending row ≤ descending row' ↔ row'.asOf ≤ row.asOf := by
  obtain ⟨hs, ht⟩ := Prod.mk.inj h
  rw [descending, descending, Prod.Lex.toLex_le_toLex, Prod.Lex.toLex_le_toLex, hs, ht]
  simp

/-- Rows of one series that have different `ts` are sorted by it. -/
theorem ts_lt_of_ascending_lt {row row' : ObservationRow} (hs : row.seriesId = row'.seriesId)
    (hne : row.key ≠ row'.key) (h : ascending row < ascending row') : row.ts < row'.ts := by
  rw [ascending, ascending, Prod.Lex.toLex_lt_toLex, Prod.Lex.toLex_lt_toLex] at h
  obtain h | ⟨-, h | ⟨ht, -⟩⟩ := h
  · exact absurd hs h.ne
  · exact h
  · exact absurd (Prod.ext hs ht) hne

theorem nodup_filter (t : ObservationTable) (c : ObservationRow → Bool) :
    ((t.rows.filter c).map fun row => (row.key, row.asOf)).Nodup :=
  t.primaryKey.sublist (List.filter_sublist.map _)

theorem nodup_ascending (t : ObservationTable) (c : ObservationRow → Bool) :
    ((t.rows.filter c).map ascending).Nodup := by
  have h := nodup_filter t c
  rw [List.Nodup, List.pairwise_map] at h ⊢
  refine h.imp fun hne heq => hne ?_
  obtain ⟨hs, heq⟩ := Prod.mk.inj (toLex.injective heq)
  obtain ⟨ht, ha⟩ := Prod.mk.inj (toLex.injective heq)
  exact Prod.ext (Prod.ext hs ht) (OrderDual.toDual.injective ha)

theorem nodup_descending (t : ObservationTable) (c : ObservationRow → Bool) :
    ((t.rows.filter c).map descending).Nodup := by
  have h := nodup_filter t c
  rw [List.Nodup, List.pairwise_map] at h ⊢
  refine h.imp fun hne heq => hne ?_
  obtain ⟨hs, heq⟩ := Prod.mk.inj (toLex.injective heq)
  obtain ⟨ht, ha⟩ := Prod.mk.inj (toLex.injective heq)
  exact Prod.ext (Prod.ext hs (OrderDual.toDual.injective ht)) (OrderDual.toDual.injective ha)

/-- Both orders of the library, and that of the database, select the last versions. -/
theorem mem_distinctOn_ascending :
    row ∈ distinctOn ObservationRow.key (orderBy ascending (t.rows.filter c)) ↔
      IsLast ObservationRow.key ObservationRow.asOf (t.rows.filter c) row :=
  mem_distinctOn_iff_isLast (nodup_ascending t c) fun _ _ => ascending_le_iff

theorem mem_distinctOn_descending :
    row ∈ distinctOn ObservationRow.key (orderBy descending (t.rows.filter c)) ↔
      IsLast ObservationRow.key ObservationRow.asOf (t.rows.filter c) row :=
  mem_distinctOn_iff_isLast (nodup_descending t c) fun _ _ => descending_le_iff

/-- The rows of one series that `DISTINCT ON` returns have different `ts`. -/
theorem nodup_ts {xs : List ObservationRow} (h : ∀ row ∈ xs, row.seriesId = seriesId) :
    ((distinctOn ObservationRow.key xs).map ObservationRow.ts).Nodup := by
  refine List.pairwise_map.2 ((pairwise_distinctOn ObservationRow.key xs).imp_of_mem
    fun hx hy hne heq => hne ?_)
  have hmem := (sublist_distinctOn ObservationRow.key xs).subset
  exact Prod.ext ((h _ (hmem hx)).trans (h _ (hmem hy)).symm) heq

/-- Ordered by `ts DESC`, they are strictly so. -/
theorem pairwise_orderBy_ts_desc {xs : List ObservationRow}
    (h : ∀ row ∈ xs, row.seriesId = seriesId) :
    (orderBy (fun row => OrderDual.toDual row.ts) (distinctOn ObservationRow.key xs)).Pairwise
      fun row row' => row'.ts < row.ts := by
  have hnodup : ((distinctOn ObservationRow.key xs).map
      fun row => OrderDual.toDual row.ts).Nodup := nodup_ts h
  exact pairwise_lt_orderBy hnodup

/-! ### The rows that are read -/

/-- The rows of a series, in a window, as of a point in time. -/
def rowsAsOf (t : ObservationTable) (seriesId : ℤ) (window : Timestamp → Bool)
    (pit : Option Timestamp) : List ObservationRow :=
  orderBy ObservationRow.ts <| distinctOn ObservationRow.key <| orderBy ascending <|
    t.rows.filter fun row => row.seriesId = seriesId ∧ window row.ts ∧ knownAt pit row

/-- What the rows of the window are, before they are collapsed. -/
theorem mem_known {w : Timestamp → Bool} :
    row ∈ t.rows.filter (fun row => decide (row.seriesId = seriesId ∧ w row.ts ∧ knownAt pit row)) ↔
      row ∈ t.rows ∧ row.seriesId = seriesId ∧ w row.ts = true ∧ knownAt pit row = true := by
  rw [List.mem_filter, decide_eq_true_iff]

/-- They are those of the last `as_of`. -/
theorem mem_rowsAsOf {w : Timestamp → Bool} :
    row ∈ rowsAsOf t seriesId w pit ↔
      IsLast ObservationRow.key ObservationRow.asOf
        (t.rows.filter fun row => row.seriesId = seriesId ∧ w row.ts ∧ knownAt pit row) row := by
  rw [rowsAsOf, mem_orderBy, mem_distinctOn_ascending]

theorem seriesId_of_mem {w : Timestamp → Bool} (h : row ∈ rowsAsOf t seriesId w pit) :
    row.seriesId = seriesId :=
  (mem_known.1 (mem_rowsAsOf.1 h).mem).2.1

/-- They are in the order of their `ts`. -/
theorem pairwise_rowsAsOf (t : ObservationTable) (seriesId : ℤ) (w : Timestamp → Bool)
    (pit : Option Timestamp) :
    (rowsAsOf t seriesId w pit).Pairwise fun row row' => row.ts < row'.ts :=
  pairwise_lt_orderBy (nodup_ts fun _ hrow => (mem_known.1 (mem_orderBy.1 hrow)).2.1)

/-- Ordered rows that are the last versions are those. -/
theorem eq_rowsAsOf {w : Timestamp → Bool} (h : rows.Pairwise fun row row' => row.ts < row'.ts)
    (hmem : ∀ row, row ∈ rows ↔ IsLast ObservationRow.key ObservationRow.asOf
      (t.rows.filter fun row => row.seriesId = seriesId ∧ w row.ts ∧ knownAt pit row) row) :
    rows = rowsAsOf t seriesId w pit :=
  eq_of_pairwise_lt h (pairwise_rowsAsOf t seriesId w pit) fun row =>
    (hmem row).trans mem_rowsAsOf.symm

/-- They are what is known. -/
theorem isAsOf_rowsAsOf (t : ObservationTable) (seriesId : ℤ) (w : Timestamp → Bool)
    (pit : Option Timestamp) :
    IsAsOf t seriesId {ts | w ts = true} pit
      ((rowsAsOf t seriesId w pit).map Observation.ofRow) where
  ascending := List.pairwise_map.2 (pairwise_rowsAsOf t seriesId w pit)
  sound := by
    intro o ho
    obtain ⟨row, hrow, rfl⟩ := List.mem_map.1 ho
    obtain ⟨hmem, hlast⟩ := mem_rowsAsOf.1 hrow
    obtain ⟨hmem, hs, hw, hk⟩ := mem_known.1 hmem
    refine ⟨row, hmem, rfl, hs, hw, hk, fun row' hmem' hs' hts hk' => ?_⟩
    exact hlast row' (mem_known.2 ⟨hmem', hs', hts ▸ hw, hk'⟩)
      (Prod.ext (hs'.trans hs.symm) hts)
  complete := by
    intro row hmem hs hw hk
    obtain ⟨row', hlast, hkey⟩ := IsLast.exists_of_mem ObservationRow.key ObservationRow.asOf
      (mem_known.2 ⟨hmem, hs, hw, hk⟩)
    exact ⟨_, List.mem_map_of_mem (mem_rowsAsOf.2 hlast), (Prod.mk.inj hkey).2⟩

/-! ### The reads -/

/-- `range` cuts them to its limit. -/
theorem range_eq (t : ObservationTable) (seriesId : ℤ) (tsStart tsEnd : Timestamp)
    (pit : Option Timestamp) (limit : Option ℤ) :
    range t seriesId tsStart tsEnd pit limit =
      (limitRows limit (rowsAsOf t seriesId (fun ts => tsStart ≤ ts ∧ ts < tsEnd) pit)).map
        (·.map Observation.ofRow) := by
  simp only [range, rowsAsOf, decide_eq_true_eq, and_assoc]

/-- A window with all the rows of the series is as good as none. -/
theorem rowsAsOf_of_subset {w : Timestamp → Bool}
    (h : ∀ row ∈ t.rows, row.seriesId = seriesId → w row.ts = true) :
    rowsAsOf t seriesId w pit = rowsAsOf t seriesId (fun _ => true) pit := by
  have hfilter : (t.rows.filter fun row => row.seriesId = seriesId ∧ w row.ts ∧ knownAt pit row) =
      t.rows.filter fun row => row.seriesId = seriesId ∧ true ∧ knownAt pit row := by
    refine List.filter_congr fun row hrow => decide_eq_decide.2 ?_
    exact and_congr_right fun hs => by simp [h row hrow hs]
  simp only [rowsAsOf, hfilter]

/-- `latest` returns the last one. -/
theorem latest_eq (t : ObservationTable) (seriesId : ℤ) (pit : Option Timestamp) :
    latest t seriesId pit =
      ((rowsAsOf t seriesId (fun _ => true) pit).map Observation.ofRow).getLast? := by
  have hfilter : (t.rows.filter fun row => row.seriesId = seriesId ∧ knownAt pit row) =
      t.rows.filter fun row => row.seriesId = seriesId ∧ true ∧ knownAt pit row :=
    List.filter_congr fun row _ => by simp
  -- what `latest` orders, read backwards
  have hrev : (orderBy (fun row : ObservationRow => OrderDual.toDual row.ts) <|
      distinctOn ObservationRow.key <| orderBy descending <|
        t.rows.filter fun row => row.seriesId = seriesId ∧ true ∧ knownAt pit row).reverse =
      rowsAsOf t seriesId (fun _ => true) pit := by
    refine eq_rowsAsOf (List.pairwise_reverse.2 ?_) fun row => ?_
    · exact pairwise_orderBy_ts_desc fun _ hrow =>
        (of_decide_eq_true (List.mem_filter.1 (mem_orderBy.1 hrow)).2).1
    · rw [List.mem_reverse, mem_orderBy, mem_distinctOn_descending]
  rw [← hrev, List.getLast?_map, List.getLast?_reverse, latest, hfilter]

/-- `ts.observation_at` has them of the series. -/
theorem observationAt_eq (t : ObservationTable) (seriesId : ℤ) (p : Timestamp) :
    (observationAt t (some p)).filter (fun row => row.seriesId = seriesId) =
      rowsAsOf t seriesId (fun _ => true) (some p) := by
  refine eq_rowsAsOf ?_ fun row => ?_
  · -- rows of one series, sorted, of different keys
    have hsorted := pairwise_lt_orderBy (nodup_ascending t (knownAt (some p)))
    have hkeys := pairwise_distinctOn ObservationRow.key
      (orderBy ascending (t.rows.filter (knownAt (some p))))
    have hboth := (hsorted.sublist (sublist_distinctOn ObservationRow.key _)).and hkeys
    refine (hboth.filter _).imp_of_mem fun {row row'} hrow hrow' ⟨hlt, hne⟩ => ?_
    have hs : row.seriesId = seriesId := of_decide_eq_true (List.mem_filter.1 hrow).2
    have hs' : row'.seriesId = seriesId := of_decide_eq_true (List.mem_filter.1 hrow').2
    exact ts_lt_of_ascending_lt (hs.trans hs'.symm) hne hlt
  · have hfilter : (t.rows.filter fun row => row.seriesId = seriesId ∧ true ∧ knownAt (some p) row) =
        (t.rows.filter (knownAt (some p))).filter fun row => row.seriesId = seriesId := by
      rw [List.filter_filter]
      exact List.filter_congr fun row _ => by simp
    have hcongr : ∀ row row' : ObservationRow, row.key = row'.key →
        decide (row.seriesId = seriesId) = decide (row'.seriesId = seriesId) := by
      intro row row' hkey
      rw [(Prod.mk.inj hkey).1]
    rw [hfilter, IsLast.filter_iff hcongr, List.mem_filter]
    exact and_congr_left' mem_distinctOn_ascending

/-- Without a point in time, it has none: no comparison with `NULL` holds. -/
theorem observationAt_none (t : ObservationTable) : observationAt t none = [] := by
  have hfilter : (t.rows.filter fun _ => false) = [] := List.filter_false t.rows
  rw [observationAt, hfilter]
  rfl

/-! ### Later records -/

/-- `t'` is `t`, with rows that are recorded after `p`. -/
def ObservationTable.RecordedAfter (t : ObservationTable) (p : Timestamp)
    (t' : ObservationTable) : Prop :=
  ∃ added : List ObservationRow, t'.rows.Perm (t.rows ++ added) ∧ ∀ row ∈ added, p < row.asOf

/-- They are not among the rows that are known as of `p`. -/
theorem ObservationTable.RecordedAfter.mem_filter {p : Timestamp} (h : t.RecordedAfter p t')
    (hc : ∀ row, c row = true → knownAt (some p) row = true) :
    row ∈ t'.rows.filter c ↔ row ∈ t.rows.filter c := by
  obtain ⟨added, hperm, hadded⟩ := h
  rw [List.mem_filter, List.mem_filter, hperm.mem_iff, List.mem_append]
  constructor
  · rintro ⟨hrow | hrow, hcr⟩
    · exact ⟨hrow, hcr⟩
    · exact absurd (of_decide_eq_true (hc row hcr)) (not_le.2 (hadded row hrow))
  · exact fun ⟨hrow, hcr⟩ => ⟨.inl hrow, hcr⟩

theorem rowsAsOf_of_recordedAfter {p : Timestamp} (h : t.RecordedAfter p t') (seriesId : ℤ)
    (w : Timestamp → Bool) :
    rowsAsOf t' seriesId w (some p) = rowsAsOf t seriesId w (some p) := by
  refine eq_rowsAsOf (pairwise_rowsAsOf t' seriesId w (some p)) fun row => ?_
  rw [mem_rowsAsOf]
  exact IsLast.congr fun row => h.mem_filter fun row hrow => (of_decide_eq_true hrow).2.2

theorem observationAt_of_recordedAfter {p : Timestamp} (h : t.RecordedAfter p t') :
    observationAt t' (some p) = observationAt t (some p) := by
  have hsorted : ∀ u : ObservationTable, (observationAt u (some p)).Pairwise
      fun row row' => ascending row < ascending row' := fun u =>
    (pairwise_lt_orderBy (nodup_ascending u _)).sublist (sublist_distinctOn _ _)
  refine eq_of_pairwise_lt (hsorted t') (hsorted t) fun row => ?_
  simp only [observationAt]
  rw [mem_distinctOn_ascending, mem_distinctOn_ascending]
  exact IsLast.congr fun row => h.mem_filter fun _ hrow => hrow

/-! ### Agreement -/

/-- The limit cuts what is read, if it is one. -/
theorem range_limit (tsStart tsEnd : Timestamp) {os : List Observation}
    (h : range t seriesId tsStart tsEnd pit none = .ok os) :
    (∀ n : ℕ, n < 2 ^ 63 → range t seriesId tsStart tsEnd pit (some n) = .ok (os.take n)) ∧
      ∀ n : ℤ, n < 0 ∨ 2 ^ 63 ≤ n →
        ∃ e, range t seriesId tsStart tsEnd pit (some n) = .error e := by
  rw [range_eq] at h
  obtain rfl := Except.ok.inj h
  constructor
  · intro n hn
    have hrange : ¬((n : ℤ) < -2 ^ 63 ∨ (2 : ℤ) ^ 63 ≤ n) := by omega
    have hneg : ¬(n : ℤ) < 0 := by omega
    simp only [range_eq, limitRows, if_neg hrange, if_neg hneg, Int.toNat_natCast, Except.map,
      List.map_take]
  · intro n hn
    simp only [range_eq, limitRows]
    split_ifs with hrange hneg
    · exact ⟨_, rfl⟩
    · exact ⟨_, rfl⟩
    · omega

/-- The reads of a series as of a point in time agree. `range` returns, in ascending order
    of `ts` and cut to its limit, what is known of its window; `latest` the last of what is
    known; `ts.observation_at` has the same rows, where there is a point in time. What is
    recorded after it changes none of them. -/
theorem reads_agree (t : ObservationTable) (seriesId : ℤ) (pit : Option Timestamp) :
    (∀ tsStart tsEnd, ∃ os, IsAsOf t seriesId (Set.Ico tsStart tsEnd) pit os ∧
      range t seriesId tsStart tsEnd pit none = .ok os ∧
      (∀ n : ℕ, n < 2 ^ 63 → range t seriesId tsStart tsEnd pit (some n) = .ok (os.take n)) ∧
      ∀ n : ℤ, n < 0 ∨ 2 ^ 63 ≤ n →
        ∃ e, range t seriesId tsStart tsEnd pit (some n) = .error e) ∧
    (∃ os, IsAsOf t seriesId Set.univ pit os ∧
      latest t seriesId pit = os.getLast? ∧ (latest t seriesId pit = none ↔ os = []) ∧
      (∀ tsStart tsEnd,
        (∀ row ∈ t.rows, row.seriesId = seriesId → row.ts ∈ Set.Ico tsStart tsEnd) →
        range t seriesId tsStart tsEnd pit none = .ok os) ∧
      (pit ≠ none →
        ((observationAt t pit).filter fun row => row.seriesId = seriesId).map
          Observation.ofRow = os) ∧
      (pit = none → observationAt t pit = [])) ∧
    ∀ p t', pit = some p → t.RecordedAfter p t' →
      (∀ tsStart tsEnd limit,
        range t' seriesId tsStart tsEnd pit limit = range t seriesId tsStart tsEnd pit limit) ∧
      latest t' seriesId pit = latest t seriesId pit ∧
      observationAt t' pit = observationAt t pit := by
  refine ⟨fun tsStart tsEnd => ?_, ⟨_, ?_, latest_eq t seriesId pit, ?_, ?_, ?_, ?_⟩, ?_⟩
  · have hrange := range_eq t seriesId tsStart tsEnd pit none
    have hknown := isAsOf_rowsAsOf t seriesId (fun ts => tsStart ≤ ts ∧ ts < tsEnd) pit
    simp only [decide_eq_true_eq] at hknown
    exact ⟨_, hknown, hrange, range_limit tsStart tsEnd hrange⟩
  · have hknown := isAsOf_rowsAsOf t seriesId (fun _ => true) pit
    simp only [Set.ofPred_true] at hknown
    exact hknown
  · rw [latest_eq, List.getLast?_eq_none_iff]
  · intro tsStart tsEnd h
    rw [range_eq, rowsAsOf_of_subset fun row hrow hs => decide_eq_true (Set.mem_Ico.1 (h row hrow hs))]
    rfl
  · intro hpit
    obtain ⟨p, rfl⟩ := Option.ne_none_iff_exists'.1 hpit
    rw [observationAt_eq]
  · rintro rfl
    exact observationAt_none t
  · rintro p t' rfl h
    refine ⟨fun tsStart tsEnd limit => ?_, ?_, observationAt_of_recordedAfter h⟩
    · rw [range_eq, range_eq, rowsAsOf_of_recordedAfter h]
    · rw [latest_eq, latest_eq, rowsAsOf_of_recordedAfter h]

/-- An observation of 10, recorded at `asOf`. -/
def sampleRow (asOf : Timestamp) : ObservationRow where
  seriesId := 1
  ts := 10
  asOf := asOf
  value := none
  valueText := some "ten"
  qualityFlag := 0
  ingestionRunId := 1
  payloadHash := ""
  metadata := some []

/-- An observation that is recorded once. -/
def recordedOnce : ObservationTable := ⟨[sampleRow 20], List.nodup_singleton _⟩

/-- It is restated. -/
def restated : ObservationTable := ⟨[sampleRow 20, sampleRow 30], by decide⟩

/-- A restatement does not change what was known before it. -/
theorem reads_agree_restated :
    latest restated 1 (some 25) = latest recordedOnce 1 (some 25) ∧
      observationAt restated (some 25) = observationAt recordedOnce (some 25) :=
  ((reads_agree recordedOnce 1 (some 25)).2.2 25 restated rfl
    ⟨[sampleRow 30], List.Perm.refl _, by decide⟩).2

/-- Without a point in time, `ts.observation_at` does not have the rows of the series. -/
theorem observationAt_none_ne_range :
    range recordedOnce 1 0 100 none none = .ok [Observation.ofRow (sampleRow 20)] ∧
      ((observationAt recordedOnce none).filter fun row => row.seriesId = 1).map
        Observation.ofRow = [] :=
  ⟨rfl, rfl⟩

end AslanCore.Timeseries
