import AslanCore.Store.Versions
import AslanCore.Financials.Latest
import AslanCore.Timeseries.PointInTime
import AslanCore.Research.Request

/-!
# Reads in an interval

In an interval, a list does not call the function of the database that reads as of a point in time,
but the table below it. The two agree where the primary key of the table is what the function
distinguishes rows by, and `as_of`: the interval then has the rows that became known in it, and that
the function returns at some point of it (`interval_eq_union`).

* `ObservationTable.versions`, `FinancialLineItemTable.versions`, `CanonicalTable.versions`: the
  tables, with the expressions of `DISTINCT ON` in their functions;
* `Window.rows`: the rows that a statement of `_build_filtered_sql` has, without its limit.
-/

namespace AslanCore

/-! ### The tables -/

namespace Timeseries

/-- `ts.observation`, and the order of `ts.observation_at`. -/
def ObservationTable.versions (t : ObservationTable) :
    Versions ObservationRow (ℤ ×ₗ Timestamp) Timestamp where
  rows := t.rows
  key row := toLex (row.seriesId, row.ts)
  asOf := ObservationRow.asOf
  nodup := t.primaryKey

/-- The function is the one of the table. -/
theorem mem_observationAt_iff {t : ObservationTable} {p : Timestamp} {row : ObservationRow} :
    row ∈ observationAt t (some p) ↔ row ∈ t.versions.at p := by
  have hkey : ∀ x y : ObservationRow, t.versions.key x = t.versions.key y ↔ x.key = y.key :=
    fun x y => toLex_inj
  have hlast : row ∈ observationAt t (some p) ↔
      IsLast ObservationRow.key ObservationRow.asOf (t.rows.filter fun row => row.asOf ≤ p) row :=
    mem_distinctOn_ascending
  rw [hlast, Versions.mem_at]
  constructor
  · rintro ⟨hmem, hlast⟩
    obtain ⟨hrow, hp⟩ := List.mem_filter.1 hmem
    exact ⟨hrow, of_decide_eq_true hp, fun row' hrow' heq hp' =>
      hlast row' (List.mem_filter.2 ⟨hrow', decide_eq_true hp'⟩) ((hkey _ _).1 heq)⟩
  · rintro ⟨hrow, hp, hlast⟩
    refine ⟨List.mem_filter.2 ⟨hrow, decide_eq_true hp⟩, fun row' hrow' heq => ?_⟩
    obtain ⟨hrow', hp'⟩ := List.mem_filter.1 hrow'
    exact hlast row' hrow' ((hkey _ _).2 heq) (of_decide_eq_true hp')

end Timeseries

namespace Financials

/-- A row of `ts.financial_line_item`. -/
structure FinancialLineItemRow where
  entityId : PgUuid
  filingId : PgUuid
  statementType : String
  lineCode : String
  parentLineCode : Option String
  periodStart : Date
  periodEnd : Date
  periodType : PeriodType
  value : Option Numeric
  currencyCode : String
  consolidation : String
  accountingStandard : String
  restatementBasis : String
  measuringUnitDate : Option Date
  derivationReason : Option String
  asOf : Timestamp
  ingestionRunId : ℤ

/-- The table `ts.financial_line_item`. -/
structure FinancialLineItemTable where
  rows : List FinancialLineItemRow
  /-- `PRIMARY KEY (entity_id, filing_id, statement_type, line_code, consolidation, period_end,
      as_of)`. -/
  primaryKey : (rows.map fun row => (row.entityId, row.filingId, row.statementType, row.lineCode,
    row.consolidation, row.periodEnd, row.asOf)).Nodup

/-- The table, and the order of `ts.financial_line_item_at`. -/
def FinancialLineItemTable.versions (t : FinancialLineItemTable) :
    Versions FinancialLineItemRow (PgUuid ×ₗ PgUuid ×ₗ String ×ₗ String ×ₗ String ×ₗ Date)
      Timestamp where
  rows := t.rows
  key row := toLex (row.entityId, toLex (row.filingId, toLex (row.statementType,
    toLex (row.lineCode, toLex (row.consolidation, row.periodEnd)))))
  asOf := FinancialLineItemRow.asOf
  nodup := by
    have h := t.primaryKey
    rw [List.Nodup, List.pairwise_map] at h ⊢
    refine h.imp fun hne heq => hne ?_
    simpa only [Prod.mk.injEq, toLex_inj, and_assoc] using heq

/-- The columns before `as_of` of the primary key of `ts.canonical_financial`. -/
def CanonicalRow.distinctKey (row : CanonicalRow) : PgUuid ×ₗ String ×ₗ Date ×ₗ String ×ₗ String ×ₗ
    String ×ₗ String ×ₗ String ×ₗ Date ×ₗ ℤ :=
  toLex (row.entityId, toLex (row.canonicalCode, toLex (row.periodEnd, toLex (row.periodType.value,
    toLex (row.consolidation, toLex (row.currencyCode, toLex (row.accountingStandard,
      toLex (row.restatementBasis.value, toLex (row.cpiBaseDate, row.mappingVersion)))))))))

theorem distinctKey_eq_iff {row row' : CanonicalRow} :
    row.distinctKey = row'.distinctKey ↔ row.versionKey = row'.versionKey := by
  obtain ⟨key, ⟨currency, standard, base⟩, _, _, _⟩ := row
  obtain ⟨key', ⟨currency', standard', base'⟩, _, _, _⟩ := row'
  simp only [CanonicalRow.distinctKey, CanonicalRow.versionKey, toLex_inj, Prod.mk.injEq,
    value_injective.eq_iff, basis_injective.eq_iff, FinancialKey.ext_iff, Measure.mk.injEq]
  tauto

/-- `ts.canonical_financial`, and the order of `ts.canonical_financial_at`. -/
def CanonicalTable.versions (t : CanonicalTable) :
    Versions CanonicalRow (PgUuid ×ₗ String ×ₗ Date ×ₗ String ×ₗ String ×ₗ String ×ₗ String ×ₗ
      String ×ₗ Date ×ₗ ℤ) Timestamp where
  rows := t.rows
  key := CanonicalRow.distinctKey
  asOf := CanonicalRow.asOf
  nodup := by
    have h := t.primaryKey
    rw [List.Nodup, List.pairwise_map] at h ⊢
    refine h.imp fun hne heq => hne ?_
    obtain ⟨hkey, hasOf⟩ := Prod.mk.inj heq
    exact Prod.ext (distinctKey_eq_iff.1 hkey) hasOf

/-- The function is the one of the table. -/
theorem mem_canonicalAt_iff {t : CanonicalTable} {p : Timestamp} {row : CanonicalRow} :
    row ∈ (t.at p).rows ↔ row ∈ t.versions.at p := by
  rw [Versions.mem_at, CanonicalTable.at, List.mem_filter, decide_eq_true_iff]
  refine and_congr_right fun _ => and_congr_right fun _ => ?_
  exact forall₂_congr fun row' _ => imp_congr_left distinctKey_eq_iff.symm

end Financials

/-! ### Windows -/

namespace Research

variable {ρ κ : Type} [LinearOrder κ]

/-- The rows of a statement of `_build_filtered_sql`, without its limit: of the function of the
    database as of a point in time, or of the table in an interval. -/
def Window.rows (w : Window) (t : Versions ρ κ Timestamp) (parts : List (κ → Bool)) : List ρ :=
  match w.interval with
  | none => (t.at w.resolved).filter fun row => parts.all (· (t.key row))
  | some (lower, upper) => t.between (fun k => parts.all (· k)) lower upper

/-- In an interval, the rows are those that become known in it, of all points of the interval. -/
def IntervalIsUnion (t : Versions ρ κ Timestamp) : Prop :=
  ∀ (parts : List (κ → Bool)) (t₁ t₂ resolved : Timestamp), t₁ < t₂ → ∀ row,
    row ∈ Window.rows ⟨some (t₁, t₂), resolved⟩ t parts ↔
      t₁ ≤ t.asOf row ∧ ∃ p, t₁ ≤ p ∧ p < t₂ ∧ row ∈ Window.rows ⟨none, p⟩ t parts

theorem intervalIsUnion (t : Versions ρ κ Timestamp) : IntervalIsUnion t :=
  fun parts _ _ _ _ _ => Versions.mem_between_iff (c := fun k => parts.all (· k))

/-- For the three tables, an interval is the union of the reads as of its points. -/
theorem interval_eq_union :
    (∀ t : Timeseries.ObservationTable, IntervalIsUnion t.versions) ∧
      (∀ t : Financials.FinancialLineItemTable, IntervalIsUnion t.versions) ∧
      ∀ t : Financials.CanonicalTable, IntervalIsUnion t.versions :=
  ⟨fun t => intervalIsUnion t.versions, fun t => intervalIsUnion t.versions,
    fun t => intervalIsUnion t.versions⟩

end Research

end AslanCore
