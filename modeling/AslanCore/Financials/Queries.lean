import Mathlib.Data.String.Basic
import AslanCore.Dict
import AslanCore.Store.Column
import AslanCore.Store.Ties

/-!
# Queries of canonical financials

The rows of `ts.canonical_financial`, and the three functions that read the value of a metric at a
period: `get_entity_financials`, `compare_metric` and `get_metric_timeseries`. Their statements
select one row for each key, with `DISTINCT ON`, by the greatest `mapping_version`: of rows that
have the same one, any may be returned, so that the answers are relations.

* `CanonicalTable`, `CanonicalTable.at`: the table, and `ts.canonical_financial_at`;
* `EntityFinancials`, `CompareMetric`, `MetricTimeseries`: what the functions may answer.
-/

namespace AslanCore

namespace Financials

/-! ### Values -/

/-- A `numeric`, with its scale. -/
inductive Numeric
  | finite (unscaled : ℤ) (scale : ℕ)
  | nan
  | infinity
  | negInfinity
  deriving DecidableEq

inductive StatementType
  | is
  | bs
  | cf
  deriving DecidableEq

inductive PeriodType
  | quarterly
  | halfYear
  | annual
  | ytd
  deriving DecidableEq

inductive RestatementBasis
  | asReported
  | cpiNormalized
  deriving DecidableEq

inductive Consolidation
  | consolidated
  | unconsolidated
  deriving DecidableEq

def StatementType.value : StatementType → String
  | is => "is"
  | bs => "bs"
  | cf => "cf"

def PeriodType.value : PeriodType → String
  | quarterly => "q"
  | halfYear => "h"
  | annual => "y"
  | ytd => "ytd"

def RestatementBasis.value : RestatementBasis → String
  | asReported => "as_reported"
  | cpiNormalized => "cpi_normalized"

def Consolidation.value : Consolidation → String
  | consolidated => "consolidated"
  | unconsolidated => "unconsolidated"

/-! ### Rows -/

/-- What a value is of. -/
@[ext]
structure FinancialKey where
  entityId : PgUuid
  canonicalCode : String
  periodEnd : Date
  periodType : PeriodType
  consolidation : String
  restatementBasis : RestatementBasis
  deriving DecidableEq

/-- How it is measured. -/
structure Measure where
  currencyCode : String
  accountingStandard : String
  cpiBaseDate : Date
  deriving DecidableEq

/-- A row of `ts.canonical_financial`. -/
structure CanonicalRow extends FinancialKey, Measure where
  value : Option Numeric
  mappingVersion : ℤ
  asOf : Timestamp

/-- The columns of the primary key but the last one. -/
def CanonicalRow.versionKey (row : CanonicalRow) : (FinancialKey × Measure) × ℤ :=
  ((row.toFinancialKey, row.toMeasure), row.mappingVersion)

/-- `DATE '9999-01-01'`: there is no base date. -/
def cpiSentinel : Date := 2932532

/-- The table `ts.canonical_financial`. -/
structure CanonicalTable where
  rows : List CanonicalRow
  primaryKey : (rows.map fun row => (row.versionKey, row.asOf)).Nodup
  check : ∀ row ∈ rows, row.cpiBaseDate = cpiSentinel ↔ row.restatementBasis = .asReported

/-- `ts.canonical_financial_at(p_as_of)`: of each key, the row of the last `as_of`. -/
def CanonicalTable.at (t : CanonicalTable) (pAsOf : Timestamp) : CanonicalTable where
  rows := t.rows.filter fun row => row.asOf ≤ pAsOf ∧
    ∀ row' ∈ t.rows, row'.versionKey = row.versionKey → row'.asOf ≤ pAsOf → row'.asOf ≤ row.asOf
  primaryKey := t.primaryKey.sublist (List.filter_sublist.map _)
  check row hrow := t.check row (List.mem_filter.1 hrow).1

/-- The rows whose key satisfies a condition. -/
def CanonicalTable.select (t : CanonicalTable) (c : FinancialKey → Bool) : List CanonicalRow :=
  t.rows.filter fun row => c row.toFinancialKey

/-- A row of `ts.entity_quality_score`. -/
structure QualityScoreRow where
  entityId : PgUuid
  periodEnd : Date
  periodType : PeriodType
  consolidation : String
  restatementBasis : String
  score : ℤ
  mappingVersion : ℤ

/-- The score is of the entity and the period of the value. -/
def QualityScoreRow.IsFor (qs : QualityScoreRow) (k : FinancialKey) : Prop :=
  qs.entityId = k.entityId ∧ qs.periodEnd = k.periodEnd ∧ qs.periodType = k.periodType ∧
    qs.consolidation = k.consolidation ∧ qs.restatementBasis = k.restatementBasis.value

/-- `ORDER BY qs.mapping_version DESC LIMIT 1` may give the score. -/
def IsQualityScore (scores : List QualityScoreRow) (k : FinancialKey) : Option ℤ → Prop
  | none => ∀ qs ∈ scores, ¬qs.IsFor k
  | some score => ∃ qs ∈ scores, qs.IsFor k ∧ qs.score = score ∧
      ∀ qs' ∈ scores, qs'.IsFor k → qs'.mappingVersion ≤ qs.mappingVersion

/-! ### Lists -/

/-- `xs[:limit]`. -/
def sliceTo {α : Type} (limit : ℤ) (xs : List α) : List α :=
  if 0 ≤ limit then xs.take limit.toNat else xs.take (xs.length - limit.natAbs)

/-- `xs.sort(key=lambda x: x.period_end, reverse=True)`, which is stable. -/
def sortDesc {α : Type} (periodEnd : α → Date) (xs : List α) : List α :=
  orderBy (fun x => OrderDual.toDual (periodEnd x)) xs

/-! ### `get_entity_financials` -/

structure PeriodData where
  periodEnd : Date
  periodType : PeriodType
  /-- A `StrEnum`. -/
  consolidation : String
  restatementBasis : RestatementBasis
  lines : List (String × Option Numeric)
  qualityScore : Option ℤ

structure EntityFinancialsQuery where
  entityId : PgUuid
  statementType : Option StatementType
  periodType : PeriodType
  restatementBasis : RestatementBasis
  consolidation : Consolidation

/-- `WHERE`: of the statement type only its prefix is looked at. -/
def EntityFinancialsQuery.where_ (q : EntityFinancialsQuery) (k : FinancialKey) : Bool :=
  k.entityId = q.entityId ∧ k.periodType = q.periodType ∧
    k.restatementBasis = q.restatementBasis ∧ k.consolidation = q.consolidation.value ∧
      ∀ s ∈ q.statementType, (s.value ++ ".").toList <+: k.canonicalCode.toList

/-- `DISTINCT ON (canonical_code, period_end, period_type, consolidation, restatement_basis)`. -/
def lineKey (row : CanonicalRow) : String ×ₗ Date ×ₗ String ×ₗ String ×ₗ String :=
  toLex (row.canonicalCode, toLex (row.periodEnd, toLex (row.periodType.value,
    toLex (row.consolidation, row.restatementBasis.value))))

/-- What the rows are grouped by. -/
structure PeriodKey where
  periodEnd : Date
  periodType : PeriodType
  consolidation : String
  restatementBasis : RestatementBasis
  deriving DecidableEq

def FinancialKey.periodKey (k : FinancialKey) : PeriodKey :=
  ⟨k.periodEnd, k.periodType, k.consolidation, k.restatementBasis⟩

/-- A row is added to the group of its period. The score of the group is that of its first row. -/
def addRow (groups : List (PeriodKey × List (String × Option Numeric) × Option ℤ))
    (row : CanonicalRow × Option ℤ) :
    List (PeriodKey × List (String × Option Numeric) × Option ℤ) :=
  let (lines, qs) := (groups.lookup row.1.periodKey).getD ([], row.2)
  dictSet row.1.periodKey (dictSet row.1.canonicalCode row.1.value lines, qs) groups

/-- The period of a group. -/
def PeriodData.ofGroup (g : PeriodKey × List (String × Option Numeric) × Option ℤ) : PeriodData where
  periodEnd := g.1.periodEnd
  periodType := g.1.periodType
  consolidation := g.1.consolidation
  restatementBasis := g.1.restatementBasis
  lines := g.2.1
  qualityScore := g.2.2

/-- `get_entity_financials` may return `answer`. -/
def EntityFinancials (t : CanonicalTable) (scores : List QualityScoreRow)
    (q : EntityFinancialsQuery) (limit : ℤ) (answer : List PeriodData) : Prop :=
  ∃ (rows : List CanonicalRow) (score : CanonicalRow → Option ℤ),
    MaySelect lineKey CanonicalRow.mappingVersion (t.select q.where_) rows ∧
    (∀ row ∈ rows, IsQualityScore scores row.toFinancialKey (score row)) ∧
    answer = sliceTo limit (sortDesc PeriodData.periodEnd
      (((rows.map fun row => (row, score row)).foldl addRow []).map PeriodData.ofGroup))

/-! ### `compare_metric` -/

structure MetricPoint where
  periodEnd : Date
  periodType : PeriodType
  value : Option Numeric
  restatementBasis : RestatementBasis

structure CompareMetricQuery where
  entityIds : List PgUuid
  canonicalCode : String
  restatementBasis : RestatementBasis
  periodType : PeriodType
  consolidation : Consolidation

def CompareMetricQuery.where_ (q : CompareMetricQuery) (k : FinancialKey) : Bool :=
  k.entityId ∈ q.entityIds ∧ k.canonicalCode = q.canonicalCode ∧
    k.restatementBasis = q.restatementBasis ∧ k.periodType = q.periodType ∧
      k.consolidation = q.consolidation.value

/-- `DISTINCT ON (entity_id, period_end, period_type)`. -/
def entityKey (row : CanonicalRow) : PgUuid ×ₗ Date ×ₗ String :=
  toLex (row.entityId, toLex (row.periodEnd, row.periodType.value))

def MetricPoint.ofRow (row : CanonicalRow) : MetricPoint where
  periodEnd := row.periodEnd
  periodType := row.periodType
  value := row.value
  restatementBasis := row.restatementBasis

/-- `out[row.entity_id].append(…)`. -/
def addPoint (out : List (PgUuid × List MetricPoint)) (row : CanonicalRow) :
    List (PgUuid × List MetricPoint) :=
  dictSet row.entityId ((out.lookup row.entityId).getD [] ++ [.ofRow row]) out

/-- An entity without points is added. -/
def addMissing (out : List (PgUuid × List MetricPoint)) (uid : PgUuid) :
    List (PgUuid × List MetricPoint) :=
  if (out.lookup uid).isSome then out else dictSet uid [] out

inductive CompareError
  | noEntities
  | tooManyEntities
  deriving DecidableEq

/-- `list(dict.fromkeys(entity_ids))`. -/
def uniqueIds (entityIds : List PgUuid) : List PgUuid := distinctOn id entityIds

/-- `compare_metric` may return, or raise, `answer`. -/
def CompareMetric (t : CanonicalTable) (q : CompareMetricQuery) (limit : ℤ) :
    Except CompareError (List (PgUuid × List MetricPoint)) → Prop
  | .error e =>
    (uniqueIds q.entityIds).length < 1 ∧ e = .noEntities ∨
      10 < (uniqueIds q.entityIds).length ∧ e = .tooManyEntities
  | .ok answer =>
    1 ≤ (uniqueIds q.entityIds).length ∧ (uniqueIds q.entityIds).length ≤ 10 ∧
    ∃ rows, MaySelect entityKey CanonicalRow.mappingVersion (t.select q.where_) rows ∧
      answer = (uniqueIds q.entityIds).foldl addMissing ((rows.foldl addPoint []).map fun p =>
        (p.1, sliceTo limit (sortDesc MetricPoint.periodEnd p.2)))

/-! ### `get_metric_timeseries` -/

structure TimeseriesPoint where
  periodEnd : Date
  periodType : PeriodType
  asReported : Option Numeric
  cpiNormalized : Option Numeric
  cpiBaseDate : Option Date

structure MetricTimeseriesQuery where
  entityId : PgUuid
  canonicalCode : String
  restatementBasis : Option RestatementBasis
  periodType : PeriodType
  consolidation : Consolidation

/-- `WHERE`, for one basis. -/
def MetricTimeseriesQuery.where_ (q : MetricTimeseriesQuery) (basis : RestatementBasis)
    (k : FinancialKey) : Bool :=
  k.entityId = q.entityId ∧ k.canonicalCode = q.canonicalCode ∧ k.restatementBasis = basis ∧
    k.periodType = q.periodType ∧ k.consolidation = q.consolidation.value

/-- `DISTINCT ON (period_end, period_type)`. -/
def pointKey (row : CanonicalRow) : Date ×ₗ String := toLex (row.periodEnd, row.periodType.value)

/-- `cpi_base_date`, unless it is the sentinel. -/
def baseDate (row : CanonicalRow) : Option Date :=
  if row.cpiBaseDate ≠ cpiSentinel then some row.cpiBaseDate else none

/-- A row of the join of the rows of both bases. -/
inductive Joined
  | both (ar cn : CanonicalRow)
  | left (ar : CanonicalRow)
  | right (cn : CanonicalRow)

namespace Joined

/-- The columns of `ar`. -/
def ar : Joined → Option CanonicalRow
  | both ar _ | left ar => some ar
  | right _ => none

/-- The columns of `cn`. -/
def cn : Joined → Option CanonicalRow
  | both _ cn | right cn => some cn
  | left _ => none

/-- The row that gives the period: `COALESCE(ar.period_end, cn.period_end)`. -/
def row : Joined → CanonicalRow
  | both ar _ | left ar => ar
  | right cn => cn

end Joined

/-- `ar.period_end = cn.period_end AND ar.period_type = cn.period_type`. -/
def joins (ar cn : CanonicalRow) : Bool :=
  ar.periodEnd = cn.periodEnd ∧ ar.periodType = cn.periodType

/-- `FULL OUTER JOIN`. -/
def fullJoin (ar cn : List CanonicalRow) : List Joined :=
  ar.flatMap (fun a =>
    match cn.filter (joins a) with
    | [] => [.left a]
    | cs => cs.map (.both a)) ++
  (cn.filter fun c => !ar.any fun a => joins a c).map .right

/-- The point of a row of the join. -/
def TimeseriesPoint.ofJoined (j : Joined) : TimeseriesPoint where
  periodEnd := j.row.periodEnd
  periodType := j.row.periodType
  asReported := j.ar.bind (·.value)
  cpiNormalized := j.cn.bind (·.value)
  cpiBaseDate := j.cn.bind baseDate

/-- The point of a row of one basis. -/
def TimeseriesPoint.ofRow (row : CanonicalRow) : TimeseriesPoint :=
  let isCpi := row.restatementBasis = .cpiNormalized
  { periodEnd := row.periodEnd
    periodType := row.periodType
    asReported := if ¬isCpi then row.value else none
    cpiNormalized := if isCpi then row.value else none
    cpiBaseDate := if isCpi then baseDate row else none }

/-- `get_metric_timeseries` may return `answer`. One basis is in the order of the periods; both are
    ordered by the latest period first. -/
def MetricTimeseries (t : CanonicalTable) (q : MetricTimeseriesQuery) (limit : ℤ)
    (answer : List TimeseriesPoint) : Prop :=
  match q.restatementBasis with
  | none => ∃ ar cn joined,
      MaySelect pointKey CanonicalRow.mappingVersion (t.select (q.where_ .asReported)) ar ∧
      MaySelect pointKey CanonicalRow.mappingVersion (t.select (q.where_ .cpiNormalized)) cn ∧
      IsOrdered (fun j => OrderDual.toDual j.row.periodEnd) (fullJoin ar cn) joined ∧
      answer = sliceTo limit (joined.map TimeseriesPoint.ofJoined)
  | some basis => ∃ rows,
      MaySelect pointKey CanonicalRow.mappingVersion (t.select (q.where_ basis)) rows ∧
      answer = sliceTo limit (rows.map TimeseriesPoint.ofRow)

end Financials

end AslanCore
