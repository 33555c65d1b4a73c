import Mathlib.Order.Interval.Set.Defs
import Mathlib.Data.Prod.Lex
import AslanCore.Store.Column
import AslanCore.Store.DistinctOn

/-!
# Reading observations

`ts.observation` is append-only: an observation that is restated keeps its `ts`, and gets a
later `as_of`. It is read as of a point in time, where every `ts` has the row of the last
`as_of` that is not after it.

* `ObservationReader.latest`, `ObservationReader.range`: the reads of the library;
* `observationAt`: the function of the database;
* `IsAsOf`: what is known of a series as of a point in time.
-/

namespace AslanCore.Timeseries

/-- A row of `ts.observation`, without the columns of the audit contract. -/
structure ObservationRow where
  seriesId : ℤ
  ts : Timestamp
  asOf : Timestamp
  value : Option (BitVec 64)
  valueText : Option String
  qualityFlag : ℤ
  ingestionRunId : ℤ
  payloadHash : String
  /-- The JSON `null` is read as `none`. -/
  metadata : Option JsonObject

/-- The table `ts.observation`. -/
structure ObservationTable where
  rows : List ObservationRow
  /-- `PRIMARY KEY (series_id, ts, as_of)`. -/
  primaryKey : (rows.map fun row => ((row.seriesId, row.ts), row.asOf)).Nodup

/-- An observation that is read back. -/
structure Observation where
  seriesId : ℤ
  ts : Timestamp
  asOf : Timestamp
  value : Option (BitVec 64)
  valueText : Option String
  qualityFlag : ℤ
  ingestionRunId : ℤ
  metadata : JsonObject

/-- The observation of a row. -/
def Observation.ofRow (row : ObservationRow) : Observation where
  seriesId := row.seriesId
  ts := row.ts
  asOf := row.asOf
  value := row.value
  valueText := row.valueText
  qualityFlag := row.qualityFlag
  ingestionRunId := row.ingestionRunId
  metadata := row.metadata.getD []

/-- `CAST(:pit AS TIMESTAMPTZ) IS NULL OR as_of <= CAST(:pit AS TIMESTAMPTZ)`. -/
def knownAt (pit : Option Timestamp) (row : ObservationRow) : Bool :=
  match pit with
  | none => true
  | some p => row.asOf ≤ p

/-- The expressions of `DISTINCT ON (series_id, ts)`. -/
def ObservationRow.key (row : ObservationRow) : ℤ × Timestamp := (row.seriesId, row.ts)

namespace ObservationReader

/-- `ORDER BY series_id, ts ASC, as_of DESC`. -/
def ascending (row : ObservationRow) : ℤ ×ₗ Timestamp ×ₗ Timestampᵒᵈ :=
  toLex (row.seriesId, toLex (row.ts, OrderDual.toDual row.asOf))

/-- `ORDER BY series_id, ts DESC, as_of DESC`. -/
def descending (row : ObservationRow) : ℤ ×ₗ Timestampᵒᵈ ×ₗ Timestampᵒᵈ :=
  toLex (row.seriesId, toLex (OrderDual.toDual row.ts, OrderDual.toDual row.asOf))

/-- The latest observation of a series. -/
def latest (t : ObservationTable) (seriesId : ℤ) (asOf : Option Timestamp) :
    Option Observation :=
  let sub := distinctOn ObservationRow.key <| orderBy descending <| t.rows.filter fun row =>
    row.seriesId = seriesId ∧ knownAt asOf row
  (orderBy (fun row => OrderDual.toDual row.ts) sub).head?.map Observation.ofRow

/-- The observations of a series in `[tsStart, tsEnd)`. -/
def range (t : ObservationTable) (seriesId : ℤ) (tsStart tsEnd : Timestamp)
    (asOf : Option Timestamp) (limit : Option ℤ) : Except LimitError (List Observation) :=
  let sub := distinctOn ObservationRow.key <| orderBy ascending <| t.rows.filter fun row =>
    row.seriesId = seriesId ∧ tsStart ≤ row.ts ∧ row.ts < tsEnd ∧ knownAt asOf row
  (limitRows limit (orderBy ObservationRow.ts sub)).map (·.map Observation.ofRow)

end ObservationReader

/-- `ts.observation_at(p_as_of)`: a comparison with `NULL` does not hold. -/
def observationAt (t : ObservationTable) (pAsOf : Option Timestamp) : List ObservationRow :=
  distinctOn ObservationRow.key <| orderBy ObservationReader.ascending <| t.rows.filter fun row =>
    match pAsOf with
    | none => false
    | some p => row.asOf ≤ p

end AslanCore.Timeseries
