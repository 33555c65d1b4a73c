import Mathlib.Data.String.Basic
import AslanCore.Dict
import AslanCore.Json.Number
import AslanCore.Store.Ties
import AslanCore.Timeseries.Reader
import AslanCore.Timeseries.Series

/-!
# Prices

The functions that read prices, net asset values, fundamentals and whole series from
`ts.observation`. They do not look at `as_of`, and of rows of the same `ts` any may come first, so
that what they fetch is a relation (`PriceQuery.MayFetch`).

* `PriceQuery.answer`: what a function makes of the rows that it fetches;
* `PriceQuery.used`: those of them whose values are in the answer (`mem_pricePoints_iff`,
  `answer_used`).
-/

namespace AslanCore.Timeseries

/-! ### Decimals -/

/-- A `Decimal`. -/
inductive Decimal
  | finite (neg : Bool) (coefficient : ℕ) (exponent : ℤ)
  | infinite (neg : Bool)
  | nan
  deriving DecidableEq

/-- `Decimal(text)`, of the text of a number. -/
def Decimal.ofText (t : NumberText) : Decimal :=
  .finite t.neg (Nat.ofDigitChars 10 (t.int ++ t.frac) 0)
    (NumberText.expValue t.exp - t.frac.length)

/-- `Decimal(str(value))`. -/
def Decimal.ofFloat (value : BitVec 64) : Decimal :=
  let n := value.toNat % 2 ^ 63
  if n < Binary64.infinity then .ofText (NumberText.repr value.msb n)
  else if n = Binary64.infinity then .infinite value.msb
  else .nan

/-! ### The statements -/

/-- `ts.observation` and `ts.series_catalog`. -/
structure ObservationStore where
  observation : ObservationTable
  seriesCatalog : List SeriesRow
  primaryKey : (seriesCatalog.map (·.seriesId)).Nodup
  seriesCodeKey : (seriesCatalog.map (·.seriesCode)).Nodup
  foreignKey : ∀ o ∈ observation.rows, ∃ sc ∈ seriesCatalog, sc.seriesId = o.seriesId

/-- A row of `ts.observation o JOIN ts.series_catalog sc`. -/
structure JoinedRow where
  o : ObservationRow
  sc : SeriesRow

/-- `JOIN ts.series_catalog sc ON sc.series_id = o.series_id`. -/
def ObservationStore.joined (st : ObservationStore) : List JoinedRow :=
  st.observation.rows.flatMap fun o =>
    (st.seriesCatalog.filter fun sc => sc.seriesId = o.seriesId).map fun sc => ⟨o, sc⟩

/-- Midnight in UTC. -/
def dt (d : Date) : Timestamp := d * 86400000000

/-- A call of one of the functions, without its limit. -/
inductive PriceQuery
  | stockPrices (entityId : PgUuid) (start stop : Option Date)
  | fundNav (entityId : PgUuid) (start stop : Option Date)
  | entityFundamentals (entityId : PgUuid)
  | observationSeries (seriesCode : String) (start stop : Option Date)

/-- `:start IS NULL OR o.ts >= :start`, and the same for the end. -/
def inWindow (start stop : Option Date) (ts : Timestamp) : Bool :=
  (∀ d ∈ start, dt d ≤ ts) ∧ ∀ d ∈ stop, ts ≤ dt d

/-- `metric LIKE 'fundamental_%'`, where the underscore stands for any character. -/
def isFundamental (metric : String) : Bool :=
  "fundamental".toList <+: metric.toList ∧ 12 ≤ metric.length

/-- `WHERE`. -/
def PriceQuery.where_ : PriceQuery → JoinedRow → Bool
  | .stockPrices entityId start stop, r =>
    r.sc.entityId = some entityId ∧ r.sc.sourceId = "bist" ∧ inWindow start stop r.o.ts
  | .fundNav entityId start stop, r =>
    r.sc.entityId = some entityId ∧ r.sc.sourceId = "tefas" ∧ r.sc.metric = "nav" ∧
      inWindow start stop r.o.ts
  | .entityFundamentals entityId, r =>
    r.sc.entityId = some entityId ∧ r.sc.sourceId = "bist" ∧ isFundamental r.sc.metric
  | .observationSeries seriesCode start stop, r =>
    r.sc.seriesCode = seriesCode ∧ inWindow start stop r.o.ts

/-- The rows that satisfy it. -/
def ObservationStore.select (st : ObservationStore) (q : PriceQuery) : List JoinedRow :=
  st.joined.filter q.where_

/-- `ORDER BY o.ts DESC`. -/
def newestFirst (r : JoinedRow) : Timestampᵒᵈ := OrderDual.toDual r.o.ts

/-- The statement has a window, and a limit. -/
def PriceQuery.HasWindow : PriceQuery → Prop
  | .entityFundamentals _ => False
  | _ => True

/-- The statement may return `rows`. In the statements with a window the parameters stand before a
    cast, as in `:start::timestamptz`. Where `text` does not take them for parameters (`binds`), the
    text that is sent is not SQL, and nothing is returned. -/
def PriceQuery.MayFetch (binds : Prop) (st : ObservationStore) (limit : ℤ) :
    PriceQuery → List JoinedRow → Prop
  | q@(.entityFundamentals _), rows =>
    MaySelect (fun r : JoinedRow => r.sc.metric) (fun r => r.o.ts) (st.select q) rows
  | q, rows => binds ∧ ∃ zs, IsOrdered newestFirst (st.select q) zs ∧
    limitRows (some (min limit 2000)) zs = .ok rows

/-! ### The answers -/

structure PricePoint where
  ts : Date
  «open» : Option Decimal
  high : Option Decimal
  low : Option Decimal
  close : Option Decimal
  volume : Option Decimal

structure NavPoint where
  ts : Date
  price : Decimal

structure FundamentalSnapshot where
  metric : String
  value : Decimal
  asOf : Date

/-- `Decimal(str(r.value)) if r.value is not None else Decimal(0)`. -/
def price (value : Option (BitVec 64)) : Decimal :=
  match value with
  | some x => .ofFloat x
  | none => .finite false 0 0

section Answers

-- The date of a point in time, in the time zone of the session.
variable (date : Timestamp → Date)

/-- `by_date[d][r.metric] = …`. -/
def addPrice (byDate : List (Date × List (String × Decimal))) (r : JoinedRow) :
    List (Date × List (String × Decimal)) :=
  dictSet (date r.o.ts)
    (dictSet r.sc.metric (price r.o.value) ((byDate.lookup (date r.o.ts)).getD [])) byDate

/-- The point of a date. -/
def PricePoint.ofItem (item : Date × List (String × Decimal)) : PricePoint where
  ts := item.1
  «open» := item.2.lookup "price_open"
  high := item.2.lookup "price_high"
  low := item.2.lookup "price_low"
  close := item.2.lookup "price_close"
  volume := item.2.lookup "volume"

/-- The points, the latest date first. -/
def pricePoints (rows : List JoinedRow) : List PricePoint :=
  (orderBy (fun item => OrderDual.toDual item.1) (rows.foldl (addPrice date) [])).map
    PricePoint.ofItem

def navPoints (rows : List JoinedRow) : List NavPoint :=
  rows.filterMap fun r => r.o.value.map fun x => ⟨date r.o.ts, .ofFloat x⟩

/-- `r.metric.removeprefix("fundamental_")`. -/
def removePrefix (metric : String) : String :=
  if "fundamental_".toList <+: metric.toList then String.ofList (metric.toList.drop 12) else metric

def snapshots (rows : List JoinedRow) : List FundamentalSnapshot :=
  rows.filterMap fun r => r.o.value.map fun x =>
    ⟨removePrefix r.sc.metric, .ofFloat x, date r.o.ts⟩

def seriesPoints (rows : List JoinedRow) : List (Date × Decimal) :=
  rows.filterMap fun r => r.o.value.map fun x => (date r.o.ts, .ofFloat x)

inductive PriceAnswer
  | stockPrices (points : List PricePoint)
  | fundNav (points : List NavPoint)
  | entityFundamentals (snapshots : List FundamentalSnapshot)
  | observationSeries (points : List (Date × Decimal))

/-- What a function returns for the rows that it fetches. -/
def PriceQuery.answer : PriceQuery → List JoinedRow → PriceAnswer
  | .stockPrices .., rows => .stockPrices (pricePoints date rows)
  | .fundNav .., rows => .fundNav (navPoints date rows)
  | .entityFundamentals _, rows => .entityFundamentals (snapshots date rows)
  | .observationSeries .., rows => .observationSeries (seriesPoints date rows)

/-! ### The rows whose values are returned -/

/-- The rows set the same value. -/
abbrev SamePrice (r r' : JoinedRow) : Prop :=
  date r'.o.ts = date r.o.ts ∧ r'.sc.metric = r.sc.metric

/-- The metrics of a `PricePoint`. -/
def priceMetrics : List String := ["price_open", "price_high", "price_low", "price_close", "volume"]

/-- The rows of a metric of the points whose value is not set again. -/
def usedPrices : List JoinedRow → List JoinedRow
  | [] => []
  | r :: rows =>
    if r.sc.metric ∈ priceMetrics ∧ ∀ r' ∈ rows, ¬SamePrice date r r' then r :: usedPrices rows
    else usedPrices rows

/-- The rows whose values are in the answer. -/
def PriceQuery.used : PriceQuery → List JoinedRow → List JoinedRow
  | .stockPrices .., rows => usedPrices date rows
  | _, rows => rows.filter fun r => r.o.value.isSome

/-- The column of a metric. -/
def PricePoint.column (p : PricePoint) (metric : String) : Option Decimal :=
  [("price_open", p.open), ("price_high", p.high), ("price_low", p.low), ("price_close", p.close),
    ("volume", p.volume)].lookup metric |>.join

variable {date} {rows : List JoinedRow} {r : JoinedRow} {d : Date} {metric : String} {v : Decimal}

theorem mem_usedPrices_cons {x : JoinedRow} : r ∈ usedPrices date (x :: rows) ↔
    (r = x ∧ x.sc.metric ∈ priceMetrics ∧ ∀ r' ∈ rows, ¬SamePrice date x r') ∨
      r ∈ usedPrices date rows := by
  rw [usedPrices]
  split_ifs with hx
  · rw [List.mem_cons]
    exact or_congr_left ⟨fun heq => ⟨heq, hx⟩, fun h => h.1⟩
  · exact ⟨.inr, fun h => h.resolve_left fun h => hx h.2⟩

theorem mem_usedPrices : r ∈ usedPrices date rows ↔ ∃ l l', rows = l ++ r :: l' ∧
    r.sc.metric ∈ priceMetrics ∧ ∀ r' ∈ l', ¬SamePrice date r r' := by
  induction rows with
  | nil =>
    refine ⟨fun h => absurd h List.not_mem_nil, fun ⟨l, l', h, _⟩ => ?_⟩
    cases l <;> cases h
  | cons x rows ih =>
    rw [mem_usedPrices_cons, ih]
    constructor
    · rintro (⟨rfl, hmetric, hlast⟩ | ⟨l, l', rfl, hmetric, hlast⟩)
      · exact ⟨[], rows, rfl, hmetric, hlast⟩
      · exact ⟨x :: l, l', rfl, hmetric, hlast⟩
    · rintro ⟨l, l', heq, hmetric, hlast⟩
      rcases l with _ | ⟨y, l⟩
      · obtain ⟨rfl, rfl⟩ := List.cons.inj heq
        exact .inl ⟨rfl, hmetric, hlast⟩
      · obtain ⟨rfl, rfl⟩ := List.cons.inj heq
        exact .inr ⟨l, l', rfl, hmetric, hlast⟩

theorem sublist_usedPrices (date : Timestamp → Date) (rows : List JoinedRow) :
    (usedPrices date rows).Sublist rows := by
  induction rows with
  | nil => exact List.Sublist.slnil
  | cons x rows ih =>
    rw [usedPrices]
    split_ifs
    · exact ih.cons_cons x
    · exact ih.cons x

/-- No two of them set the same value. -/
theorem pairwise_usedPrices (date : Timestamp → Date) (rows : List JoinedRow) :
    (usedPrices date rows).Pairwise fun r r' => ¬SamePrice date r r' := by
  induction rows with
  | nil => exact List.Pairwise.nil
  | cons x rows ih =>
    rw [usedPrices]
    split_ifs with hx
    · exact List.pairwise_cons.2
        ⟨fun r' hr' => hx.2 r' ((sublist_usedPrices date rows).subset hr'), ih⟩
    · exact ih

/-- The value of a metric at a date. -/
def valueAt (byDate : List (Date × List (String × Decimal))) (d : Date) (metric : String) :
    Option Decimal :=
  (byDate.lookup d).bind (·.lookup metric)

theorem valueAt_addPrice (byDate : List (Date × List (String × Decimal))) (r : JoinedRow) :
    valueAt (addPrice date byDate r) d metric =
      if date r.o.ts = d ∧ r.sc.metric = metric then some (price r.o.value)
      else valueAt byDate d metric := by
  rw [valueAt, addPrice]
  by_cases hd : date r.o.ts = d
  · subst hd
    rw [lookup_dictSet_self, Option.bind_some]
    by_cases hm : r.sc.metric = metric
    · subst hm
      rw [lookup_dictSet_self, if_pos ⟨rfl, rfl⟩]
    · rw [lookup_dictSet_of_ne (Ne.symm hm), if_neg fun h => hm h.2, valueAt]
      cases byDate.lookup (date r.o.ts) <;> rfl
  · rw [lookup_dictSet_of_ne (Ne.symm hd), if_neg fun h => hd h.1, valueAt]

/-- A value is that of the last row that sets it. -/
theorem valueAt_foldl_addPrice (byDate : List (Date × List (String × Decimal)))
    (hmetric : metric ∈ priceMetrics) :
    valueAt (rows.foldl (addPrice date) byDate) d metric = some v ↔
      (∃ r ∈ usedPrices date rows, date r.o.ts = d ∧ r.sc.metric = metric ∧ price r.o.value = v) ∨
        (∀ r ∈ rows, ¬(date r.o.ts = d ∧ r.sc.metric = metric)) ∧
          valueAt byDate d metric = some v := by
  induction rows generalizing byDate with
  | nil => simp [usedPrices]
  | cons x rows ih =>
    rw [List.foldl_cons, ih, valueAt_addPrice, List.forall_mem_cons]
    by_cases hx : date x.o.ts = d ∧ x.sc.metric = metric
    · rw [if_pos hx]
      obtain ⟨rfl, rfl⟩ := hx
      constructor
      · rintro (⟨r, hr, h⟩ | ⟨hnone, hv⟩)
        · exact .inl ⟨r, mem_usedPrices_cons.2 (.inr hr), h⟩
        · exact .inl ⟨x, mem_usedPrices_cons.2 (.inl ⟨rfl, hmetric, hnone⟩), rfl, rfl,
            Option.some.inj hv⟩
      · rintro (⟨r, hr, h⟩ | ⟨⟨hself, -⟩, -⟩)
        · rcases mem_usedPrices_cons.1 hr with ⟨rfl, -, hnone⟩ | hr
          · exact .inr ⟨hnone, congrArg some h.2.2⟩
          · exact .inl ⟨r, hr, h⟩
        · exact absurd ⟨rfl, rfl⟩ hself
    · rw [if_neg hx]
      constructor
      · rintro (⟨r, hr, h⟩ | ⟨hnone, hv⟩)
        · exact .inl ⟨r, mem_usedPrices_cons.2 (.inr hr), h⟩
        · exact .inr ⟨⟨hx, hnone⟩, hv⟩
      · rintro (⟨r, hr, h⟩ | ⟨⟨-, hnone⟩, hv⟩)
        · rcases mem_usedPrices_cons.1 hr with ⟨rfl, -⟩ | hr
          · exact absurd ⟨h.1, h.2.1⟩ hx
          · exact .inl ⟨r, hr, h⟩
        · exact .inr ⟨hnone, hv⟩

theorem nodup_foldl_addPrice {byDate : List (Date × List (String × Decimal))}
    (h : (byDate.map Prod.fst).Nodup) :
    ((rows.foldl (addPrice date) byDate).map Prod.fst).Nodup := by
  induction rows generalizing byDate with
  | nil => exact h
  | cons x rows ih => exact ih (nodup_dictSet h)

theorem column_ofItem (item : Date × List (String × Decimal)) (hmetric : metric ∈ priceMetrics) :
    (PricePoint.ofItem item).column metric = item.2.lookup metric := by
  simp only [priceMetrics, List.mem_cons, List.not_mem_nil, or_false] at hmetric
  rcases hmetric with rfl | rfl | rfl | rfl | rfl <;> rfl

/-- The values of the points are those of the rows that are used. -/
theorem mem_pricePoints_iff (hmetric : metric ∈ priceMetrics) :
    (∃ p ∈ pricePoints date rows, p.ts = d ∧ p.column metric = some v) ↔
      ∃ r ∈ usedPrices date rows,
        date r.o.ts = d ∧ r.sc.metric = metric ∧ price r.o.value = v := by
  have hvalue : valueAt (rows.foldl (addPrice date) []) d metric = some v ↔ _ :=
    valueAt_foldl_addPrice [] hmetric
  have hnone : ¬valueAt [] d metric = some v := fun h => by cases h
  rw [or_iff_left fun h => hnone h.2] at hvalue
  rw [← hvalue, valueAt]
  constructor
  · rintro ⟨p, hp, rfl, hcolumn⟩
    obtain ⟨item, hitem, rfl⟩ := List.mem_map.1 hp
    have hnodup : ((rows.foldl (addPrice date) []).map Prod.fst).Nodup :=
      nodup_foldl_addPrice (by exact List.nodup_nil)
    have hlookup := lookup_of_mem hnodup (mem_orderBy.1 hitem)
    rw [column_ofItem item hmetric] at hcolumn
    exact (congrArg (Option.bind · _) hlookup).trans hcolumn
  · intro h
    obtain ⟨values, hlookup, hcolumn⟩ := Option.bind_eq_some_iff.1 h
    refine ⟨_, List.mem_map_of_mem (mem_orderBy.2 (mem_of_lookup hlookup)), rfl, ?_⟩
    rw [column_ofItem _ hmetric]
    exact hcolumn

/-- In the other functions every row that is used makes a point, and there are no other points. -/
theorem filterMap_used {α : Type} (point : JoinedRow → BitVec 64 → α) (rows : List JoinedRow) :
    (rows.filterMap fun r => r.o.value.map (point r)) =
      (rows.filter fun r => r.o.value.isSome).filterMap fun r => r.o.value.map (point r) := by
  rw [List.filterMap_filter]
  refine List.filterMap_congr fun r _ => ?_
  cases r.o.value <;> rfl

theorem answer_used (q : PriceQuery) (rows : List JoinedRow) :
    q.answer date (q.used date rows) = q.answer date rows ∨
      ∃ entityId start stop, q = .stockPrices entityId start stop := by
  rcases q with ⟨entityId, start, stop⟩ | _ | _ | _
  · exact .inr ⟨entityId, start, stop, rfl⟩
  · exact .inl (congrArg PriceAnswer.fundNav (filterMap_used _ rows).symm)
  · exact .inl (congrArg PriceAnswer.entityFundamentals (filterMap_used _ rows).symm)
  · exact .inl (congrArg PriceAnswer.observationSeries (filterMap_used _ rows).symm)

end Answers

end AslanCore.Timeseries
