import Mathlib.Data.List.Forall2
import Mathlib.Data.Prod.Lex
import AslanCore.DateTime
import AslanCore.Store.DistinctOn
import AslanCore.Timeseries.PayloadHash

/-!
# Batch hashes

The bytes that are hashed for a batch of observations of a series (`batchBytes`): the number of the
series and, in the order of their instants, the texts of the two instants and the payload hash of
each observation, each after its length.

* `batchBytes_eq_iff`: the bytes of two batches are equal if and only if the series and the sorted
  rows are, where a row has the instants as they are written;
* `commits_iff`: they tell whether the series and the instants with their payloads are the same if
  and only if equal batches are written with equal offsets from UTC.
-/

namespace AslanCore.Timeseries

/-- An observation with its instants. -/
structure TimedObservation extends ObservationIn where
  ts : DateTime
  asOf : DateTime

/-- What is hashed of an observation. -/
@[ext]
structure HashedRow where
  ts : DateTime
  asOf : DateTime
  ph : String

/-- What the rows are sorted by. -/
def HashedRow.key (r : HashedRow) : ℤ ×ₗ ℤ := toLex (r.ts.instant, r.asOf.instant)

/-- The bytes of a row. -/
def HashedRow.bytes (r : HashedRow) : Option (List UInt8) := do
  let tsBytes ← lengthPrefixed (utf8 r.ts.isoformat)
  let asOfBytes ← lengthPrefixed (utf8 r.asOf.isoformat)
  let phBytes ← lengthPrefixed (utf8 r.ph)
  some (tsBytes ++ (asOfBytes ++ phBytes))

section

variable (nfc : String → String) (sha256 : List UInt8 → String)

/-- `payload_hash`, unless it raises. -/
def payloadHash (o : ObservationIn) : Option String := (payloadBytes nfc o).map sha256

def hashedRow (o : TimedObservation) : Option HashedRow :=
  (payloadHash nfc sha256 o.toObservationIn).map fun ph => ⟨o.ts, o.asOf, ph⟩

/-- The bytes that `_compute_batch_hash` hashes, unless it raises. -/
def batchBytes (seriesId : ℤ) (deduped : List TimedObservation) : Option (List UInt8) :=
  if 0 ≤ seriesId ∧ seriesId < 2 ^ 64 then do
    let items ← deduped.mapM (hashedRow nfc sha256)
    let parts ← (orderBy HashedRow.key items).mapM HashedRow.bytes
    some (bigEndian 8 seriesId.toNat ++ parts.flatten)
  else none

/-- A batch has an observation of the instants with the payload. -/
def HasTriple (deduped : List TimedObservation) (ts asOf : ℤ) (ph : String) : Prop :=
  ∃ o ∈ deduped, o.ts.instant = ts ∧ o.asOf.instant = asOf ∧
    payloadHash nfc sha256 o.toObservationIn = some ph

/-- Two batches are of the same series, and have the same payloads at the same instants. -/
structure SameBatch (seriesId : ℤ) (deduped : List TimedObservation) (seriesId' : ℤ)
    (deduped' : List TimedObservation) : Prop where
  series : seriesId = seriesId'
  triples : ∀ ts asOf ph,
    HasTriple nfc sha256 deduped ts asOf ph ↔ HasTriple nfc sha256 deduped' ts asOf ph

end

/-- No two observations have the same instants. -/
def DistinctInstants (deduped : List TimedObservation) : Prop :=
  (deduped.map fun o => (o.ts.instant, o.asOf.instant)).Nodup

/-- The same instants are written with the same offsets. -/
def SameOffsets (deduped deduped' : List TimedObservation) : Prop :=
  ∀ o ∈ deduped, ∀ o' ∈ deduped', o.ts.instant = o'.ts.instant → o.asOf.instant = o'.asOf.instant →
    o.ts.utcoffset = o'.ts.utcoffset ∧ o.asOf.utcoffset = o'.asOf.utcoffset

variable {nfc : String → String} {sha256 : List UInt8 → String} {seriesId seriesId' : ℤ}
  {deduped deduped' : List TimedObservation} {items items' : List HashedRow} {r r' : HashedRow}
  {bytes bytes' code code' rest rest' : List UInt8}

/-! ### Bytes -/

theorem forall₂_of_mapM {α β : Type} {f : α → Option β} {xs : List α} {ys : List β}
    (h : xs.mapM f = some ys) : List.Forall₂ (fun x y => f x = some y) xs ys := by
  induction xs generalizing ys with
  | nil =>
    obtain rfl : [] = ys := Option.some.inj h
    exact .nil
  | cons x xs ih =>
    rw [List.mapM_cons] at h
    obtain ⟨y, hy, h⟩ := Option.bind_eq_some_iff.1 h
    obtain ⟨ys', hys, h⟩ := Option.bind_eq_some_iff.1 h
    obtain rfl := Option.some.inj h
    exact .cons hy (ih hys)

/-- The bytes of a row in front of others. -/
theorem bytes_append_inj (h : r.bytes = some code) (h' : r'.bytes = some code')
    (heq : code ++ rest = code' ++ rest') : r = r' ∧ rest = rest' := by
  obtain ⟨ts, hts, h⟩ := Option.bind_eq_some_iff.1 h
  obtain ⟨asOf, hasOf, h⟩ := Option.bind_eq_some_iff.1 h
  obtain ⟨ph, hph, h⟩ := Option.bind_eq_some_iff.1 h
  obtain rfl := Option.some.inj h
  obtain ⟨ts', hts', h'⟩ := Option.bind_eq_some_iff.1 h'
  obtain ⟨asOf', hasOf', h'⟩ := Option.bind_eq_some_iff.1 h'
  obtain ⟨ph', hph', h'⟩ := Option.bind_eq_some_iff.1 h'
  obtain rfl := Option.some.inj h'
  simp only [List.append_assoc] at heq
  obtain ⟨htext, heq⟩ := lengthPrefixed_append_inj hts hts' heq
  obtain ⟨htext', heq⟩ := lengthPrefixed_append_inj hasOf hasOf' heq
  obtain ⟨hhash, heq⟩ := lengthPrefixed_append_inj hph hph' heq
  exact ⟨HashedRow.ext (DateTime.isoformat_injective (utf8_inj htext))
    (DateTime.isoformat_injective (utf8_inj htext')) (utf8_inj hhash), heq⟩

/-- A row has bytes. -/
theorem bytes_ne_nil (h : r.bytes = some code) : code ≠ [] := by
  obtain ⟨ts, hts, h⟩ := Option.bind_eq_some_iff.1 h
  obtain ⟨asOf, -, h⟩ := Option.bind_eq_some_iff.1 h
  obtain ⟨ph, -, h⟩ := Option.bind_eq_some_iff.1 h
  obtain rfl := Option.some.inj h
  rw [lengthPrefixed] at hts
  split_ifs at hts
  obtain rfl := Option.some.inj hts
  intro hnil
  have hlength := congrArg List.length hnil
  simp at hlength

/-- The bytes of rows, one after the other, tell the rows. -/
theorem flatten_inj {parts parts' : List (List UInt8)}
    (h : List.Forall₂ (fun r code => HashedRow.bytes r = some code) items parts)
    (h' : List.Forall₂ (fun r code => HashedRow.bytes r = some code) items' parts')
    (heq : parts.flatten = parts'.flatten) : items = items' := by
  induction h generalizing items' parts' with
  | nil =>
    rcases h' with _ | ⟨hr, -⟩
    · rfl
    · exact absurd (List.append_eq_nil_iff.1 heq.symm).1 (bytes_ne_nil hr)
  | cons hr _ ih =>
    rcases h' with _ | ⟨hr', h'⟩
    · exact absurd (List.append_eq_nil_iff.1 heq).1 (bytes_ne_nil hr)
    · obtain ⟨rfl, heq⟩ := bytes_append_inj hr hr' heq
      rw [ih h' heq]

/-- The bytes of rows are determined. -/
theorem parts_unique {parts parts' : List (List UInt8)}
    (h : List.Forall₂ (fun r code => HashedRow.bytes r = some code) items parts)
    (h' : List.Forall₂ (fun r code => HashedRow.bytes r = some code) items parts') :
    parts = parts' := by
  induction h generalizing parts' with
  | nil => exact (List.forall₂_nil_left_iff.1 h').symm
  | cons hr _ ih =>
    obtain ⟨code', rest', hr', hrest, rfl⟩ := List.forall₂_cons_left_iff.1 h'
    rw [hr] at hr'
    rw [Option.some.inj hr', ih hrest]

/-- What is hashed are the series and the sorted rows. -/
theorem batchBytes_eq_some (h : batchBytes nfc sha256 seriesId deduped = some bytes) :
    ∃ items parts, 0 ≤ seriesId ∧ seriesId < 2 ^ 64 ∧
      List.Forall₂ (fun o r => hashedRow nfc sha256 o = some r) deduped items ∧
      List.Forall₂ (fun r code => HashedRow.bytes r = some code) (orderBy HashedRow.key items) parts ∧
      bytes = bigEndian 8 seriesId.toNat ++ parts.flatten := by
  rw [batchBytes] at h
  split_ifs at h with hseries
  obtain ⟨items, hitems, h⟩ := Option.bind_eq_some_iff.1 h
  obtain ⟨parts, hparts, h⟩ := Option.bind_eq_some_iff.1 h
  exact ⟨items, parts, hseries.1, hseries.2, forall₂_of_mapM hitems, forall₂_of_mapM hparts,
    (Option.some.inj h).symm⟩

/-! ### Rows -/

/-- A row is made of an observation. -/
theorem exists_of_mem (h : List.Forall₂ (fun o r => hashedRow nfc sha256 o = some r) deduped items)
    (hr : r ∈ items) : ∃ o ∈ deduped, o.ts = r.ts ∧ o.asOf = r.asOf ∧
      payloadHash nfc sha256 o.toObservationIn = some r.ph := by
  induction h with
  | nil => exact absurd hr List.not_mem_nil
  | cons ho _ ih =>
    rcases List.mem_cons.1 hr with rfl | hr
    · obtain ⟨ph, hph, rfl⟩ := Option.map_eq_some_iff.1 ho
      exact ⟨_, List.mem_cons_self, rfl, rfl, hph⟩
    · obtain ⟨o, hmem, hrow⟩ := ih hr
      exact ⟨o, List.mem_cons_of_mem _ hmem, hrow⟩

/-- Every observation has its row. -/
theorem exists_row_of_mem
    (h : List.Forall₂ (fun o r => hashedRow nfc sha256 o = some r) deduped items)
    {o : TimedObservation} (ho : o ∈ deduped) :
    ∃ ph, payloadHash nfc sha256 o.toObservationIn = some ph ∧ ⟨o.ts, o.asOf, ph⟩ ∈ items := by
  induction h with
  | nil => exact absurd ho List.not_mem_nil
  | cons hrow _ ih =>
    rcases List.mem_cons.1 ho with rfl | ho
    · obtain ⟨ph, hph, rfl⟩ := Option.map_eq_some_iff.1 hrow
      exact ⟨ph, hph, List.mem_cons_self⟩
    · obtain ⟨ph, hph, hmem⟩ := ih ho
      exact ⟨ph, hph, List.mem_cons_of_mem _ hmem⟩

theorem nodup_key (h : List.Forall₂ (fun o r => hashedRow nfc sha256 o = some r) deduped items)
    (hdistinct : DistinctInstants deduped) : (items.map HashedRow.key).Nodup := by
  have hkeys : items.map HashedRow.key =
      deduped.map fun o => toLex (o.ts.instant, o.asOf.instant) := by
    clear hdistinct
    induction h with
    | nil => rfl
    | cons hrow _ ih =>
      obtain ⟨ph, -, rfl⟩ := Option.map_eq_some_iff.1 hrow
      rw [List.map_cons, List.map_cons, ih]
      rfl
  rw [hkeys]
  exact hdistinct

/-- A batch has the instants and payloads of its rows. -/
theorem hasTriple_iff (h : List.Forall₂ (fun o r => hashedRow nfc sha256 o = some r) deduped items)
    {ts asOf : ℤ} {ph : String} : HasTriple nfc sha256 deduped ts asOf ph ↔
      ∃ r ∈ items, r.ts.instant = ts ∧ r.asOf.instant = asOf ∧ r.ph = ph := by
  constructor
  · rintro ⟨o, ho, rfl, rfl, hph⟩
    obtain ⟨ph', hph', hmem⟩ := exists_row_of_mem h ho
    rw [hph] at hph'
    exact ⟨_, hmem, rfl, rfl, (Option.some.inj hph').symm⟩
  · rintro ⟨r, hr, rfl, rfl, rfl⟩
    obtain ⟨o, ho, hts, hasOf, hph⟩ := exists_of_mem h hr
    exact ⟨o, ho, hts ▸ rfl, hasOf ▸ rfl, hph⟩

/-- The rows of one instant are the same, if they are written with the same offsets. -/
theorem mem_of_sameBatch
    (h : List.Forall₂ (fun o r => hashedRow nfc sha256 o = some r) deduped items)
    (h' : List.Forall₂ (fun o r => hashedRow nfc sha256 o = some r) deduped' items')
    (hsame : ∀ ts asOf ph,
      HasTriple nfc sha256 deduped ts asOf ph → HasTriple nfc sha256 deduped' ts asOf ph)
    (hoffsets : SameOffsets deduped deduped') (hr : r ∈ items) : r ∈ items' := by
  obtain ⟨r', hr', hts, hasOf, hph⟩ :=
    (hasTriple_iff h').1 (hsame _ _ _ ((hasTriple_iff h).2 ⟨r, hr, rfl, rfl, rfl⟩))
  obtain ⟨o, ho, hots, hoasOf, -⟩ := exists_of_mem h hr
  obtain ⟨o', ho', hots', hoasOf', -⟩ := exists_of_mem h' hr'
  rw [← hots, ← hots'] at hts
  rw [← hoasOf, ← hoasOf'] at hasOf
  obtain ⟨hoff, hoff'⟩ := hoffsets o ho o' ho' hts.symm hasOf.symm
  have heq : r = r' := by
    refine HashedRow.ext ?_ ?_ hph.symm
    · rw [← hots, ← hots']
      exact DateTime.eq_of_instant_eq hts.symm hoff
    · rw [← hoasOf, ← hoasOf']
      exact DateTime.eq_of_instant_eq hasOf.symm hoff'
  rwa [heq]

/-! ### Batches -/

/-- The bytes of two batches are equal exactly if the batches are, and are written with the same
    offsets. -/
theorem batchBytes_eq_iff (hdistinct : DistinctInstants deduped)
    (hdistinct' : DistinctInstants deduped')
    (h : batchBytes nfc sha256 seriesId deduped = some bytes)
    (h' : batchBytes nfc sha256 seriesId' deduped' = some bytes') :
    bytes = bytes' ↔
      SameBatch nfc sha256 seriesId deduped seriesId' deduped' ∧ SameOffsets deduped deduped' := by
  obtain ⟨items, parts, hnonneg, hlt, hitems, hparts, rfl⟩ := batchBytes_eq_some h
  obtain ⟨items', parts', hnonneg', hlt', hitems', hparts', rfl⟩ := batchBytes_eq_some h'
  constructor
  · intro heq
    obtain ⟨hseries, heq⟩ := bigEndian_append_inj (by omega) (by omega) heq
    have hsorted := flatten_inj hparts hparts' heq
    have hperm : items.Perm items' :=
      ((perm_orderBy _ items).symm.trans (.of_eq hsorted)).trans (perm_orderBy _ items')
    refine ⟨⟨by omega, fun ts asOf ph => ?_⟩, fun o ho o' ho' hts hasOf => ?_⟩
    · rw [hasTriple_iff hitems, hasTriple_iff hitems']
      simp only [hperm.mem_iff]
    · -- Both rows are among the same ones, which have distinct instants.
      obtain ⟨ph, -, hmem⟩ := exists_row_of_mem hitems ho
      obtain ⟨ph', -, hmem'⟩ := exists_row_of_mem hitems' ho'
      have hrow := List.inj_on_of_nodup_map (nodup_key hitems' hdistinct') (hperm.mem_iff.1 hmem)
        hmem' (by rw [HashedRow.key, HashedRow.key, hts, hasOf])
      obtain ⟨hrts, hrasOf, -⟩ := HashedRow.mk.inj hrow
      exact ⟨congrArg _ hrts, congrArg _ hrasOf⟩
  · rintro ⟨⟨rfl, htriples⟩, hoffsets⟩
    have hoffsets' : SameOffsets deduped' deduped := fun o ho o' ho' hts hasOf =>
      (hoffsets o' ho' o ho hts.symm hasOf.symm).imp Eq.symm Eq.symm
    have hsorted : orderBy HashedRow.key items = orderBy HashedRow.key items' := by
      refine eq_of_pairwise_lt (pairwise_lt_orderBy (nodup_key hitems hdistinct))
        (pairwise_lt_orderBy (nodup_key hitems' hdistinct')) fun r => ?_
      rw [mem_orderBy, mem_orderBy]
      exact ⟨mem_of_sameBatch hitems hitems' (fun _ _ _ => (htriples _ _ _).1) hoffsets,
        mem_of_sameBatch hitems' hitems (fun _ _ _ => (htriples _ _ _).2) hoffsets'⟩
    rw [hsorted] at hparts
    rw [parts_unique hparts hparts']

/-- The bytes tell whether two batches are the same exactly if equal batches are written with the
    same offsets from UTC. -/
theorem commits_iff (hdistinct : DistinctInstants deduped) (hdistinct' : DistinctInstants deduped')
    (h : batchBytes nfc sha256 seriesId deduped = some bytes)
    (h' : batchBytes nfc sha256 seriesId' deduped' = some bytes') :
    (bytes = bytes' ↔ SameBatch nfc sha256 seriesId deduped seriesId' deduped') ↔
      (SameBatch nfc sha256 seriesId deduped seriesId' deduped' → SameOffsets deduped deduped') := by
  rw [batchBytes_eq_iff hdistinct hdistinct' h h']
  exact ⟨fun hiff hsame => (hiff.2 hsame).2, fun hsame => ⟨And.left, fun h => ⟨h, hsame h⟩⟩⟩

/-! ### One instant, two offsets -/

/-- Midnight, in UTC. -/
def midnight : DateTime where
  year := 2024
  month := 5
  day := 14
  hour := 0
  minute := 0
  second := 0
  microsecond := 0
  utcoffset := 0
  year_mem := by decide
  month_mem := by decide
  day_mem := by decide
  hour_lt := by decide
  minute_lt := by decide
  second_lt := by decide
  microsecond_lt := by decide
  utcoffset_lt := by decide

/-- The same instant, three hours east of UTC. -/
def threeInTheMorning : DateTime where
  __ := midnight
  hour := 3
  utcoffset := 10800000000
  hour_lt := by decide
  utcoffset_lt := by decide

/-- A batch of one observation. -/
def batchAt (ts : DateTime) : List TimedObservation := [⟨mergedObservation, ts, ts⟩]

/-- SHA-256, of what is hashed for the observation. -/
def mergedHash (_ : List UInt8) : String :=
  "73741dd1af1599251a5bf1cc23d822d68e97330c86872450381b13afbc28f5aa"

theorem distinctInstants_batchAt (ts : DateTime) : DistinctInstants (batchAt ts) :=
  List.nodup_singleton _

theorem payloadHash_merged : payloadHash acuteNfc mergedHash mergedObservation =
    some "73741dd1af1599251a5bf1cc23d822d68e97330c86872450381b13afbc28f5aa" := by
  obtain ⟨bytes, hbytes⟩ := exists_payloadBytes_merged
  rw [payloadHash, hbytes]
  rfl

theorem exists_batchBytes {ts : DateTime}
    (h : (HashedRow.bytes ⟨ts, ts, mergedHash []⟩).isSome = true) :
    ∃ bytes, batchBytes acuteNfc mergedHash 42 (batchAt ts) = some bytes := by
  obtain ⟨code, h⟩ := Option.isSome_iff_exists.1 h
  have hitems : (batchAt ts).mapM (hashedRow acuteNfc mergedHash) =
      some [⟨ts, ts, mergedHash []⟩] := by
    rw [batchAt, List.mapM_cons, hashedRow, payloadHash_merged]
    rfl
  have hparts : (orderBy HashedRow.key [⟨ts, ts, mergedHash []⟩]).mapM HashedRow.bytes =
      some [code] := by
    change [(⟨ts, ts, mergedHash []⟩ : HashedRow)].mapM HashedRow.bytes = some [code]
    rw [List.mapM_cons, h]
    rfl
  refine ⟨bigEndian 8 42 ++ [code].flatten, ?_⟩
  rw [batchBytes, if_pos (by decide), hitems]
  simp only [Option.bind_eq_bind, Option.bind_some, hparts]
  rfl

theorem exists_batchBytes_midnight :
    ∃ bytes, batchBytes acuteNfc mergedHash 42 (batchAt midnight) = some bytes :=
  exists_batchBytes (by decide +kernel)

theorem exists_batchBytes_threeInTheMorning :
    ∃ bytes, batchBytes acuteNfc mergedHash 42 (batchAt threeInTheMorning) = some bytes :=
  exists_batchBytes (by decide +kernel)

theorem sameBatch_batchAt :
    SameBatch acuteNfc mergedHash 42 (batchAt midnight) 42 (batchAt threeInTheMorning) := by
  refine ⟨rfl, fun ts asOf ph => ?_⟩
  have hinstant : midnight.instant = threeInTheMorning.instant := by decide +kernel
  simp only [HasTriple, batchAt, List.mem_singleton, exists_eq_left, hinstant]

theorem not_sameOffsets_batchAt :
    ¬SameOffsets (batchAt midnight) (batchAt threeInTheMorning) := by
  intro h
  have hinstant : midnight.instant = threeInTheMorning.instant := by decide +kernel
  obtain ⟨hoff, -⟩ :=
    h _ (List.mem_singleton_self _) _ (List.mem_singleton_self _) hinstant hinstant
  exact absurd hoff (by decide)

/-- One batch is told from itself, written in another offset. -/
theorem not_commits_batchAt : ∃ bytes bytes',
    batchBytes acuteNfc mergedHash 42 (batchAt midnight) = some bytes ∧
    batchBytes acuteNfc mergedHash 42 (batchAt threeInTheMorning) = some bytes' ∧
    DistinctInstants (batchAt midnight) ∧ DistinctInstants (batchAt threeInTheMorning) ∧
    ¬(bytes = bytes' ↔
      SameBatch acuteNfc mergedHash 42 (batchAt midnight) 42 (batchAt threeInTheMorning)) := by
  obtain ⟨bytes, h⟩ := exists_batchBytes_midnight
  obtain ⟨bytes', h'⟩ := exists_batchBytes_threeInTheMorning
  refine ⟨bytes, bytes', h, h', distinctInstants_batchAt _, distinctInstants_batchAt _,
    fun hiff => ?_⟩
  have heq := batchBytes_eq_iff (distinctInstants_batchAt _) (distinctInstants_batchAt _) h h'
  exact not_sameOffsets_batchAt (heq.1 (hiff.2 sameBatch_batchAt)).2

/-- A batch is told to be the same as itself. -/
theorem commits_batchAt : ∃ bytes,
    batchBytes acuteNfc mergedHash 42 (batchAt midnight) = some bytes ∧
    ((bytes = bytes ↔
      SameBatch acuteNfc mergedHash 42 (batchAt midnight) 42 (batchAt midnight)) ↔
      (SameBatch acuteNfc mergedHash 42 (batchAt midnight) 42 (batchAt midnight) →
        SameOffsets (batchAt midnight) (batchAt midnight))) := by
  obtain ⟨bytes, h⟩ := exists_batchBytes_midnight
  exact ⟨bytes, h, commits_iff (distinctInstants_batchAt _) (distinctInstants_batchAt _) h h⟩

end AslanCore.Timeseries
