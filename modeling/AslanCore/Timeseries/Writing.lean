import Mathlib.Data.Finset.Union
import AslanCore.Audit
import AslanCore.Process.System
import AslanCore.Store.Database
import AslanCore.Store.Insertion
import AslanCore.Timeseries.BatchHash
import AslanCore.Timeseries.NumericKeys

/-!
# Writing observations

`ObservationWriter.write` inserts the observations of a series in bulk, in the transaction of its
caller, and records what it does in `audit.events` and `audit.observation_batch_keys`.

* It checks all observations first (`revalidate`), and leaves out those that are given twice
  (`dedupe`).
* Under the lock of the series, it inserts the rest, in statements of 500 rows (`writeChunk`). A
  row that is there already must have the same hash.
* Then it records the batch, and what became of each row (`emitWriteBatchAudit`).

A statement with several rows inserts them one after the other, and may wait for each. Its
transaction is committed when all calls of it have returned, and undone when one of them raises
(`transaction`).
-/

namespace AslanCore

namespace Timeseries

namespace Writing

/-- The primary key of an observation: its series, `ts` and `as_of`. -/
abbrev ObservationKey := ℤ × Timestamp × Timestamp

/-- An observation as `write` is given it, however it was built. A date and time without an offset
    is `none`. -/
structure ObservationArg where
  ts : Option DateTime
  asOf : Option DateTime
  value : Option (BitVec 64)
  valueText : Option String
  qualityFlag : ℤ := 0
  metadata : JsonObject := []

structure WriteCount where
  attempted : ℕ
  inserted : ℕ
  updated : ℕ
  unchanged : ℕ
  deriving DecidableEq

/-- Which of the four checks has found a conflict. -/
inductive ConflictKind
  | intraBatch
  | missingReadback
  | differentPayload
  | auditLabel
  deriving DecidableEq

inductive WriteError
  | auditMissingActor
  | naiveTs (i : ℕ)
  | naiveAsOf (i : ℕ)
  | notExactlyOneValue (i : ℕ)
  | metadataSchemaViolation
  /-- `payload_hash` raises. -/
  | payloadHash
  | conflict (kind : ConflictKind) (key : ObservationKey) (existingHash : Option String)
    (newHash : String)
  /-- `_compute_batch_hash` raises. -/
  | batchHash
  /-- The database, or the encoder of its values, refuses a statement. -/
  | sql
  deriving DecidableEq

/-- The columns of `ts.observation`, other than the primary key. -/
structure ObservationColumns where
  value : Option (BitVec 64)
  valueText : Option String
  qualityFlag : ℤ
  ingestionRunId : ℤ
  payloadHash : String
  /-- What is written to the column as JSON. -/
  metadata : JsonObject
  actor : Option Actor

/-- A row of `audit.events`, of the operation `observation.write_batch`. -/
structure WriteBatchEvent where
  occurredAt : Timestamp
  actor : Actor
  ingestionRunId : ℤ
  seriesId : ℤ
  batchSize : ℕ
  attempted : ℕ
  tsMin : DateTime
  tsMax : DateTime
  asOfMin : DateTime
  asOfMax : DateTime
  batchPayloadHash : String
  inserted : ℕ
  unchanged : ℕ
  duplicateCount : Option ℕ

/-- The columns of `audit.observation_batch_keys`, other than the number of the event and the
    primary key of the observation. -/
structure BatchKeyColumns where
  occurredAt : Timestamp
  payloadHash : String
  action : Insertion.Outcome
  deriving DecidableEq

/-- What `write` depends on: the normal forms and the hash of payloads, the keys that are numbers,
    the hash of the locks, the setting for missing actors, the order in which a set is gone
    through, and what the columns admit. -/
structure Env where
  nfc : String → String
  sha256 : List UInt8 → String
  numericKey : String → Bool
  hashtext : String → ℤ
  auditStrict : Bool
  setOrder : List ObservationKey → List ObservationKey
  setOrder_perm : ∀ keys, (setOrder keys).Perm keys
  admits : ObservationColumns → Bool

/-- An observation with its hash: it is the same whenever it is computed. -/
structure Hashed extends TimedObservation where
  ph : String

namespace Hashed

/-- `(series_id, ts, as_of)`: dates and times are compared by their instants. -/
def key (seriesId : ℤ) (o : Hashed) : ObservationKey := (seriesId, o.ts.instant, o.asOf.instant)

/-- The row that is inserted. -/
def columns (caller : Caller) (o : Hashed) : ObservationColumns where
  value := o.value
  valueText := o.valueText
  qualityFlag := o.qualityFlag
  ingestionRunId := caller.ingestionRunId
  payloadHash := o.ph
  metadata := o.metadata
  actor := caller.currentActor

end Hashed

/-! ### Before anything is read -/

section

variable (env : Env)

/-- What phase 0a checks of the observation at `i`. -/
def revalidateOne (i : ℕ) (o : ObservationArg) : Except WriteError TimedObservation :=
  match o.ts, o.asOf with
  | none, _ => .error (.naiveTs i)
  | some _, none => .error (.naiveAsOf i)
  | some ts, some asOf =>
    if h : o.value.isSome ≠ o.valueText.isSome then
      .ok { o with ts, asOf, exactlyOneValue := h }
    else .error (.notExactlyOneValue i)

/-- Phase 0a, from the observation at `i` on. -/
def revalidate (i : ℕ) : List ObservationArg → Except WriteError (List TimedObservation)
  | [] => .ok []
  | o :: os => do
    let o ← revalidateOne i o
    let os ← revalidate (i + 1) os
    return o :: os

mutual

/-- `_validate_no_numeric_string_keys` passes: it goes through dictionaries and lists. -/
def withoutNumericKeys (numericKey : String → Bool) : Json → Bool
  | .obj fields => fieldsWithoutNumericKeys numericKey fields
  | .arr js => itemsWithoutNumericKeys numericKey js
  | _ => true

def fieldsWithoutNumericKeys (numericKey : String → Bool) : JsonObject → Bool
  | [] => true
  | (k, j) :: fields =>
    !numericKey k && withoutNumericKeys numericKey j && fieldsWithoutNumericKeys numericKey fields

def itemsWithoutNumericKeys (numericKey : String → Bool) : List Json → Bool
  | [] => true
  | j :: js => withoutNumericKeys numericKey j && itemsWithoutNumericKeys numericKey js

end

/-- What phase 0b does with one observation before it looks for its key. -/
def hashed (o : TimedObservation) : Except WriteError Hashed :=
  if withoutNumericKeys env.numericKey (.obj o.metadata) = false then
    .error .metadataSchemaViolation
  else
    match payloadHash env.nfc env.sha256 o.toObservationIn with
    | none => .error .payloadHash
    | some ph => .ok { o with ph }

/-- Phase 0b, after the observations of `deduped`. -/
def dedupe (seriesId : ℤ) (deduped : List Hashed) :
    List TimedObservation → Except WriteError (List Hashed)
  | [] => .ok deduped
  | o :: os => do
    let o ← hashed env o
    match deduped.find? fun o' => o'.key seriesId = o.key seriesId with
    | none => dedupe seriesId (deduped ++ [o]) os
    | some o' =>
      if o'.ph = o.ph then dedupe seriesId deduped os
      else throw (.conflict .intraBatch (o.key seriesId) (some o'.ph) o.ph)

end

/-- `xs[i : i + n] for i in range(0, len(xs), n)`. -/
def slices {α : Type} (n : ℕ) (xs : List α) : List (List α) :=
  (List.range ((xs.length + n - 1) / n)).map fun i => (xs.drop (i * n)).take n

/-- `min`: the first of the earliest. -/
def earliest (d : DateTime) (ds : List DateTime) : DateTime :=
  ds.foldl (fun m d => if d.instant < m.instant then d else m) d

/-- `max`: the first of the latest. -/
def latest (d : DateTime) (ds : List DateTime) : DateTime :=
  ds.foldl (fun m d => if m.instant < d.instant then d else m) d

/-! ### Commands -/

/-- The keys of the rows, and of the advisory locks. -/
inductive Key
  | series (seriesId : ℤ)
  | ingestionRun (ingestionRunId : ℤ)
  | observation (k : ObservationKey)
  | event (eventId : ℕ)
  | batchKey (eventId : ℕ) (k : ObservationKey)
  | advisory (key : ℤ)
  deriving DecidableEq

abbrev RowOf : Key → Type
  | .series _ => String
  | .ingestionRun _ => Unit
  | .observation _ => ObservationColumns
  | .event _ => WriteBatchEvent
  | .batchKey _ _ => BatchKeyColumns
  | .advisory _ => Unit

/-- A call of `write`. -/
structure WriteCall where
  seriesId : ℤ
  observations : List ObservationArg

/-- The calls of a transaction, with who makes them. -/
structure WriteJob where
  caller : Caller
  calls : List WriteCall

inductive Cmd
  | selectSourceId (seriesId : ℤ)
  | advisoryLock (seriesId : ℤ)
  /-- One row of `INSERT … ON CONFLICT (series_id, ts, as_of) DO NOTHING RETURNING ts, as_of`. -/
  | insertObservation (k : ObservationKey) (row : ObservationColumns)
  | readBack (keys : List ObservationKey)
  | now
  | insertEvent (e : WriteBatchEvent)
  /-- One row of the `executemany`. -/
  | insertBatchKey (eventId : ℕ) (k : ObservationKey) (row : BatchKeyColumns)
  /-- `COMMIT`, of a job whose calls have returned these counts. -/
  | commit (job : WriteJob) (counts : List WriteCount)
  | close

abbrev Reply : Cmd → Type
  | .selectSourceId _ => Option String
  | .insertObservation _ _ => Bool
  | .readBack _ => List (ObservationKey × String)
  | .now => Timestamp
  | .insertEvent _ => ℕ
  | _ => Unit

abbrev Program (α : Type) := Prog Cmd Reply WriteError α

abbrev request (c : Cmd) : Program (Reply c) := .perform c

/-- What is left open: what goes wrong, and the time. -/
structure Choice where
  fault : Fault := .none
  now : Timestamp := 0

/-- The state shared by the writers `P`. The history is no part of the database: it has the jobs
    that were committed, with the counts of their calls, in the order of the commits. -/
structure World (P : Type) where
  db : Database P Key RowOf
  nextEventId : ℕ
  history : List (WriteJob × List WriteCount)

namespace World

variable {P : Type} [DecidableEq P] (env : Env) (s : World P)

/-- The key of the lock of a series: `hashtextextended('ts.write:' || :sid, 0)`. -/
def lockKey (seriesId : ℤ) : Key := .advisory (env.hashtext ("ts.write:" ++ toString seriesId))

/-- The outcome of a statement of a session. -/
def sql {α : Type} (p : P) (fault : Fault)
    (stmt : Option (Except WriteError (α × Database P Key RowOf))) :
    Option (Except WriteError α × World P) :=
  (s.db.statement p fault .sql stmt).map fun (r, db) => (r, { s with db })

/-- The foreign keys of an observation hold. -/
def Refers (db : Database P Key RowOf) (p : P) (k : ObservationKey) (row : ObservationColumns) :
    Prop :=
  (db.view p (.series k.1)).isSome ∧ (db.view p (.ingestionRun row.ingestionRunId)).isSome

instance (db : Database P Key RowOf) (p : P) (k : ObservationKey) (row : ObservationColumns) :
    Decidable (Refers db p k row) := inferInstanceAs (Decidable (_ ∧ _))

/-- The insertion of an observation. Its foreign keys are checked when it is inserted. -/
def insertObservation (p : P) (k : ObservationKey) (row : ObservationColumns) :
    Option (Except WriteError (Bool × Database P Key RowOf)) :=
  if env.admits row then
    (s.db.insertNew p (.observation k) row).map fun (b, db) =>
      if b = true ∧ ¬Refers db p k row then .error .sql else .ok (b, db)
  else some (.error .sql)

/-- The insertion of a row whose primary key must be new. -/
def insertRow (p : P) (k : Key) (row : RowOf k) :
    Option (Except WriteError (Unit × Database P Key RowOf)) :=
  (s.db.insertNew p k row).map fun (b, db) => if b then .ok ((), db) else .error .sql

/-- The effect of a command of the writer `p`. -/
def exec (p : P) (c : Cmd) (o : Choice) (s : World P) :
    Option (Except WriteError (Reply c) × World P) :=
  match c with
  | .selectSourceId seriesId =>
    s.sql p o.fault <| some <|
      if -2 ^ 63 ≤ seriesId ∧ seriesId < 2 ^ 63 then .ok (s.db.view p (.series seriesId), s.db)
      else .error .sql
  | .advisoryLock seriesId =>
    s.sql p o.fault <|
      if h : s.db.CanLock p (lockKey env seriesId) true then
        some (.ok ((), s.db.lockRow p (lockKey env seriesId) true h))
      else none
  | .insertObservation k row => s.sql p o.fault (s.insertObservation env p k row)
  | .readBack keys =>
    s.sql p o.fault <| some <| .ok (keys.filterMap fun k =>
      (s.db.view p (.observation k)).map fun row => (k, row.payloadHash), s.db)
  | .now => some (.ok o.now, s)
  | .insertEvent e =>
    (s.sql p o.fault (s.insertRow p (.event s.nextEventId) e)).map fun (r, s') =>
      (r.map fun _ => s.nextEventId, { s' with nextEventId := s.nextEventId + 1 })
  | .insertBatchKey eventId k row => s.sql p o.fault (s.insertRow p (.batchKey eventId k) row)
  | .commit job counts =>
    let (r, db) := s.db.commit p o.fault .sql
    let history := if s.db.status p = .ready ∧ o.fault ≠ .refused then
      s.history ++ [(job, counts)] else s.history
    some (r, { s with db, history })
  | .close =>
    let (r, db) := s.db.close p o.fault .sql
    some (r, { s with db })

/-- The state after a writer is killed: its transaction is undone. -/
def kill (p : P) (s : World P) : World P := { s with db := s.db.abort p .ready }

/-- The given rows, before anything is written. -/
def ofRows (rows : (k : Key) → Option (RowOf k)) (nextEventId : ℕ) : World P :=
  ⟨.ofRows rows, nextEventId, []⟩

end World

/-! ### Programs -/

section

variable (env : Env)

/-- What phase 0 raises. -/
def raiseError {α : Type} : Except WriteError α → Program α
  | .ok a => .ret a
  | .error e => .raise e

/-- What becomes of the row of a key that is there already. -/
def checkStored (chunk : List Hashed) (seriesId : ℤ) (existing : List (ObservationKey × String))
    (k : ObservationKey) : Except WriteError Unit :=
  match chunk.find? fun o => o.key seriesId = k with
  | none => .ok ()
  | some o =>
    match existing.lookup k with
    | none => .error (.conflict .missingReadback k none o.ph)
    | some ph =>
      if ph = o.ph then .ok () else .error (.conflict .differentPayload k (some ph) o.ph)

/-- `_write_chunk`: the keys that were inserted, and those that were there. A stored hash has as
    many characters as its column, so there is nothing to strip. -/
def writeChunk (caller : Caller) (seriesId : ℤ) (chunk : List Hashed) :
    Program (Finset ObservationKey × Finset ObservationKey) := do
  let insertedKeys ← chunk.foldlM (fun keys o => do
    let inserted ← request (.insertObservation (o.key seriesId) (o.columns caller))
    return if inserted then insert (o.key seriesId) keys else keys) (∅ : Finset ObservationKey)
  let conflicted := (chunk.map (Hashed.key seriesId)).filter (· ∉ insertedKeys)
  if conflicted = [] then return (insertedKeys, ∅)
  let existing ← request (.readBack conflicted)
  let unchangedKeys ← (env.setOrder conflicted).foldlM (fun keys k => do
    raiseError (checkStored chunk seriesId existing k)
    return insert k keys) (∅ : Finset ObservationKey)
  return (insertedKeys, unchangedKeys)

/-- What is recorded of a key. -/
def actionOf (seriesId : ℤ) (insertedKeys unchangedKeys : Finset ObservationKey) (o : Hashed) :
    Except WriteError Insertion.Outcome :=
  if o.key seriesId ∈ insertedKeys then .ok .inserted
  else if o.key seriesId ∈ unchangedKeys then .ok .unchanged
  else .error (.conflict .auditLabel (o.key seriesId) none o.ph)

/-- The event of a batch with the observations `o :: os`, after its duplicates are left out. -/
def writeBatchEvent (caller : Caller) (seriesId : ℤ) (attempted : ℕ) (o : Hashed) (os : List Hashed)
    (batchPayloadHash : String) (inserted unchanged : ℕ) (occurredAt : Timestamp) :
    WriteBatchEvent where
  occurredAt := occurredAt
  actor := caller.currentActor.getD AuditEvent.systemUnknown
  ingestionRunId := caller.ingestionRunId
  seriesId := seriesId
  batchSize := (o :: os).length
  attempted := attempted
  tsMin := earliest o.ts (os.map fun o => o.ts)
  tsMax := latest o.ts (os.map fun o => o.ts)
  asOfMin := earliest o.asOf (os.map fun o => o.asOf)
  asOfMax := latest o.asOf (os.map fun o => o.asOf)
  batchPayloadHash := batchPayloadHash
  inserted := inserted
  unchanged := unchanged
  duplicateCount :=
    if attempted = (o :: os).length then none else some (attempted - (o :: os).length)

/-- `_emit_write_batch_audit`. -/
def emitWriteBatchAudit (caller : Caller) (seriesId : ℤ) (attempted : ℕ) (o : Hashed)
    (os : List Hashed) (insertedKeys unchangedKeys : Finset ObservationKey) : Program Unit := do
  match batchBytes env.nfc env.sha256 seriesId ((o :: os).map (·.toTimedObservation)) with
  | none => .raise .batchHash
  | some bytes =>
    let occurredAt ← request .now
    let eventId ← request (.insertEvent (writeBatchEvent caller seriesId attempted o os
      (env.sha256 bytes) insertedKeys.card unchangedKeys.card occurredAt))
    let perKeyParams ← raiseError ((o :: os).mapM fun o => do
      let action ← actionOf seriesId insertedKeys unchangedKeys o
      return (o.key seriesId, (⟨occurredAt, o.ph, action⟩ : BatchKeyColumns)))
    Prog.forEach (fun params => request (.insertBatchKey eventId params.1 params.2)) perKeyParams

/-- `ObservationWriter.write`. -/
def write (caller : Caller) (call : WriteCall) : Program WriteCount := do
  if env.auditStrict ∧ caller.currentActor = none then .raise .auditMissingActor
  else
    let attempted := call.observations.length
    let validated ← raiseError (revalidate 0 call.observations)
    let deduped ← raiseError (dedupe env call.seriesId [] validated)
    match deduped with
    | [] => return ⟨attempted, 0, 0, 0⟩
    | o :: os =>
      let _ ← request (.selectSourceId call.seriesId)
      request (.advisoryLock call.seriesId)
      let total ← (slices 500 (o :: os)).foldlM (fun total chunk => do
        let keys ← writeChunk env caller call.seriesId chunk
        return (total.1 ∪ keys.1, total.2 ∪ keys.2))
        ((∅, ∅) : Finset ObservationKey × Finset ObservationKey)
      emitWriteBatchAudit env caller call.seriesId attempted o os total.1 total.2
      return ⟨attempted, total.1.card, 0, total.2.card⟩

/-- A transaction of a caller: it is committed when all its calls have returned. -/
def transaction (job : WriteJob) : Program (List WriteCount) := do
  let counts ← job.calls.foldlM (fun counts call => do
    let count ← write env job.caller call
    return counts ++ [count]) []
  request (.commit job counts)
  return counts

/-- What becomes of the session in the end. -/
def WriteJob.program (job : WriteJob) : Program (List WriteCount) :=
  (transaction env job).ensuring (request .close)

/-- The writers `P`. -/
def system (P : Type) [DecidableEq P] :
    System Cmd Reply WriteError (List WriteCount) P WriteJob Choice (World P) where
  body _ job := job.program env
  exec := World.exec env
  kill := World.kill

end

end Writing

end Timeseries

end AslanCore
