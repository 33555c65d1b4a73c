import AslanCore.Audit
import AslanCore.Ingestion.Metadata
import AslanCore.Store.Transaction

/-!
# Ingestion runs

`ingestion_run` opens a connection, inserts and commits a row with the status `running`
(`openRun`), hands out a handle, and closes the run when the block ends (`closeRun`). The calls of
the handle count in memory, and write their audit records on the connection of the run: so that
what fails there aborts the transaction in which the run is closed.

The database fails when it is said to (`fault`), in the calls of the handle; it accepts the
statements before and after the block.
-/

namespace AslanCore.Ingestion

open Timeseries (PyDict PyValue Jsonb storableText)

/-! ### The database -/

inductive RunStatus
  | running
  | succeeded
  | failed
  deriving DecidableEq

/-- A text of Python: a surrogate is no character. -/
abbrev PyText := List (Option Char)

/-- The database can read the text. -/
def PyText.Storable (text : PyText) : Prop := ∀ c ∈ text, c ≠ none ∧ c ≠ some (Char.ofNat 0)

instance (text : PyText) : Decidable text.Storable :=
  inferInstanceAs (Decidable (∀ c ∈ text, _))

/-- A `BIGINT`. -/
def FitsBigint (n : ℤ) : Prop := -2 ^ 63 ≤ n ∧ n < 2 ^ 63

instance : DecidablePred FitsBigint := fun _ => inferInstanceAs (Decidable (_ ∧ _))

/-- The counters of a run. -/
structure Counters where
  rows : ℤ
  docs : ℤ
  bytes : ℤ
  errors : ℤ
  deriving DecidableEq

/-- The columns can hold the counters. -/
def Counters.Fit (c : Counters) : Prop :=
  FitsBigint c.rows ∧ FitsBigint c.docs ∧ FitsBigint c.bytes ∧ FitsBigint c.errors

instance (c : Counters) : Decidable c.Fit := inferInstanceAs (Decidable (_ ∧ _))

/-- A row of `src.ingestion_run`. -/
structure RunRow where
  sourceId : String
  jobName : String
  status : RunStatus
  finished : Bool
  counters : Counters
  error : Option PyText
  configHash : Option String
  metadata : Jsonb
  actor : Option Actor

/-- What an audit record says of a run. -/
inductive RunAudit
  | start (sourceId jobName : String) (configHash : Option String) (metadata : Jsonb)
  | incrementRows (before after delta : ℤ)
  | setMetadata (before : Option Jsonb) (after : Jsonb)
  | complete (status : RunStatus) (counters : Counters) (errorTruncated : Bool)

/-- A row of `audit.events` about a run. -/
structure RunEvent where
  runId : ℤ
  audit : RunAudit
  actor : Actor

/-- The tables. -/
structure Db where
  /-- `src.source` has the source. -/
  source : String → Bool
  runs : ℤ → Option RunRow
  nextRunId : ℤ
  events : List RunEvent
  /-- The numbers from the next one on have not been used. -/
  runs_seq : ∀ id, nextRunId ≤ id → runs id = none

/-- A new row has the next number. -/
def Db.insert (db : Db) (row : RunRow) : Db :=
  { db with
    runs := fun id => if id = db.nextRunId then some row else db.runs id
    nextRunId := db.nextRunId + 1
    runs_seq := fun id hid => by
      rw [if_neg (by omega)]
      exact db.runs_seq id (by omega) }

/-- `UPDATE src.ingestion_run SET … WHERE ingestion_run_id = :id`. -/
def Db.update (db : Db) (runId : ℤ) (f : RunRow → RunRow) : Db :=
  { db with
    runs := fun id => if id = runId then (db.runs id).map f else db.runs id
    runs_seq := fun id hid => by
      rw [db.runs_seq id hid]
      split_ifs <;> rfl }

/-- What is raised. -/
inductive RunError (E : Type)
  /-- What the body has raised: an exception, or a cancellation. -/
  | body (e : E)
  | auditMissingActor
  | unknownSource (sourceId : String)
  /-- `json.dumps`, or the encoder of a parameter. -/
  | encoder
  | database
  deriving DecidableEq

variable {E : Type}

/-- A statement. -/
def execute {α : Type} (stmt : Db → Except (RunError E) (α × Db)) : Tx Db (RunError E) α :=
  Tx.execute .database stmt

/-- Where the calls are made. -/
structure RunEnv where
  /-- `Settings.audit_strict`. -/
  auditStrict : Bool
  /-- The actor of the context, in the block. -/
  actor : Option Actor

/-- `_audit_record_on_conn`: the statement fails, if there is a fault. -/
def auditRecordOnConn (env : RunEnv) (runId : ℤ) (audit : RunAudit) (fault : Bool) :
    Tx Db (RunError E) Unit :=
  if env.auditStrict ∧ env.actor.isNone then throw .auditMissingActor
  else execute fun db =>
    if fault then .error .database
    else
      let actor := env.actor.getD AuditEvent.systemUnknown
      .ok ((), { db with events := db.events ++ [{ runId, audit, actor }] })

/-! ### The handle -/

/-- `IngestionRunHandle`. -/
structure Handle where
  id : ℤ
  counters : Counters
  /-- `_metadata`, or `None`. -/
  metadata : PyObject
  /-- `_pending_metadata_audits`. -/
  pending : List (PyObject × PyObject)

/-- A new handle. -/
def Handle.init (runId : ℤ) : Handle := ⟨runId, ⟨0, 0, 0, 0⟩, .none, []⟩

/-- A call of the handle. The database may fail where it has a statement. -/
inductive HandleCall
  | incrementRows (n : ℤ) (fault : Bool)
  | incrementDocs (n : ℤ)
  | incrementBytes (n : ℤ)
  | incrementErrors (n : ℤ)
  | setMetadata (d : PyObject)

/-- What a call changes in memory. -/
def HandleCall.update (h : Handle) : HandleCall → Handle
  | incrementRows n _ => { h with counters := { h.counters with rows := h.counters.rows + n } }
  | incrementDocs n => { h with counters := { h.counters with docs := h.counters.docs + n } }
  | incrementBytes n => { h with counters := { h.counters with bytes := h.counters.bytes + n } }
  | incrementErrors n => { h with counters := { h.counters with errors := h.counters.errors + n } }
  | setMetadata d => { h with metadata := d, pending := h.pending ++ [(h.metadata, d)] }

/-- `json.dumps` can write the integers of the record of `increment_rows`. -/
def CanDump (h : Handle) (n : ℤ) : Prop :=
  FewDigits h.counters.rows ∧ FewDigits (h.counters.rows + n) ∧ FewDigits n

instance (h : Handle) (n : ℤ) : Decidable (CanDump h n) := inferInstanceAs (Decidable (_ ∧ _))

/-- What a call does on the connection: `_emit_handle_audit`, of `increment_rows`. -/
def HandleCall.emit (env : RunEnv) (h : Handle) : HandleCall → Tx Db (RunError E) Unit
  | incrementRows n fault =>
    if CanDump h n then
      auditRecordOnConn env h.id
        (.incrementRows h.counters.rows (h.counters.rows + n) n) fault
    else throw .encoder
  | _ => pure ()

/-- The calls of a body, one after the other: what one raises may be caught. -/
def runCalls (E : Type) (env : RunEnv) :
    List HandleCall → Handle → TxState Db → Handle × TxState Db
  | [], h, s => (h, s)
  | c :: cs, h, s => runCalls E env cs (c.update h) ((c.emit env h : Tx Db (RunError E) Unit) s).2

/-! ### The run -/

/-- The arguments of `ingestion_run`. -/
structure RunCall where
  sourceId : String
  jobName : String
  configHash : Option String
  metadata : Option PyDict
  actor : Option Actor

/-- `INSERT INTO src.ingestion_run … RETURNING ingestion_run_id, started_at`. -/
def insertRun (env : RunEnv) (call : RunCall) (metadata : Jsonb) (db : Db) :
    Except (RunError E) (ℤ × Db) :=
  if ([call.jobName] ++ call.configHash.toList).all storableText then
    .ok (db.nextRunId, db.insert
      { sourceId := call.sourceId
        jobName := call.jobName
        status := .running
        finished := false
        counters := ⟨0, 0, 0, 0⟩
        error := none
        configHash := call.configHash
        metadata
        actor := env.actor })
  else .error .database

/-- The run is opened: its row is committed. -/
def openRun (env : RunEnv) (call : RunCall) : Tx Db (RunError E) ℤ := do
  if env.auditStrict ∧ env.actor.isNone then throw .auditMissingActor
  else
    let known ← execute fun db =>
      if storableText call.sourceId then .ok (db.source call.sourceId, db) else .error .database
    if ¬known then throw (.unknownSource call.sourceId)
    else
      match (PyValue.dict (call.metadata.getD [])).jsonb with
      | none => throw .encoder
      | some metadata =>
        let runId ← execute (insertRun env call metadata)
        auditRecordOnConn env runId
          (.start call.sourceId call.jobName call.configHash metadata) false
        Tx.commit
        pure runId

/-- `_truncate_tb`. -/
def truncateTb (tb : PyText) : PyText := tb.drop (tb.length - 4000)

/-- The row of a run that is closed: its metadata are only set where the caller has set them. -/
def RunRow.close (status : RunStatus) (counters : Counters) (error : Option PyText)
    (metadata : Option Jsonb) (row : RunRow) : RunRow :=
  { row with
    status, counters, error
    finished := true
    metadata := metadata.getD row.metadata }

/-- A record of `set_metadata` that has been put off. -/
def flushPending (env : RunEnv) (runId : ℤ) (p : PyObject × PyObject) :
    Tx Db (RunError E) PUnit :=
  if p.1.isNone then
    match p.2.jsonb true with
    | none => throw .encoder
    | some after => auditRecordOnConn env runId (.setMetadata none after) false
  else
    match p.1.jsonb true, p.2.jsonb true with
    | some before, some after => auditRecordOnConn env runId (.setMetadata (some before) after) false
    | _, _ => throw .encoder

/-- `UPDATE src.ingestion_run SET …`, with the metadata where the caller has set them. -/
def updateRun (h : Handle) (status : RunStatus) (error : Option PyText) (metadata : Option Jsonb)
    (db : Db) : Except (RunError E) (Unit × Db) :=
  if h.counters.Fit ∧ ∀ text ∈ error, text.Storable then
    .ok ((), db.update h.id (.close status h.counters error metadata))
  else .error .database

/-- `_close_run`, after the metadata. -/
def closeWith (env : RunEnv) (h : Handle) (status : RunStatus) (error : Option PyText)
    (metadata : Option Jsonb) : Tx Db (RunError E) Unit := do
  execute (updateRun h status error metadata)
  h.pending.forM (flushPending env h.id)
  auditRecordOnConn env h.id (.complete status h.counters error.isSome) false
  Tx.commit

/-- `_close_run`. -/
def closeRun (env : RunEnv) (h : Handle) (status : RunStatus) (error : Option PyText) :
    Tx Db (RunError E) Unit :=
  if h.metadata.isNone then closeWith env h status error none
  else
    match h.metadata.jsonb false with
    | none => throw .encoder
    | some metadata => closeWith env h status error (some metadata)

/-- What a body does: some calls, and how it ends. -/
structure Body (E : Type) where
  calls : List HandleCall
  /-- What it raises, if it does not end normally: an exception or a cancellation. -/
  raised : Option E

/-- The block of a run, and its end. -/
def runBlock (env : RunEnv) (traceback : E → PyText) (runId : ℤ) (body : Body E)
    (s : TxState Db) : Except (RunError E) Unit × TxState Db :=
  let (h, s) := runCalls E env body.calls (.init runId) s
  match body.raised with
  | none => closeRun env h .succeeded none s
  | some e =>
    match closeRun env h .failed (some (truncateTb (traceback e))) s with
    | (.ok (), s) => (.error (.body e), s)
    | (.error e', s) => (.error e', s)

/-! ### The actor -/

/-- What the database has committed, and the actor of the context. -/
structure Session where
  db : Db
  actor : Option Actor

/-- `push_actor`: the token is the actor that there was. -/
def pushActor (actor : Actor) (s : Session) : Option Actor × Session :=
  (s.actor, { s with actor := some actor })

/-- `pop_actor`. -/
def popActor (token : Option Actor) (s : Session) : Session := { s with actor := token }

/-- `ingestion_run`, with the actor of the context: a connection that is closed keeps what it has
    committed. -/
def runAs (auditStrict : Bool) (call : RunCall) (traceback : E → PyText) (body : Body E)
    (s : Session) : Except (RunError E) Unit × Session :=
  let env : RunEnv := ⟨auditStrict, s.actor⟩
  match openRun env call ⟨s.db, s.db, false⟩ with
  | (.error e, t) => (.error e, { s with db := t.committed })
  | (.ok runId, t) =>
    let (result, t) := runBlock env traceback runId body t
    (result, { s with db := t.committed })

/-- `ingestion_run`. -/
def ingestionRun (auditStrict : Bool) (call : RunCall) (traceback : E → PyText) (body : Body E)
    (s : Session) : Except (RunError E) Unit × Session :=
  match call.actor with
  | none => runAs auditStrict call traceback body s
  | some actor =>
    let (token, s) := pushActor actor s
    let (result, s) := runAs auditStrict call traceback body s
    (result, popActor token s)

end AslanCore.Ingestion
