import AslanCore.Outbox.World
import AslanCore.RedisId

/-!
# The drainer of the outbox

The programs of `outbox_drainer.py`. A drainer runs `drainOutbox` again and again: an
iteration selects the oldest pending rows, appends each to its stream, records where in
`streams.event_id_to_redis` and marks the row published. The row that fails stays
pending, after a scan for an entry that was appended nevertheless
(`reconcileUnindexedXadd`).

The scan asks for pages until it is past the end of the stream. As every page advances
it, it is a recursion on the number of identifiers that are left.
-/

namespace AslanCore

namespace Outbox

open Prog

variable {Payload : Type}

/-- The programs of drainers and producers. -/
abbrev Program (Payload α : Type) := Prog (Cmd Payload) (Reply Payload) Exn α

/-- A single command. -/
abbrev request (c : Cmd Payload) : Program Payload (Reply Payload c) := perform c

/-- What the drainer computes of a JSON payload, and of an exception. -/
structure Env (Payload : Type) where
  /-- `json.dumps(payload)`. -/
  dumps : Payload → String
  /-- `str(payload.get(key) or "")`. -/
  getStr : Payload → String → String
  /-- `traceback.format_exc()`. -/
  formatExc : Exn → String

/-- The arguments of `drain_outbox` that have an effect on the stores. -/
structure DrainArgs where
  batchSize : ℕ
  redisDefaultMaxlen : ℕ

/-- The actor of the drainer. -/
def drainerActor : Actor := ⟨"system:streams.outbox_drainer", "system"⟩

/-- A block in a session, closed in the end. -/
def withSession {α : Type} (r : Role) (body : Program Payload α) : Program Payload α :=
  body.ensuring (request (.close r))

/-- The smallest identifier past the end of the stream, or `0-0`. -/
def captureStreamLowerBound (streamName : String) : Program Payload StreamId :=
  (do
    let last ← request (.xrevrange streamName)
    match last with
    | none => pure StreamId.zero
    | some lastId => pure (if lastId = StreamId.zero then StreamId.zero else redisIdIncrement lastId)).tryCatch
  fun
    | .redis _ => pure StreamId.zero
    | e => throw e

/-- The row of the lookup table for an entry, in a transaction of its own. -/
def indexEntry (r : Role) (eventId streamName : String) (rid : StreamId) :
    Program Payload Unit :=
  withSession r do
    request (.insertIndex r eventId streamName rid)
    request (.commit r)

/-- The row of the lookup table for an entry of a page, if it carries the event. -/
def indexMatch (streamName eventId : String) (entry : StreamId × Fields) :
    Program Payload Unit :=
  match entry.2.lookup "event_id" with
  | none => pure ()
  | some eid => if eid ≠ eventId then pure () else indexEntry .scan eventId streamName entry.1

/-- The pages of the stream from `cursor` to `upperBound`. -/
def scanPages (streamName eventId : String) (upperBound : StreamId) :
    ℕ → StreamId → Program Payload Unit
  | 0, _ => pure ()
  | fuel + 1, cursor => do
    let page ← request (.xrange streamName cursor upperBound 1000)
    match page.getLast? with
    | none => pure ()
    | some (lastId, _) =>
      forEach (indexMatch streamName eventId) page
      let cursor := redisIdIncrement lastId
      if 0 < redisIdCompare cursor upperBound then pure ()
      else scanPages streamName eventId upperBound fuel cursor

/-- The pages of the stream from `lowerBound` to its last entry, if it has one. -/
def scanFrom (streamName eventId : String) (lowerBound : StreamId) :
    Option StreamId → Program Payload Unit
  | none => pure ()
  | some upperBound =>
    if 0 < redisIdCompare lowerBound upperBound then pure ()
    else
      scanPages streamName eventId upperBound (upperBound.toNat + 1 - lowerBound.toNat) lowerBound

/-- The entries of the stream that carry the event, from `lowerBound` to the present end
    of the stream, get their row of the lookup table. -/
def reconcileUnindexedXadd (streamName eventId : String) (lowerBound : StreamId) :
    Program Payload Unit := do
  let lastEntry ← (request (.xinfoStream streamName)).tryCatch fun
    | .redis true => pure none
    | e => throw e
  scanFrom streamName eventId lowerBound lastEntry

variable (env : Env Payload)

/-- The fields of the entry of a row. -/
def xaddFields (row : Row Payload) : Fields :=
  [("event_id", row.eventId), ("schema_version", toString row.schemaVersion),
    ("payload", env.dumps row.payload), ("traceparent", env.getStr row.payload "traceparent"),
    ("kind", env.getStr row.payload "kind")]

/-- The row is appended to its stream and marked published, inside a savepoint. -/
def publishRow (maxlen : ℕ) (row : Row Payload) : Program Payload Unit := do
  let rid ← request (.xadd row.streamName (xaddFields env row) maxlen)
  indexEntry .index row.eventId row.streamName rid
  request (.markPublished rid row.outboxId)
  request (.insertIndex .batch row.eventId row.streamName rid)
  request .releaseSavepoint

/-- What follows a failure to publish the row: its effects are undone, an entry that was
    appended is searched for, and the failure is recorded. -/
def recoverRow (row : Row Payload) (lowerBound : StreamId) (e : Exn) : Program Payload Unit := do
  request .rollbackToSavepoint
  (reconcileUnindexedXadd row.streamName row.eventId lowerBound).tryCatch fun _ => pure ()
  request .beginNested
  request (.recordFailure ((env.formatExc e).take 4000).toString row.outboxId)
  request .releaseSavepoint
  -- A row that has failed too often is only logged.
  let _ ← request (.selectAttempts row.outboxId)

/-- A row of a batch, and the numbers of rows drained and failed so far. -/
def drainRow (maxlen : ℕ) (acc : ℕ × ℕ) (row : Row Payload) : Program Payload (ℕ × ℕ) := do
  request .beginNested
  let lowerBound ← captureStreamLowerBound row.streamName
  (do
    publishRow env maxlen row
    pure (acc.1 + 1, acc.2)).tryCatch fun e => do
      recoverRow env row lowerBound e
      pure (acc.1, acc.2 + 1)

/-- One batch, in a transaction that is left open: the numbers of rows drained and
    failed, and the ages of the oldest and the newest, in microseconds. -/
def drainOneBatch (args : DrainArgs) : Program Payload (ℕ × ℕ × ℤ × ℤ) := do
  let rows ← request (.selectPending args.batchSize)
  match rows with
  | [] => pure (0, 0, 0, 0)
  | row :: rest =>
    let now ← request .now
    let oldest := (rest.map (·.createdAt)).foldl min row.createdAt
    let newest := (rest.map (·.createdAt)).foldl max row.createdAt
    let (drained, failures) ← (row :: rest).foldlM (drainRow env args.redisDefaultMaxlen) (0, 0)
    pure (drained, failures, (now : ℤ) - oldest, (now : ℤ) - newest)

/-- The audit record of a batch. -/
def drainedRecord (drained failures : ℕ) (oldestAge newestAge : ℤ) : AuditRecord where
  operation := "stream.outbox_drained"
  targetSchema := "streams"
  targetTable := "outbox"
  targetPk := [("batch_drained_count", .int drained)]
  metadata := [("drained_count", .int drained), ("oldest_age_s", .int oldestAge),
    ("newest_age_s", .int newestAge), ("any_failure_count", .int failures)]

/-- An iteration of the daemon. -/
def drainOutbox (args : DrainArgs) : Program Payload Unit := do
  withSession .batch do
    let (drained, failures, oldestAge, newestAge) ← drainOneBatch env args
    if 0 < drained then
      request (.insertAudit
        { drainedRecord drained failures oldestAge newestAge with actor := drainerActor })
    else pure ()
    request (.commit .batch)
  let _ ← withSession .gauge (perform .countPending)

/-- What a process may be asked to do: an iteration of a drainer, or to publish an event. -/
inductive Job (Payload : Type)
  | drain (args : DrainArgs)
  | publish (row : Row Payload)

/-- Any number of drainers and producers. -/
def system (P : Type) [DecidableEq P] :
    System (Cmd Payload) (Reply Payload) Exn Unit P (Job Payload) Choice (World P Payload) where
  body _
    | .drain args => drainOutbox env args
    | .publish row => request (.publish row)
  exec := World.exec
  kill := World.kill

end Outbox

end AslanCore
