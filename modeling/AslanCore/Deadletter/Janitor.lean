import AslanCore.Deadletter.Consumer

/-!
# The janitor of the dead letters

The third and the fourth pass of `janitor.py`, which compare the index of the dead letters with
what is left of them in Redis.

* `pass3IndexToStreamVerification` goes through rows of the index, and records those whose entry
  is missing;
* `pass4StreamToIndexDefenseInDepth` goes through the newest entries of the dead-letter streams:
  an entry gets its row of the index, or is deleted as an orphan (`reconcilePass4Entry`).

Each row, or entry, is handled in a session of its own, whose exceptions are only logged.
-/

namespace AslanCore

namespace Deadletter

open Prog

/-- The actor of the janitor. -/
def janitorActor : Actor := ⟨"system:streams.deadletter_janitor", "system"⟩

/-- What follows an exception of a block: it is undone, and the exception logged. -/
def logged (body : Program Unit) : Program Unit :=
  body.tryCatch fun _ => request (.rollback .main)

/-! ### Pass 3 -/

/-- The operation that records an index row whose entry is missing. -/
def orphanedInRedis : String := "stream.deadletter_index_orphaned_in_redis"

/-- The audit record of an index row whose entry is missing. -/
def orphanedInRedisRecord (failureId : ℤ) (rid : StreamId) (streamName : String) :
    AuditRecord where
  operation := orphanedInRedis
  targetSchema := "streams"
  targetTable := "deadletter_redis_index"
  targetPk := [("failure_id", .int failureId)]
  metadata := [("redis_message_id", .str (ridStr rid)), ("stream_name", .str streamName),
    ("reason", .str "redis_entry_missing_postgres_index_intact")]

/-- A row of the index: it is recorded, once, if its entry is missing. -/
def verifyIndexRow (row : ℤ × StreamId × String) : Program Unit := do
  let (failureId, rid, streamName) := row
  let entries ← request (.xrange (deadletterStream streamName) rid rid none)
  match entries with
  | _ :: _ => pure ()
  | [] =>
    let alreadyAudited ← request (.existsAudit orphanedInRedis failureId)
    if alreadyAudited then pure ()
    else do
      request (.insertAudit .main
        { orphanedInRedisRecord failureId rid streamName with actor := janitorActor })
      request (.commit .main)

/-- `_pass_3_index_to_stream_verification`. -/
def pass3IndexToStreamVerification : Program Unit := do
  let rows ← withSession .main (request (.selectIndexPage 1000))
  forEach (fun row => withSession .main (logged (verifyIndexRow row))) rows

/-! ### Pass 4 -/

/-- The audit record of an entry that is deleted because another one is indexed. -/
def duplicateRecord (failureId : ℤ) (rid canonical : StreamId) (streamName : String) :
    AuditRecord where
  operation := "stream.deadletter_orphan_xdel"
  targetSchema := "streams"
  targetTable := "deadletter_redis_index"
  targetPk := [("failure_id", .int failureId)]
  metadata := [("redis_message_id", .str (ridStr rid)),
    ("canonical_redis_message_id", .str (ridStr canonical)), ("stream_name", .str streamName),
    ("reason", .str "duplicate_orphan_already_indexed")]

/-- The audit record of an entry that is deleted because its failure is not in the log. -/
def unknownRecord (failureId : ℤ) (rid : StreamId) (streamName : String) : AuditRecord where
  operation := "stream.deadletter_orphan_xdel"
  targetSchema := "streams"
  targetTable := "deadletter_log"
  targetPk := [("failure_id", .int failureId)]
  metadata := [("redis_message_id", .str (ridStr rid)), ("stream_name", .str streamName),
    ("reason", .str "orphan_without_postgres_log")]

/-- The audit record of an entry that is indexed. -/
def reconciledRecord (failureId : ℤ) (rid : StreamId) (streamName : String) : AuditRecord where
  operation := "stream.deadletter_orphan_reconciled"
  targetSchema := "streams"
  targetTable := "deadletter_log"
  targetPk := [("failure_id", .int failureId)]
  metadata := [("redis_message_id", .str (ridStr rid)), ("stream_name", .str streamName),
    ("via", .str "pass4_recent_stream_scan")]

/-- The body of `_reconcile_pass4_entry`. -/
def reconcileEntry (streamName : String) (rid : StreamId) (failureId : ℤ) : Program Unit := do
  let existing ← request (.selectIndex .main failureId)
  match existing with
  | some canonical =>
    if canonical = rid then pure ()
    else do
      request (.xdel (deadletterStream streamName) rid)
      request (.insertAudit .main
        { duplicateRecord failureId rid canonical streamName with actor := janitorActor })
      request (.commit .main)
  | none =>
    let logExists ← request (.selectLogExists failureId)
    if logExists then do
      request (.insertIndexNew failureId rid)
      let _ ← request (.updateLogRouted failureId rid)
      request (.insertAudit .main
        { reconciledRecord failureId rid streamName with actor := janitorActor })
    else do
      request (.xdel (deadletterStream streamName) rid)
      request (.insertAudit .main
        { unknownRecord failureId rid streamName with actor := janitorActor })
    request (.commit .main)

/-- `_reconcile_pass4_entry`. -/
def reconcilePass4Entry (streamName : String) (rid : StreamId) (failureId : ℤ) : Program Unit :=
  withSession .main (logged (reconcileEntry streamName rid failureId))

variable (env : Env)

/-- An entry of a dead-letter stream: it raises if it is not text, or if its failure is not a
    number. -/
def reconcileFields (streamName : String) (entry : StreamId × RawFields) : Program Unit :=
  match decodeFields entry.2 with
  | none => throw .value
  | some fields =>
    match fields.lookup "failure_id" with
    | none => pure ()
    | some fidRaw =>
      match env.parseInt fidRaw with
      | none => throw .value
      | some failureId => reconcilePass4Entry streamName entry.1 failureId

/-- The newest entries of the dead-letter stream of a stream. -/
def reconcileStream (window : ℕ) (streamName : String) : Program Unit := do
  let entries ← (do
    let entries ← request (.xrevrange (deadletterStream streamName) window)
    pure (some entries)).tryCatch fun
      | .redis _ => pure none
      | e => throw e
  match entries with
  | none => pure ()
  | some none => throw .type
  | some (some entries) => forEach (reconcileFields env streamName) entries

/-- `_pass_4_stream_to_index_defense_in_depth`. -/
def pass4StreamToIndexDefenseInDepth (window : ℕ) : Program Unit := do
  let streams ← withSession .main (request .selectStreams)
  forEach (reconcileStream env window) streams

/-- What a process may be asked to do: to run a pass of the janitor, or to consume, for a number of
    iterations; a redaction is registered, or a key of Redis expires. -/
inductive Job
  | pass3
  | pass4 (window : ℕ)
  | consume (c : Consumer) (count iterations : ℕ)
  | redact (eventId : Streams.Uuid) (row : RegistryRow)
  | expire (key : String)

/-- The program of a job. -/
def Job.program : Job → Program Unit
  | .pass3 => pass3IndexToStreamVerification
  | .pass4 window => pass4StreamToIndexDefenseInDepth env window
  | .consume c count iterations => Deadletter.consume env c count iterations
  | .redact eventId row => request (.redact eventId row)
  | .expire key => request (.expire key)

/-- Any number of processes. -/
def system (P : Type) [DecidableEq P] : System Cmd Reply Exn Unit P Job Choice (World P) where
  body _ j := j.program env
  exec := World.exec env
  kill := World.kill

end Deadletter

end AslanCore
