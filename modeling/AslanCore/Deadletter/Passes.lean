import AslanCore.Deadletter.Janitor
import AslanCore.Process.Extension
import AslanCore.Store.Select

/-!
# The daemons of the dead letters

The first and the second pass of `janitor.py`, a cycle of all four, and the heart beats of
`heartbeat.py`.

* `pass1IntentReconciliation` goes through intents that are stale, and adopts them as a consumer
  does;
* `pass2StuckRowScan` goes through failures that are not routed yet, and completes their routing
  (`finishRoutingAfterAdoption`): the entry is the one that is indexed, or one that is found in the
  stream, or else a new one.

Their commands are those of the consumers and a few more (`PassCmd`). The rows of the log have no
more columns than the consumers read (`LogRow`): the others are left open here (`PassChoice`).
-/

namespace AslanCore

namespace Deadletter

open Prog
open Streams (Uuid)

/-! ### Commands -/

/-- The commands of the daemons, but for those of the consumers. -/
inductive PassCmd
  | selectStaleIntents
  | selectStuckRows
  | selectLogForUpdate (failureId : ℤ)
  | touchIntents (owner : String)

/-- The columns of a row of the log that are copied to an entry. -/
structure LogDetails where
  groupName : String := ""
  eventId : Uuid := 0
  failureCount : ℤ := 0
  payloadExcerpt : Json := .null
  lastError : Option String := none

/-- What a command answers: failures with their streams, or the stream and the columns of one. -/
abbrev PassReply : PassCmd → Type
  | .selectStaleIntents | .selectStuckRows => List (ℤ × String)
  | .selectLogForUpdate _ => Option (String × LogDetails)
  | .touchIntents _ => Unit

/-- What is left open besides: the order of rows that are equally old, when a failure was routed
    first (`routed_at`), and the other columns of its row. -/
structure PassChoice extends Choice where
  rows : List (ℤ × String) := []
  routedAt : ℤ → ℕ := fun _ => 0
  details : LogDetails := {}

/-- Five minutes. -/
def stuckAge : ℕ := 300000000

/-- A minute. -/
def heartbeatAge : ℕ := 60000000

namespace World

variable {P : Type} [DecidableEq P] (s : World P) (t : P × Role)

/-- When the intent of a failure was inserted. -/
def intentAt (failureId : ℤ) : ℕ := ((s.db.view t (.intent failureId)).map (·.intentAt)).getD 0

/-- The intents that are stale, with their streams. -/
def staleIntents (now : ℕ) : List (ℤ × String) :=
  s.failureIds.filterMap fun fid => do
    let row ← s.db.view t (.intent fid)
    if row.intentAt + stuckAge < now ∧ row.ownerHeartbeatAt + heartbeatAge < now then
      some (fid, row.streamName)
    else none

/-- The failures that have not been routed for a while, with their streams. -/
def stuckRows (routedAt : ℤ → ℕ) (now : ℕ) : List (ℤ × String) :=
  s.failureIds.filterMap fun fid => do
    let row ← s.db.view t (.log fid)
    if row.isStuck ∧ routedAt fid + stuckAge < now then some (fid, row.streamName) else none

/-- The rows after the heart beat of a worker. -/
def touchIntents (owner : String) (now : ℕ) :
    List ℤ → Database (P × Role) Key RowOf → Option (Database (P × Role) Key RowOf)
  | [], db => some db
  | fid :: fids, db => do
    let (_, db) ← db.updateRow t (.intent fid) (·.ownerId = owner) fun row =>
      { row with ownerHeartbeatAt := now }
    touchIntents owner now fids db

/-- The effect of a command of the daemon `p`. -/
def execPass (p : P) (c : PassCmd) (o : PassChoice) (s : World P) :
    Option (Except Exn (PassReply c) × World P) :=
  match c with
  | .selectStaleIntents =>
    if IsTop (fun row => s.intentAt (p, .main) row.1) 100 (s.staleIntents (p, .main) o.now)
        o.rows then
      s.query (p, .main) o.fault o.rows
    else none
  | .selectStuckRows =>
    if IsTop (fun row => o.routedAt row.1) 100 (s.stuckRows (p, .main) o.routedAt o.now)
        o.rows then
      s.query (p, .main) o.fault o.rows
    else none
  | .selectLogForUpdate fid =>
    s.sql (p, .main) o.fault <| (s.db.selectForUpdate (p, .main) (.log fid)).map fun (row, db) =>
      .ok (row.map fun row => (row.streamName, o.details), db)
  | .touchIntents owner =>
    s.sql (p, .main) o.fault <|
      (touchIntents (p, .main) owner o.now s.failureIds s.db).map fun db => .ok ((), db)

end World

/-! ### Programs -/

/-- The programs of the daemons. -/
abbrev DaemonProgram (α : Type) := Prog (Cmd ⊕ PassCmd) (Sum.elim Reply PassReply) Exn α

/-- A single command of the daemons. -/
abbrev ask (c : PassCmd) : DaemonProgram (PassReply c) := perform (Sum.inr c : Cmd ⊕ PassCmd)

/-- A block in a session, closed in the end. -/
def withDaemonSession {α : Type} (body : DaemonProgram α) : DaemonProgram α :=
  body.ensuring (request (.close .main)).inl

/-- The exceptions that the daemons log: `RedisError`, `SQLAlchemyError`, `ValueError`, `TypeError`
    and `RuntimeError`. -/
def Exn.isLogged : Exn → Bool
  | .redis _ | .sql | .value | .type | .recursion => true
  | _ => false

/-- What follows such an exception of a block: it is undone. -/
def undone (body : DaemonProgram Unit) : DaemonProgram Unit :=
  body.tryCatch fun e => if e.isLogged then (request (.rollback .main)).inl else throw e

/-- The janitor acts under its own name. -/
def janitorContext : Context := ⟨true, some janitorActor⟩

variable (env : Env)

/-- A stale intent is adopted, or given up. -/
def reconcileIntent (owner : String) (row : ℤ × String) : DaemonProgram Unit := do
  let lowerBound ← (captureRedisLowerBound (deadletterStream row.2)).inl
  let adoption ← (acquireOrAdoptIntent env janitorContext row.1 owner lowerBound row.2 3).inl
  match adoption with
  | .own _ => (request (.deleteIntent row.1)).inl
  | _ => pure ()
  (request (.commit .main)).inl

/-- `_pass_1_intent_reconciliation`. -/
def pass1IntentReconciliation (owner : String) : DaemonProgram Unit := do
  let rows ← withDaemonSession (ask .selectStaleIntents)
  forEach (fun row => withDaemonSession (undone (reconcileIntent env owner row))) rows

/-- `_resolve_canonical_orphan`. -/
def resolveCanonicalOrphan (streamName : String) (failureId : ℤ) : Program (Option StreamId) := do
  let indexed ← request (.selectIndex .main failureId)
  match indexed with
  | some rid => pure (some rid)
  | none =>
    let orphan ← findOrphanInDeadletterStream env streamName .zero failureId
    match orphan with
    | none => pure none
    | some rid => do
      request (.insertIndexNew failureId rid)
      pure (some rid)

/-- The fields of an entry that the janitor appends, unless the excerpt cannot be written. -/
def recoveredFields (failureId : ℤ) (streamName : String) (details : LogDetails) :
    Option Fields :=
  (details.payloadExcerpt.dumps {}).map fun payload =>
    [("event_id", env.parse.codec.uuidStr details.eventId), ("failure_id", toString failureId),
      ("stream_name", streamName), ("group_name", details.groupName),
      ("failure_count", toString details.failureCount),
      ("last_error", details.lastError.getD ""), ("payload", payload),
      ("recovered_by", "stream_deadletter_janitor")]

/-- The audit record of a failure that was held for lost. -/
def lostRecoveredRecord (failureId : ℤ) (rid : StreamId) (streamName : String) : AuditRecord where
  operation := "stream.deadletter_orphan_lost_recovered"
  targetSchema := "streams"
  targetTable := "deadletter_log"
  targetPk := [("failure_id", .int failureId)]
  metadata := [("redis_message_id", .str (ridStr rid)), ("stream_name", .str streamName),
    ("via", .str "janitor_pass2_redrive")]

/-- The audit record of a failure that the janitor has routed. -/
def recoveredRecord (failureId : ℤ) (rid : StreamId) (streamName : String)
    (details : LogDetails) : AuditRecord where
  operation := "stream.deadletter"
  targetSchema := "streams"
  targetTable := "deadletter_log"
  targetPk := [("failure_id", .int failureId)]
  metadata := [("event_id", .str (env.parse.codec.uuidStr details.eventId)),
    ("failure_id", .int failureId), ("stream_name", .str streamName),
    ("group_name", .str details.groupName), ("redis_message_id", .str (ridStr rid)),
    ("recovered_by_janitor", .bool true)]

/-- The entry of a failure: the one that there is, or else a new one. -/
def canonicalEntry (failureId : ℤ) (streamName : String) (details : LogDetails) :
    Program StreamId := do
  let canonical ← resolveCanonicalOrphan env streamName failureId
  match canonical with
  | some rid => pure rid
  | none =>
    match recoveredFields env failureId streamName details with
    | none => throw .value
    | some fields => do
      let rid ← request (.xadd (deadletterStream streamName) fields)
      request (.insertIndexNew failureId rid)
      pure rid

/-- The routing of a failure, whose row is locked, is completed. -/
def finishRouting (failureId : ℤ) (streamName : String) (details : LogDetails) :
    Program Unit := do
  let rid ← canonicalEntry env failureId streamName details
  let _ ← request (.updateLogRouted failureId rid)
  request (.deleteIntent failureId)
  let hadLostAudit ← request (.existsAudit "stream.deadletter_orphan_lost" failureId)
  if hadLostAudit then
    auditRecord janitorContext .main (lostRecoveredRecord failureId rid streamName)
  auditRecord janitorContext .main (recoveredRecord env failureId rid streamName details)

/-- `_finish_routing_after_adoption`. -/
def finishRoutingAfterAdoption (failureId : ℤ) : DaemonProgram Unit := do
  let row ← ask (.selectLogForUpdate failureId)
  match row with
  | none => throw .sql
  | some (streamName, details) => (finishRouting env failureId streamName details).inl

/-- The routing of a failure is completed, if its intent may be taken. -/
def redriveRow (owner : String) (row : ℤ × String) : DaemonProgram Unit := do
  let lowerBound ← (captureRedisLowerBound (deadletterStream row.2)).inl
  let adoption ← (acquireOrAdoptIntent env janitorContext row.1 owner lowerBound row.2 3).inl
  match adoption with
  | .own _ => finishRoutingAfterAdoption env row.1
  | _ => pure ()
  (request (.commit .main)).inl

/-- `_pass_2_stuck_row_scan`. -/
def pass2StuckRowScan (owner : String) : DaemonProgram Unit := do
  let rows ← withDaemonSession (ask .selectStuckRows)
  forEach (fun row => withDaemonSession (undone (redriveRow env owner row))) rows

/-- A cycle of `stream_deadletter_janitor`. -/
def janitorCycle (window : ℕ) (owner : String) : DaemonProgram Unit :=
  (do
    pass1IntentReconciliation env owner
    pass2StuckRowScan env owner
    pass3IndexToStreamVerification.inl
    (pass4StreamToIndexDefenseInDepth env window).inl).tryCatch fun e =>
      if e.isLogged then pure () else throw e

/-- An iteration of `heartbeat_active_intents`. -/
def heartbeatActiveIntents (owner : String) : DaemonProgram Unit :=
  (withDaemonSession do
    ask (.touchIntents owner)
    (request (.commit .main)).inl).tryCatch fun
      | .sql => pure ()
      | e => throw e

/-! ### Daemons -/

/-- What a process may be asked to do, with the daemons: a cycle of the janitor, a heart beat, or
    what any process may be asked to do. -/
inductive DaemonJob
  | base (j : Job)
  | janitor (window : ℕ) (owner : String)
  | heartbeat (owner : String)

/-- The program of a job. -/
def DaemonJob.program : DaemonJob → DaemonProgram Unit
  | .base j => (j.program env).inl
  | .janitor window owner => janitorCycle env window owner
  | .heartbeat owner => heartbeatActiveIntents owner

/-- Any number of consumers and daemons. -/
def daemons (P : Type) [DecidableEq P] :
    System (Cmd ⊕ PassCmd) (Sum.elim Reply PassReply) Exn Unit P DaemonJob PassChoice
      (World P) where
  body _ j := j.program env
  exec p c o s :=
    match c with
    | .inl c => World.exec env p c o.toChoice s
    | .inr c => World.execPass p c o s
  kill := World.kill

end Deadletter

end AslanCore
