import AslanCore.Deadletter.World
import AslanCore.RedisId

/-!
# The routing to the dead letters

`deadletter.py`: an entry that a consumer cannot process is routed to the dead-letter stream of
its stream, in steps that are committed one by one.

* `acquireOrAdoptIntent`: who routes a failure. A worker whose intent is stale is presumed dead,
  and the entry it may have appended is searched for (`findOrphanInDeadletterStream`);
* `routeToDeadletter`: the failure is logged, the entry is appended and indexed, and then the log
  row is updated (`step4UpdateLogAndAudit`).
-/

namespace AslanCore

namespace Deadletter

open Prog
open Streams (Uuid)

/-- The programs of the processes. -/
abbrev Program (α : Type) := Prog Cmd Reply Exn α

/-- A single command. -/
abbrev request (c : Cmd) : Program (Reply c) := perform c

/-- A block in a session, closed in the end. -/
def withSession {α : Type} (r : Role) (body : Program α) : Program α :=
  body.ensuring (request (.close r))

/-- The text of an identifier. -/
def ridStr (rid : StreamId) : String := toString rid.ms ++ "-" ++ toString rid.seq

/-- Who acts, and whether an actor is asked for. -/
structure Context where
  auditStrict : Bool
  currentActor : Option Actor

/-- `audit.record`. -/
def auditRecord (ctx : Context) (r : Role) (record : AuditRecord) : Program Unit :=
  match AuditEvent.record ctx.auditStrict ctx.currentActor record with
  | none => throw .auditMissingActor
  | some e => request (.insertAudit r e)

/-- What is to be routed, and who routes it. -/
structure Routing where
  stream : String
  group : String
  consumerName : String
  messageId : String
  eventId : Uuid
  failureCount : ℤ
  lastError : String
  payloadExcerpt : String
  ownerId : String

/-- The results of a routing. -/
inductive RoutingResult
  | complete (redisMessageId : StreamId)
  | reconciledByAdoption (redisMessageId : StreamId)
  | aborted

/-- The results of `acquireOrAdoptIntent`. -/
inductive AdoptionResult
  | own (lowerBound : StreamId)
  | reconciledByUs (redisMessageId : StreamId)
  | abort

variable (env : Env) (ctx : Context)

/-! ### Orphans -/

/-- The first entry of a page that carries the failure, unless the fields of one before it are not
    text. -/
def findInPage (targetFailureId : ℤ) :
    List (StreamId × RawFields) → Except Exn (Option StreamId)
  | [] => .ok none
  | (entryId, fields) :: page =>
    match decodeFields fields with
    | none => .error .value
    | some fields =>
      if env.parseInt ((fields.lookup "failure_id").getD "-1") = some targetFailureId then
        .ok (some entryId)
      else findInPage targetFailureId page

/-- The pages of the stream from `cursor` to `upperBound`. -/
def findInPages (stream : String) (upperBound : StreamId) (targetFailureId : ℤ) :
    ℕ → StreamId → Program (Option StreamId)
  | 0, _ => pure none
  | fuel + 1, cursor => do
    let page ← request (.xrange (deadletterStream stream) cursor upperBound (some 10000))
    match page.getLast? with
    | none => pure none
    | some (lastId, _) =>
      match findInPage env targetFailureId page with
      | .error e => throw e
      | .ok (some entryId) => pure (some entryId)
      | .ok none =>
        let cursor := redisIdIncrement lastId
        if 0 < redisIdCompare cursor upperBound then pure none
        else findInPages stream upperBound targetFailureId fuel cursor

/-- `find_orphan_in_deadletter_stream`. The cursor is moved on by every page, so there are not
    more of them than identifiers. -/
def findOrphanInDeadletterStream (stream : String) (lowerBound : StreamId) (targetFailureId : ℤ) :
    Program (Option StreamId) := do
  let lastEntry ← (request (.xinfoStream (deadletterStream stream))).tryCatch fun
    | .redis true => pure none
    | e => throw e
  match lastEntry with
  | none => pure none
  | some upperBound =>
    if upperBound = .zero then pure none
    else
      findInPages env stream upperBound targetFailureId (upperBound.toNat - lowerBound.toNat + 1)
        lowerBound

/-! ### Intents -/

/-- The audit record of an orphan that is adopted. -/
def orphanReconciledRecord (failureId : ℤ) (canonical : StreamId) (existing : IntentRow) :
    AuditRecord where
  operation := "stream.deadletter_orphan_reconciled"
  targetSchema := "streams"
  targetTable := "deadletter_log"
  targetPk := [("failure_id", .int failureId)]
  metadata := [("redis_message_id", .str (ridStr canonical)), ("via", .str "stale_adoption"),
    ("prior_owner", .str existing.ownerId),
    ("prior_lower_bound", .str (ridStr existing.redisLowerBoundId))]

/-- The audit record of an intent whose entry was not found. -/
def orphanLostRecord (failureId : ℤ) (existing : IntentRow) : AuditRecord where
  operation := "stream.deadletter_orphan_lost"
  targetSchema := "streams"
  targetTable := "deadletter_log"
  targetPk := [("failure_id", .int failureId)]
  metadata := [("action", .str "lost"), ("via", .str "stale_adoption"),
    ("prior_owner", .str existing.ownerId),
    ("prior_lower_bound", .str (ridStr existing.redisLowerBoundId))]

/-- A stale intent of another worker is adopted. -/
def adoptStaleIntent (failureId : ℤ) (owner : String) (lowerBound : StreamId) (stream : String)
    (existing : IntentRow) : Program AdoptionResult := do
  let orphan ← findOrphanInDeadletterStream env stream existing.redisLowerBoundId failureId
  match orphan with
  | some rid =>
    request (.insertIndexNew failureId rid)
    let canonical ← request (.selectIndex .main failureId)
    match canonical with
    | none => throw .sql
    | some canonical =>
      let _ ← request (.updateLogRouted failureId canonical)
      request (.deleteIntent failureId)
      auditRecord ctx .main (orphanReconciledRecord failureId canonical existing)
      pure (.reconciledByUs canonical)
  | none =>
    request (.replaceIntent failureId owner lowerBound)
    auditRecord ctx .main (orphanLostRecord failureId existing)
    pure (.own lowerBound)

/-- The age from which on an intent is stale: 60 s. -/
def staleAge : ℤ := 60000000

/-- One attempt of `acquire_or_adopt_intent`: it has no result if the intent that was there is
    gone, as another worker has completed the routing in between. -/
def tryAcquireIntent (failureId : ℤ) (owner : String) (lowerBound : StreamId) (stream : String) :
    Program (Option AdoptionResult) := do
  let inserted ← request (.insertIntent failureId stream lowerBound owner)
  if inserted then pure (some (.own lowerBound))
  else
    let existing ← request (.selectIntentForUpdate failureId)
    match existing with
    | none => pure none
    | some (existing, age) =>
      if existing.ownerId = owner then do
        request (.touchIntent failureId)
        pure (some (.own existing.redisLowerBoundId))
      else if age < staleAge then pure (some .abort)
      else do
        let adoption ← adoptStaleIntent env ctx failureId owner lowerBound stream existing
        pure (some adoption)

/-- `acquire_or_adopt_intent`, with a number of attempts left after the first one. -/
def acquireOrAdoptIntent (failureId : ℤ) (owner : String) (lowerBound : StreamId)
    (stream : String) : ℕ → Program AdoptionResult
  | 0 => do
    let adoption ← tryAcquireIntent env ctx failureId owner lowerBound stream
    match adoption with
    | some adoption => pure adoption
    | none => throw (.contention failureId)
  | attempts + 1 => do
    let adoption ← tryAcquireIntent env ctx failureId owner lowerBound stream
    match adoption with
    | some adoption => pure adoption
    | none => acquireOrAdoptIntent failureId owner lowerBound stream attempts

/-! ### The steps of a routing -/

/-- The audit record of a failure that is routed. -/
def deadletterRecord (r : Routing) (uuidStr : String) (failureId : ℤ) (rid : StreamId) :
    AuditRecord where
  operation := "stream.deadletter"
  targetSchema := "streams"
  targetTable := "deadletter_log"
  targetPk := [("failure_id", .int failureId)]
  metadata := [("event_id", .str uuidStr), ("failure_id", .int failureId),
    ("stream_name", .str r.stream), ("group_name", .str r.group),
    ("redis_message_id", .str (ridStr rid))]

/-- An exception of Redis is ignored. -/
def ignoringRedisError (body : Program Unit) : Program Unit :=
  body.tryCatch fun
    | .redis _ => pure ()
    | e => throw e

/-- `_step_4_update_log_and_audit`. -/
def step4UpdateLogAndAudit (r : Routing) (failureId : ℤ) (rid : StreamId) (ourXadd : Bool) :
    Program RoutingResult :=
  withSession .main do
    let updated ← request (.updateLogRouted failureId rid)
    if updated then do
      auditRecord ctx .main
        (deadletterRecord r (env.parse.codec.uuidStr r.eventId) failureId rid)
      request (.commit .main)
      pure (.complete rid)
    else do
      -- Another worker has routed the failure: its entry is kept.
      let winner ← request (.selectLogRid failureId)
      match winner.join with
      | none => do
        request (.commit .main)
        throw .assertion
      | some winner =>
        if ourXadd ∧ winner ≠ rid then do
          request (.deleteIndex failureId rid)
          ignoringRedisError (request (.xdel (deadletterStream r.stream) rid))
        request (.commit .main)
        pure (.complete winner)

/-- `_capture_redis_lower_bound`. -/
def captureRedisLowerBound (stream : String) : Program StreamId := do
  let lastEntry ← (request (.xinfoStream stream)).tryCatch fun
    | .redis _ => pure none
    | e => throw e
  pure (lastEntry.getD .zero)

/-- `_coerce_jsonb_str`. -/
def coerceJsonbStr (payloadExcerpt : String) : Except Exn String :=
  if payloadExcerpt = "" then .ok "null"
  else
    match loads env.parse.depth payloadExcerpt with
    | .ok _ => .ok payloadExcerpt
    | .error .recursion => .error .recursion
    | .error _ => .ok (String.ofList ((Json.str payloadExcerpt).render {}))

/-- The error that is written. -/
def truncatedError (r : Routing) : String := (r.lastError.take 8000).toString

/-- The row of the log. -/
def logInsert (r : Routing) (payload : String) : LogInsert where
  streamName := r.stream
  groupName := r.group
  originalMessageId := r.messageId
  consumerName := r.consumerName
  failureCount := r.failureCount
  lastError := truncatedError r
  payloadExcerpt := payload

/-- The fields of the entry of the dead-letter stream. -/
def xaddFields (r : Routing) (failureId : ℤ) : Fields :=
  [("event_id", env.parse.codec.uuidStr r.eventId), ("failure_id", toString failureId),
    ("stream_name", r.stream), ("group_name", r.group), ("consumer_name", r.consumerName),
    ("failure_count", toString r.failureCount), ("last_error", truncatedError r),
    ("payload", r.payloadExcerpt)]

/-- What follows an entry that could not be indexed: it is deleted, and the winner is looked up. -/
def recheckWinner (r : Routing) (failureId : ℤ) (rid : StreamId) (e : Exn) :
    Program StreamId := do
  request (.rollback .main)
  ignoringRedisError (request (.xdel (deadletterStream r.stream) rid))
  let winner ← withSession .recheck (request (.selectIndex .recheck failureId))
  match winner with
  | none => throw e
  | some winner => pure winner

/-- Step 3: the entry is appended and indexed, and the intent deleted. An entry that is not
    indexed has a winner. -/
def appendAndIndex (r : Routing) (failureId : ℤ) : Program RoutingResult := do
  let rid ← request (.xadd (deadletterStream r.stream) (xaddFields env r failureId))
  let lost ← withSession .main do
    let winner ← (do
      request (.insertIndex failureId rid)
      pure none).tryCatch fun
      | .sql => do
        let winner ← recheckWinner r failureId rid .sql
        pure (some winner)
      | e => throw e
    match winner with
    | some winner => do
      -- Step 4 is run before the session is closed.
      let result ← step4UpdateLogAndAudit env ctx r failureId winner false
      pure (some result)
    | none => do
      request (.deleteIntent failureId)
      request (.commit .main)
      pure none
  match lost with
  | some result => pure result
  | none => step4UpdateLogAndAudit env ctx r failureId rid true

/-- Steps 2.4 to 4, of a failure that is not indexed. -/
def routeUnindexed (r : Routing) (failureId : ℤ) : Program RoutingResult := do
  let lowerBound ← captureRedisLowerBound (deadletterStream r.stream)
  let adoption ← withSession .main do
    let adoption ← acquireOrAdoptIntent env ctx failureId r.ownerId lowerBound r.stream 3
    request (.commit .main)
    pure adoption
  match adoption with
  | .abort => pure .aborted
  | .reconciledByUs rid => pure (.reconciledByAdoption rid)
  | .own _ => appendAndIndex env ctx r failureId

/-- `route_to_deadletter`. -/
def routeToDeadletter (r : Routing) : Program RoutingResult := do
  let (failureId, existingRid) ← withSession .main do
    match coerceJsonbStr env r.payloadExcerpt with
    | .error e => throw e
    | .ok payload =>
      let row ← request (.insertLog (logInsert r payload))
      request (.commit .main)
      pure row
  match existingRid with
  | some rid => pure (.complete rid)
  | none =>
    let indexed ← withSession .main (request (.selectIndex .main failureId))
    match indexed with
    | some rid => step4UpdateLogAndAudit env ctx r failureId rid false
    | none => routeUnindexed env ctx r failureId

end Deadletter

end AslanCore
