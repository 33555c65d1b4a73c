import AslanCore.Deadletter.Redaction

/-!
# The consumers

`StreamConsumer` of `consumer.py`. An entry goes through the gates, its event is looked up in the
registry of redactions, the event is claimed, and then, under the lock of the event, it is looked
up again, and yielded (`processMessage`).

* An event that is acknowledged is audited before the script that marks it as processed
  (`acknowledge`).
* An entry that does not pass the gates, or whose event has failed too often, is routed to the dead
  letters (`route`).
-/

namespace AslanCore

namespace Deadletter

open Prog
open Streams (Uuid KnownStreamEvent StreamError ConsumerConfig)

/-- A consumer, and what it consumes. -/
structure Consumer where
  cfg : ConsumerConfig
  ctx : Context
  stream : String
  group : String
  consumerName : String

/-- What may be raised is raised. -/
def ofExcept {α : Type} : Except Exn α → Program α
  | .ok a => pure a
  | .error e => throw e

variable (env : Env) (c : Consumer)

/-- The key of the events that are processed. -/
def processedKey : String := "stream:" ++ c.stream ++ ":" ++ c.group ++ ":processed"

/-- The key of the claim on an event. -/
def claimKey (eventId : Uuid) : String :=
  "stream:" ++ c.stream ++ ":" ++ c.group ++ ":claim:" ++ env.parse.codec.uuidStr eventId

/-- The key of the numbers of failures. -/
def failuresKey : String := "stream:" ++ c.stream ++ ":" ++ c.group ++ ":failures"

/-! ### Failures -/

/-- The fields of an entry as they are kept with its dead letter. -/
@[irreducible]
def payloadExcerpt (fields : Fields) : String :=
  ((((Json.obj (fields.map fun f => (f.1, .str f.2))).dumps {}).getD "").take 4096).toString

/-- `StreamConsumer._route`. -/
def route (mid : StreamId) (eventId : Uuid) (fields : Fields) (failureCount : ℤ)
    (lastError : String) : Program Unit := do
  let result ← routeToDeadletter env c.ctx
    { stream := c.stream
      group := c.group
      consumerName := c.consumerName
      messageId := ridStr mid
      eventId
      failureCount
      lastError
      payloadExcerpt := payloadExcerpt fields
      ownerId := c.cfg.ownerId }
  match result with
  | .complete _ | .reconciledByAdoption _ =>
    ignoringRedisError (request (.xack c.stream c.group mid))
  | .aborted => pure ()

/-- `StreamConsumer._handle_permanent_failure`. -/
def handlePermanentFailure (mid : StreamId) (eventId : Option Uuid) (fields : Fields)
    (error : StreamError) : Program Unit :=
  route env c mid (eventId.getD 0) fields (c.cfg.maxAttemptsBeforeDeadletter + 1)
    (error.lastError env.parse.codec)

/-- `StreamConsumer._handle_caller_exception`. -/
def handleCallerException (mid : StreamId) (eventId : Uuid) (fields : Fields)
    (lastError : String) : Program Unit := do
  ignoringRedisError (request (.del (claimKey env c eventId)))
  let failures ← request (.hincrby (failuresKey c) (ridStr mid))
  if failures > c.cfg.maxAttemptsBeforeDeadletter then
    route env c mid eventId fields failures lastError
  else pure ()

/-! ### Events -/

/-- The audit record of an event that is acknowledged. -/
def ackRecord (mid : StreamId) (eventId : Uuid) (isRedacted : Bool) : AuditRecord where
  operation := if isRedacted then "stream.consumed_redacted" else "stream.consume_ack"
  targetSchema := "streams"
  targetTable := "consumer"
  targetPk := [("event_id", .str (env.parse.codec.uuidStr eventId))]
  metadata := [("event_id", .str (env.parse.codec.uuidStr eventId)),
    ("stream_name", .str c.stream), ("group_name", .str c.group),
    ("consumer_name", .str c.consumerName), ("redis_message_id", .str (ridStr mid)),
    ("redacted", .bool isRedacted)]

/-- The caller acknowledges an event, and goes on whatever is raised: whether the lock was
    released. -/
def acknowledge (mid : StreamId) (eventId : Uuid) (isRedacted : Bool) : Program Bool := do
  let released ← (do
    auditRecord c.ctx .lock (ackRecord env c mid eventId isRedacted)
    request (.commit .lock)
    request (.close .lock)
    pure true).tryCatch fun _ => pure false
  if released then do
    (request (.ackScript (processedKey c) (claimKey env c eventId) c.stream
      (env.parse.codec.uuidStr eventId) c.group mid)).tryCatch fun _ => pure ()
    pure true
  else pure false

/-- The lock is released. -/
def releaseLock : Program Unit := do
  request (.rollback .lock)
  request (.close .lock)

/-- The `finally` clause: the lock is released, unless it has been. -/
def ensureReleased (released : Bool) : Program Unit := if released then pure () else releaseLock

/-- What follows a yield. -/
def resume (mid : StreamId) (eventId : Uuid) (fields : Fields) (released : Bool) :
    Resume → Program Unit
  | .next => ensureReleased released
  | .throw traceback => do
    (do
      handleCallerException env c mid eventId fields ((traceback.take 4000).toString)
      releaseLock).tryCatch fun e => do
        ensureReleased released
        throw e
    throw .caller
  | .close => do
    ensureReleased released
    throw .generatorExit

/-- The exceptions after which the claim and the lock are released. -/
def Exn.releasesClaim : Exn → Bool
  | .redis _ | .sql | .stream _ | .redactionIntegrity _ _ => true
  | _ => false

/-- What is yielded of a claimed event, with the lock of the event taken: what the registry has of
    it, or else what was found before, and whether it is redacted. -/
def lockEvent (event : KnownStreamEvent) (candidate : Option KnownStreamEvent) :
    Program (KnownStreamEvent × Bool) := do
  let eventId := event.toStreamEvent.eventId
  request (.acquireEventLock .lock eventId)
  let authoritative ← fetchRegistryEntry .lock eventId
  match authoritative with
  | some entry => do
    let event ← ofExcept (eventFromRegistry env c.stream eventId entry.redactedPayload
      entry.redactedPayloadHash)
    pure (event, true)
  | none => pure (candidate.getD event, candidate.isSome)

/-- Step 4: the event is looked up again under its lock, and yielded. -/
def yieldEvent (mid : StreamId) (fields : Fields) (event : KnownStreamEvent)
    (candidate : Option KnownStreamEvent) : Program Unit := do
  let (event, isRedacted) ← (lockEvent env c event candidate).tryCatch fun e => do
    if e.releasesClaim then do
      request (.del (claimKey env c event.toStreamEvent.eventId))
      releaseLock
    throw e
  let eventId := event.toStreamEvent.eventId
  let action ← request (.yield event)
  match action with
  | .ack r => do
    let released ← acknowledge env c mid eventId isRedacted
    resume env c mid eventId fields released r
  | .resume r => resume env c mid eventId fields false r

/-- The text of a claim. -/
def claimPayload (mid : StreamId) (now : ℕ) : String :=
  String.ofList ((Json.obj [("owner", .str c.consumerName), ("message_id", .str (ridStr mid)),
    ("claimed_at", .str (env.isoformat now))]).render {})

/-- Whether a claim is one of the consumer. A claim that is no JSON has no owner. -/
def ownsClaim (existing : String) : Except Exn Bool :=
  match loads env.parse.depth existing with
  | .ok (.obj claim) =>
    match claim.lookup "owner" with
    | some (.str owner) => .ok (owner = c.consumerName)
    | _ => .ok false
  | .ok _ => .error .attribute
  | .error .decode => .ok false
  | .error e => .error (exnOfLoads e)

/-- Step 3: the event is claimed. -/
def claimEvent (mid : StreamId) (fields : Fields) (event : KnownStreamEvent)
    (candidate : Option KnownStreamEvent) : Program Unit := do
  let eventId := event.toStreamEvent.eventId
  let now ← request .time
  let claimed ← request (.setNx (claimKey env c eventId) (claimPayload env c mid now))
  if claimed then yieldEvent env c mid fields event candidate
  else
    let existingRaw ← request (.get (claimKey env c eventId))
    match existingRaw with
    | none => pure ()
    | some existingRaw =>
      match decode existingRaw with
      | none => throw .value
      | some "" => pure ()
      | some existing => do
        let mine ← ofExcept (ownsClaim env c existing)
        if mine then yieldEvent env c mid fields event candidate
        else do
          -- Another consumer has the event, or has processed it.
          let processed ← request
            (.sismember (processedKey c) (env.parse.codec.uuidStr eventId))
          if processed then request (.xack c.stream c.group mid) else pure ()

/-- The steps after the gates. -/
def processEvent (mid : StreamId) (fields : Fields) (event : KnownStreamEvent) :
    Program Unit := do
  let eventId := event.toStreamEvent.eventId
  let early ← withSession .early (fetchCachedRegistryEntry env .early eventId)
  let candidate ← match early with
    | none => pure none
    | some entry => do
      let event ← ofExcept (eventFromRegistry env c.stream eventId entry.redactedPayload
        entry.redactedPayloadHash)
      pure (some event)
  let processed ← request (.sismember (processedKey c) (env.parse.codec.uuidStr eventId))
  if processed then request (.xack c.stream c.group mid)
  else claimEvent env c mid fields event candidate

/-- The exception of a gate. -/
def exnOfGate : Streams.GateExn → Exn
  | .stream e => .stream e
  | .valueError => .value
  | .recursionError => .recursion

/-- `StreamConsumer._process_message`. -/
def processMessage (mid : StreamId) (fields : Fields) : Program Unit :=
  match Streams.gate env.parse c.cfg c.stream (ridStr mid) fields with
  | .error e => throw (exnOfGate e)
  | .ok (.deadletter eventId error) => handlePermanentFailure env c mid eventId fields error
  | .ok (.event event) => processEvent env c mid fields event

/-! ### The loop -/

/-- An entry that is read: its fields are decoded first. -/
def processEntry (entry : StreamId × RawFields) : Program Unit :=
  match decodeFields entry.2 with
  | none => throw .value
  | some fields => processMessage env c entry.1 fields

/-- An iteration of `StreamConsumer.consume`: the entries that have been idle for long enough, and
    then new ones. -/
def consumeOnce (count : ℕ) : Program Unit := do
  let claimed ← (request (.xautoclaim c.stream c.group count)).tryCatch fun
    | .redis _ => pure []
    | e => throw e
  forEach (processEntry env c) claimed
  let fresh ← request (.xreadgroup c.stream c.group count)
  forEach (processEntry env c) fresh

/-- The first iterations of `StreamConsumer.consume`. -/
def consume (count : ℕ) : ℕ → Program Unit
  | 0 => pure ()
  | n + 1 => do
    consumeOnce env c count
    consume count n

end Deadletter

end AslanCore
