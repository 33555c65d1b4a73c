import AslanCore.Audit
import AslanCore.Process.System
import AslanCore.Streams.Events

/-!
# The producer of events

The programs of `producer.py`. `publish` and `publishMany` insert rows into the outbox, and
one audit event, in the transaction of their caller.

* `World` is what they find and leave: the transaction of the caller, with everything it has
  written so far, and what the constraints of `streams.outbox` depend on;
* `stamp` fills the fields of an event that the producer is the authority on;
* an insertion that violates a constraint ends the transaction of the caller
  (`insertOutbox`).
-/

namespace AslanCore

namespace Streams

open Prog

/-- An event of any model: its envelope, the literal of its kind if it has one, and the
    fields of its model in JSON. -/
structure Event extends StreamEvent where
  kind : Option String
  body : JsonObject

/-- An event of a known kind. -/
def KnownStreamEvent.toEvent (c : Codec) (e : KnownStreamEvent) : Event where
  toStreamEvent := e.toStreamEvent
  kind := some e.kind
  body := e.body c

/-- `event.model_dump(mode="json")`. -/
def Event.modelDump (c : Codec) (e : Event) : JsonObject := e.toStreamEvent.modelDump c ++ e.body

/-- The actor of the context of a request. -/
structure Caller where
  actorId : String
  actorKind : ActorKind
  clientIp : Option String
  userAgent : Option String

/-- The actor of the audit events of a caller. -/
def Caller.actor (a : Caller) : Actor := ⟨a.actorId, a.actorKind.str⟩

/-- What a producer is bound to, and finds in its context. -/
structure Context where
  ingestionRunId : ℤ
  currentActor : Option Caller
  auditStrict : Bool
  /-- The `traceparent` of the active span. -/
  traceparent : Option String

/-- A row of `streams.outbox`, as it is inserted. -/
structure OutboxRow where
  outboxId : ℕ
  streamName : String
  eventId : Uuid
  schemaVersion : ℤ
  payload : JsonObject
  producerRunId : ℤ
  sourceId : String
  createdAt : ℕ
  actorId : Option String
  actorKind : Option ActorKind
  clientIp : Option String
  userAgent : Option String
  requestId : Option Uuid

/-- What a transaction writes: rows of the outbox, audit events, and what the caller has
    written before. -/
inductive Write (W : Type)
  | outbox (row : OutboxRow)
  | audit (event : AuditEvent)
  | other (w : W)

/-- The exceptions: a constraint is violated, or the database fails otherwise; and those
    that the producer raises. -/
inductive PublishError
  | integrity
  | sql
  | eventIdConflict (eventId : Uuid) (streamName : String)
  | unknownEventKind (kind : String)
  | auditMissingActor

/-- The requests of a producer to its session, and to the clock. -/
inductive PublishCmd
  | now
  | flush (row : OutboxRow)
  | insertAudit (event : AuditEvent)
  | rollback

abbrev PublishReply : PublishCmd → Type
  | .now | .flush _ => ℕ
  | _ => Unit

/-- What is left open: whether the database fails, and the time. -/
structure PublishChoice where
  fails : Bool := false
  now : ℕ := 0

/-- What a producer finds: the rows that are committed in the outbox, the runs and the sources
    they refer to, and what the transaction of its caller has written, oldest first. -/
structure Tx (W : Type) where
  committed : List OutboxRow
  run : ℤ → Bool
  source : String → Bool
  pending : List (Write W)
  nextOutboxId : ℕ

namespace Tx

variable {W : Type} (s : Tx W)

/-- The rows of the outbox that the transaction has inserted. -/
def inserted : List OutboxRow :=
  s.pending.filterMap fun
    | .outbox row => some row
    | _ => none

/-- No constraint of the outbox keeps the row from being inserted: its event is not there yet,
    and what it refers to is. -/
def Admits (row : OutboxRow) : Prop :=
  (∀ r ∈ s.committed ++ s.inserted, r.eventId ≠ row.eventId) ∧
    s.run row.producerRunId = true ∧ s.source row.sourceId = true

instance (row : OutboxRow) : Decidable (s.Admits row) :=
  inferInstanceAs (Decidable (_ ∧ _))

/-- The effect of a request. -/
def exec (c : PublishCmd) (o : PublishChoice) (s : Tx W) :
    Option (Except PublishError (PublishReply c) × Tx W) :=
  match c with
  | .now => some (.ok o.now, s)
  | .flush row =>
    if o.fails then some (.error .sql, s)
    else if s.Admits row then
      some (.ok s.nextOutboxId, { s with
        pending := s.pending ++ [.outbox { row with outboxId := s.nextOutboxId }]
        nextOutboxId := s.nextOutboxId + 1 })
    else some (.error .integrity, { s with nextOutboxId := s.nextOutboxId + 1 })
  | .insertAudit event =>
    if o.fails then some (.error .sql, s)
    else some (.ok (), { s with pending := s.pending ++ [.audit event] })
  | .rollback =>
    -- All that the transaction has written is undone.
    if o.fails then some (.error .sql, { s with pending := [] })
    else some (.ok (), { s with pending := [] })

end Tx

/-- The programs of a producer. -/
abbrev Publish (α : Type) := Prog PublishCmd PublishReply PublishError α

/-- A single request. -/
abbrev publishRequest (c : PublishCmd) : Publish (PublishReply c) := perform c

/-- A computation that makes no request. -/
def ofExcept {α : Type} : Except PublishError α → Publish α
  | .ok a => pure a
  | .error e => throw e

/-- The stream of an event of a known kind, if it has one by default. -/
def streamForEventKind : String → Option String
  | "filing.new" => some "aslan.kap.filings.new"
  | "filing.amended" => some "aslan.kap.filings.amended"
  | "observation.batch" => some "aslan.evds.observations.new"
  | "entity.created" => some "aslan.entity.created"
  | _ => none

/-- The stream of an event: the one asked for, or that of its kind. -/
def resolveStream (event : Event) (explicit : Option String) : Except PublishError String :=
  match explicit with
  | some stream => .ok stream
  | none =>
    match event.kind.bind streamForEventKind with
    | some stream => .ok stream
    | none => .error (.unknownEventKind (event.kind.getD "None"))

/-- The envelope with the fields that the producer fills: its run, and the actor and the
    trace of the context where the event has none. -/
def StreamEvent.stamp (ctx : Context) (e : StreamEvent) : StreamEvent :=
  let e : StreamEvent := { e with producerRunId := ctx.ingestionRunId }
  let e : StreamEvent :=
    match ctx.currentActor with
    | some actor =>
      if e.actorId = none then
        { e with actorId := some actor.actorId, actorKind := some actor.actorKind }
      else e
    | none => e
  if e.traceparent = none then { e with traceparent := ctx.traceparent } else e

/-- The event, stamped. -/
def stamp (ctx : Context) (event : Event) : Event :=
  { event with toStreamEvent := event.toStreamEvent.stamp ctx }

/-- In strict mode, an actor is required. -/
def assertActorOrStrictRaise (ctx : Context) : Except PublishError Unit :=
  if ctx.auditStrict ∧ ctx.currentActor.isNone then .error .auditMissingActor else .ok ()

variable (c : Codec) (ctx : Context)

/-- The row of the outbox of an event: its identifier is drawn when it is inserted. -/
def outboxRow (event : Event) (stream : String) (now : ℕ) : OutboxRow where
  outboxId := 0
  streamName := stream
  eventId := event.eventId
  schemaVersion := event.schemaVersion
  payload := event.modelDump c
  producerRunId := event.producerRunId
  sourceId := event.sourceId
  createdAt := now
  actorId := ctx.currentActor.map (·.actorId)
  actorKind := ctx.currentActor.map (·.actorKind)
  clientIp := (ctx.currentActor.bind (·.clientIp)).filter (· ≠ "")
  userAgent := ctx.currentActor.bind (·.userAgent)
  requestId := event.requestId

/-- The row of an event is inserted. A violated constraint is reported as a conflict, after
    the transaction is rolled back. -/
def insertOutbox (event : Event) (stream : String) : Publish ℕ := do
  let now ← publishRequest .now
  (publishRequest (.flush (outboxRow c ctx event stream now))).tryCatch fun
    | .integrity => do
      publishRequest .rollback
      throw (.eventIdConflict event.eventId stream)
    | e => throw e

/-- `audit.record`, with the actor of the context. -/
def auditRecord (record : AuditRecord) : Publish Unit :=
  match AuditEvent.record ctx.auditStrict (ctx.currentActor.map Caller.actor) record with
  | some event => publishRequest (.insertAudit event)
  | none => throw .auditMissingActor

/-- The audit record of a single event. -/
def publishRecord (event : Event) (stream : String) (outboxId : ℕ) : AuditRecord where
  operation := "stream.publish"
  targetSchema := "streams"
  targetTable := "outbox"
  targetPk := [("outbox_id", .int outboxId)]
  metadata := [("event_id", .str (c.uuidStr event.eventId)), ("stream_name", .str stream),
    ("schema_version", .int event.schemaVersion),
    ("kind", .str (event.kind.getD "stream.event")), ("outbox_id", .int outboxId)]
  ingestionRunId := some ctx.ingestionRunId

/-- `StreamProducer.publish`. -/
def publish (event : Event) (stream : Option String) : Publish ℕ := do
  let resolved ← ofExcept (resolveStream event stream)
  ofExcept (assertActorOrStrictRaise ctx)
  let stamped := stamp ctx event
  let outboxId ← insertOutbox c ctx stamped resolved
  auditRecord ctx (publishRecord c ctx stamped resolved outboxId)
  pure outboxId

/-- No event of the list has the identifier of an earlier one, or one in `seen`. -/
def checkDistinct (stream : Option String) : List Event → List Uuid → Except PublishError Unit
  | [], _ => .ok ()
  | event :: events, seen =>
    if event.eventId ∈ seen then
      .error (.eventIdConflict event.eventId (stream.getD "<resolve-per-event>"))
    else checkDistinct stream events (event.eventId :: seen)

/-- What is checked and computed before any request: the stream of every event, and the events
    stamped. -/
def prepare (events : List Event) (stream : Option String) :
    Except PublishError (List (String × Event)) := do
  checkDistinct stream events []
  assertActorOrStrictRaise ctx
  let resolved ← events.mapM (resolveStream · stream)
  pure (resolved.zip (events.map (stamp ctx)))

/-- The audit record of a batch: the first hundred events, and the first twenty streams. -/
def publishManyRecord (rows : List (String × Event)) (outboxIds : List ℕ) : AuditRecord where
  operation := "stream.publish"
  targetSchema := "streams"
  targetTable := "outbox"
  targetPk := [("batch_first_outbox_id", .int (outboxIds.headD 0))]
  metadata := [("event_count", .int rows.length),
    ("event_ids", .strs ((rows.take 100).map fun r => c.uuidStr r.2.eventId)),
    ("streams", .strs (((rows.map Prod.fst).dedup.mergeSort (· ≤ ·)).take 20))]
  ingestionRunId := some ctx.ingestionRunId

/-- The rows of the events are inserted, in order. -/
def insertAll : List (String × Event) → Publish (List ℕ)
  | [] => pure []
  | (stream, event) :: rows => do
    let outboxId ← insertOutbox c ctx event stream
    let outboxIds ← insertAll rows
    pure (outboxId :: outboxIds)

/-- `StreamProducer.publish_many`. -/
def publishMany (events : List Event) (stream : Option String) : Publish (List ℕ) :=
  match events with
  | [] => pure []
  | _ => do
    let rows ← ofExcept (prepare ctx events stream)
    let outboxIds ← insertAll c ctx rows
    auditRecord ctx (publishManyRecord c ctx rows outboxIds)
    pure outboxIds

/-- A producer, which is asked to publish a list of events. -/
def producer (W : Type) : System PublishCmd PublishReply PublishError (List ℕ) Unit
    (List Event × Option String) PublishChoice (Tx W) where
  body _ j := publishMany c ctx j.1 j.2
  exec _ := Tx.exec
  kill _ s := { s with pending := [] }

end Streams

end AslanCore
