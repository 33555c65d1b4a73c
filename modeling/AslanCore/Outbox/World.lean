import AslanCore.Audit
import AslanCore.Process.System
import AslanCore.Store.Database
import AslanCore.Store.Select
import AslanCore.Store.Stream

/-!
# The outbox and its streams

What the drainers of the outbox share: the Redis streams they append to, and the
tables `streams.outbox`, `streams.event_id_to_redis` and `audit.events`. A command is
a single statement of a session, or a single Redis command (`Cmd`); what it does is
`World.exec`.

A drainer uses several sessions (`Role`): the one of its batch, whose transaction spans
the batch, and those for the transactions that are independent of it.

Producers insert rows into the outbox at any moment (`Cmd.publish`): their
transaction is executed in one command, as it only inserts a row.
-/

namespace AslanCore

namespace Outbox

/-- The fields of a stream entry. -/
abbrev Fields := List (String × String)

/-- The columns of an outbox row that a drainer selects. -/
structure Row (Payload : Type) where
  outboxId : ℕ
  streamName : String
  eventId : String
  schemaVersion : ℤ
  payload : Payload
  /-- In microseconds. -/
  createdAt : ℕ

/-- A row of `streams.outbox`: those columns, which are never written again, and the
    state of its publication. -/
structure OutboxRow (Payload : Type) extends Row Payload where
  publishedAt : Option ℕ
  redisMessageId : Option StreamId
  publishAttempts : ℕ
  lastAttemptAt : Option ℕ
  lastError : Option String

/-- The sessions of a drainer: the one of the batch, the one that records an entry after
    it is appended, the one that does so for an entry found by the scan, and the one
    that counts the pending rows. -/
inductive Role
  | batch
  | index
  | scan
  | gauge
  deriving DecidableEq

/-- The keys of the rows: the outbox by identifier, `streams.event_id_to_redis` by its
    primary key, and the audit events by their number. -/
inductive Key
  | outbox (outboxId : ℕ)
  | index (eventId streamName : String) (redisMessageId : StreamId)
  | audit (n : ℕ)
  deriving DecidableEq

/-- The rows under each key. -/
abbrev RowOf (Payload : Type) : Key → Type
  | .outbox _ => OutboxRow Payload
  | .index _ _ _ => Unit
  | .audit _ => AuditEvent

/-- The exceptions: of Redis (is it that the key does not exist?), of the database, and
    of a query that returns no row. -/
inductive Exn
  | redis (noSuchKey : Bool)
  | sql
  | noResultFound
  deriving DecidableEq

/-- The commands of the drainers, and of the producers. -/
inductive Cmd (Payload : Type)
  | selectPending (n : ℕ)
  | now
  | beginNested
  | releaseSavepoint
  | rollbackToSavepoint
  | xrevrange (stream : String)
  | xadd (stream : String) (fields : Fields) (maxlen : ℕ)
  | xinfoStream (stream : String)
  | xrange (stream : String) (min max : StreamId) (count : ℕ)
  | insertIndex (r : Role) (eventId streamName : String) (redisMessageId : StreamId)
  | markPublished (redisMessageId : StreamId) (outboxId : ℕ)
  | recordFailure (err : String) (outboxId : ℕ)
  | selectAttempts (outboxId : ℕ)
  | insertAudit (event : AuditEvent)
  | commit (r : Role)
  | close (r : Role)
  | countPending
  | publish (row : Row Payload)

/-- What a command answers. -/
abbrev Reply (Payload : Type) : Cmd Payload → Type
  | .selectPending _ => List (Row Payload)
  | .now | .selectAttempts _ | .countPending => ℕ
  | .xrevrange _ | .xinfoStream _ => Option StreamId
  | .xadd _ _ _ => StreamId
  | .xrange _ _ _ _ => List (StreamId × Fields)
  | _ => Unit

/-- What is left open: what goes wrong, the identifier Redis draws and how many entries
    it evicts, the rows an ordered query selects, and the time. -/
structure Choice where
  fault : Fault := .none
  id : StreamId := .zero
  evict : ℕ := 0
  rows : List ℕ := []
  now : ℕ := 0

/-- The state shared by the processes `P`. -/
structure World (P Payload : Type) where
  nextOutboxId : ℕ
  nextAuditId : ℕ
  streams : Streams Fields
  db : Database (P × Role) Key (RowOf Payload)

/-- The rows that are pending in the outbox, in the order of their identifiers. -/
structure Contents (Payload : Type) where
  rows : List (OutboxRow Payload)
  pending : ∀ o ∈ rows, o.publishedAt = none
  unique : (rows.map (·.eventId)).Nodup

namespace World

variable {P Payload : Type} [DecidableEq P] (s : World P Payload)

/-- The given rows are pending in the outbox. There is no stream, and no session in use. -/
def ofContents (c : Contents Payload) : World P Payload where
  nextOutboxId := c.rows.length
  nextAuditId := 0
  streams _ := none
  db := .ofRows fun
    | .outbox i => c.rows[i]?.map fun o => { o with outboxId := i }
    | _ => none

/-- The outcome of a Redis command that answers `a`, and leads to `s'`. -/
def redis {α : Type} (fault : Fault) (a : Except Exn α) (s' : World P Payload) :
    Option (Except Exn α × World P Payload) :=
  match fault with
  | .none => some (a, s')
  | .refused => some (.error (.redis false), s)
  | .lost => some (.error (.redis false), s')

/-- The outcome of a statement of a session. -/
def sql {α : Type} (t : P × Role) (fault : Fault)
    (stmt : Option (Except Exn (α × Database (P × Role) Key (RowOf Payload)))) :
    Option (Except Exn α × World P Payload) :=
  (s.db.statement t fault .sql stmt).map fun (r, db) => (r, { s with db })

/-- A row is pending, for a session, and it may be locked. -/
def Pending (t : P × Role) (i : ℕ) : Bool :=
  (s.db.view t (.outbox i)).any (·.publishedAt.isNone)

/-- The rows that are pending for a session, and that no other session has locked. -/
def available (t : P × Role) : List ℕ :=
  (List.range s.nextOutboxId).filter fun i => s.Pending t i ∧ s.db.CanLock t (.outbox i) true

/-- When a row was created. -/
def createdAt (t : P × Role) (i : ℕ) : ℕ := ((s.db.view t (.outbox i)).map (·.createdAt)).getD 0

/-- The rows are locked one after the other, and their columns returned. -/
def lockRows (t : P × Role) : List ℕ → Database (P × Role) Key (RowOf Payload) →
    Option (List (Row Payload) × Database (P × Role) Key (RowOf Payload))
  | [], db => some ([], db)
  | i :: is, db =>
    match db.selectForUpdate t (.outbox i) with
    | some (some o, db') => (lockRows t is db').map fun (rows, db'') => (o.toRow :: rows, db'')
    | _ => none

/-- The rows of the outbox that carry an event. -/
def withEvent (eventId : String) : List ℕ :=
  (List.range s.nextOutboxId).filter fun i =>
    (s.db.committed (.outbox i)).any (·.eventId = eventId)

/-- The outbox row that a producer inserts: its identifier is drawn by the database. -/
def newRow (row : Row Payload) : OutboxRow Payload where
  toRow := { row with outboxId := s.nextOutboxId }
  publishedAt := none
  redisMessageId := none
  publishAttempts := 0
  lastAttemptAt := none
  lastError := none

/-- The effect of a command of the process `p`. -/
def exec (p : P) (c : Cmd Payload) (o : Choice) (s : World P Payload) :
    Option (Except Exn (Reply Payload c) × World P Payload) :=
  match c with
  | .selectPending n =>
    -- `SKIP LOCKED`: the rows locked by others are not waited for.
    s.sql (p, .batch) o.fault <|
      if IsTop (s.createdAt (p, .batch)) n (s.available (p, .batch)) o.rows then
        (lockRows (p, .batch) o.rows s.db).map .ok
      else none
  | .now => some (.ok o.now, s)
  | .beginNested =>
    s.sql (p, .batch) o.fault (some (.ok ((), s.db.savepoint (p, .batch))))
  | .releaseSavepoint =>
    s.sql (p, .batch) o.fault (some (.ok ((), s.db.release (p, .batch))))
  | .rollbackToSavepoint =>
    let (r, db) := s.db.rollbackTo (p, .batch) o.fault .sql
    some (r, { s with db })
  | .xrevrange n =>
    s.redis o.fault (.ok ((s.streams.get n).entries.getLast?.map (·.1))) s
  | .xadd n f maxlen =>
    if h : (s.streams.get n).lastId < o.id then
      -- `MAXLEN ~`: the oldest entries may be evicted, down to `maxlen`.
      let st := (s.streams.get n).append o.id f h
      let st := st.trim (min o.evict (st.entries.length - maxlen))
      s.redis o.fault (.ok o.id) { s with streams := s.streams.set n st }
    else none
  | .xinfoStream n =>
    match s.streams n with
    | none => s.redis o.fault (.error (.redis true)) s
    | some st => s.redis o.fault (.ok (st.entries.getLast?.map (·.1))) s
  | .xrange n lo hi count => s.redis o.fault (.ok ((s.streams.get n).range lo hi count)) s
  | .insertIndex r eid sn rid =>
    s.sql (p, r) o.fault
      ((s.db.insertNew (p, r) (.index eid sn rid) ()).map fun (_, db) => .ok ((), db))
  | .markPublished rid i =>
    s.sql (p, .batch) o.fault <|
      (s.db.updateRow (p, .batch) (.outbox i) (fun _ => true) fun row =>
        { row with publishedAt := some o.now, redisMessageId := some rid }).map
          fun (_, db) => .ok ((), db)
  | .recordFailure err i =>
    s.sql (p, .batch) o.fault <|
      (s.db.updateRow (p, .batch) (.outbox i) (fun _ => true) fun row =>
        { row with
          publishAttempts := row.publishAttempts + 1
          lastAttemptAt := some o.now
          lastError := some err }).map fun (_, db) => .ok ((), db)
  | .selectAttempts i =>
    s.sql (p, .batch) o.fault <| some <|
      match s.db.view (p, .batch) (.outbox i) with
      | some row => .ok (row.publishAttempts, s.db)
      | none => .error .noResultFound
  | .insertAudit e =>
    (s.sql (p, .batch) o.fault <|
      (s.db.insertNew (p, .batch) (.audit s.nextAuditId) e).map fun (_, db) => .ok ((), db)).map
        fun (r, s') => (r, { s' with nextAuditId := s.nextAuditId + 1 })
  | .commit r =>
    let (res, db) := s.db.commit (p, r) o.fault .sql
    some (res, { s with db })
  | .close r =>
    let (res, db) := s.db.close (p, r) o.fault .sql
    some (res, { s with db })
  | .countPending =>
    s.sql (p, .gauge) o.fault
      (some (.ok (((List.range s.nextOutboxId).filter (s.Pending (p, .gauge))).length, s.db)))
  | .publish row =>
    -- `event_id` is unique in the outbox.
    if s.withEvent row.eventId ≠ [] ∨ o.fault = .refused then some (.error .sql, s)
    else
      (s.db.insertNew (p, .batch) (.outbox s.nextOutboxId) (s.newRow row)).map fun (_, db) =>
        (if o.fault = .lost then .error .sql else .ok (),
          { s with nextOutboxId := s.nextOutboxId + 1, db := db.commitTx (p, .batch) .ready })

/-- The transaction of a session is undone, as its connection is closed. -/
def abort (p : P) (ρ : Role) (s : World P Payload) : World P Payload :=
  { s with db := s.db.abort (p, ρ) .ready }

/-- The state after a process is killed: the transactions of its sessions are undone. -/
def kill (p : P) (s : World P Payload) : World P Payload :=
  (((s.abort p .batch).abort p .index).abort p .scan).abort p .gauge

end World

end Outbox

end AslanCore
