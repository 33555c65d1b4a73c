import AslanCore.Audit
import AslanCore.Process.System
import AslanCore.Store.Database
import AslanCore.Store.Stream
import AslanCore.Streams.Gate

/-!
# The dead letters

What the consumers and the janitor share: the streams in Redis with their groups of consumers,
the sets and the values under its keys, and the tables `streams.deadletter_log`,
`streams.deadletter_redis_index`, `streams.deadletter_xadd_intent`, `audit.events` and
`streams.redaction_registry`. A command is a single statement of a session, or a single Redis
command (`Cmd`); what it does is `World.exec`.

* The fields of an entry are bytes, under names that may be repeated: a client makes a
  dictionary of them (`dictOf`), and text, if they are text (`decodeFields`).
* An event is yielded in one command, whose answer is what the caller does with it. What has
  been yielded is the history of the world: no command reads it.
-/

namespace AslanCore

namespace Deadletter

open Streams (Uuid)

/-! ### Entries -/

/-- The fields of a stream entry, in bytes. -/
abbrev RawFields := List (ByteArray × ByteArray)

/-- Bytes are compared one by one. -/
instance decidableEqBytes : DecidableEq ByteArray := fun a b =>
  decidable_of_iff (a.data = b.data) ⟨ByteArray.ext, congrArg ByteArray.data⟩

theorem lastId_empty_lt : (Stream.empty : Stream RawFields).lastId < .ofMs 1 := by decide

/-- The fields of a stream entry, decoded. -/
abbrev Fields := List (String × String)

section

variable {α β : Type} [DecidableEq α]

/-- `d[k] = v`, in a dictionary. -/
def setItem (d : List (α × β)) (k : α) (v : β) : List (α × β) :=
  if d.any (·.1 = k) then d.map fun f => if f.1 = k then (k, v) else f else d ++ [(k, v)]

/-- The dictionary of some fields: of those of one name, the last is kept. -/
def dictOf (fields : List (α × β)) : List (α × β) :=
  fields.foldl (fun d f => setItem d f.1 f.2) []

end

/-- `value.decode()`, unless it raises. -/
def decode (value : ByteArray) : Option String := String.fromUTF8? value

/-- A field, decoded. -/
def decodeField (f : ByteArray × ByteArray) : Option (String × String) := do
  let k ← decode f.1
  let v ← decode f.2
  some (k, v)

/-- `_decode_fields`, unless it raises. -/
def decodeFields (fields : RawFields) : Option Fields := (dictOf fields).mapM decodeField

/-- The fields of an entry that is written. -/
def encodeFields (fields : Fields) : RawFields := fields.map fun f => (f.1.toUTF8, f.2.toUTF8)

/-- A text is decoded as it is written. -/
theorem decode_toUTF8 (s : String) : decode s.toUTF8 = some s := by
  simp only [decode, String.fromUTF8?]
  exact dif_pos s.isValidUTF8

theorem decodeField_toUTF8 (k v : String) : decodeField (k.toUTF8, v.toUTF8) = some (k, v) := by
  simp only [decodeField, decode_toUTF8]
  rfl

/-! ### Rows -/

/-- A row of `streams.deadletter_log`: the columns that are read. -/
structure LogRow where
  streamName : String
  routedAtRedis : Option ℕ
  redisMessageId : Option StreamId

/-- The routing of the failure has not been completed. -/
def LogRow.isStuck (row : LogRow) : Bool := row.routedAtRedis.isNone

/-- The row, once its failure is routed to an entry. -/
def LogRow.route (rid : StreamId) (now : ℕ) (row : LogRow) : LogRow :=
  { row with redisMessageId := some rid, routedAtRedis := some now }

/-- What is inserted into `streams.deadletter_log`. -/
structure LogInsert where
  streamName : String
  groupName : String
  originalMessageId : String
  consumerName : String
  failureCount : ℤ
  lastError : String
  payloadExcerpt : String

/-- A row of `streams.deadletter_xadd_intent`. The times are in microseconds. -/
structure IntentRow where
  streamName : String
  intentAt : ℕ
  redisLowerBoundId : StreamId
  ownerId : String
  ownerHeartbeatAt : ℕ

/-- A row of `streams.redaction_registry`, up to the event that is redacted. -/
structure RegistryRow where
  redactionReason : String
  originalStream : String
  redactedPayload : JsonObject
  redactedPayloadHash : String
  originalPayloadHash : String

/-- The keys of the rows: the log, the index and the intents by failure, the unique columns of
    the log, the audit events by their number, and the advisory locks of the events, which have
    no rows. -/
inductive Key
  | log (failureId : ℤ)
  | routing (streamName groupName originalMessageId : String)
  | index (failureId : ℤ)
  | intent (failureId : ℤ)
  | audit (n : ℕ)
  | lock (eventId : Uuid)
  deriving DecidableEq

/-- The rows under each key. The index has the identifier of an entry for each failure. -/
abbrev RowOf : Key → Type
  | .log _ => LogRow
  | .routing _ _ _ => ℤ
  | .index _ => StreamId
  | .intent _ => IntentRow
  | .audit _ => AuditEvent
  | .lock _ => Unit

/-- The sessions of a process: that of a statement or a routing, the one that looks for the
    winner of a race, and those of the early and of the authoritative look-up of a redaction. -/
inductive Role
  | main
  | recheck
  | early
  | lock
  deriving DecidableEq

/-! ### Commands -/

/-- The exceptions: of Redis (is it that the key does not exist?), of the database, those of the
    language, of a consumer that is closed, and those that the programs raise. -/
inductive Exn
  | redis (noSuchKey : Bool)
  | sql
  | value
  | type
  | key
  | attribute
  | recursion
  | assertion
  | contention (failureId : ℤ)
  | auditMissingActor
  | redactionIntegrity (eventId : Uuid) (streamName : String)
  | stream (e : Streams.StreamError)
  | caller
  | generatorExit

/-- How the caller resumes a consumer: it asks for the next event, it throws an exception into
    the consumer, with a traceback, or it closes it. -/
inductive Resume
  | next
  | throw (traceback : String)
  | close

/-- What the caller does with an event that is yielded to it: it resumes the consumer, after it
    has acknowledged the event, or without doing so. -/
inductive CallerAction
  | ack (r : Resume)
  | resume (r : Resume)

/-- The commands of the processes. -/
inductive Cmd
  | xinfoStream (stream : String)
  | xrange (stream : String) (min max : StreamId) (count : Option ℕ)
  | xrevrange (stream : String) (count : ℕ)
  | xadd (stream : String) (fields : Fields)
  | xdel (stream : String) (id : StreamId)
  | xack (stream group : String) (id : StreamId)
  | xautoclaim (stream group : String) (count : ℕ)
  | xreadgroup (stream group : String) (count : ℕ)
  | sismember (key member : String)
  | setNx (key value : String)
  | set (key value : String)
  | get (key : String)
  | time
  | del (key : String)
  | expire (key : String)
  | hincrby (key field : String)
  | ackScript (processedKey claimKey stream eventId group : String) (messageId : StreamId)
  | insertLog (row : LogInsert)
  | selectIndexPage (limit : ℕ)
  | selectStreams
  | selectIndex (r : Role) (failureId : ℤ)
  | selectLogExists (failureId : ℤ)
  | selectLogRid (failureId : ℤ)
  | existsAudit (operation : String) (failureId : ℤ)
  | insertIndex (failureId : ℤ) (redisMessageId : StreamId)
  | insertIndexNew (failureId : ℤ) (redisMessageId : StreamId)
  | deleteIndex (failureId : ℤ) (redisMessageId : StreamId)
  | insertIntent (failureId : ℤ) (streamName : String) (lowerBound : StreamId) (owner : String)
  | selectIntentForUpdate (failureId : ℤ)
  | touchIntent (failureId : ℤ)
  | replaceIntent (failureId : ℤ) (owner : String) (lowerBound : StreamId)
  | deleteIntent (failureId : ℤ)
  | updateLogRouted (failureId : ℤ) (redisMessageId : StreamId)
  | insertAudit (r : Role) (event : AuditEvent)
  | acquireEventLock (r : Role) (eventId : Uuid)
  | selectRegistry (r : Role) (eventId : Uuid)
  | redact (eventId : Uuid) (row : RegistryRow)
  | commit (r : Role)
  | rollback (r : Role)
  | close (r : Role)
  | yield (event : Streams.KnownStreamEvent)

/-- What a command answers. The reply to `XREVRANGE` may be no list; an intent comes with its age
    in microseconds. -/
abbrev Reply : Cmd → Type
  | .xinfoStream _ => Option StreamId
  | .xrange _ _ _ _ | .xautoclaim _ _ _ | .xreadgroup _ _ _ => List (StreamId × RawFields)
  | .xrevrange _ _ => Option (List (StreamId × RawFields))
  | .xadd _ _ => StreamId
  | .get _ => Option ByteArray
  | .time => ℕ
  | .hincrby _ _ => ℤ
  | .insertLog _ => ℤ × Option StreamId
  | .selectIndexPage _ => List (ℤ × StreamId × String)
  | .selectStreams => List String
  | .selectIndex _ _ => Option StreamId
  | .selectLogRid _ => Option (Option StreamId)
  | .selectIntentForUpdate _ => Option (IntentRow × ℤ)
  | .selectRegistry _ _ => Option RegistryRow
  | .sismember _ _ | .setNx _ _ | .selectLogExists _ | .existsAudit _ _ | .insertIntent _ _ _ _ |
    .updateLogRouted _ _ => Bool
  | .yield _ => CallerAction
  | _ => Unit

/-- What is left open: what goes wrong, the identifier that Redis draws, the time, the entries
    that have been idle for long enough, and what the caller does. -/
structure Choice where
  fault : Fault := .none
  id : StreamId := .zero
  now : ℕ := 0
  idle : List StreamId := []
  action : CallerAction := .resume .next

/-- What the stores and their clients are set up with. -/
structure Env where
  /-- `decode_responses` of the Redis client. -/
  decodeResponses : Bool
  /-- `int(value)`, unless it raises. -/
  parseInt : String → Option ℤ
  /-- The order of texts in the database. -/
  collate : String → String → Bool
  /-- What the events of the entries are parsed with. -/
  parse : Streams.ParseEnv
  /-- `hashlib.sha256(text.encode()).hexdigest()`. -/
  sha256 : String → String
  /-- `str(value)` of a value that is no text. -/
  strOf : Json → String
  /-- `dict(value)` of a value that is no dictionary, unless it raises. -/
  dictOf : Json → Option JsonObject
  /-- `datetime.isoformat()` of a time. -/
  isoformat : ℕ → String

/-- A group of consumers: the last entry that was delivered to it, and those that it has not
    acknowledged yet. -/
structure Group where
  lastDelivered : StreamId
  pending : List StreamId

/-- The state shared by the processes `P`. -/
structure World (P : Type) where
  nextFailureId : ℕ
  nextAuditId : ℕ
  streams : AslanCore.Streams RawFields
  groups : String → String → Option Group
  sets : String → String → Bool
  values : String → Option ByteArray
  counters : String → String → ℤ
  registry : Uuid → Option RegistryRow
  db : Database (P × Role) Key RowOf
  /-- The events that the processes have yielded. -/
  yielded : List (P × Streams.KnownStreamEvent)

/-- The stores of some streams and rows, that have not been used yet. -/
def World.ofRows {P : Type} [DecidableEq P] (nextFailureId : ℕ)
    (streams : AslanCore.Streams RawFields) (rows : (k : Key) → Option (RowOf k)) : World P where
  nextFailureId := nextFailureId
  nextAuditId := 0
  streams := streams
  groups _ _ := none
  sets _ _ := false
  values _ := none
  counters _ _ := 0
  registry _ := none
  db := .ofRows rows
  yielded := []

/-- The client raises on the entries: it decodes them, and they are not text. -/
def Unreadable (env : Env) (entries : List (StreamId × RawFields)) : Prop :=
  env.decodeResponses ∧ ∃ e ∈ entries, ∃ f ∈ e.2, decodeField f = none

instance (env : Env) (entries : List (StreamId × RawFields)) : Decidable (Unreadable env entries) :=
  inferInstanceAs (Decidable (_ ∧ _))

/-- The dead-letter stream of a stream. -/
def deadletterStream (stream : String) : String := stream ++ ".deadletter"

/-- The failures that a `BIGINT` may stand for. -/
def IsBigint (n : ℤ) : Prop := -2 ^ 63 ≤ n ∧ n < 2 ^ 63

instance : DecidablePred IsBigint := fun _ => inferInstanceAs (Decidable (_ ∧ _))

/-- The counts that an `INTEGER` may stand for. -/
def IsInteger (n : ℤ) : Prop := -2 ^ 31 ≤ n ∧ n < 2 ^ 31

instance : DecidablePred IsInteger := fun _ => inferInstanceAs (Decidable (_ ∧ _))

/-- A `TEXT` has no character NUL. -/
def IsText (s : String) : Prop := '\x00' ∉ s.toList

instance : DecidablePred IsText := fun _ => inferInstanceAs (Decidable (_ ∉ _))

mutual

/-- A `JSONB` may hold the value: its strings are texts, without the character NUL. -/
def isStorable : Json → Bool
  | .str s => IsText s
  | .notText => false
  | .float bits => Json.floatMagnitude bits < Binary64.infinity
  | .arr js => itemsStorable js
  | .obj fields => fieldsStorable fields
  | _ => true

/-- A `JSONB` may hold the items. -/
def itemsStorable : List Json → Bool
  | [] => true
  | j :: js => isStorable j && itemsStorable js

/-- A `JSONB` may hold the fields. -/
def fieldsStorable : List (String × Json) → Bool
  | [] => true
  | (k, j) :: fields => decide (IsText k) && isStorable j && fieldsStorable fields

end

/-- `CAST(text AS JSONB)` is not an error. -/
def IsJsonb (text : String) : Prop :=
  IsText text ∧ ∃ j, loads text.length text = .ok j ∧ isStorable j = true

/-- The row is accepted by the database. -/
def LogInsert.Storable (row : LogInsert) : Prop :=
  IsText row.streamName ∧ IsText row.groupName ∧ IsText row.originalMessageId ∧
    IsText row.consumerName ∧ IsInteger row.failureCount ∧ IsText row.lastError ∧
    IsJsonb row.payloadExcerpt

instance (text : String) : Decidable (IsJsonb text) :=
  decidable_of_iff (IsText text ∧ (match loads text.length text with
    | .ok j => isStorable j
    | .error _ => false) = true) <| by
      rw [IsJsonb]
      cases loads text.length text <;> simp

instance (row : LogInsert) : Decidable row.Storable := inferInstanceAs (Decidable (_ ∧ _))

namespace World

variable {P : Type} [DecidableEq P] (env : Env) (s : World P)

/-- The failures that have been given a number. -/
def failureIds : List ℤ := (List.range s.nextFailureId).map Int.ofNat

/-- The rows of the index that a session sees, with their streams, by failure. -/
def indexRows (t : P × Role) : List (ℤ × StreamId × String) :=
  s.failureIds.filterMap fun fid => do
    let rid ← s.db.view t (.index fid)
    let row ← s.db.view t (.log fid)
    some (fid, rid, row.streamName)

/-- The streams of the failures that a session sees. -/
def streamNames (t : P × Role) : List String :=
  (s.failureIds.filterMap fun fid => (s.db.view t (.log fid)).map (·.streamName)).dedup

/-- The audit events that a session sees. -/
def audits (t : P × Role) : List AuditEvent :=
  (List.range s.nextAuditId).filterMap fun n => s.db.view t (.audit n)

/-- The event is about an operation on a failure. -/
def IsAudit (operation : String) (failureId : ℤ) (e : AuditEvent) : Prop :=
  e.operation = operation ∧ ("failure_id", AuditValue.int failureId) ∈ e.targetPk

instance (operation : String) (failureId : ℤ) : DecidablePred (IsAudit operation failureId) :=
  fun _ => inferInstanceAs (Decidable (_ ∧ _))

/-- The outcome of a Redis command that answers `a`, and leads to `s'`. -/
def redis {α : Type} (fault : Fault) (a : Except Exn α) (s' : World P) :
    Option (Except Exn α × World P) :=
  match fault with
  | .none => some (a, s')
  | .refused => some (.error (.redis false), s)
  | .lost => some (.error (.redis false), s')

/-- The outcome of a statement of a session. -/
def sql {α : Type} (t : P × Role) (fault : Fault)
    (stmt : Option (Except Exn (α × Database (P × Role) Key RowOf))) :
    Option (Except Exn α × World P) :=
  (s.db.statement t fault .sql stmt).map fun (r, db) => (r, { s with db })

/-- The outcome of a query of a session, that answers `a`. -/
def query {α : Type} (t : P × Role) (fault : Fault) (a : α) : Option (Except Exn α × World P) :=
  s.sql t fault (some (.ok (a, s.db)))

/-- The outcome of a query of a session about a failure. -/
def queryFailure {α : Type} (t : P × Role) (fault : Fault) (failureId : ℤ) (a : α) :
    Option (Except Exn α × World P) :=
  s.sql t fault (some (if IsBigint failureId then .ok (a, s.db) else .error .sql))

/-- Entries as the client returns them, unless it raises. -/
def reply (entries : List (StreamId × RawFields)) : Except Exn (List (StreamId × RawFields)) :=
  if Unreadable env entries then .error .value else .ok entries

/-- A row that refers to the log is inserted: whether it was not there yet. -/
def insertChild (t : P × Role) (k : Key) (v : RowOf k) (failureId : ℤ) :
    Option (Except Exn (Bool × Database (P × Role) Key RowOf)) :=
  match s.db.insertNew t k v with
  | none => none
  | some (false, db) => some (.ok (false, db))
  | some (true, db) =>
    if s.db.view t (.log failureId) = none then some (.error .sql)
    else if s.db.CanRefer t (.log failureId) then some (.ok (true, db.addRef t (.log failureId)))
    else none

/-- `INSERT INTO streams.deadletter_log … ON CONFLICT (…) DO UPDATE … RETURNING`: the failure, and
    the entry it is routed to. The row that is there is locked, as it is updated. -/
def insertLog (t : P × Role) (row : LogInsert) :
    Option (Except Exn ((ℤ × Option StreamId) × Database (P × Role) Key RowOf)) :=
  let unique : Key := .routing row.streamName row.groupName row.originalMessageId
  -- The failures are drawn from a sequence, that may be exhausted.
  if ¬row.Storable ∨ ¬IsBigint s.nextFailureId then some (.error .sql)
  else
    match s.db.insertNew t unique (s.nextFailureId : ℤ) with
    | none => none
    | some (true, db) =>
      (db.insertNew t (.log s.nextFailureId) ⟨row.streamName, none, none⟩).map fun (_, db) =>
        .ok ((s.nextFailureId, none), db)
    | some (false, db) =>
      match s.db.view t unique with
      | none => none
      | some fid =>
        (db.updateRow t (.log fid) (fun _ => true) id).map fun (_, db') =>
          .ok ((fid, (s.db.view t (.log fid)).bind (·.redisMessageId)), db')

/-- The effect of a command of the process `p`. -/
def exec (p : P) (c : Cmd) (o : Choice) (s : World P) :
    Option (Except Exn (Reply c) × World P) :=
  match c with
  | .xinfoStream n =>
    match s.streams n with
    | none => s.redis o.fault (.error (.redis true)) s
    | some st =>
      -- The reply has the first entry and the last one.
      let ends := st.entries.head?.toList ++ st.entries.getLast?.toList
      s.redis o.fault ((reply env ends).map fun ends => ends.getLast?.map (·.1)) s
  | .xrange n lo hi count =>
    let st := s.streams.get n
    s.redis o.fault (reply env (st.range lo hi (count.getD st.entries.length))) s
  | .xrevrange n count =>
    match s.streams n with
    | none => s.redis o.fault (.ok (some [])) s
    | some st =>
      -- The reply to `COUNT 0` is a null array.
      if count = 0 then s.redis o.fault (.ok none) s
      else s.redis o.fault ((reply env (st.revRange count)).map some) s
  | .xadd n f =>
    if h : (s.streams.get n).lastId < o.id then
      s.redis o.fault (.ok o.id)
        { s with streams := s.streams.set n ((s.streams.get n).append o.id (encodeFields f) h) }
    else none
  | .xdel n i =>
    match s.streams n with
    | none => s.redis o.fault (.ok ()) s
    | some st => s.redis o.fault (.ok ()) { s with streams := s.streams.set n (st.delete i) }
  | .xack n g i => s.redis o.fault (.ok ()) { s with groups := acknowledge n g i }
  | .xautoclaim n g count =>
    match s.groups n g with
    | none => s.redis o.fault (.error (.redis false)) s
    | some group =>
      -- Any of the pending entries may have been idle for long enough.
      let claimed := ((s.streams.get n).entries.filter fun e =>
        e.1 ∈ group.pending ∧ e.1 ∈ o.idle).take count
      s.redis o.fault (reply env claimed) s
  | .xreadgroup n g count =>
    match s.groups n g with
    | none => s.redis o.fault (.error (.redis false)) s
    | some group =>
      let fresh := ((s.streams.get n).entries.filter (group.lastDelivered < ·.1)).take count
      let group : Group :=
        { lastDelivered := (fresh.getLast?.map (·.1)).getD group.lastDelivered
          pending := group.pending ++ fresh.map (·.1) }
      s.redis o.fault (reply env fresh)
        { s with groups := Function.update s.groups n (Function.update (s.groups n) g group) }
  | .sismember key member => s.redis o.fault (.ok (s.sets key member)) s
  | .setNx key value =>
    if (s.values key).isSome then s.redis o.fault (.ok false) s
    else s.redis o.fault (.ok true)
      { s with values := Function.update s.values key (some value.toUTF8) }
  | .set key value =>
    s.redis o.fault (.ok ()) { s with values := Function.update s.values key (some value.toUTF8) }
  | .get key =>
    if env.decodeResponses ∧ ∃ v ∈ s.values key, decode v = none then
      s.redis o.fault (.error .value) s
    else s.redis o.fault (.ok (s.values key)) s
  | .time => some (.ok o.now, s)
  | .del key => s.redis o.fault (.ok ()) { s with values := Function.update s.values key none }
  | .expire key =>
    some (.ok (), { s with
      values := Function.update s.values key none
      sets := Function.update s.sets key fun _ => false })
  | .hincrby key field =>
    let n := s.counters key field + 1
    s.redis o.fault (.ok n)
      { s with counters := Function.update s.counters key (Function.update (s.counters key) field n) }
  | .ackScript processedKey claimKey n eventId g i =>
    s.redis o.fault (.ok ())
      { s with
        sets := Function.update s.sets processedKey
          (Function.update (s.sets processedKey) eventId true)
        values := Function.update s.values claimKey none
        groups := acknowledge n g i }
  | .insertLog row =>
    -- The sequence is advanced also when there is a conflict.
    (s.sql (p, .main) o.fault (s.insertLog (p, .main) row)).map fun (r, s') =>
      (r, { s' with nextFailureId := min (s.nextFailureId + 1) (2 ^ 63) })
  | .selectIndexPage limit => s.query (p, .main) o.fault ((s.indexRows (p, .main)).take limit)
  | .selectStreams =>
    s.query (p, .main) o.fault ((s.streamNames (p, .main)).mergeSort env.collate)
  | .selectIndex r fid => s.queryFailure (p, r) o.fault fid (s.db.view (p, r) (.index fid))
  | .selectLogExists fid =>
    s.queryFailure (p, .main) o.fault fid (s.db.view (p, .main) (.log fid)).isSome
  | .selectLogRid fid =>
    s.query (p, .main) o.fault ((s.db.view (p, .main) (.log fid)).map (·.redisMessageId))
  | .existsAudit operation fid =>
    s.query (p, .main) o.fault ((s.audits (p, .main)).any (IsAudit operation fid))
  | .insertIndex fid rid =>
    s.sql (p, .main) o.fault <| (s.insertChild (p, .main) (.index fid) rid fid).map fun r =>
      r.bind fun (inserted, db) => if inserted then .ok ((), db) else .error .sql
  | .insertIndexNew fid rid =>
    s.sql (p, .main) o.fault <| (s.insertChild (p, .main) (.index fid) rid fid).map fun r =>
      r.map fun (_, db) => ((), db)
  | .deleteIndex fid rid =>
    s.sql (p, .main) o.fault
      ((s.db.deleteRow (p, .main) (.index fid) (· = rid)).map fun (_, db) => .ok ((), db))
  | .insertIntent fid n lb owner =>
    s.sql (p, .main) o.fault (s.insertChild (p, .main) (.intent fid)
      ⟨n, o.now, lb, owner, o.now⟩ fid)
  | .selectIntentForUpdate fid =>
    s.sql (p, .main) o.fault <| (s.db.selectForUpdate (p, .main) (.intent fid)).map
      fun (row, db) => .ok (row.map fun row => (row, (o.now : ℤ) - row.ownerHeartbeatAt), db)
  | .touchIntent fid =>
    s.sql (p, .main) o.fault <|
      (s.db.updateRow (p, .main) (.intent fid) (fun _ => true) fun row =>
        { row with ownerHeartbeatAt := o.now }).map fun (_, db) => .ok ((), db)
  | .replaceIntent fid owner lb =>
    s.sql (p, .main) o.fault <|
      (s.db.updateRow (p, .main) (.intent fid) (fun _ => true) fun row =>
        { row with
          ownerId := owner
          ownerHeartbeatAt := o.now
          intentAt := o.now
          redisLowerBoundId := lb }).map fun (_, db) => .ok ((), db)
  | .deleteIntent fid =>
    s.sql (p, .main) o.fault
      ((s.db.deleteRow (p, .main) (.intent fid) fun _ => true).map fun (_, db) => .ok ((), db))
  | .updateLogRouted fid rid =>
    s.sql (p, .main) o.fault
      ((s.db.updateRow (p, .main) (.log fid) LogRow.isStuck (LogRow.route rid o.now)).map .ok)
  | .insertAudit r e =>
    (s.sql (p, r) o.fault <|
      (s.db.insertNew (p, r) (.audit s.nextAuditId) e).map fun (_, db) => .ok ((), db)).map
        fun (r, s') => (r, { s' with nextAuditId := s.nextAuditId + 1 })
  | .acquireEventLock r eid =>
    s.sql (p, r) o.fault <|
      if h : s.db.CanLock (p, r) (.lock eid) true then
        some (.ok ((), s.db.lockRow (p, r) (.lock eid) true h))
      else none
  | .selectRegistry r eid => s.query (p, r) o.fault (s.registry eid)
  | .redact eid row =>
    -- The function takes the lock of the event, in a transaction that is committed at once.
    if ¬s.db.CanLock (p, .main) (.lock eid) true then none
    else if (s.registry eid).isSome ∨ o.fault = .refused then some (.error .sql, s)
    else
      some (if o.fault = .lost then .error .sql else .ok (),
        { s with registry := Function.update s.registry eid (some row) })
  | .commit r =>
    let (res, db) := s.db.commit (p, r) o.fault .sql
    some (res, { s with db })
  | .rollback r =>
    let (res, db) := s.db.rollback (p, r) o.fault .sql
    some (res, { s with db })
  | .close r =>
    let (res, db) := s.db.close (p, r) o.fault .sql
    some (res, { s with db })
  | .yield event => some (.ok o.action, { s with yielded := s.yielded ++ [(p, event)] })
where
  /-- The groups after an entry is acknowledged. -/
  acknowledge (n g : String) (i : StreamId) : String → String → Option Group :=
    Function.update s.groups n <| Function.update (s.groups n) g <|
      (s.groups n g).map fun group => { group with pending := group.pending.filter (· ≠ i) }

/-- The transaction of a session is undone, as its connection is closed. -/
def abort (p : P) (r : Role) (s : World P) : World P :=
  { s with db := s.db.abort (p, r) .ready }

/-- The state after a process is killed: the transactions of its sessions are undone. -/
def kill (p : P) (s : World P) : World P :=
  (((s.abort p .main).abort p .recheck).abort p .early).abort p .lock

end World

end Deadletter

end AslanCore
