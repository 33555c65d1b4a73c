import AslanCore.Store.Column
import Std.Data.String.ToInt
import Std.Data.String.ToNat

/-!
# Events

The payloads of `events.py`: the envelope that all events share, and the five known
kinds. `KnownStreamEvent.modelDump` is the JSON object of an event, and `validatePython`
reads one back: it dispatches on the field `kind`, reads every field of that kind, and
accepts no other field (`extra="forbid"`).

How the values of a field are written and read is left to pydantic (`Codec`).
-/

namespace AslanCore

namespace Streams

/-- The values of `UUID`. -/
abbrev Uuid := Fin (2 ^ 128)

/-- The values of `datetime` as they are compared: by instant when they have a time zone, and
    else by what the clock shows. -/
inductive DateTime
  | aware (instant : ℤ)
  | naive (wall : ℤ)
  deriving DecidableEq

/-- A datetime with a time zone. -/
def DateTime.IsAware : DateTime → Prop
  | .aware _ => True
  | .naive _ => False

instance : DecidablePred DateTime.IsAware := fun
  | .aware _ => isTrue trivial
  | .naive _ => isFalse nofun

/-- The kinds of actors. -/
inductive ActorKind
  | user
  | service
  | system
  deriving DecidableEq

/-- The literal of a kind of actors. -/
def ActorKind.str : ActorKind → String
  | .user => "user"
  | .service => "service"
  | .system => "system"

/-- The fields of every event. -/
structure StreamEvent where
  schemaVersion : ℤ
  eventId : Uuid
  producedAt : DateTime
  producerRunId : ℤ
  sourceId : String
  actorId : Option String := none
  actorKind : Option ActorKind := none
  traceparent : Option String := none
  requestId : Option Uuid := none
  requireTzAware : producedAt.IsAware

structure FilingNewEvent extends StreamEvent where
  filingId : Uuid
  entityId : Option Uuid
  filingKind : String
  title : String
  publishedAt : DateTime
  primaryObjectKey : String
  bucket : String
  isRevision : Bool
  revisionNo : ℤ

structure FilingAmendedEvent extends StreamEvent where
  filingId : Uuid
  previousFilingId : Uuid
  entityId : Option Uuid
  revisionNo : ℤ
  title : String
  publishedAt : DateTime

structure ObservationBatchEvent extends StreamEvent where
  seriesCode : String
  seriesId : ℤ
  tsMin : DateTime
  tsMax : DateTime
  asOfMin : DateTime
  asOfMax : DateTime
  nObservations : ℤ
  batchPayloadHash : String

structure EntityCreatedEvent extends StreamEvent where
  entityId : Uuid
  entityType : String
  legalName : String
  primaryIdentifierNamespace : Option String
  primaryIdentifierValue : Option String

structure StreamEntryRedactedEvent extends StreamEvent where
  targetEventId : Uuid
  targetStream : String
  redactionReason : String

/-- An event of a known kind. -/
inductive KnownStreamEvent
  | filingNew (e : FilingNewEvent)
  | filingAmended (e : FilingAmendedEvent)
  | observationBatch (e : ObservationBatchEvent)
  | entityCreated (e : EntityCreatedEvent)
  | streamEntryRedacted (e : StreamEntryRedactedEvent)

/-- How pydantic writes and reads the values of the types of fields. -/
structure Codec where
  /-- `str(uuid)`. -/
  uuidStr : Uuid → String
  isoformat : DateTime → String
  int : Json → Option ℤ
  bool : Json → Option Bool
  str : Json → Option String
  uuid : Json → Option Uuid
  datetime : Json → Option DateTime

/-- What is written is read back: a value of each type is preserved in JSON. -/
structure Codec.Lawful (c : Codec) : Prop where
  int : ∀ n, c.int (.int n) = some n
  bool : ∀ b, c.bool (.bool b) = some b
  str : ∀ s, c.str (.str s) = some s
  uuid : ∀ u, c.uuid (.str (c.uuidStr u)) = some u
  datetime : ∀ d, c.datetime (.str (c.isoformat d)) = some d

/-! ### A codec -/

/-- What follows the prefix of a text. -/
def stripPrefix (p s : String) : String := String.ofList (s.toList.drop p.length)

theorem stripPrefix_append {p t : String} : stripPrefix p (p ++ t) = t := by
  rw [stripPrefix, String.toList_append, ← String.length_toList, List.drop_left,
    String.ofList_toList]

/-- The codec for the identifiers and the times that differ in their last digit only: those it
    writes and reads as pydantic does. -/
def Codec.lastDigit : Codec where
  uuidStr u := "00000000-0000-0000-0000-00000000000" ++ Nat.repr u
  isoformat
    | .aware i => "2026-01-01T00:00:0" ++ (Int.repr i).push 'Z'
    | .naive i => "2026-01-01T00:00:0" ++ Int.repr i
  int
    | .int n => some n
    | _ => none
  bool
    | .bool b => some b
    | _ => none
  str
    | .str s => some s
    | _ => none
  uuid
    | .str s =>
      (stripPrefix "00000000-0000-0000-0000-00000000000" s).toNat?.bind fun n =>
        if h : n < 2 ^ 128 then some ⟨n, h⟩ else none
    | _ => none
  datetime
    | .str s =>
      let t := stripPrefix "2026-01-01T00:00:0" s
      if t.toList.getLast? = some 'Z' then (String.ofList t.toList.dropLast).toInt?.map .aware
      else t.toInt?.map .naive
    | _ => none

theorem getLast?_repr_ne (i : ℤ) : (Int.repr i).toList.getLast? ≠ some 'Z' := by
  intro h
  have hdigit : ∀ n : ℕ, 'Z' ∉ n.repr.toList := fun n hm => by
    rw [Nat.toList_repr] at hm
    exact absurd (Nat.isDigit_of_mem_toDigits (by omega) (by omega) hm) (by decide)
  have hm := List.mem_of_getLast? h
  rw [Int.repr_eq_if] at hm
  split at hm
  · exact hdigit _ hm
  · rw [String.toList_append] at hm
    rcases List.mem_append.1 hm with hm | hm
    · simp at hm
    · exact hdigit _ hm

theorem Codec.datetime_str (s : String) : lastDigit.datetime (.str s) =
    if (stripPrefix "2026-01-01T00:00:0" s).toList.getLast? = some 'Z' then
      (String.ofList (stripPrefix "2026-01-01T00:00:0" s).toList.dropLast).toInt?.map .aware
    else (stripPrefix "2026-01-01T00:00:0" s).toInt?.map .naive :=
  rfl

theorem Codec.datetime_isoformat_aware (i : ℤ) :
    lastDigit.datetime (.str (lastDigit.isoformat (.aware i))) = some (.aware i) := by
  have hlast : ((Int.repr i).push 'Z').toList.getLast? = some 'Z' := by
    rw [String.toList_push, List.getLast?_concat]
  rw [show lastDigit.isoformat (.aware i) = "2026-01-01T00:00:0" ++ (Int.repr i).push 'Z' from rfl,
    datetime_str, stripPrefix_append, if_pos hlast, String.toList_push, List.dropLast_concat,
    String.ofList_toList, Int.toInt?_repr, Option.map_some]

theorem Codec.datetime_isoformat_naive (i : ℤ) :
    lastDigit.datetime (.str (lastDigit.isoformat (.naive i))) = some (.naive i) := by
  rw [show lastDigit.isoformat (.naive i) = "2026-01-01T00:00:0" ++ Int.repr i from rfl,
    datetime_str, stripPrefix_append, if_neg (getLast?_repr_ne i), Int.toInt?_repr,
    Option.map_some]

theorem Codec.uuid_uuidStr (u : Uuid) : lastDigit.uuid (.str (lastDigit.uuidStr u)) = some u := by
  refine (congrArg (Option.bind · _) (congrArg String.toNat? stripPrefix_append)).trans ?_
  rw [Nat.toNat?_repr, Option.bind_some, dif_pos u.2]

theorem Codec.lawful_lastDigit : Codec.lastDigit.Lawful where
  int _ := rfl
  bool _ := rfl
  str _ := rfl
  uuid := Codec.uuid_uuidStr
  datetime
    | .aware i => Codec.datetime_isoformat_aware i
    | .naive i => Codec.datetime_isoformat_naive i

namespace KnownStreamEvent

/-- The envelope of an event. -/
def toStreamEvent : KnownStreamEvent → StreamEvent
  | filingNew e => e.toStreamEvent
  | filingAmended e => e.toStreamEvent
  | observationBatch e => e.toStreamEvent
  | entityCreated e => e.toStreamEvent
  | streamEntryRedacted e => e.toStreamEvent

/-- The event with another envelope. -/
def setStreamEvent (b : StreamEvent) : KnownStreamEvent → KnownStreamEvent
  | filingNew e => filingNew { e with toStreamEvent := b }
  | filingAmended e => filingAmended { e with toStreamEvent := b }
  | observationBatch e => observationBatch { e with toStreamEvent := b }
  | entityCreated e => entityCreated { e with toStreamEvent := b }
  | streamEntryRedacted e => streamEntryRedacted { e with toStreamEvent := b }

/-- The literal of the kind of an event. -/
def kind : KnownStreamEvent → String
  | filingNew _ => "filing.new"
  | filingAmended _ => "filing.amended"
  | observationBatch _ => "observation.batch"
  | entityCreated _ => "entity.created"
  | streamEntryRedacted _ => "stream.entry_redacted"

end KnownStreamEvent

/-! ### What is written -/

/-- A nullable value in JSON. -/
def orNull {α : Type} (f : α → Json) : Option α → Json
  | none => .null
  | some a => f a

variable (c : Codec)

/-- The fields of the envelope in JSON. -/
def StreamEvent.modelDump (e : StreamEvent) : JsonObject :=
  [("schema_version", .int e.schemaVersion), ("event_id", .str (c.uuidStr e.eventId)),
    ("produced_at", .str (c.isoformat e.producedAt)), ("producer_run_id", .int e.producerRunId),
    ("source_id", .str e.sourceId), ("actor_id", orNull .str e.actorId),
    ("actor_kind", orNull (fun k => .str k.str) e.actorKind),
    ("traceparent", orNull .str e.traceparent),
    ("request_id", orNull (fun u => .str (c.uuidStr u)) e.requestId)]

/-- The fields of its kind of an event in JSON. -/
def KnownStreamEvent.body : KnownStreamEvent → JsonObject
  | .filingNew e =>
    [("kind", .str "filing.new"), ("filing_id", .str (c.uuidStr e.filingId)),
      ("entity_id", orNull (fun u => .str (c.uuidStr u)) e.entityId),
      ("filing_kind", .str e.filingKind), ("title", .str e.title),
      ("published_at", .str (c.isoformat e.publishedAt)),
      ("primary_object_key", .str e.primaryObjectKey), ("bucket", .str e.bucket),
      ("is_revision", .bool e.isRevision), ("revision_no", .int e.revisionNo)]
  | .filingAmended e =>
    [("kind", .str "filing.amended"), ("filing_id", .str (c.uuidStr e.filingId)),
      ("previous_filing_id", .str (c.uuidStr e.previousFilingId)),
      ("entity_id", orNull (fun u => .str (c.uuidStr u)) e.entityId),
      ("revision_no", .int e.revisionNo), ("title", .str e.title),
      ("published_at", .str (c.isoformat e.publishedAt))]
  | .observationBatch e =>
    [("kind", .str "observation.batch"), ("series_code", .str e.seriesCode),
      ("series_id", .int e.seriesId), ("ts_min", .str (c.isoformat e.tsMin)),
      ("ts_max", .str (c.isoformat e.tsMax)), ("as_of_min", .str (c.isoformat e.asOfMin)),
      ("as_of_max", .str (c.isoformat e.asOfMax)), ("n_observations", .int e.nObservations),
      ("batch_payload_hash", .str e.batchPayloadHash)]
  | .entityCreated e =>
    [("kind", .str "entity.created"), ("entity_id", .str (c.uuidStr e.entityId)),
      ("entity_type", .str e.entityType), ("legal_name", .str e.legalName),
      ("primary_identifier_namespace", orNull .str e.primaryIdentifierNamespace),
      ("primary_identifier_value", orNull .str e.primaryIdentifierValue)]
  | .streamEntryRedacted e =>
    [("kind", .str "stream.entry_redacted"),
      ("target_event_id", .str (c.uuidStr e.targetEventId)),
      ("target_stream", .str e.targetStream), ("redaction_reason", .str e.redactionReason)]

/-- `event.model_dump(mode="json")`. -/
def KnownStreamEvent.modelDump (e : KnownStreamEvent) : JsonObject :=
  e.toStreamEvent.modelDump c ++ e.body c

/-! ### What is read -/

section Read

variable {α : Type}

/-- A field without a default value. -/
def required (o : JsonObject) (name : String) (read : Json → Option α) : Option α :=
  (o.lookup name).bind read

/-- A value that may be null. -/
def nullable (read : Json → Option α) : Json → Option (Option α)
  | .null => some none
  | j => (read j).map some

/-- A nullable field, null by default. -/
def optional (o : JsonObject) (name : String) (read : Json → Option α) : Option (Option α) :=
  match o.lookup name with
  | none => some none
  | some j => nullable read j

/-- A literal of a kind of actors. -/
def ActorKind.validate : Json → Option ActorKind
  | .str "user" => some .user
  | .str "service" => some .service
  | .str "system" => some .system
  | _ => none

end Read

/-- The names of the fields of the envelope. -/
def StreamEvent.fieldNames : List String :=
  ["schema_version", "event_id", "produced_at", "producer_run_id", "source_id", "actor_id",
    "actor_kind", "traceparent", "request_id"]

/-- The envelope of an object. -/
def StreamEvent.validate (o : JsonObject) : Option StreamEvent := do
  let schemaVersion ← required o "schema_version" c.int
  let eventId ← required o "event_id" c.uuid
  let producedAt ← required o "produced_at" c.datetime
  let producerRunId ← required o "producer_run_id" c.int
  let sourceId ← required o "source_id" c.str
  let actorId ← optional o "actor_id" c.str
  let actorKind ← optional o "actor_kind" ActorKind.validate
  let traceparent ← optional o "traceparent" c.str
  let requestId ← optional o "request_id" c.uuid
  if requireTzAware : producedAt.IsAware then
    some { schemaVersion, eventId, producedAt, producerRunId, sourceId, actorId, actorKind,
           traceparent, requestId, requireTzAware }
  else none

/-- The names of the fields of a kind, if it is known. -/
def fieldNames : String → Option (List String)
  | "filing.new" => some (StreamEvent.fieldNames ++
      ["kind", "filing_id", "entity_id", "filing_kind", "title", "published_at",
        "primary_object_key", "bucket", "is_revision", "revision_no"])
  | "filing.amended" => some (StreamEvent.fieldNames ++
      ["kind", "filing_id", "previous_filing_id", "entity_id", "revision_no", "title",
        "published_at"])
  | "observation.batch" => some (StreamEvent.fieldNames ++
      ["kind", "series_code", "series_id", "ts_min", "ts_max", "as_of_min", "as_of_max",
        "n_observations", "batch_payload_hash"])
  | "entity.created" => some (StreamEvent.fieldNames ++
      ["kind", "entity_id", "entity_type", "legal_name", "primary_identifier_namespace",
        "primary_identifier_value"])
  | "stream.entry_redacted" => some (StreamEvent.fieldNames ++
      ["kind", "target_event_id", "target_stream", "redaction_reason"])
  | _ => none

def FilingNewEvent.validate (b : StreamEvent) (o : JsonObject) : Option FilingNewEvent := do
  let filingId ← required o "filing_id" c.uuid
  let entityId ← required o "entity_id" (nullable c.uuid)
  let filingKind ← required o "filing_kind" c.str
  let title ← required o "title" c.str
  let publishedAt ← required o "published_at" c.datetime
  let primaryObjectKey ← required o "primary_object_key" c.str
  let bucket ← required o "bucket" c.str
  let isRevision ← required o "is_revision" c.bool
  let revisionNo ← required o "revision_no" c.int
  some { toStreamEvent := b, filingId, entityId, filingKind, title, publishedAt,
         primaryObjectKey, bucket, isRevision, revisionNo }

def FilingAmendedEvent.validate (b : StreamEvent) (o : JsonObject) :
    Option FilingAmendedEvent := do
  let filingId ← required o "filing_id" c.uuid
  let previousFilingId ← required o "previous_filing_id" c.uuid
  let entityId ← required o "entity_id" (nullable c.uuid)
  let revisionNo ← required o "revision_no" c.int
  let title ← required o "title" c.str
  let publishedAt ← required o "published_at" c.datetime
  some { toStreamEvent := b, filingId, previousFilingId, entityId, revisionNo, title,
         publishedAt }

def ObservationBatchEvent.validate (b : StreamEvent) (o : JsonObject) :
    Option ObservationBatchEvent := do
  let seriesCode ← required o "series_code" c.str
  let seriesId ← required o "series_id" c.int
  let tsMin ← required o "ts_min" c.datetime
  let tsMax ← required o "ts_max" c.datetime
  let asOfMin ← required o "as_of_min" c.datetime
  let asOfMax ← required o "as_of_max" c.datetime
  let nObservations ← required o "n_observations" c.int
  let batchPayloadHash ← required o "batch_payload_hash" c.str
  some { toStreamEvent := b, seriesCode, seriesId, tsMin, tsMax, asOfMin, asOfMax,
         nObservations, batchPayloadHash }

def EntityCreatedEvent.validate (b : StreamEvent) (o : JsonObject) :
    Option EntityCreatedEvent := do
  let entityId ← required o "entity_id" c.uuid
  let entityType ← required o "entity_type" c.str
  let legalName ← required o "legal_name" c.str
  let primaryIdentifierNamespace ← required o "primary_identifier_namespace" (nullable c.str)
  let primaryIdentifierValue ← required o "primary_identifier_value" (nullable c.str)
  some { toStreamEvent := b, entityId, entityType, legalName, primaryIdentifierNamespace,
         primaryIdentifierValue }

def StreamEntryRedactedEvent.validate (b : StreamEvent) (o : JsonObject) :
    Option StreamEntryRedactedEvent := do
  let targetEventId ← required o "target_event_id" c.uuid
  let targetStream ← required o "target_stream" c.str
  let redactionReason ← required o "redaction_reason" c.str
  some { toStreamEvent := b, targetEventId, targetStream, redactionReason }

/-- The event of a kind of an object. -/
def KnownStreamEvent.validate (b : StreamEvent) (o : JsonObject) :
    String → Option KnownStreamEvent
  | "filing.new" => (FilingNewEvent.validate c b o).map .filingNew
  | "filing.amended" => (FilingAmendedEvent.validate c b o).map .filingAmended
  | "observation.batch" => (ObservationBatchEvent.validate c b o).map .observationBatch
  | "entity.created" => (EntityCreatedEvent.validate c b o).map .entityCreated
  | "stream.entry_redacted" => (StreamEntryRedactedEvent.validate c b o).map .streamEntryRedacted
  | _ => none

/-- `TypeAdapter(KnownStreamEvent).validate_python`: the event of a JSON value, unless it
    raises a `ValidationError`. -/
def validatePython : Json → Option KnownStreamEvent
  | .obj o => do
    let .str kind ← o.lookup "kind" | none
    let names ← fieldNames kind
    if o.all fun f => names.contains f.1 then
      let b ← StreamEvent.validate c o
      KnownStreamEvent.validate c b o kind
    else none
  | _ => none

/-! ### What holds of what is read -/

section Validate

variable {c} {o o' extra : JsonObject} {e : KnownStreamEvent}

/-- What is found under each name decides what is read. -/
theorem validate_congr (h : ∀ k, o.lookup k = o'.lookup k) :
    StreamEvent.validate c o = StreamEvent.validate c o' ∧
      ∀ b kind, KnownStreamEvent.validate c b o kind = KnownStreamEvent.validate c b o' kind := by
  constructor
  · simp only [StreamEvent.validate, required, optional, h]
  · intro b kind
    simp only [KnownStreamEvent.validate, FilingNewEvent.validate, FilingAmendedEvent.validate,
      ObservationBatchEvent.validate, EntityCreatedEvent.validate,
      StreamEntryRedactedEvent.validate, required, h]

/-- The order of the fields of a dictionary does not matter. -/
theorem validatePython_perm (hn : o.NodupKeys) (h : o.Perm o') :
    validatePython c (.obj o) = validatePython c (.obj o') := by
  have hlookup : ∀ k, o.lookup k = o'.lookup k := fun k => JsonObject.lookup_perm hn h
  obtain ⟨hb, hk⟩ := @validate_congr c _ _ hlookup
  have hall : ∀ q : String × Json → Bool, o.all q = o'.all q := fun q => h.all_eq
  simp only [validatePython, hlookup, hb, hk, hall]

theorem kind_of_validate {b : StreamEvent} {kind : String}
    (h : KnownStreamEvent.validate c b o kind = some e) : e.kind = kind := by
  simp only [KnownStreamEvent.validate] at h
  split at h <;> first
    | cases h
    | obtain ⟨_, _, rfl⟩ := Option.map_eq_some_iff.1 h
      rfl

/-- What it takes for an event to be read. -/
theorem validatePython_eq_some_iff : validatePython c (.obj o) = some e ↔
    ∃ kind names b, o.lookup "kind" = some (.str kind) ∧ fieldNames kind = some names ∧
      (∀ f ∈ o, f.1 ∈ names) ∧ StreamEvent.validate c o = some b ∧
      KnownStreamEvent.validate c b o kind = some e := by
  simp only [validatePython]
  constructor
  · intro h
    obtain ⟨k, hk, h⟩ := Option.bind_eq_some_iff.1 h
    split at h
    · obtain ⟨names, hn, h⟩ := Option.bind_eq_some_iff.1 h
      split_ifs at h with hall
      obtain ⟨b, hb, h⟩ := Option.bind_eq_some_iff.1 h
      exact ⟨_, names, b, hk, hn, by simpa using hall, hb, h⟩
    · cases h
  · rintro ⟨kind, names, b, hk, hn, hall, hb, h⟩
    simpa [hk, hn, hb, h] using fun k v hf => hall (k, v) hf

theorem kind_mem_fieldNames {kind : String} {names : List String}
    (h : fieldNames kind = some names) : "kind" ∈ names := by
  rw [fieldNames.eq_def] at h
  split at h <;> cases h <;> simp

theorem nodup_fieldNames {kind : String} {names : List String}
    (h : fieldNames kind = some names) : names.Nodup := by
  rw [fieldNames.eq_def] at h
  split at h <;> cases h <;> decide

/-- An event with fields that its kind does not have is not read. -/
theorem validatePython_append (h : validatePython c (.obj o) = some e) (hne : extra ≠ [])
    (hextra : ∀ names, fieldNames e.kind = some names → ∀ f ∈ extra, f.1 ∉ names) :
    validatePython c (.obj (o ++ extra)) = none := by
  obtain ⟨kind, names, b, hk, hn, _, _, he⟩ := validatePython_eq_some_iff.1 h
  have hout := hextra names (by rw [kind_of_validate he, hn])
  cases hr : validatePython c (.obj (o ++ extra)) with
  | none => rfl
  | some e' =>
    obtain ⟨kind', names', _, hk', hn', hall, _⟩ := validatePython_eq_some_iff.1 hr
    -- The kind is the same, so its fields are.
    rw [JsonObject.lookup_append fun f hf hfk => hout f hf (hfk ▸ kind_mem_fieldNames hn), hk]
      at hk'
    cases hk'
    cases hn.symm.trans hn'
    obtain ⟨f, hf⟩ := List.exists_mem_of_ne_nil extra hne
    exact absurd (hall f (List.mem_append_right _ hf)) (hout f hf)

theorem nullable_orNull {α : Type} {f : α → Json} {read : Json → Option α}
    (hf : ∀ a, read (f a) = some a) (hnull : ∀ a, f a ≠ .null) (a : Option α) :
    nullable read (orNull f a) = some a := by
  cases a with
  | none => rfl
  | some a =>
    have hne := hnull a
    simp only [orNull]
    rw [nullable.eq_def]
    split
    · contradiction
    · rw [hf, Option.map_some]

theorem validate_str (k : ActorKind) : ActorKind.validate (.str k.str) = some k := by
  cases k <;> rfl

/-- The envelope that is written is read back, whatever follows it. -/
theorem StreamEvent.validate_modelDump (hc : c.Lawful) (b : StreamEvent) (rest : JsonObject) :
    StreamEvent.validate c (b.modelDump c ++ rest) = some b := by
  have hs := nullable_orNull hc.str (by simp)
  have hu := nullable_orNull hc.uuid (by simp)
  have ha := nullable_orNull validate_str (by simp)
  simp [StreamEvent.validate, StreamEvent.modelDump, required, optional, List.lookup_cons, hc.int,
    hc.uuid, hc.datetime, hc.str, hs, hu, ha, b.requireTzAware]

/-- The fields of its kind that are written are read back. -/
theorem KnownStreamEvent.validate_modelDump (hc : c.Lawful) (e : KnownStreamEvent) :
    KnownStreamEvent.validate c e.toStreamEvent (e.modelDump c) e.kind = some e := by
  have hs := nullable_orNull hc.str (by simp)
  have hu := nullable_orNull hc.uuid (by simp)
  rcases e with e | e | e | e | e
  · simp [KnownStreamEvent.validate, FilingNewEvent.validate, modelDump, body, kind,
      toStreamEvent, StreamEvent.modelDump, required, List.lookup_cons, hc.int, hc.uuid,
      hc.datetime, hc.str, hc.bool, hu]
  · simp [KnownStreamEvent.validate, FilingAmendedEvent.validate, modelDump, body, kind,
      toStreamEvent, StreamEvent.modelDump, required, List.lookup_cons, hc.int, hc.uuid,
      hc.datetime, hc.str, hu]
  · simp [KnownStreamEvent.validate, ObservationBatchEvent.validate, modelDump, body, kind,
      toStreamEvent, StreamEvent.modelDump, required, List.lookup_cons, hc.int, hc.datetime,
      hc.str]
  · simp [KnownStreamEvent.validate, EntityCreatedEvent.validate, modelDump, body, kind,
      toStreamEvent, StreamEvent.modelDump, required, List.lookup_cons, hc.uuid, hc.str, hs]
  · simp [KnownStreamEvent.validate, StreamEntryRedactedEvent.validate, modelDump, body, kind,
      toStreamEvent, StreamEvent.modelDump, required, List.lookup_cons, hc.uuid, hc.str]

/-- The names of the fields that are written are those of the kind. -/
theorem fieldNames_kind (c : Codec) (e : KnownStreamEvent) :
    fieldNames e.kind = some ((e.modelDump c).map Prod.fst) := by
  rcases e with e | e | e | e | e <;> rfl

theorem nodupKeys_modelDump (c : Codec) (e : KnownStreamEvent) : (e.modelDump c).NodupKeys :=
  nodup_fieldNames (fieldNames_kind c e)

/-- What is written is read back. -/
theorem validatePython_modelDump (hc : c.Lawful) (e : KnownStreamEvent) :
    validatePython c (.obj (e.modelDump c)) = some e := by
  refine validatePython_eq_some_iff.2 ⟨e.kind, _, e.toStreamEvent, ?_, fieldNames_kind c e,
    fun f hf => List.mem_map_of_mem hf, StreamEvent.validate_modelDump hc _ _,
    KnownStreamEvent.validate_modelDump hc e⟩
  rcases e with e | e | e | e | e <;> rfl

end Validate

/-- A filing, announced under the given identifier. -/
def newFiling (eventId : Uuid) : KnownStreamEvent := .filingNew
  { schemaVersion := 1, eventId, producedAt := .aware 5, producerRunId := 1, sourceId := "kap"
    requireTzAware := trivial, filingId := 7, entityId := none, filingKind := "FR"
    title := "Annual report", publishedAt := .aware 4, primaryObjectKey := "filings/7"
    bucket := "raw", isRevision := false, revisionNo := 0 }

end Streams

end AslanCore
