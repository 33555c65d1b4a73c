import AslanCore.Deadletter.Route
import AslanCore.Json.Canonical

/-!
# Redactions

`redaction.py`: the registry of the events that are redacted, and its copy in Redis, which a
consumer looks at first.

* `cachedEntry`: what a cached text is read as;
* `eventFromRegistry`: the event that replaces a redacted one. It is checked against its hash, its
  model and its identifier, but not against the versions that a consumer supports.
-/

namespace AslanCore

namespace Deadletter

open Prog
open Streams (Uuid KnownStreamEvent StreamError)

/-- `RedactionRegistryEntry`. -/
structure RegistryEntry extends RegistryRow where
  eventId : Uuid

variable (env : Env)

/-- `redaction_cache_key`. -/
def redactionCacheKey (eventId : Uuid) : String :=
  "streams:redaction_registry:" ++ env.parse.codec.uuidStr eventId

/-- `canonical_payload_hash`, unless it raises. -/
def canonicalPayloadHash (payload : JsonObject) : Option String :=
  ((Json.obj payload).sortKeys.dumps { itemSeparator := [','], keySeparator := [':'] }).map
    env.sha256

/-! ### The cache -/

/-- `UUID(value)`. -/
def uuidOf : Json → Except Exn Uuid
  | .str s =>
    match env.parse.safeUuid s with
    | some u => .ok u
    | none => .error .value
  | .notText => .error .value
  | _ => .error .attribute

/-- `str(value)`. -/
def textOfValue : Json → String
  | .str s => s
  | j => env.strOf j

/-- `dict(value)`. -/
def dictOfValue : Json → Except Exn JsonObject
  | .obj o => .ok o
  | j =>
    match env.dictOf j with
    | some o => .ok o
    | none => .error .type

/-- `data[key]`. -/
def getItem (o : JsonObject) (key : String) : Except Exn Json :=
  match o.lookup key with
  | some j => .ok j
  | none => .error .key

/-- The exception of `json.loads`. -/
def exnOfLoads : LoadsError → Exn
  | .recursion => .recursion
  | _ => .value

/-- What a cached text is read as. -/
def cachedEntry (raw : ByteArray) : Except Exn RegistryEntry :=
  match decode raw with
  | none => .error .value
  | some text =>
    match loads env.parse.depth text with
    | .error e => .error (exnOfLoads e)
    | .ok (.obj data) => do
      let eventId ← (getItem data "event_id").bind (uuidOf env)
      let redactionReason ← getItem data "redaction_reason"
      let originalStream ← getItem data "original_stream"
      let redactedPayload ← (getItem data "redacted_payload").bind (dictOfValue env)
      let redactedPayloadHash ← getItem data "redacted_payload_hash"
      let originalPayloadHash ← getItem data "original_payload_hash"
      .ok
        { eventId
          redactionReason := textOfValue env redactionReason
          originalStream := textOfValue env originalStream
          redactedPayload
          redactedPayloadHash := textOfValue env redactedPayloadHash
          originalPayloadHash := textOfValue env originalPayloadHash }
    | .ok _ => .error .type

/-- The text of an entry in the cache, unless it raises. -/
def cacheText (entry : RegistryEntry) : Option String :=
  (Json.obj
    [("event_id", .str (env.parse.codec.uuidStr entry.eventId)),
      ("redaction_reason", .str entry.redactionReason),
      ("original_stream", .str entry.originalStream),
      ("redacted_payload", .obj entry.redactedPayload),
      ("redacted_payload_hash", .str entry.redactedPayloadHash),
      ("original_payload_hash", .str entry.originalPayloadHash)]).sortKeys.dumps {}

/-- `cache_registry_entry`. -/
def cacheRegistryEntry (entry : RegistryEntry) : Program Unit :=
  match cacheText env entry with
  | none => throw .value
  | some text => request (.set (redactionCacheKey env entry.eventId) text)

/-! ### Look-ups -/

/-- `fetch_registry_entry`. -/
def fetchRegistryEntry (r : Role) (eventId : Uuid) : Program (Option RegistryEntry) := do
  let row ← request (.selectRegistry r eventId)
  pure (row.map fun row => { row with eventId })

/-- `fetch_cached_registry_entry`. -/
def fetchCachedRegistryEntry (r : Role) (eventId : Uuid) : Program (Option RegistryEntry) := do
  let raw ← request (.get (redactionCacheKey env eventId))
  match raw with
  | some raw =>
    match cachedEntry env raw with
    | .error e => throw e
    | .ok entry => pure (some entry)
  | none =>
    let entry ← fetchRegistryEntry r eventId
    match entry with
    | none => pure none
    | some entry => do
      cacheRegistryEntry env entry
      pure (some entry)

/-- `StreamConsumer._event_from_registry`. -/
def eventFromRegistry (stream : String) (originalEventId : Uuid) (payload : JsonObject)
    (payloadHash : String) : Except Exn KnownStreamEvent :=
  match canonicalPayloadHash env payload with
  | none => .error .value
  | some hash =>
    if hash ≠ payloadHash then .error (.redactionIntegrity originalEventId stream)
    else
      match Streams.validatePython env.parse.codec (.obj payload) with
      | none =>
        .error (.stream (.payloadValidation (some originalEventId) stream
          ("redacted payload validation failed: " ++
            env.parse.validationMessage (.obj payload))))
      | some parsed =>
        if parsed.toStreamEvent.eventId ≠ originalEventId then
          .error (.stream (.payloadValidation (some originalEventId) stream
            "redacted payload event_id does not match registry key"))
        else .ok parsed

end Deadletter

end AslanCore
