import AslanCore.Json.Text
import AslanCore.Streams.Events

/-!
# The gates of the consumer

What `StreamConsumer` makes of the fields of an entry before anything else: the event is parsed
(`parseOrRaise`), and its schema version is checked (`checkSchemaVersion`). An entry that does
not pass goes to the dead letters, or an exception is raised (`gate`).

* `parseOrRaise_of_loads`: what is parsed is a known event, within the limits of `json.loads`;
* `gate_event`: an event that passes is in the supported range;
* `reports_newer_iff`: an event that is too new is reported as such if it has no field that its
  kind does not have: the models forbid them, for a consumer as for a producer.
-/

namespace AslanCore

namespace Streams

/-- The fields of an entry, as a consumer decodes them. -/
abbrev EntryFields := List (String × String)

/-- The arguments of `StreamConsumer`. -/
structure ConsumerConfig where
  maxSupported : ℤ
  minSupported : ℤ := 1
  maxAttemptsBeforeDeadletter : ℤ := 5
  deadletterOnSchemaMismatch : Bool := true
  ownerId : String

/-- What a consumer parses with. -/
structure ParseEnv where
  codec : Codec
  /-- What is left to the recursion of `json.loads`. -/
  depth : ℕ
  /-- `UUID(value)`, unless it raises. -/
  safeUuid : String → Option Uuid
  /-- `str(exc)` of the exception that `json.loads` raises. -/
  decodeMessage : String → String
  /-- `str(exc)` of the exception that the validation of a value raises. -/
  validationMessage : Json → String

/-- How a schema version is out of range. -/
inductive Direction
  | newer
  | older
  deriving DecidableEq

/-- The literal of a direction. -/
def Direction.str : Direction → String
  | .newer => "newer"
  | .older => "older"

/-- The errors of the gates. -/
inductive StreamError
  | payloadValidation (eventId : Option Uuid) (streamName message : String)
  | schemaVersionMismatch (eventId : Uuid) (streamName : String) (receivedVersion : ℤ)
    (supportedRange : ℤ × ℤ) (direction : Direction)
  deriving DecidableEq

namespace StreamError

/-- The name of the class of an error. -/
def typeName : StreamError → String
  | payloadValidation .. => "StreamPayloadValidationError"
  | schemaVersionMismatch .. => "StreamSchemaVersionMismatch"

/-- The text of an error. -/
def str (c : Codec) : StreamError → String
  | payloadValidation eventId streamName message =>
    "stream=" ++ streamName ++ " event_id=" ++ (eventId.map c.uuidStr).getD "None" ++ ": " ++
      message
  | schemaVersionMismatch eventId streamName receivedVersion range direction =>
    "stream=" ++ streamName ++ " event_id=" ++ c.uuidStr eventId ++ " schema_version=" ++
      toString receivedVersion ++ " (" ++ direction.str ++ ") outside supported range (" ++
      toString range.1 ++ ", " ++ toString range.2 ++ ")"

/-- The text that is recorded of an error. -/
def lastError (c : Codec) (e : StreamError) : String :=
  ((e.typeName ++ ": " ++ e.str c).take 4000).toString

end StreamError

/-- What may be raised: an error of the gates, or an exception of `json.loads` that is not
    handled. -/
inductive GateExn
  | stream (e : StreamError)
  | valueError
  | recursionError

variable (env : ParseEnv) (cfg : ConsumerConfig)

/-- `StreamConsumer._parse_or_raise`. -/
def parseOrRaise (stream messageId : String) (fields : EntryFields) :
    Except GateExn KnownStreamEvent :=
  match fields.lookup "payload" with
  | none =>
    .error (.stream (.payloadValidation none stream
      ("missing 'payload' field on stream entry " ++ messageId)))
  | some payloadRaw =>
    match loads env.depth payloadRaw with
    | .error .decode =>
      .error (.stream (.payloadValidation (env.safeUuid ((fields.lookup "event_id").getD ""))
        stream ("malformed JSON in payload: " ++ env.decodeMessage payloadRaw)))
    | .error .digits => .error .valueError
    | .error .recursion => .error .recursionError
    | .ok payload =>
      match validatePython env.codec payload with
      | some event => .ok event
      | none =>
        .error (.stream (.payloadValidation
          (env.safeUuid ((fields.lookup "event_id").getD "")) stream
          (env.validationMessage payload)))

/-- `StreamConsumer._check_schema_version`. -/
def checkSchemaVersion (event : StreamEvent) (stream : String) : Except StreamError Unit :=
  if cfg.maxSupported < event.schemaVersion then
    .error (.schemaVersionMismatch event.eventId stream event.schemaVersion
      (cfg.minSupported, cfg.maxSupported) .newer)
  else if event.schemaVersion < cfg.minSupported then
    .error (.schemaVersionMismatch event.eventId stream event.schemaVersion
      (cfg.minSupported, cfg.maxSupported) .older)
  else .ok ()

/-- What becomes of an entry: its event passes, or it goes to the dead letters, under an
    identifier if there is one. -/
inductive Gated
  | event (e : KnownStreamEvent)
  | deadletter (eventId : Option Uuid) (error : StreamError)

/-- The first step of `StreamConsumer._process_message`. -/
def gate (stream messageId : String) (fields : EntryFields) : Except GateExn Gated :=
  match parseOrRaise env stream messageId fields with
  | .error (.stream (.payloadValidation eventId streamName message)) =>
    .ok (.deadletter eventId (.payloadValidation eventId streamName message))
  | .error e => .error e
  | .ok event =>
    match checkSchemaVersion cfg event.toStreamEvent stream with
    | .ok () => .ok (.event event)
    | .error e =>
      if cfg.deadletterOnSchemaMismatch then
        .ok (.deadletter (some event.toStreamEvent.eventId) e)
      else .error (.stream e)

/-! ### What is parsed -/

/-- The values of the fields of the known kinds: no array, no object, no float. -/
inductive IsFlat : Json → Prop
  | null : IsFlat .null
  | bool (b : Bool) : IsFlat (.bool b)
  | int (n : ℤ) : IsFlat (.int n)
  | str (s : String) : IsFlat (.str s)

theorem readable_of_isFlat {j : Json} {d : ℕ} (h : IsFlat j) (hw : j.writable) : j.Readable d := by
  cases h with
  | null => exact .null
  | bool b => exact .bool b
  | int n => exact .int (of_decide_eq_true hw)
  | str s => exact .str s

theorem readable_obj {o : JsonObject} {d : ℕ} (hn : o.NodupKeys) (hflat : ∀ f ∈ o, IsFlat f.2)
    (hw : (Json.obj o).writable) : (Json.obj o).Readable (d + 1) := by
  refine .obj hn fun f hf => readable_of_isFlat (hflat f hf) ?_
  rw [Json.writable] at hw
  clear hn hflat
  revert f
  induction o with
  | nil => exact fun f hf => absurd hf List.not_mem_nil
  | cons f o ih =>
    obtain ⟨k, j⟩ := f
    rw [fieldsWritable, Bool.and_eq_true] at hw
    exact List.forall_mem_cons.2 ⟨hw.1, ih hw.2⟩

theorem isFlat_orNull {α : Type} {f : α → Json} (h : ∀ a, IsFlat (f a)) (a : Option α) :
    IsFlat (orNull f a) := by
  cases a with
  | none => exact .null
  | some a => exact h a

theorem isFlat_modelDump (c : Codec) (e : KnownStreamEvent) :
    ∀ f ∈ e.modelDump c, IsFlat f.2 := by
  have hs : ∀ s : Option String, IsFlat (orNull .str s) := isFlat_orNull fun _ => .str _
  have hk : ∀ k : Option ActorKind, IsFlat (orNull (fun k => .str k.str) k) :=
    isFlat_orNull fun _ => .str _
  have hu : ∀ u : Option Uuid, IsFlat (orNull (fun u => .str (c.uuidStr u)) u) :=
    isFlat_orNull fun _ => .str _
  rcases e with e | e | e | e | e <;>
    simp [KnownStreamEvent.modelDump, StreamEvent.modelDump, KnownStreamEvent.body, IsFlat.bool,
      IsFlat.int, IsFlat.str, hs, hk, hu]

/-- The payload of an event, with its fields in any order, is parsed to the event. -/
theorem loads_modelDump {c : Codec} (hc : c.Lawful) {e : KnownStreamEvent} {o : JsonObject}
    {d : ℕ} (ho : o.Perm (e.modelDump c)) {text : String}
    (htext : (Json.obj o).dumps {} = some text) :
    loads (d + 1) text = .ok (.obj o) ∧ validatePython c (.obj o) = some e := by
  have hn : o.NodupKeys := (ho.map Prod.fst).nodup_iff.2 (nodupKeys_modelDump c e)
  have hw : (Json.obj o).writable := by
    rw [Json.dumps] at htext
    split_ifs at htext with hw
    exact hw
  refine ⟨loads_dumps DumpStyle.valid_default (readable_obj hn ?_ hw) htext, ?_⟩
  · exact fun f hf => isFlat_modelDump c e f (ho.subset hf)
  · rw [validatePython_perm hn ho, validatePython_modelDump hc]

section

variable {env cfg} {stream messageId payloadRaw : String} {fields : EntryFields} {j : Json}
  {event : KnownStreamEvent}

theorem parseOrRaise_of_loads (hp : fields.lookup "payload" = some payloadRaw)
    (hj : loads env.depth payloadRaw = .ok j) (he : validatePython env.codec j = some event) :
    parseOrRaise env stream messageId fields = .ok event := by
  simp only [parseOrRaise, hp, hj, he]

/-- An event that passes the gates is in the supported range. -/
theorem gate_event (h : gate env cfg stream messageId fields = .ok (.event event)) :
    parseOrRaise env stream messageId fields = .ok event ∧
      cfg.minSupported ≤ event.toStreamEvent.schemaVersion ∧
      event.toStreamEvent.schemaVersion ≤ cfg.maxSupported := by
  simp only [gate] at h
  split at h
  · cases h
  · cases h
  · rename_i e hparse
    split at h
    · rename_i hcheck
      cases h
      simp only [checkSchemaVersion] at hcheck
      split_ifs at hcheck with hmax hmin
      exact ⟨hparse, by omega, by omega⟩
    · split_ifs at h
      cases h

end

/-! ### Events that are too new -/

section

variable {env cfg} {stream messageId payloadRaw : String} {fields : EntryFields}
  {event : KnownStreamEvent}

/-- The error is reported: it is recorded with the dead letters, or raised. -/
def Reports (r : Except GateExn Gated) (e : StreamError) : Prop :=
  (∃ eventId, r = .ok (.deadletter eventId e)) ∨ r = .error (.stream e)

/-- An event that is too new is reported as such. -/
theorem reports_newer (h : parseOrRaise env stream messageId fields = .ok event)
    (hver : cfg.maxSupported < event.toStreamEvent.schemaVersion) :
    Reports (gate env cfg stream messageId fields)
      (.schemaVersionMismatch event.toStreamEvent.eventId stream
        event.toStreamEvent.schemaVersion (cfg.minSupported, cfg.maxSupported) .newer) := by
  simp only [gate, h, checkSchemaVersion, if_pos hver]
  split_ifs
  · exact .inl ⟨_, rfl⟩
  · exact .inr rfl

theorem not_reports_of_payloadValidation {eventId : Option Uuid} {message : String} {e : StreamError}
    (h : parseOrRaise env stream messageId fields =
      .error (.stream (.payloadValidation eventId stream message)))
    (he : Reports (gate env cfg stream messageId fields) e) :
    e = .payloadValidation eventId stream message := by
  simp only [gate, h] at he
  rcases he with ⟨_, he⟩ | he <;> cases he
  rfl

/-- A payload with a field that its kind does not have is not parsed. -/
theorem parseOrRaise_extended {payload o extra : JsonObject}
    (hp : fields.lookup "payload" = some payloadRaw)
    (hload : loads env.depth payloadRaw = .ok (.obj payload)) (hperm : payload.Perm (o ++ extra))
    (hvalid : validatePython env.codec (.obj o) = some event)
    (hextra : ∀ names, fieldNames event.kind = some names → ∀ f ∈ extra, f.1 ∉ names)
    (hne : extra ≠ []) :
    parseOrRaise env stream messageId fields = .error (.stream (.payloadValidation
      (env.safeUuid ((fields.lookup "event_id").getD "")) stream
      (env.validationMessage (.obj payload)))) := by
  have hvalidate : validatePython env.codec (.obj payload) = none := by
    rw [validatePython_perm (nodupKeys_of_loads hload) hperm,
      validatePython_append hvalid hne hextra]
  simp only [parseOrRaise, hp, hload, hvalidate]

/-- A payload that extends a valid one of a kind, with a schema version that is too new, is
    reported as too new exactly when it has no other field than those of its kind. -/
theorem reports_newer_iff {payload o extra : JsonObject}
    (hp : fields.lookup "payload" = some payloadRaw)
    (hload : loads env.depth payloadRaw = .ok (.obj payload)) (hperm : payload.Perm (o ++ extra))
    (hvalid : validatePython env.codec (.obj o) = some event)
    (hextra : ∀ names, fieldNames event.kind = some names → ∀ f ∈ extra, f.1 ∉ names)
    (hver : cfg.maxSupported < event.toStreamEvent.schemaVersion) :
    (∃ e, Reports (gate env cfg stream messageId fields) e ∧
      ∃ eventId received range, e = .schemaVersionMismatch eventId stream received range .newer) ↔
      extra = [] := by
  constructor
  · rintro ⟨e, he, _, _, _, rfl⟩
    by_contra hne
    cases not_reports_of_payloadValidation
      (parseOrRaise_extended hp hload hperm hvalid hextra hne) he
  · rintro rfl
    rw [List.append_nil] at hperm
    have hvalidate : validatePython env.codec (.obj payload) = some event := by
      rw [validatePython_perm (nodupKeys_of_loads hload) hperm, hvalid]
    exact ⟨_, reports_newer (parseOrRaise_of_loads hp hload hvalidate) hver, _, _, _, rfl⟩

end

/-- What a consumer parses with, up to the texts of the exceptions. -/
def plainEnv : ParseEnv where
  codec := .lastDigit
  depth := 900
  safeUuid _ := none
  decodeMessage _ := "Expecting value: line 1 column 1 (char 0)"
  validationMessage _ := "1 validation error"

/-- A consumer that is behind the producers: their schema version is 1. -/
def behindConfig : ConsumerConfig where
  maxSupported := 0
  minSupported := 0
  ownerId := "consumer:1"

/-- The entry of an object. -/
def entryOf (o : JsonObject) : EntryFields :=
  [("payload", String.ofList ((Json.obj o).render {}))]

/-- A filing is parsed, also with a field more. -/
theorem loads_newFiling (extra : JsonObject)
    (hn : ((newFiling 1).modelDump .lastDigit ++ extra).NodupKeys) (hflat : ∀ f ∈ extra, IsFlat f.2)
    (hw : (Json.obj ((newFiling 1).modelDump .lastDigit ++ extra)).writable = true) :
    loads plainEnv.depth (String.ofList
        ((Json.obj ((newFiling 1).modelDump .lastDigit ++ extra)).render {})) =
      .ok (.obj ((newFiling 1).modelDump .lastDigit ++ extra)) :=
  loads_dumps DumpStyle.valid_default
    (readable_obj hn (List.forall_mem_append.2 ⟨isFlat_modelDump _ _, hflat⟩) hw) (if_pos hw)

/-- A filing that is too new is reported as such. -/
theorem reports_newer_newFiling : ∃ e,
    Reports (gate plainEnv behindConfig "aslan.kap.filings.new" "1-0"
      (entryOf ((newFiling 1).modelDump .lastDigit ++ []))) e ∧
      ∃ eventId received range, e = .schemaVersionMismatch eventId "aslan.kap.filings.new"
        received range .newer := by
  refine (@reports_newer_iff plainEnv behindConfig _ _ _ _ (newFiling 1) _ _ [] rfl
    (loads_newFiling [] (nodupKeys_modelDump _ _) nofun rfl) (.refl _) ?_ nofun (by decide)).2 rfl
  exact validatePython_modelDump Codec.lawful_lastDigit _

/-- With a field more, it is reported as invalid. -/
theorem not_reports_newer : ¬∃ e,
    Reports (gate plainEnv behindConfig "aslan.kap.filings.new" "1-0"
      (entryOf ((newFiling 1).modelDump .lastDigit ++ [("note", .null)]))) e ∧
      ∃ eventId received range, e = .schemaVersionMismatch eventId "aslan.kap.filings.new"
        received range .newer := by
  rintro ⟨e, he, _, _, _, rfl⟩
  have hn : JsonObject.NodupKeys ((newFiling 1).modelDump .lastDigit ++ [("note", .null)]) := by
    rw [JsonObject.NodupKeys]
    decide
  have hload := loads_newFiling [("note", .null)] hn (by simp [IsFlat.null]) rfl
  have hextra : ∀ names, fieldNames (newFiling 1).kind = some names →
      ∀ f ∈ [("note", Json.null)], f.1 ∉ names := by
    intro names hnames
    cases hnames
    decide
  cases not_reports_of_payloadValidation (parseOrRaise_extended rfl hload (.refl _)
    (validatePython_modelDump Codec.lawful_lastDigit _) hextra (by simp)) he

end Streams

end AslanCore
