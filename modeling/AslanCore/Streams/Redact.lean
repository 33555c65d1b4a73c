import AslanCore.Streams.Gate
import AslanCore.Text

/-!
# The redaction of payloads

`redact_outbox_payload` of `pii.py` writes a marker in the place of the values that dotted paths lead
to, whatever these values are. Is the payload of an event still one of an event then?

* `redactOutboxPayload_modelDump`: in the payload of an event, the fields that are named by a path
  are replaced;
* `KnownStreamEvent.redact`: the event with the marker in its text fields;
* `validatePython_redactFields`: the payload is one of an event if and only if text fields only are
  replaced, and then it is one of that event.
-/

namespace AslanCore

namespace Streams

/-- `path.split(".")`. -/
def splitDots (path : String) : List String := (path.toList.splitOn '.').map String.ofList

/-- The text that is written in the place of a value. -/
def marker : String := "<redacted>"

/-- `_redact_path`. The keys of a dictionary are no integers. -/
def redactPath : List String → Json → Json
  | [], node => node
  | head :: rest, .obj fields =>
    match intOf head with
    | some _ => .obj fields
    | none => .obj <| fields.map fun f =>
      if f.1 = head then (f.1, if rest = [] then .str marker else redactPath rest f.2) else f
  | head :: rest, .arr items =>
    match intOf head with
    | none => .arr items
    | some i =>
      if 0 ≤ i ∧ i < items.length then
        .arr <| items.modify i.toNat fun j => if rest = [] then .str marker else redactPath rest j
      else .arr items
  | _ :: _, node => node

/-- `redact_outbox_payload`. -/
def redactOutboxPayload (payload : Json) (fieldsToRedact : List String) : Json :=
  fieldsToRedact.foldl (fun out path => redactPath (splitDots path) out) payload

example : redactOutboxPayload (.obj [("lines", .arr [.int 1, .int 2])]) ["lines.1", "lines.x"] =
    .obj [("lines", .arr [.int 1, .str "<redacted>"])] :=
  rfl

/-! ### Fields -/

/-- The name of a field that a path can lead to: it has no dots, and is no integer. -/
def IsName (name : String) : Prop := '.' ∉ name.toList ∧ intOf name = none

instance : DecidablePred IsName := fun _ => inferInstanceAs (Decidable (_ ∧ _))

/-- The object with the marker in some of its fields. -/
def redactFields (names : List String) (fields : JsonObject) : JsonObject :=
  fields.map fun f => if f.1 ∈ names then (f.1, .str marker) else f

variable {c : Codec} {names : List String} {fields : JsonObject} {name path : String}

theorem keys_redactFields : (redactFields names fields).map Prod.fst = fields.map Prod.fst := by
  rw [redactFields, List.map_map]
  refine List.map_congr_left fun f _ => ?_
  rw [Function.comp_apply]
  split_ifs <;> rfl

theorem redactFields_cons : redactFields (path :: names) fields =
    redactFields names (redactFields [path] fields) := by
  rw [redactFields, redactFields, redactFields, List.map_map]
  refine List.map_congr_left fun f _ => ?_
  simp only [Function.comp_apply, List.mem_cons]
  split_ifs <;> simp_all

theorem isFlat_redactFields (h : ∀ f ∈ fields, IsFlat f.2) :
    ∀ f ∈ redactFields names fields, IsFlat f.2 := by
  refine List.forall_mem_map.2 fun f hf => ?_
  split_ifs
  · exact .str _
  · exact h f hf

theorem lookup_redactFields : (redactFields names fields).lookup name =
    (fields.lookup name).map fun j => if name ∈ names then .str marker else j := by
  induction fields with
  | nil => rfl
  | cons f fields ih =>
    obtain ⟨k, j⟩ := f
    rw [redactFields, List.map_cons, ← redactFields]
    by_cases hk : name = k
    · subst hk
      by_cases hmem : name ∈ names <;> simp [hmem]
    · have hne : (name == k) = false := beq_false_of_ne hk
      rw [apply_ite (List.cons · _), apply_ite (List.lookup name), List.lookup_cons, List.lookup_cons,
        hne, ite_self, List.lookup_cons, hne, ih]

/-- The parts of a path that is the name of a field. -/
theorem splitDots_eq_singleton (h : '.' ∉ name.toList) : splitDots name = [name] := by
  rw [splitDots, List.splitOn_eq_singleton h, List.map_singleton, String.ofList_toList]

/-- A path with a single part is that part. -/
theorem eq_of_splitDots (h : splitDots path = [name]) : path = name := by
  rw [splitDots, List.map_eq_singleton_iff] at h
  obtain ⟨cs, hcs, rfl⟩ := h
  have hjoin : ['.'].intercalate (path.toList.splitOn '.') = path.toList :=
    List.intercalate_splitOn '.'
  rw [hcs, List.intercalate_singleton] at hjoin
  rw [hjoin, String.ofList_toList]

/-- No path leads into a value that is no container. -/
theorem redactPath_of_isFlat {j : Json} (h : IsFlat j) (parts : List String) :
    redactPath parts j = j := by
  cases parts <;> cases h <;> rfl

/-- A path replaces the field that it names, if all fields are scalars. -/
theorem redactPath_splitDots (hflat : ∀ f ∈ fields, IsFlat f.2) (hname : ∀ f ∈ fields, IsName f.1) :
    redactPath (splitDots path) (.obj fields) = .obj (redactFields [path] fields) := by
  have hne : splitDots path ≠ [] := by
    rw [splitDots, ne_eq, List.map_eq_nil_iff]
    exact List.splitOn_ne_nil _ _
  obtain ⟨head, rest, hparts⟩ := List.exists_cons_of_ne_nil hne
  -- No field is changed if the path does not name one.
  have hsame : path ∉ fields.map Prod.fst → redactFields [path] fields = fields := by
    intro h
    refine (List.map_congr_left fun f hf => if_neg fun hmem => h ?_).trans (List.map_id _)
    exact List.mem_singleton.1 hmem ▸ List.mem_map_of_mem hf
  rw [hparts]
  cases hint : intOf head with
  | some i =>
    simp only [redactPath, hint, Json.obj.injEq]
    refine (hsame fun hmem => ?_).symm
    obtain ⟨f, hf, rfl⟩ := List.mem_map.1 hmem
    obtain ⟨hdots, hno⟩ := hname f hf
    rw [splitDots_eq_singleton hdots, List.cons.injEq] at hparts
    rw [hparts.1, hint] at hno
    cases hno
  | none =>
    simp only [redactPath, hint, Json.obj.injEq]
    cases rest with
    | nil =>
      obtain rfl := eq_of_splitDots hparts
      exact List.map_congr_left fun f _ => by simp only [if_true, List.mem_singleton]
    | cons part rest =>
      rw [hsame]
      · refine (List.map_congr_left fun f hf => ?_).trans (List.map_id _)
        rw [if_neg (List.cons_ne_nil _ _), redactPath_of_isFlat (hflat f hf), ite_self]
        rfl
      · intro hmem
        obtain ⟨f, hf, rfl⟩ := List.mem_map.1 hmem
        rw [splitDots_eq_singleton (hname f hf).1] at hparts
        cases hparts

/-- The fields that the paths name are replaced, if all fields are scalars. -/
theorem redactOutboxPayload_obj (hflat : ∀ f ∈ fields, IsFlat f.2)
    (hname : ∀ f ∈ fields, IsName f.1) (paths : List String) :
    redactOutboxPayload (.obj fields) paths = .obj (redactFields paths fields) := by
  induction paths generalizing fields with
  | nil =>
    simp only [redactFields, List.not_mem_nil, if_false, List.map_id']
    rfl
  | cons path paths ih =>
    have hkeys : ∀ f ∈ redactFields [path] fields, IsName f.1 := by
      rw [← List.forall_mem_map (f := Prod.fst) (P := IsName)] at hname ⊢
      rwa [keys_redactFields]
    rw [redactOutboxPayload, List.foldl_cons, redactPath_splitDots hflat hname, ← redactOutboxPayload,
      ih (isFlat_redactFields hflat) hkeys, ← redactFields_cons]

/-! ### Events -/

/-- The fields of the envelope that hold any text. -/
def StreamEvent.textNames : List String := ["source_id", "actor_id", "traceparent"]

/-- The fields of a kind that hold any text. -/
def textNames : String → List String
  | "filing.new" =>
    StreamEvent.textNames ++ ["filing_kind", "title", "primary_object_key", "bucket"]
  | "filing.amended" => StreamEvent.textNames ++ ["title"]
  | "observation.batch" => StreamEvent.textNames ++ ["series_code", "batch_payload_hash"]
  | "entity.created" =>
    StreamEvent.textNames ++ ["entity_type", "legal_name", "primary_identifier_namespace",
      "primary_identifier_value"]
  | "stream.entry_redacted" => StreamEvent.textNames ++ ["target_stream", "redaction_reason"]
  | _ => []

/-- The other fields of a kind. -/
def typedNames (kind : String) : List String :=
  ((fieldNames kind).getD []).filter (· ∉ textNames kind)

/-- The marker is not a value of any type but `str`. -/
structure Codec.RejectsMarker (c : Codec) : Prop where
  int : c.int (.str marker) = none
  bool : c.bool (.str marker) = none
  uuid : c.uuid (.str marker) = none
  datetime : c.datetime (.str marker) = none

/-- A text that may be replaced. -/
def mask (names : List String) (name value : String) : String :=
  if name ∈ names then marker else value

/-- A nullable text that may be replaced. -/
def maskOption (names : List String) (name : String) (value : Option String) : Option String :=
  if name ∈ names then some marker else value

def StreamEvent.redact (names : List String) (b : StreamEvent) : StreamEvent where
  __ := b
  sourceId := mask names "source_id" b.sourceId
  actorId := maskOption names "actor_id" b.actorId
  traceparent := maskOption names "traceparent" b.traceparent

/-- The event with the marker in some of its text fields. -/
def KnownStreamEvent.redact (names : List String) : KnownStreamEvent → KnownStreamEvent
  | .filingNew e => .filingNew
    { e with
      toStreamEvent := e.toStreamEvent.redact names
      filingKind := mask names "filing_kind" e.filingKind
      title := mask names "title" e.title
      primaryObjectKey := mask names "primary_object_key" e.primaryObjectKey
      bucket := mask names "bucket" e.bucket }
  | .filingAmended e => .filingAmended
    { e with
      toStreamEvent := e.toStreamEvent.redact names
      title := mask names "title" e.title }
  | .observationBatch e => .observationBatch
    { e with
      toStreamEvent := e.toStreamEvent.redact names
      seriesCode := mask names "series_code" e.seriesCode
      batchPayloadHash := mask names "batch_payload_hash" e.batchPayloadHash }
  | .entityCreated e => .entityCreated
    { e with
      toStreamEvent := e.toStreamEvent.redact names
      entityType := mask names "entity_type" e.entityType
      legalName := mask names "legal_name" e.legalName
      primaryIdentifierNamespace :=
        maskOption names "primary_identifier_namespace" e.primaryIdentifierNamespace
      primaryIdentifierValue :=
        maskOption names "primary_identifier_value" e.primaryIdentifierValue }
  | .streamEntryRedacted e => .streamEntryRedacted
    { e with
      toStreamEvent := e.toStreamEvent.redact names
      targetStream := mask names "target_stream" e.targetStream
      redactionReason := mask names "redaction_reason" e.redactionReason }

variable {e : KnownStreamEvent} {b : StreamEvent} {kind : String}

theorem isName_of_mem_fieldNames {ks : List String} (h : fieldNames kind = some ks) :
    ∀ name ∈ ks, IsName name := by
  rw [fieldNames.eq_def] at h
  split at h <;> cases h <;> decide +kernel

/-- The fields of the payload of an event that the paths name are replaced. -/
theorem redactOutboxPayload_modelDump (c : Codec) (e : KnownStreamEvent) (paths : List String) :
    redactOutboxPayload (.obj (e.modelDump c)) paths =
      .obj (redactFields paths (e.modelDump c)) := by
  have hnames := isName_of_mem_fieldNames (fieldNames_kind c e)
  exact redactOutboxPayload_obj (isFlat_modelDump c e) (List.forall_mem_map.1 hnames) paths

theorem eventId_redact (names : List String) (e : KnownStreamEvent) :
    (e.redact names).toStreamEvent.eventId = e.toStreamEvent.eventId := by
  cases e <;> rfl

theorem redactFields_str {rest : JsonObject} {value : String} :
    redactFields names ((name, .str value) :: rest) =
      (name, .str (mask names name value)) :: redactFields names rest := by
  rw [redactFields, List.map_cons, ← redactFields, mask]
  split_ifs <;> rfl

theorem redactFields_orNull {rest : JsonObject} {value : Option String} :
    redactFields names ((name, orNull .str value) :: rest) =
      (name, orNull .str (maskOption names name value)) :: redactFields names rest := by
  rw [redactFields, List.map_cons, ← redactFields, maskOption]
  split_ifs <;> rfl

theorem redactFields_of_notMem {rest : JsonObject} {j : Json} (h : name ∉ names) :
    redactFields names ((name, j) :: rest) = (name, j) :: redactFields names rest := by
  rw [redactFields, List.map_cons, ← redactFields, if_neg h]

/-- If text fields only are replaced, the payload is the one of the redacted event. -/
theorem modelDump_redact (h : ∀ name ∈ typedNames e.kind, name ∉ names) :
    (e.redact names).modelDump c = redactFields names (e.modelDump c) := by
  rcases e with e | e | e | e | e <;>
    simp only [typedNames, KnownStreamEvent.kind, fieldNames, textNames, StreamEvent.fieldNames,
      StreamEvent.textNames, List.cons_append, List.nil_append, Option.getD_some] at h
  all_goals
    simp at h
    simp [KnownStreamEvent.modelDump, KnownStreamEvent.redact, KnownStreamEvent.toStreamEvent,
      StreamEvent.modelDump, StreamEvent.redact, KnownStreamEvent.body, redactFields_str,
      redactFields_orNull, redactFields_of_notMem, h]
    rfl

/-- There is a text that is no marker under the name, or none that must be read. -/
theorem lookup_ne_of_required {α : Type} {read : Json → Option α} {a : α} {o : JsonObject}
    (hr : read (.str marker) = none) (h : required o name read = some a) :
    o.lookup name ≠ some (.str marker) := by
  intro hm
  rw [required, hm, Option.bind_some, hr] at h
  cases h

theorem lookup_ne_of_optional {α : Type} {read : Json → Option α} {a : Option α} {o : JsonObject}
    (hr : read (.str marker) = none) (h : optional o name read = some a) :
    o.lookup name ≠ some (.str marker) := by
  intro hm
  simp only [optional, hm, nullable, hr, Option.map_none, reduceCtorEq] at h

theorem nullable_marker {α : Type} {read : Json → Option α} (hr : read (.str marker) = none) :
    nullable read (.str marker) = none := by
  simp only [nullable, hr, Option.map_none]

variable {o : JsonObject}

/-- The fields of the envelope that are not text. -/
def StreamEvent.typedNames : List String :=
  ["schema_version", "event_id", "produced_at", "producer_run_id", "actor_kind", "request_id"]

/-- A field that is not text does not hold the marker, if an envelope is read. -/
theorem StreamEvent.lookup_ne (hm : c.RejectsMarker) (h : StreamEvent.validate c o = some b) :
    ∀ name ∈ StreamEvent.typedNames, o.lookup name ≠ some (.str marker) := by
  simp only [StreamEvent.validate, Option.bind_eq_bind, Option.bind_eq_some_iff] at h
  obtain ⟨_, h₁, _, h₂, _, h₃, _, h₄, _, -, _, -, _, h₅, _, -, _, h₆, -⟩ := h
  simp only [StreamEvent.typedNames, List.forall_mem_cons, List.not_mem_nil, false_imp_iff,
    implies_true, and_true]
  exact ⟨lookup_ne_of_required hm.int h₁, lookup_ne_of_required hm.uuid h₂,
    lookup_ne_of_required hm.datetime h₃, lookup_ne_of_required hm.int h₄,
    lookup_ne_of_optional rfl h₅, lookup_ne_of_optional hm.uuid h₆⟩

/-- Neither does one of the fields of a kind. -/
theorem KnownStreamEvent.lookup_ne (hm : c.RejectsMarker)
    (h : KnownStreamEvent.validate c b o kind = some e) :
    ∀ name ∈ typedNames kind, name ∈ StreamEvent.typedNames ∨ name = "kind" ∨
      o.lookup name ≠ some (.str marker) := by
  -- The names of the envelope, the kind, and the other names of the kind.
  have hsplit : ∀ rest, typedNames kind = StreamEvent.typedNames ++ "kind" :: rest →
      (∀ name ∈ rest, o.lookup name ≠ some (.str marker)) →
      ∀ name ∈ typedNames kind, name ∈ StreamEvent.typedNames ∨ name = "kind" ∨
        o.lookup name ≠ some (.str marker) := by
    intro rest heq hrest name hmem
    rw [heq] at hmem
    rcases List.mem_append.1 hmem with hmem | hmem
    · exact .inl hmem
    · exact .inr ((List.mem_cons.1 hmem).imp_right (hrest name))
  simp only [KnownStreamEvent.validate] at h
  split at h
  · obtain ⟨_, h, -⟩ := Option.map_eq_some_iff.1 h
    simp only [FilingNewEvent.validate, Option.bind_eq_bind, Option.bind_eq_some_iff] at h
    obtain ⟨_, h₁, _, h₂, _, -, _, -, _, h₃, _, -, _, -, _, h₄, _, h₅, -⟩ := h
    refine hsplit ["filing_id", "entity_id", "published_at", "is_revision", "revision_no"] rfl ?_
    simp only [List.forall_mem_cons, List.not_mem_nil, false_imp_iff, implies_true, and_true]
    exact ⟨lookup_ne_of_required hm.uuid h₁, lookup_ne_of_required (nullable_marker hm.uuid) h₂,
      lookup_ne_of_required hm.datetime h₃, lookup_ne_of_required hm.bool h₄,
      lookup_ne_of_required hm.int h₅⟩
  · obtain ⟨_, h, -⟩ := Option.map_eq_some_iff.1 h
    simp only [FilingAmendedEvent.validate, Option.bind_eq_bind, Option.bind_eq_some_iff] at h
    obtain ⟨_, h₁, _, h₂, _, h₃, _, h₄, _, -, _, h₅, -⟩ := h
    refine hsplit ["filing_id", "previous_filing_id", "entity_id", "revision_no", "published_at"]
      rfl ?_
    simp only [List.forall_mem_cons, List.not_mem_nil, false_imp_iff, implies_true, and_true]
    exact ⟨lookup_ne_of_required hm.uuid h₁, lookup_ne_of_required hm.uuid h₂,
      lookup_ne_of_required (nullable_marker hm.uuid) h₃, lookup_ne_of_required hm.int h₄,
      lookup_ne_of_required hm.datetime h₅⟩
  · obtain ⟨_, h, -⟩ := Option.map_eq_some_iff.1 h
    simp only [ObservationBatchEvent.validate, Option.bind_eq_bind, Option.bind_eq_some_iff] at h
    obtain ⟨_, -, _, h₁, _, h₂, _, h₃, _, h₄, _, h₅, _, h₆, -⟩ := h
    refine hsplit ["series_id", "ts_min", "ts_max", "as_of_min", "as_of_max", "n_observations"]
      rfl ?_
    simp only [List.forall_mem_cons, List.not_mem_nil, false_imp_iff, implies_true, and_true]
    exact ⟨lookup_ne_of_required hm.int h₁, lookup_ne_of_required hm.datetime h₂,
      lookup_ne_of_required hm.datetime h₃, lookup_ne_of_required hm.datetime h₄,
      lookup_ne_of_required hm.datetime h₅, lookup_ne_of_required hm.int h₆⟩
  · obtain ⟨_, h, -⟩ := Option.map_eq_some_iff.1 h
    simp only [EntityCreatedEvent.validate, Option.bind_eq_bind, Option.bind_eq_some_iff] at h
    obtain ⟨_, h₁, -⟩ := h
    exact hsplit ["entity_id"] rfl (List.forall_mem_singleton.2 (lookup_ne_of_required hm.uuid h₁))
  · obtain ⟨_, h, -⟩ := Option.map_eq_some_iff.1 h
    simp only [StreamEntryRedactedEvent.validate, Option.bind_eq_bind, Option.bind_eq_some_iff] at h
    obtain ⟨_, h₁, -⟩ := h
    exact hsplit ["target_event_id"] rfl
      (List.forall_mem_singleton.2 (lookup_ne_of_required hm.uuid h₁))
  · cases h

/-- A field that is not text does not hold the marker, if an event is read. -/
theorem lookup_ne_of_validatePython (hm : c.RejectsMarker)
    (h : validatePython c (.obj o) = some e) :
    ∀ name ∈ typedNames e.kind, o.lookup name ≠ some (.str marker) := by
  obtain ⟨kind, ks, b, hkind, hks, -, hb, he⟩ := validatePython_eq_some_iff.1 h
  rw [kind_of_validate he]
  intro name hname
  rcases KnownStreamEvent.lookup_ne hm he name hname with hname | rfl | hname
  · exact StreamEvent.lookup_ne hm hb name hname
  · rintro hmarker
    -- The marker is no kind.
    cases hkind.symm.trans hmarker
    cases hks
  · exact hname

theorem kind_redact (names : List String) (e : KnownStreamEvent) :
    (e.redact names).kind = e.kind := by
  cases e <;> rfl

/-- The payload with the marker in some of its fields is the one of an event if and only if these
    are text, and of no other event than the one with these texts. -/
theorem validatePython_redactFields (hc : c.Lawful) (hm : c.RejectsMarker)
    {e e' : KnownStreamEvent} : validatePython c (.obj (redactFields names (e.modelDump c))) = some e' ↔
      (∀ name ∈ typedNames e.kind, name ∉ names) ∧ e.redact names = e' := by
  constructor
  · intro h
    have htyped : ∀ name ∈ typedNames e.kind, name ∉ names := by
      intro name hname hmem
      have hkind : e'.kind = e.kind := by
        obtain ⟨kind, _, _, hkind, hks, -, -, he⟩ := validatePython_eq_some_iff.1 h
        rw [lookup_redactFields] at hkind
        rw [kind_of_validate he]
        have hlookup : (e.modelDump c).lookup "kind" = some (.str e.kind) := by
          rcases e with e | e | e | e | e <;> rfl
        rw [hlookup, Option.map_some, Option.some.injEq] at hkind
        split_ifs at hkind
        · cases hkind
          cases hks
        · exact (Json.str.inj hkind).symm
      refine lookup_ne_of_validatePython hm h name (hkind ▸ hname) ?_
      -- The field is there, with the marker.
      have hin : name ∈ (e.modelDump c).map Prod.fst := by
        have hfields := fieldNames_kind c e
        rw [typedNames, hfields] at hname
        exact List.mem_of_mem_filter hname
      obtain ⟨f, hf, rfl⟩ := List.mem_map.1 hin
      rw [lookup_redactFields, (JsonObject.lookup_eq_some_iff (nodupKeys_modelDump c e)).2 hf,
        Option.map_some, if_pos hmem]
    refine ⟨htyped, ?_⟩
    rw [← modelDump_redact htyped, validatePython_modelDump hc] at h
    exact Option.some.inj h
  · rintro ⟨htyped, rfl⟩
    rw [← modelDump_redact htyped]
    exact validatePython_modelDump hc _

end Streams

end AslanCore
