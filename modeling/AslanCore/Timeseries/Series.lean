import AslanCore.Audit
import AslanCore.Store.Column
import AslanCore.Timeseries.Pii

/-!
# The series catalog

`ObservationWriter.upsert_series` inserts or updates the row of a series in
`ts.series_catalog`, with its subjects in `ts.series_subject`, and records what it does in
`audit.events`. It reads the row first (`existing`), and then does one of the following:

* `upsertSeriesFresh`: there is no row: it is inserted, unless another writer was faster;
* `reconcileExisting`: there is one with the same fields, and nothing changes;
* `upsertSeriesFieldChange`: the row is updated.

Between the two, other writers may change the row: the functions are given what was read, and
what the tables are now (`Store`). `upsertSeries` is the whole call, when nobody interferes.
-/

namespace AslanCore.Timeseries

/-! ### Fields -/

inductive Frequency
  | tick
  | s1
  | m1
  | m5
  | m15
  | m30
  | h1
  | d1
  | w1
  | mo1
  | q1
  | y1
  | irregular
  deriving DecidableEq

def Frequency.text : Frequency → String
  | tick => "tick"
  | s1 => "1s"
  | m1 => "1m"
  | m5 => "5m"
  | m15 => "15m"
  | m30 => "30m"
  | h1 => "1h"
  | d1 => "1d"
  | w1 => "1w"
  | mo1 => "1mo"
  | q1 => "1q"
  | y1 => "1y"
  | irregular => "irregular"

inductive RestatementBasis
  | nominal
  | asReported
  | restated
  | adjusted
  deriving DecidableEq

def RestatementBasis.text : RestatementBasis → String
  | nominal => "nominal"
  | asReported => "as_reported"
  | restated => "restated"
  | adjusted => "adjusted"

inductive PiiClass
  | none
  | pseudonymous
  | identifying
  deriving DecidableEq

def PiiClass.text : PiiClass → String
  | none => "none"
  | pseudonymous => "pseudonymous"
  | identifying => "identifying"

inductive SubjectRole
  | dataSubject
  | reporter
  | beneficialOwner
  | insider
  | executive
  | boardMember
  | other
  deriving DecidableEq

/-- A natural person that a series refers to. -/
structure SubjectRef where
  subjectId : String
  role : SubjectRole
  nonempty : subjectId ≠ ""
  deriving DecidableEq

/-- The fields of a series, with its metadata in `M`. -/
structure SeriesFields (M : Type) where
  sourceId : String
  entityId : Option PgUuid := none
  metric : String
  frequency : Frequency
  unit : String
  currencyCode : Option String := none
  restatementBasis : RestatementBasis := .nominal
  accountingStandard : Option String := none
  consolidation : Option String := none
  periodType : Option String := none
  description : Option String := none
  piiClass : PiiClass := .none
  metadata : M

/-- The arguments of `upsert_series`. -/
structure SeriesCall extends SeriesFields (Option PyDict) where
  seriesCode : String
  subjects : List SubjectRef := []

namespace SeriesFields

variable {M M' : Type}

/-- The fields with other metadata. -/
def withMetadata (f : SeriesFields M) (metadata : M') : SeriesFields M' :=
  { f with metadata }

/-- The columns of text. -/
def texts (f : SeriesFields M) : List String :=
  [f.sourceId, f.metric, f.unit] ++ f.currencyCode.toList ++ f.accountingStandard.toList ++
    f.consolidation.toList ++ f.periodType.toList ++ f.description.toList

end SeriesFields

/-- The call with `metadata if metadata is not None else {}`. -/
def SeriesCall.fields (call : SeriesCall) : SeriesFields PyDict :=
  call.withMetadata (call.metadata.getD [])

/-- A row of `ts.series_catalog`. -/
structure SeriesRow extends SeriesFields Jsonb where
  seriesId : ℤ
  seriesCode : String
  actor : Option Actor
  createdAt : Timestamp
  updatedAt : Timestamp

/-- What `upsert_series` depends on: the regular expressions of the patterns and of numeric
    keys, the foreign keys of the catalog, and the setting for missing actors. -/
structure SeriesEnv where
  patterns : PatternTable
  numericKey : String → Bool
  admits : SeriesFields Jsonb → Bool
  auditStrict : Bool

/-- Who calls: the actor of the context, and the ingestion run of the writer. -/
structure Caller where
  currentActor : Option Actor
  ingestionRunId : ℤ

inductive SeriesError
  | auditMissingActor
  | metadataSchemaViolation
  | identifyingSeriesPiiInClearText (f : PiiFinding)
  | identifyingSeriesMissingSubject
  | identifyingSeriesMetadataPii (f : PiiFinding)
  | seriesCodeConflict (immutableChanges : List String) (obsCount : ℕ)
  /-- The database, or the encoder of the metadata, refuses a value. -/
  | refused

/-! ### Checks -/

mutual

/-- `_validate_no_numeric_string_keys` passes: it goes through dictionaries and lists. -/
def validateNoNumericStringKeys (numericKey : String → Bool) : PyValue → Bool
  | .dict fields => validateFields numericKey fields
  | .list vs => validateItems numericKey vs
  | _ => true

def validateFields (numericKey : String → Bool) : List (PyKey × PyValue) → Bool
  | [] => true
  | (.str k, v) :: fields =>
    !numericKey k && validateNoNumericStringKeys numericKey v && validateFields numericKey fields
  | _ :: _ => false

def validateItems (numericKey : String → Bool) : List PyValue → Bool
  | [] => true
  | v :: vs => validateNoNumericStringKeys numericKey v && validateItems numericKey vs

end

/-- Raises for the first finding. -/
def raiseIfFound (error : PiiFinding → SeriesError) : List PiiFinding → Except SeriesError Unit
  | [] => .ok ()
  | f :: _ => .error (error f)

/-- What is checked of an identifying series: no match in the columns of clear text, at least
    one subject, and no match in the metadata. -/
def checkIdentifying (env : SeriesEnv) (call : SeriesCall) : Except SeriesError Unit := do
  raiseIfFound .identifyingSeriesPiiInClearText
    (findPiiInClearText env.patterns "series_code" (some call.seriesCode))
  raiseIfFound .identifyingSeriesPiiInClearText
    (findPiiInClearText env.patterns "description" call.description)
  if call.subjects = [] then throw .identifyingSeriesMissingSubject
  raiseIfFound .identifyingSeriesMetadataPii (findPiiInMetadata env.patterns call.metadata)

/-- What is checked before anything is read. -/
def checkCall (env : SeriesEnv) (caller : Caller) (call : SeriesCall) :
    Except SeriesError Unit := do
  if env.auditStrict ∧ caller.currentActor = none then throw .auditMissingActor
  if call.metadata.any fun metadata =>
      !validateNoNumericStringKeys env.numericKey (.dict metadata) then
    throw .metadataSchemaViolation
  if call.piiClass = .identifying then checkIdentifying env call

/-! ### Tables -/

/-- A value in the `before` or `after` of an audit event. -/
inductive ImageValue
  | null
  | int (n : ℤ)
  | text (s : String)
  | uuid (u : PgUuid)
  | json (j : Jsonb)

def ImageValue.ofText : Option String → ImageValue
  | none => .null
  | some s => .text s

def ImageValue.ofUuid : Option PgUuid → ImageValue
  | none => .null
  | some u => .uuid u

/-- The `before` or `after` of an audit event. -/
abbrev Image := List (String × ImageValue)

/-- A key is set: `{**image, key: value}`. -/
def Image.set (k : String) (v : ImageValue) : Image → Image
  | [] => [(k, v)]
  | (k', v') :: image => if k' = k then (k, v) :: image else (k', v') :: Image.set k v image

/-- `{**image, **new}`. -/
def Image.overlay (image : Image) (new : List (String × ImageValue)) : Image :=
  new.foldl (fun image f => image.set f.1 f.2) image

inductive SeriesOperation
  | upsert
  | update
  | idempotentHit
  deriving DecidableEq

/-- A row of `audit.events` about a series. -/
structure SeriesEvent where
  operation : SeriesOperation
  targetPk : ℤ
  before : Option Image
  after : Option Image
  returnedExisting : Bool := false
  ingestionRunId : ℤ
  actor : Actor
  /-- The transaction that wrote it, as long as it is open. -/
  tx : Option ℕ

/-- A row of `ts.series_subject`. -/
structure SubjectRow where
  seriesId : ℤ
  ref : SubjectRef
  actor : Option Actor
  /-- The transaction that wrote it, as long as it is open. -/
  tx : Option ℕ

/-- The tables: the rows of the catalog by their code, the subjects, the events in the order
    they were written in, and the next number of the catalog's sequence. -/
structure Store where
  series : String → Option SeriesRow
  subjects : List SubjectRow
  events : List SeriesEvent
  nextId : ℤ

/-- A `CHAR(3)`: padded with blanks, or without those that are too many. -/
def char3 (s : String) : Option String :=
  let t := s.toList.rdropWhile (· = ' ')
  if t.length ≤ 3 then some (String.ofList (t ++ List.replicate (3 - t.length) ' ')) else none

/-- What the columns hold of the fields of a call, unless the database, or the encoder of the
    metadata, refuses them. -/
def storeFields (f : SeriesFields PyDict) : Except SeriesError (SeriesFields Jsonb) :=
  match (PyValue.dict f.metadata).jsonb, f.currencyCode.map char3 with
  | none, _ => .error .refused
  | _, some none => .error .refused
  | some metadata, currencyCode =>
    if f.texts.all storableText then .ok { f with currencyCode := currencyCode.join, metadata }
    else .error .refused

/-- The foreign keys of the catalog. -/
def checkForeignKeys (env : SeriesEnv) (stored : SeriesFields Jsonb) : Except SeriesError Unit :=
  if env.admits stored then .ok () else .error .refused

/-- `INSERT … ON CONFLICT DO NOTHING` of a subject. -/
def insertSubject (tx : Option ℕ) (actor : Option Actor) (seriesId : ℤ) (st : Store)
    (ref : SubjectRef) : Store :=
  if st.subjects.any fun s => s.seriesId = seriesId ∧ s.ref = ref then st
  else { st with subjects := st.subjects ++ [{ seriesId, ref, actor, tx }] }

/-- `_persist_subjects`. -/
def persistSubjects (tx : Option ℕ) (actor : Option Actor) (seriesId : ℤ) (refs : List SubjectRef)
    (st : Store) : Except SeriesError Store :=
  if refs.all fun ref => storableText ref.subjectId then
    .ok (refs.foldl (insertSubject tx actor seriesId) st)
  else .error .refused

/-- `audit.record`, of the actor of the context: `check` has seen to it that there is one, in
    strict mode. -/
def recordEvent (tx : Option ℕ) (caller : Caller) (operation : SeriesOperation) (targetPk : ℤ)
    (before after : Option Image) (returnedExisting : Bool) (st : Store) : Store :=
  { st with
    events := st.events ++ [{
      operation, targetPk, before, after, returnedExisting, tx
      ingestionRunId := caller.ingestionRunId
      actor := caller.currentActor.getD AuditEvent.systemUnknown }] }

structure SeriesUpsertResult where
  seriesId : ℤ
  created : Bool
  deriving DecidableEq

/-! ### The paths of a call -/

/-- All thirteen fields are the same, as Python compares them. -/
def sameFields (existing : SeriesRow) (f : SeriesFields PyDict) : Bool :=
  existing.sourceId = f.sourceId ∧ existing.entityId = f.entityId ∧ existing.metric = f.metric ∧
  existing.frequency = f.frequency ∧ existing.unit = f.unit ∧
  existing.currencyCode = f.currencyCode ∧ existing.restatementBasis = f.restatementBasis ∧
  existing.accountingStandard = f.accountingStandard ∧ existing.consolidation = f.consolidation ∧
  existing.periodType = f.periodType ∧ existing.description = f.description ∧
  existing.piiClass = f.piiClass ∧ existing.metadata.pyEq (.dict f.metadata)

/-- The fields that may not change once there are observations. -/
def immutableChanges (existing : SeriesRow) (f : SeriesFields PyDict) : List String :=
  (if existing.sourceId ≠ f.sourceId then ["source_id"] else []) ++
  (if existing.frequency ≠ f.frequency then ["frequency"] else []) ++
  (if existing.unit ≠ f.unit then ["unit"] else [])

/-- The payload of an idempotent hit, and of an insertion. -/
def shortPayload (seriesId : ℤ) (seriesCode : String) (f : SeriesFields Jsonb) : Image :=
  [("series_id", .int seriesId),
    ("series_code", .text seriesCode),
    ("source_id", .text f.sourceId),
    ("metric", .text f.metric),
    ("frequency", .text f.frequency.text),
    ("unit", .text f.unit),
    ("pii_class", .text f.piiClass.text),
    ("restatement_basis", .text f.restatementBasis.text),
    ("metadata", .json f.metadata)]

/-- `before_payload`. -/
def beforePayload (existing : SeriesRow) (seriesCode : String) : Image :=
  [("series_id", .int existing.seriesId),
    ("series_code", .text seriesCode),
    ("source_id", .text existing.sourceId),
    ("metric", .text existing.metric),
    ("frequency", .text existing.frequency.text),
    ("unit", .text existing.unit),
    ("currency_code", .ofText existing.currencyCode),
    ("restatement_basis", .text existing.restatementBasis.text),
    ("accounting_standard", .ofText existing.accountingStandard),
    ("consolidation", .ofText existing.consolidation),
    ("period_type", .ofText existing.periodType),
    ("description", .ofText existing.description),
    ("pii_class", .text existing.piiClass.text),
    ("metadata", .json existing.metadata)]

/-- `after_payload`, over `before_payload`. -/
def afterPayload (before : Image) (f : SeriesFields Jsonb) : Image :=
  before.overlay
    [("source_id", .text f.sourceId),
      ("metric", .text f.metric),
      ("frequency", .text f.frequency.text),
      ("unit", .text f.unit),
      ("currency_code", .ofText f.currencyCode),
      ("restatement_basis", .text f.restatementBasis.text),
      ("accounting_standard", .ofText f.accountingStandard),
      ("consolidation", .ofText f.consolidation),
      ("period_type", .ofText f.periodType),
      ("description", .ofText f.description),
      ("pii_class", .text f.piiClass.text),
      ("metadata", .json f.metadata)]

/-- `UPDATE ts.series_catalog SET … WHERE series_id = :series_id`. -/
def updateSeries (seriesId : ℤ) (stored : SeriesFields Jsonb) (actor : Option Actor)
    (now : Timestamp) (st : Store) : Store :=
  { st with
    series := fun code => (st.series code).map fun row =>
      if row.seriesId = seriesId then { row with toSeriesFields := stored, actor, updatedAt := now }
      else row }

/-- `_upsert_series_field_change`. The `after_payload` has the fields as they were given. -/
def upsertSeriesFieldChange (env : SeriesEnv) (caller : Caller) (tx : Option ℕ) (now : Timestamp)
    (obsCount : ℤ → ℕ) (existing : SeriesRow) (call : SeriesCall) (st : Store) :
    Except SeriesError (SeriesUpsertResult × Store) := do
  let f := call.fields
  if immutableChanges existing f ≠ [] ∧ 0 < obsCount existing.seriesId then
    throw (.seriesCodeConflict (immutableChanges existing f) (obsCount existing.seriesId))
  let before := beforePayload existing call.seriesCode
  let stored ← storeFields f
  checkForeignKeys env stored
  let st ← persistSubjects tx caller.currentActor existing.seriesId call.subjects
    (updateSeries existing.seriesId stored caller.currentActor now st)
  let after := afterPayload before (f.withMetadata stored.metadata)
  return (⟨existing.seriesId, false⟩,
    recordEvent tx caller .update existing.seriesId (some before) (some after) false st)

/-- `_reconcile_existing`. -/
def reconcileExisting (env : SeriesEnv) (caller : Caller) (tx : Option ℕ) (now : Timestamp)
    (obsCount : ℤ → ℕ) (existing : SeriesRow) (call : SeriesCall) (st : Store) :
    Except SeriesError (SeriesUpsertResult × Store) := do
  if sameFields existing call.fields then
    let st ← persistSubjects tx caller.currentActor existing.seriesId call.subjects st
    let payload := shortPayload existing.seriesId call.seriesCode existing.toSeriesFields
    return (⟨existing.seriesId, false⟩,
      recordEvent tx caller .idempotentHit existing.seriesId (some payload) (some payload) true st)
  else upsertSeriesFieldChange env caller tx now obsCount existing call st

/-- The row that `_upsert_series_fresh` inserts. -/
def freshRow (caller : Caller) (now : Timestamp) (seriesId : ℤ) (seriesCode : String)
    (stored : SeriesFields Jsonb) : SeriesRow :=
  { stored with seriesId, seriesCode, actor := caller.currentActor, createdAt := now, updatedAt := now }

/-- `INSERT INTO ts.series_catalog …`, of a row that is not there. -/
def insertSeries (row : SeriesRow) (st : Store) : Store :=
  { st with
    series := Function.update st.series row.seriesCode (some row)
    nextId := st.nextId + 1 }

/-- `_upsert_series_fresh`, up to where it finds that the race was lost (`none`). -/
def upsertSeriesFresh (env : SeriesEnv) (caller : Caller) (tx : Option ℕ) (now : Timestamp)
    (call : SeriesCall) (st : Store) :
    Except SeriesError (Option (SeriesUpsertResult × Store)) := do
  let stored ← storeFields call.fields
  match st.series call.seriesCode with
  | some _ => return none
  | none =>
    checkForeignKeys env stored
    let sid := st.nextId
    let st ← persistSubjects tx caller.currentActor sid call.subjects
      (insertSeries (freshRow caller now sid call.seriesCode stored) st)
    let after := shortPayload sid call.seriesCode (call.fields.withMetadata stored.metadata)
    return some (⟨sid, true⟩, recordEvent tx caller .upsert sid none (some after) false st)

/-- `SELECT … FROM ts.series_catalog WHERE series_code = :code`. -/
def selectSeries (series : String → Option SeriesRow) (code : String) :
    Except SeriesError (Option SeriesRow) :=
  if storableText code then .ok (series code) else .error .refused

/-- `upsert_series`, when nobody interferes. -/
def upsertSeries (env : SeriesEnv) (caller : Caller) (tx : Option ℕ) (now : Timestamp)
    (obsCount : ℤ → ℕ) (call : SeriesCall) (st : Store) :
    Except SeriesError (SeriesUpsertResult × Store) := do
  checkCall env caller call
  match ← selectSeries st.series call.seriesCode with
  | some existing => reconcileExisting env caller tx now obsCount existing call st
  | none =>
    match ← upsertSeriesFresh env caller tx now call st with
    | some result => return result
    | none =>
      match ← selectSeries st.series call.seriesCode with
      | some existing => reconcileExisting env caller tx now obsCount existing call st
      | none => throw .refused

/-! ### What the tables are after a call -/

variable {env : SeriesEnv} {caller : Caller} {tx : Option ℕ} {now : Timestamp} {obsCount : ℤ → ℕ}
  {existing : SeriesRow} {call : SeriesCall} {st st' : Store} {result : SeriesUpsertResult}
  {seriesId : ℤ} {refs : List SubjectRef} {actor : Option Actor}

/-- What `_persist_subjects` does: the subjects are there, and no others are new. -/
structure Persisted (tx : Option ℕ) (actor : Option Actor) (seriesId : ℤ) (refs : List SubjectRef)
    (st st' : Store) : Prop where
  series : st'.series = st.series
  events : st'.events = st.events
  nextId : st'.nextId = st.nextId
  subset : ∀ s ∈ st.subjects, s ∈ st'.subjects
  origin : ∀ s ∈ st'.subjects, s ∈ st.subjects ∨
    s.seriesId = seriesId ∧ s.ref ∈ refs ∧ s.actor = actor ∧ s.tx = tx
  covered : ∀ ref ∈ refs, ∃ s ∈ st'.subjects, s.seriesId = seriesId ∧ s.ref = ref

theorem persisted_foldl (refs : List SubjectRef) (st : Store) :
    Persisted tx actor seriesId refs st (refs.foldl (insertSubject tx actor seriesId) st) := by
  induction refs generalizing st with
  | nil => exact ⟨rfl, rfl, rfl, fun _ h => h, fun _ h => .inl h, nofun⟩
  | cons ref refs ih =>
    obtain ⟨hseries, hevents, hnextId, hsubset, horigin, hcovered⟩ :=
      ih (insertSubject tx actor seriesId st ref)
    rw [List.foldl_cons]
    simp only [insertSubject] at *
    split_ifs at * with hany
    · obtain ⟨s, hs, hsid⟩ := List.any_eq_true.1 hany
      refine ⟨hseries, hevents, hnextId, hsubset, fun s hs => ?_, fun r hr => ?_⟩
      · exact (horigin s hs).imp_right fun ⟨h₁, h₂, h₃⟩ => ⟨h₁, List.mem_cons_of_mem _ h₂, h₃⟩
      · rcases List.mem_cons.1 hr with rfl | hr
        · exact ⟨s, hsubset s hs, of_decide_eq_true hsid⟩
        · exact hcovered r hr
    · refine ⟨hseries, hevents, hnextId, fun s hs => hsubset s (List.mem_append_left _ hs),
        fun s hs => ?_, fun r hr => ?_⟩
      · rcases horigin s hs with hs | ⟨h₁, h₂, h₃⟩
        · rcases List.mem_append.1 hs with hs | hs
          · exact .inl hs
          · obtain rfl := List.mem_singleton.1 hs
            exact .inr ⟨rfl, List.mem_cons_self, rfl, rfl⟩
        · exact .inr ⟨h₁, List.mem_cons_of_mem _ h₂, h₃⟩
      · rcases List.mem_cons.1 hr with rfl | hr
        · exact ⟨_, hsubset _ (List.mem_append_right _ (List.mem_singleton.2 rfl)), rfl, rfl⟩
        · exact hcovered r hr

theorem persisted_of_ok (h : persistSubjects tx actor seriesId refs st = .ok st') :
    Persisted tx actor seriesId refs st st' := by
  rw [persistSubjects] at h
  split_ifs at h
  exact Except.ok.inj h ▸ persisted_foldl refs st

/-- The fields that are stored are those of the call, but for the blanks of the currency code,
    and the metadata. -/
theorem storeFields_eq_ok {f : SeriesFields PyDict} {stored : SeriesFields Jsonb}
    (h : storeFields f = .ok stored) :
    ∃ j, (PyValue.dict f.metadata).jsonb = some j ∧ f.currencyCode.map char3 ≠ some none ∧
      stored = { f with currencyCode := (f.currencyCode.map char3).join, metadata := j } := by
  simp only [storeFields] at h
  split at h
  · cases h
  · cases h
  · rename_i j hj hc
    split_ifs at h
    exact ⟨j, hj, hc, (Except.ok.inj h).symm⟩

/-- What a field change does. -/
structure FieldChanged (env : SeriesEnv) (caller : Caller) (tx : Option ℕ) (now : Timestamp)
    (existing : SeriesRow) (call : SeriesCall) (stored : SeriesFields Jsonb) (st st' : Store) :
    Prop where
  encoded : storeFields call.fields = .ok stored
  does : ∃ st₁, Persisted tx caller.currentActor existing.seriesId call.subjects
      (updateSeries existing.seriesId stored caller.currentActor now st) st₁ ∧
    st' = recordEvent tx caller .update existing.seriesId
      (some (beforePayload existing call.seriesCode))
      (some (afterPayload (beforePayload existing call.seriesCode)
        (call.fields.withMetadata stored.metadata))) false st₁

theorem upsertSeriesFieldChange_eq_ok
    (h : upsertSeriesFieldChange env caller tx now obsCount existing call st = .ok (result, st')) :
    result = ⟨existing.seriesId, false⟩ ∧
      ∃ stored, FieldChanged env caller tx now existing call stored st st' := by
  simp only [upsertSeriesFieldChange, bind, Except.bind, throw, throwThe, MonadExceptOf.throw, pure,
    Except.pure] at h
  split_ifs at h
  split at h
  · cases h
  · rename_i stored hstored
    split at h
    · cases h
    · split at h
      · cases h
      · rename_i st₁ hst₁
        cases h
        exact ⟨rfl, stored, hstored, st₁, persisted_of_ok hst₁, rfl⟩

/-- What an idempotent hit does: it leaves the row as it is. -/
structure Hit (caller : Caller) (tx : Option ℕ) (existing : SeriesRow) (call : SeriesCall)
    (st st' : Store) : Prop where
  same : sameFields existing call.fields = true
  does : ∃ st₁, Persisted tx caller.currentActor existing.seriesId call.subjects st st₁ ∧
    st' = recordEvent tx caller .idempotentHit existing.seriesId
      (some (shortPayload existing.seriesId call.seriesCode existing.toSeriesFields))
      (some (shortPayload existing.seriesId call.seriesCode existing.toSeriesFields)) true st₁

theorem reconcileExisting_eq_ok
    (h : reconcileExisting env caller tx now obsCount existing call st = .ok (result, st')) :
    result = ⟨existing.seriesId, false⟩ ∧ (Hit caller tx existing call st st' ∨
      sameFields existing call.fields = false ∧
        ∃ stored, FieldChanged env caller tx now existing call stored st st') := by
  simp only [reconcileExisting, bind, Except.bind, pure, Except.pure] at h
  split_ifs at h with hsame
  · split at h
    · cases h
    · rename_i st₁ hst₁
      cases h
      exact ⟨rfl, .inl ⟨hsame, st₁, persisted_of_ok hst₁, rfl⟩⟩
  · obtain ⟨hresult, hchanged⟩ := upsertSeriesFieldChange_eq_ok h
    exact ⟨hresult, .inr ⟨by simpa using hsame, hchanged⟩⟩

/-- What an insertion does. -/
structure Inserted (env : SeriesEnv) (caller : Caller) (tx : Option ℕ) (now : Timestamp)
    (call : SeriesCall) (stored : SeriesFields Jsonb) (st st' : Store) : Prop where
  encoded : storeFields call.fields = .ok stored
  absent : st.series call.seriesCode = none
  does : ∃ st₁, Persisted tx caller.currentActor st.nextId call.subjects
      (insertSeries (freshRow caller now st.nextId call.seriesCode stored) st) st₁ ∧
    st' = recordEvent tx caller .upsert st.nextId none
      (some (shortPayload st.nextId call.seriesCode (call.fields.withMetadata stored.metadata)))
      false st₁

theorem upsertSeriesFresh_eq_ok
    (h : upsertSeriesFresh env caller tx now call st = .ok (some (result, st'))) :
    result = ⟨st.nextId, true⟩ ∧ ∃ stored, Inserted env caller tx now call stored st st' := by
  simp only [upsertSeriesFresh, bind, Except.bind, pure, Except.pure] at h
  split at h
  · cases h
  · rename_i stored hstored
    split at h
    · cases h
    · rename_i habsent
      split at h
      · cases h
      · split at h
        · cases h
        · rename_i st₁ hst₁
          cases h
          exact ⟨rfl, stored, hstored, habsent, st₁, persisted_of_ok hst₁, rfl⟩

/-- The race is lost only if there is a row. -/
theorem upsertSeriesFresh_eq_none (h : upsertSeriesFresh env caller tx now call st = .ok none) :
    (st.series call.seriesCode).isSome := by
  simp only [upsertSeriesFresh, bind, Except.bind, pure, Except.pure] at h
  split at h
  · cases h
  · split at h
    · rename_i hrow
      rw [hrow]
      rfl
    · split at h
      · cases h
      · split at h <;> cases h

theorem selectSeries_eq_ok_iff {series : String → Option SeriesRow} {code : String}
    {row : Option SeriesRow} :
    selectSeries series code = .ok row ↔ storableText code = true ∧ row = series code := by
  rw [selectSeries]
  split_ifs with hcode
  · simp [hcode, eq_comm]
  · simp [hcode]

/-- A call that nobody interferes with inserts the row, or reconciles it with what is there. -/
theorem upsertSeries_eq_ok
    (h : upsertSeries env caller tx now obsCount call st = .ok (result, st')) :
    checkCall env caller call = .ok () ∧ storableText call.seriesCode = true ∧
      ((∃ stored, Inserted env caller tx now call stored st st') ∨
        ∃ existing, st.series call.seriesCode = some existing ∧
          (Hit caller tx existing call st st' ∨ sameFields existing call.fields = false ∧
            ∃ stored, FieldChanged env caller tx now existing call stored st st')) := by
  rw [upsertSeries] at h
  obtain ⟨⟨⟩, hcheck, h⟩ := except_bind_eq_ok.1 h
  obtain ⟨row, hrow, h⟩ := except_bind_eq_ok.1 h
  obtain ⟨hcode, rfl⟩ := selectSeries_eq_ok_iff.1 hrow
  refine ⟨hcheck, hcode, ?_⟩
  cases hex : st.series call.seriesCode with
  | some existing =>
    rw [hex] at h
    exact .inr ⟨existing, rfl, (reconcileExisting_eq_ok h).2⟩
  | none =>
    rw [hex] at h
    obtain ⟨r, hr, h⟩ := except_bind_eq_ok.1 h
    cases r with
    | some r =>
      cases h
      exact .inl (upsertSeriesFresh_eq_ok hr).2
    | none =>
      have hsome := upsertSeriesFresh_eq_none hr
      rw [hex] at hsome
      cases hsome

/-! ### What is checked -/

theorem raiseIfFound_eq_ok_iff {error : PiiFinding → SeriesError} {found : List PiiFinding} :
    raiseIfFound error found = .ok () ↔ found = [] := by
  cases found with
  | nil => exact iff_of_true rfl rfl
  | cons f found => exact iff_of_false nofun nofun

/-- A call that passes, of an identifying series, has subjects, and no match where it is
    searched for. -/
theorem checkIdentifying_eq_ok (h : checkIdentifying env call = .ok ()) :
    ¬env.patterns.Matches call.seriesCode ∧ (∀ s ∈ call.description, ¬env.patterns.Matches s) ∧
      call.subjects ≠ [] ∧ findPiiInMetadata env.patterns (some (call.metadata.getD [])) = [] := by
  rw [checkIdentifying] at h
  obtain ⟨⟨⟩, hcode, h⟩ := except_bind_eq_ok.1 h
  obtain ⟨⟨⟩, hdescription, h⟩ := except_bind_eq_ok.1 h
  rw [raiseIfFound_eq_ok_iff, findPiiInClearText_eq_nil_iff] at hcode hdescription
  split_ifs at h with hsubjects
  · cases h
  · refine ⟨hcode _ rfl, hdescription, hsubjects, ?_⟩
    have hmetadata := raiseIfFound_eq_ok_iff.1 h
    cases hm : call.metadata with
    | none => rfl
    | some metadata =>
      rw [hm] at hmetadata
      exact hmetadata

theorem checkIdentifying_of_checkCall (h : checkCall env caller call = .ok ())
    (hpii : call.piiClass = .identifying) : checkIdentifying env call = .ok () := by
  simp only [checkCall, bind, Except.bind, throw, throwThe, MonadExceptOf.throw, pure, Except.pure,
    hpii, if_true] at h
  split_ifs at h
  exact h

end AslanCore.Timeseries
