import AslanCore.Registry.Tables
import AslanCore.Store.Transaction

/-!
# The client of the registry

The calls of `EntityRegistryClient` on the tables, in a transaction of their own: what they look
up and write, and what they raise. `createEntity` looks for the rows of its identifiers that are
valid today; it merges into the entity that they name (`mergeInto`), or creates one
(`createFresh`), and either way it attaches what is missing (`addIdentifier`).
-/

namespace AslanCore.Registry

open Timeseries (PyDict PyValue Jsonb storableText fieldsJsonb)

/-- What a call is made with. -/
structure Context where
  /-- `Settings.audit_strict`. -/
  auditStrict : Bool
  currentActor : Option RequestActor
  /-- The ingestion run of the client. -/
  runId : ℤ
  /-- `now()::date`. -/
  today : Date
  /-- `now()`. -/
  now : Timestamp
  /-- `gen_random_uuid()`. -/
  uuid : PgUuid

/-- Why an entity may not be merged into. -/
inductive MergeReason
  /-- The identifiers map to distinct entities. -/
  | distinct (entityIds : List PgUuid)
  /-- The entity is owned by another source. -/
  | ownedBy (entityId : PgUuid) (sourceId mySource : String)
  /-- The identifier was written by another source. -/
  | writtenBy (ns value sourceId mySource : String)
  deriving DecidableEq

/-- What the calls raise. -/
inductive RegistryError
  | auditMissingActor
  /-- The ingestion run is not found. -/
  | registryConstraintViolation (runId : ℤ)
  | entityMergeRequired (why : MergeReason)
  | entityNotFound (entityId : PgUuid)
  /-- There is no active identifier. -/
  | identifierNotFound (ns value : String)
  /-- The identifier already maps to another entity. -/
  | identifierConflict (ns value : String) (validFrom : Date) (entityId : PgUuid)
  /-- The identifier could not be inserted. -/
  | identifierRejected (e : DbError)
  | multipleResultsFound
  /-- The encoder of the metadata raises. -/
  | valueError
  | database (e : DbError)
  deriving DecidableEq

/-- A call, in a transaction. -/
abbrev Call (α : Type) : Type := Tx Tables RegistryError α

/-- A statement. -/
def execute {α : Type} (stmt : Tables → Except DbError (α × Tables)) : Call α :=
  Tx.execute (.database .inFailedTransaction) fun t => (stmt t).mapError .database

/-- A statement that only reads. -/
def select {α : Type} (f : Tables → Except DbError α) : Call α :=
  Tx.select (.database .inFailedTransaction) fun t => (f t).mapError .database

/-! ### Helpers -/

/-- `_audit_cols`. -/
def auditCols (ctx : Context) : AuditCols :=
  match ctx.currentActor with
  | none => ⟨none, none, none, none, none⟩
  | some a => ⟨some a.actorId, some a.actorKind, a.clientIp, a.userAgent, a.requestId⟩

/-- `assert_actor_or_strict_raise`. -/
def assertActorOrStrictRaise (ctx : Context) : Call Unit :=
  if ctx.auditStrict ∧ ctx.currentActor.isNone then throw .auditMissingActor else pure ()

/-- `_source_id`. The client reads it once: the source of a run does not change. -/
def sourceId (ctx : Context) : Call String := do
  match ← select fun t => .ok (t.sourceOf ctx.runId) with
  | none => throw (.registryConstraintViolation ctx.runId)
  | some sid => pure sid

/-- `_emit_audit`. -/
def emitAudit (ctx : Context) (operation : String) (target : Target) (before after : Option Image)
    (returnedExisting : Bool) : Call Unit := do
  assertActorOrStrictRaise ctx
  let actor := ctx.currentActor.getD ⟨AuditEvent.systemUnknown, none, none, none⟩
  execute fun t => .ok ((), t.record
    { operation, target, before, after, returnedExisting, actor, ingestionRunId := ctx.runId })

mutual

/-- `json.dumps` writes the value: its integers do not have too many digits. -/
def dumps : PyValue → Bool
  | .int n => FewDigits n
  | .list vs => itemsDumps vs
  | .tuple vs => itemsDumps vs
  | .dict fields => fieldsDumps fields
  | _ => true

def itemsDumps : List PyValue → Bool
  | [] => true
  | v :: vs => dumps v && itemsDumps vs

def fieldsDumps : List (Timeseries.PyKey × PyValue) → Bool
  | [] => true
  | (_, v) :: fields => dumps v && fieldsDumps fields

end

/-! ### Reads -/

/-- `get`. -/
def get (entityId : PgUuid) : Call EntityRow := do
  match ← select fun t => .ok (t.findEntity entityId) with
  | none => throw (.entityNotFound entityId)
  | some row => pure row

/-! ### `add_identifier` -/

/-- The rows of an identifier that begin on a day. -/
def Tables.beginning (t : Tables) (ns value : String) (validFrom : Date) : List IdentifierRow :=
  t.identifier.filter fun r => r.pair = (ns, value) ∧ r.window.lower = validFrom

/-- `.one_or_none()`. -/
def oneOrNone {α : Type} : List α → Call (Option α)
  | [] => pure none
  | [a] => pure (some a)
  | _ => throw .multipleResultsFound

/-- `INSERT INTO ref.identifier … RETURNING identifier_id`. -/
def insertIdentifier (ctx : Context) (mySource : String) (entityId : PgUuid) (ns value : String)
    (validFrom validTo : Date) (isPrimary : Bool) (t : Tables) : Except DbError (ℤ × Tables) :=
  if hle : validFrom ≤ validTo then
    t.insertIdentifier (fun identifierId =>
      { identifierId, entityId, ns, value, isPrimary
        window := ⟨validFrom, validTo, hle⟩
        sourceId := mySource
        ingestionRunId := ctx.runId
        createdAt := ctx.now
        toAuditCols := auditCols ctx }) fun _ => rfl
  else .error .badRange

/-- Where an identifier cannot be inserted, that is a conflict. -/
def rejected : RegistryError → Call ℤ
  | .database e => throw (.identifierRejected e)
  | e => throw e

/-- `add_identifier`. -/
def addIdentifier (ctx : Context) (entityId : PgUuid) (ns value : String)
    (validFrom validTo : Option Date) (isPrimary : Bool) : Call Unit := do
  assertActorOrStrictRaise ctx
  let mySource ← sourceId ctx
  let vf := validFrom.getD firstDay
  let existing ← select fun t =>
    if [ns, value].all storableText then .ok (t.beginning ns value vf) else .error .badText
  match ← oneOrNone existing with
  | some r =>
    if r.entityId ≠ entityId then
      throw (.identifierConflict ns value r.window.lower r.entityId)
    else
      let snap := Image.identifier r.identifierId r.entityId ns value r.window.lower none none
      emitAudit ctx "identifier.idempotent_hit" (.identifier r.identifierId) snap snap true
  | none =>
    let vt := validTo.getD lastDay
    let newId ← tryCatch
      (execute (insertIdentifier ctx mySource entityId ns value vf vt isPrimary)) rejected
    emitAudit ctx "identifier.add" (.identifier newId) none
      (some (.identifier newId entityId ns value vf (some vt) (some isPrimary))) false

/-! ### `create_entity` -/

/-- A dictionary of identifiers: their values, by their namespaces. -/
structure IdentifierMap where
  items : List (String × String)
  nodup : (items.map Prod.fst).Nodup

/-- The rows of the identifiers that are valid today. -/
def Tables.matching (t : Tables) (identifiers : IdentifierMap) (today : Date) :
    List IdentifierRow :=
  t.identifier.filter fun r => r.pair ∈ identifiers.items ∧ today ∈ r.window

/-- The database can read all of the texts. -/
def IdentifierMap.Storable (identifiers : IdentifierMap) : Prop :=
  ∀ p ∈ identifiers.items, [p.1, p.2].all storableText

instance (identifiers : IdentifierMap) : Decidable identifiers.Storable :=
  inferInstanceAs (Decidable (∀ p ∈ identifiers.items, _))

/-- `SELECT … WHERE (namespace, value) IN (SELECT * FROM unnest(:nss, :vs)) AND …`, if there are
    identifiers. -/
def lookUp (ctx : Context) (identifiers : IdentifierMap) : Call (List IdentifierRow) :=
  if identifiers.items = [] then pure []
  else select fun t =>
    if identifiers.Storable then .ok (t.matching identifiers ctx.today) else .error .badText

/-- The path of `create_entity` where the identifiers name an entity. -/
def mergeInto (ctx : Context) (mySource : String) (target : PgUuid) (rows : List IdentifierRow)
    (identifiers : IdentifierMap) : Call EntityRow := do
  let targetEntity ← get target
  if targetEntity.sourceId ≠ mySource then
    throw (.entityMergeRequired (.ownedBy target targetEntity.sourceId mySource))
  else
    match rows.find? (·.sourceId ≠ mySource) with
    | some r => throw (.entityMergeRequired (.writtenBy r.ns r.value r.sourceId mySource))
    | none =>
      (identifiers.items.filter (· ∉ rows.map (·.pair))).forM fun p =>
        addIdentifier ctx target p.1 p.2 none none false
      emitAudit ctx "entity.idempotent_hit" (.entity targetEntity.entityId)
        (some (.entity targetEntity)) (some (.entity targetEntity)) true
      pure targetEntity

/-- The row of a new entity. -/
def newEntity (ctx : Context) (mySource : String) (fields : EntityFields (Option PyDict))
    (metadata : List (String × Jsonb)) (countryCode : String) : EntityRow :=
  { fields with
    metadata, countryCode
    entityId := ctx.uuid
    sourceId := mySource
    ingestionRunId := ctx.runId
    createdAt := ctx.now
    updatedAt := ctx.now
    toAuditCols := auditCols ctx }

/-- `INSERT INTO ref.entity … RETURNING entity_id`. -/
def insertEntity (ctx : Context) (mySource : String) (fields : EntityFields (Option PyDict))
    (t : Tables) : Except DbError (PgUuid × Tables) :=
  match fieldsJsonb [] (fields.metadata.getD []), bpchar 2 fields.countryCode with
  | none, _ => .error .badText
  | _, none => .error .tooLong
  | some metadata, some countryCode =>
    t.insertEntity (newEntity ctx mySource fields metadata countryCode)

/-- The path of `create_entity` where the identifiers are new. -/
def createFresh (ctx : Context) (mySource : String) (fields : EntityFields (Option PyDict))
    (identifiers : IdentifierMap) : Call EntityRow := do
  if ¬fieldsDumps (fields.metadata.getD []) then throw .valueError
  else
    let eid ← execute (insertEntity ctx mySource fields)
    identifiers.items.forM fun p => addIdentifier ctx eid p.1 p.2 none none false
    let row ← get eid
    emitAudit ctx "entity.create" (.entity row.entityId) none (some (.entity row)) false
    pure row

/-- What `create_entity` does with the rows that it has found. -/
def createFrom (ctx : Context) (mySource : String) (fields : EntityFields (Option PyDict))
    (identifiers : IdentifierMap) (rows : List IdentifierRow) : Call EntityRow :=
  match (rows.map (·.entityId)).dedup with
  | [] => createFresh ctx mySource fields identifiers
  | [target] => mergeInto ctx mySource target rows identifiers
  | entityIds => throw (.entityMergeRequired (.distinct entityIds))

/-- `create_entity`. -/
def createEntity (ctx : Context) (fields : EntityFields (Option PyDict))
    (identifiers : IdentifierMap) : Call EntityRow := do
  assertActorOrStrictRaise ctx
  let mySource ← sourceId ctx
  let rows ← lookUp ctx identifiers
  createFrom ctx mySource fields identifiers rows

/-! ### `expire_identifier` -/

/-- `expire_identifier`. -/
def expireIdentifier (schema : Schema) (ctx : Context) (ns value : String) (asOf : Date) :
    Call Unit := do
  assertActorOrStrictRaise ctx
  let old ← execute fun t => t.updateExpired schema (auditCols ctx) ns value asOf
  match ← oneOrNone old with
  | none => throw (.identifierNotFound ns value)
  | some r =>
    emitAudit ctx "identifier.expire" (.identifier r.identifierId)
      (some (.identifier r.identifierId r.entityId ns value r.window.lower
        (some r.window.upper) none))
      (some (.identifier r.identifierId r.entityId ns value r.window.lower (some asOf) none)) false

end AslanCore.Registry
