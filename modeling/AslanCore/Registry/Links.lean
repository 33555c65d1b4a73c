import AslanCore.Registry.Client
import AslanCore.Store.Journal
import AslanCore.Timeseries.Prices

/-!
# Relationships and sectors

`link`, `upsert_sector` and `assign_sector` of `EntityRegistryClient` do the same, to a row of one
of three tables (`upsert`): the row is read, without a lock. If it has what the call is made with,
that is a hit, and nothing is written. Else the row is inserted, or updated, and the record shows
the row that was read as the one before.

The sessions run any of these calls, and end their transactions when they like. The database may
refuse any statement: an entity that is not there, a code that is taken, a lost connection.
-/

namespace AslanCore.Registry.Links

open Timeseries (Decimal Jsonb PyDict PyValue storableText fieldsJsonb)

/-! ### Weights -/

/-- `==` of decimals: their values are compared, and `NaN` is equal to nothing. -/
def decimalEq : Decimal → Decimal → Bool
  | .finite neg c e, .finite neg' c' e' =>
    let n := c * 10 ^ (e - min e e').toNat
    let n' := c' * 10 ^ (e' - min e e').toNat
    n = n' ∧ (neg = neg' ∨ n = 0)
  | .infinite neg, .infinite neg' => neg = neg'
  | _, _ => false

/-- `existing.weight == weight`. -/
def weightEq : Option Decimal → Option Decimal → Bool
  | none, none => true
  | some d, some d' => decimalEq d d'
  | _, _ => false

/-- A `NUMERIC`: there are digits before the point, and a zero has no sign. -/
def numeric : Decimal → Decimal
  | .finite neg c e => .finite (neg && c ≠ 0) (c * 10 ^ e.toNat) (min e 0)
  | d => d

/-! ### Rows -/

/-- What a row is found under. -/
inductive LinkKey
  /-- `ref.entity_relationship`. -/
  | relationship (parentId childId : PgUuid) (relType : String) (validFrom : Date)
  /-- `ref.sector`. -/
  | sector (sectorId : String)
  /-- `ref.entity_sector`. -/
  | entitySector (entityId : PgUuid) (sectorId : String) (validFrom : Date)
  deriving DecidableEq

structure RelationshipFields where
  weight : Option Decimal
  validTo : Date
  /-- The fields of an object. -/
  metadata : List (String × Jsonb)

structure SectorFields where
  taxonomy : String
  code : String
  nameTr : String
  nameEn : Option String
  parentSectorId : Option String
  deriving DecidableEq

structure AssignmentFields where
  isPrimary : Bool
  validTo : Date
  deriving DecidableEq

/-- The business fields of a row. -/
abbrev Fields : LinkKey → Type
  | .relationship _ _ _ _ => RelationshipFields
  | .sector _ => SectorFields
  | .entitySector _ _ _ => AssignmentFields

/-- What a relationship is inserted with, and keeps. -/
structure RelationshipOrigin where
  relationshipId : ℕ
  sourceId : String
  ingestionRunId : ℤ

abbrev Origin : LinkKey → Type
  | .relationship _ _ _ _ => RelationshipOrigin
  | _ => Unit

structure LinkRow (k : LinkKey) extends AuditCols where
  origin : Origin k
  fields : Fields k

/-- What an audit record shows of a row. The metadata are those of a row, or those of a call. -/
inductive LinkImage
  | relationship (relationshipId : ℕ) (parentId childId : PgUuid) (relType : String)
    (weight : Option Decimal) (validFrom validTo : Date) (metadata : List (String × Jsonb) ⊕ PyDict)
  | sector (sectorId : String) (fields : SectorFields)
  | entitySector (entityId : PgUuid) (sectorId : String) (validFrom : Date)
    (fields : AssignmentFields)

/-- The row that is shown. -/
def LinkImage.key : LinkImage → LinkKey
  | .relationship _ parentId childId relType _ validFrom _ _ =>
    .relationship parentId childId relType validFrom
  | .sector sectorId _ => .sector sectorId
  | .entitySector entityId sectorId validFrom _ => .entitySector entityId sectorId validFrom

/-- What is shown of a row. -/
def image : (k : LinkKey) → LinkRow k → LinkImage
  | .relationship parentId childId relType validFrom, row =>
    .relationship row.origin.relationshipId parentId childId relType row.fields.weight validFrom
      row.fields.validTo (.inl row.fields.metadata)
  | .sector sectorId, row => .sector sectorId row.fields
  | .entitySector entityId sectorId validFrom, row =>
    .entitySector entityId sectorId validFrom row.fields

/-- `target_pk`. -/
inductive LinkTarget
  | relationship (relationshipId : ℕ)
  | sector (sectorId : String)
  | entitySector (entityId : PgUuid) (sectorId : String) (validFrom : Date)

def target : (k : LinkKey) → LinkRow k → LinkTarget
  | .relationship _ _ _ _, row => .relationship row.origin.relationshipId
  | .sector sectorId, _ => .sector sectorId
  | .entitySector entityId sectorId validFrom, _ => .entitySector entityId sectorId validFrom

/-- A row of `audit.events` about one of the tables. -/
structure LinkEvent where
  operation : String
  target : LinkTarget
  before : Option LinkImage
  after : Option LinkImage
  returnedExisting : Bool
  ingestionRunId : ℤ
  actor : RequestActor

/-! ### The calls -/

/-- What is raised. -/
inductive LinkError
  | auditMissingActor
  /-- The ingestion run is not found. -/
  | registryConstraintViolation (runId : ℤ)
  /-- The encoder of the metadata raises. -/
  | valueError
  | noResultFound
  | sql
  deriving DecidableEq

abbrev LinkCmd : Type := Journal.Cmd LinkKey LinkRow LinkEvent

abbrev LinkProg (α : Type) : Type := Prog LinkCmd Journal.Reply LinkError α

/-- `assert_actor_or_strict_raise`. -/
def assertActorOrStrictRaise (ctx : Context) : LinkProg Unit :=
  if ctx.auditStrict ∧ ctx.currentActor.isNone then throw .auditMissingActor else pure ()

/-- `_emit_audit`. -/
def emitAudit (ctx : Context) (operation : String) (target : LinkTarget)
    (before after : Option LinkImage) (returnedExisting : Bool) : LinkProg Unit := do
  assertActorOrStrictRaise ctx
  let actor := ctx.currentActor.getD ⟨AuditEvent.systemUnknown, none, none, none⟩
  .perform (Journal.Cmd.record
    { operation, target, before, after, returnedExisting, ingestionRunId := ctx.runId, actor })

/-- What the calls do to the row of a key. -/
structure Upsertion where
  key : LinkKey
  /-- The texts of the key. -/
  texts : List String
  /-- The row has what the call is made with. -/
  same : Fields key → Bool
  /-- `json.dumps` writes the values. -/
  dumps : Bool
  /-- The values as the columns hold them, if they do. -/
  stored : Option (Fields key)
  /-- What a new row is inserted with, with the number that is drawn for it. -/
  origin : ℕ → Origin key
  /-- How the record of the write finds what it is about. -/
  findTarget : LinkProg LinkTarget
  after : LinkTarget → LinkImage
  operation : String
  hitOperation : String

/-- The row is as it should be: only that is recorded. -/
def recordHit (ctx : Context) (u : Upsertion) (row : LinkRow u.key) : LinkProg Unit :=
  emitAudit ctx u.hitOperation (target u.key row) (image u.key row) (image u.key row) true

/-- `INSERT … ON CONFLICT DO UPDATE SET …`: the audit columns are those of the call, also of a row
    that is there. -/
def upsertRow (ctx : Context) (u : Upsertion) : LinkProg Unit :=
  match u.stored with
  | none => Journal.reject
  | some fields =>
    .perform (Journal.Cmd.upsert u.key (fun n => ⟨auditCols ctx, u.origin n, fields⟩)
      fun row => { row with fields, toAuditCols := auditCols ctx })

/-- The row is written, and recorded. -/
def write (ctx : Context) (u : Upsertion) (existing : Option (LinkRow u.key)) : LinkProg Unit :=
  if ¬u.dumps then throw .valueError
  else do
    upsertRow ctx u
    let found ← u.findTarget
    emitAudit ctx u.operation found (existing.map (image u.key)) (some (u.after found)) false

/-- What `link`, `upsert_sector` and `assign_sector` do. -/
def upsert (ctx : Context) (u : Upsertion) : LinkProg Unit := do
  let existing ← Journal.performIf (u.texts.all storableText) (.select u.key)
  match existing with
  | none => write ctx u none
  | some row => if u.same row.fields then recordHit ctx u row else write ctx u (some row)

/-- The relationship, as it has been written, is looked up. -/
def findRelationship (k : LinkKey) : LinkProg LinkTarget := do
  match ← (.perform (Journal.Cmd.select k) : LinkProg (Option (LinkRow k))) with
  | none => throw .noResultFound
  | some row => pure (target k row)

/-- The identifier of the relationship. -/
def LinkTarget.relationshipId : LinkTarget → ℕ
  | .relationship relationshipId => relationshipId
  | _ => 0

/-- `link`. The source of the ingestion run is that of `sourceOf`, which does not change. -/
def link (sourceOf : ℤ → Option String) (ctx : Context) (parentId childId : PgUuid)
    (relType : String) (weight : Option Decimal) (validFrom validTo : Option Date)
    (metadata : Option PyDict) : LinkProg Unit := do
  assertActorOrStrictRaise ctx
  match sourceOf ctx.runId with
  | none => throw (.registryConstraintViolation ctx.runId)
  | some mySource =>
    let vf := validFrom.getD firstDay
    let vt := validTo.getD lastDay
    let mdIn := metadata.getD []
    let key := LinkKey.relationship parentId childId relType vf
    upsert ctx {
      key
      texts := [relType]
      same := fun existing => weightEq existing.weight weight && existing.validTo == vt &&
        (Jsonb.obj existing.metadata).pyEq (.dict mdIn)
      dumps := fieldsDumps mdIn
      stored := if parentId = childId then none
        else (fieldsJsonb [] mdIn).map fun md => ⟨weight.map numeric, vt, md⟩
      origin := fun relationshipId => ⟨relationshipId, mySource, ctx.runId⟩
      findTarget := findRelationship key
      after := fun found => .relationship found.relationshipId parentId childId relType weight vf vt
        (.inr mdIn)
      operation := "entity_relationship.link"
      hitOperation := "entity_relationship.idempotent_hit" }

/-- `upsert_sector`. -/
def upsertSector (ctx : Context) (sectorId : String) (fields : SectorFields) : LinkProg Unit := do
  assertActorOrStrictRaise ctx
  upsert ctx {
    key := .sector sectorId
    texts := [sectorId]
    same := fun existing => existing = fields
    dumps := true
    stored := if ([fields.taxonomy, fields.code, fields.nameTr] ++ fields.nameEn.toList ++
      fields.parentSectorId.toList).all storableText then some fields else none
    origin := fun _ => ()
    findTarget := pure (.sector sectorId)
    after := fun _ => .sector sectorId fields
    operation := "sector.upsert"
    hitOperation := "sector.idempotent_hit" }

/-- `assign_sector`. -/
def assignSector (ctx : Context) (entityId : PgUuid) (sectorId : String) (isPrimary : Bool)
    (validFrom validTo : Option Date) : LinkProg Unit := do
  assertActorOrStrictRaise ctx
  let vf := validFrom.getD firstDay
  let vt := validTo.getD lastDay
  upsert ctx {
    key := .entitySector entityId sectorId vf
    texts := [sectorId]
    same := fun existing => existing = ⟨isPrimary, vt⟩
    dumps := true
    stored := some ⟨isPrimary, vt⟩
    origin := fun _ => ()
    findTarget := pure (.entitySector entityId sectorId vf)
    after := fun _ => .entitySector entityId sectorId vf ⟨isPrimary, vt⟩
    operation := "entity_sector.upsert"
    hitOperation := "entity_sector.idempotent_hit" }

/-! ### The system -/

/-- What a session does: a call, or the end of its transaction. -/
inductive LinkJob
  | link (ctx : Context) (parentId childId : PgUuid) (relType : String) (weight : Option Decimal)
    (validFrom validTo : Option Date) (metadata : Option PyDict)
  | upsertSector (ctx : Context) (sectorId : String) (fields : SectorFields)
  | assignSector (ctx : Context) (entityId : PgUuid) (sectorId : String) (isPrimary : Bool)
    (validFrom validTo : Option Date)
  | commit
  | rollback

/-- The program of a job. -/
def linkBody (sourceOf : ℤ → Option String) : LinkJob → LinkProg Unit
  | .link ctx parentId childId relType weight validFrom validTo metadata =>
    link sourceOf ctx parentId childId relType weight validFrom validTo metadata
  | .upsertSector ctx sectorId fields => upsertSector ctx sectorId fields
  | .assignSector ctx entityId sectorId isPrimary validFrom validTo =>
    assignSector ctx entityId sectorId isPrimary validFrom validTo
  | .commit => .perform Journal.Cmd.commit
  | .rollback => .perform Journal.Cmd.rollback

abbrev LinkJournal (P : Type) : Type := Journal P LinkKey LinkRow LinkEvent

/-- The sessions `P`. -/
def links (P : Type) [DecidableEq P] (sourceOf : ℤ → Option String) :
    System LinkCmd Journal.Reply LinkError Unit P LinkJob Fault (LinkJournal P) :=
  Journal.system .sql fun _ => linkBody sourceOf

end AslanCore.Registry.Links
