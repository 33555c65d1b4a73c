import Mathlib.Data.Prod.Lex
import AslanCore.Audit
import AslanCore.Store.Column
import AslanCore.Store.Exclusion
import AslanCore.Timeseries.Pii

/-!
# The registry of entities

The tables `ref.entity` and `ref.identifier`, with their constraints as fields (`Tables`), and the
statements on them. An identifier is a value in a namespace: it names an entity from one day on,
until another, and no two rows of it are valid on one day.

The triggers that run before a row of `ref.identifier` is updated are those of a `Schema`: there
are none until the revision 0044, which adds one that rejects the update.
-/

namespace AslanCore.Registry

open Timeseries (PyDict Jsonb storableText)

/-! ### Rows -/

/-- `DATE '1900-01-01'`. -/
def firstDay : Date := -25567

/-- `DATE '9999-12-31'`. -/
def lastDay : Date := 2932896

/-- The window of a row that is given none. -/
def always : Window Date := ⟨firstDay, lastDay, by decide⟩

/-- The columns of a row that say who wrote it. -/
structure AuditCols where
  actorId : Option String
  actorKind : Option String
  clientIp : Option String
  userAgent : Option String
  requestId : Option PgUuid
  deriving DecidableEq

/-- What a caller says of an entity: the metadata are of the type `M`. -/
structure EntityFields (M : Type) where
  entityType : String
  legalName : String
  shortName : Option String
  countryCode : String
  domicile : Option String
  incorporationDt : Option Date
  fiscalYearEnd : Option Date
  status : String
  parentEntityId : Option PgUuid
  metadata : M

/-- Its texts. -/
def EntityFields.texts {M : Type} (f : EntityFields M) : List String :=
  [f.entityType, f.legalName, f.countryCode, f.status] ++ f.shortName.toList ++ f.domicile.toList

/-- A row of `ref.entity`. Its metadata are an object. -/
structure EntityRow extends EntityFields (List (String × Jsonb)), AuditCols where
  entityId : PgUuid
  sourceId : String
  ingestionRunId : ℤ
  createdAt : Timestamp
  updatedAt : Timestamp

/-- A row of `ref.identifier`: it is valid from `window.lower` on, until `window.upper`. -/
structure IdentifierRow extends AuditCols where
  identifierId : ℤ
  entityId : PgUuid
  ns : String
  value : String
  window : Window Date
  isPrimary : Bool
  sourceId : String
  ingestionRunId : ℤ
  createdAt : Timestamp
  deriving DecidableEq

/-- What the row is about. -/
def IdentifierRow.pair (r : IdentifierRow) : String × String := (r.ns, r.value)

/-- The actor of the context of a call. -/
structure RequestActor extends Actor where
  clientIp : Option String
  userAgent : Option String
  requestId : Option PgUuid

/-- What an audit record shows of a row. -/
inductive Image
  | entity (row : EntityRow)
  | identifier (identifierId : ℤ) (entityId : PgUuid) (ns value : String) (validFrom : Date)
    (validTo : Option Date) (isPrimary : Option Bool)

/-- The row that an audit record is about. -/
inductive Target
  | entity (entityId : PgUuid)
  | identifier (identifierId : ℤ)

/-- A row of `audit.events` about the registry. -/
structure RegistryEvent where
  operation : String
  target : Target
  before : Option Image
  after : Option Image
  returnedExisting : Bool
  ingestionRunId : ℤ
  actor : RequestActor

/-! ### Tables -/

/-- The tables. -/
structure Tables where
  /-- `src.ingestion_run.source_id`. -/
  sourceOf : ℤ → Option String
  entity : List EntityRow
  identifier : List IdentifierRow
  nextIdentifierId : ℤ
  events : List RegistryEvent
  entity_pkey : (entity.map (·.entityId)).Nodup
  identifier_pkey : (identifier.map (·.identifierId)).Nodup
  identifier_seq : ∀ r ∈ identifier, r.identifierId < nextIdentifierId
  identifier_excl : Excluded IdentifierRow.pair IdentifierRow.window identifier
  identifier_entity : ∀ r ∈ identifier, r.entityId ∈ entity.map (·.entityId)

/-- Why the database rejects a statement. -/
inductive DbError
  /-- A text has the character 0, or is no document. -/
  | badText
  /-- A text is too long for its column. -/
  | tooLong
  /-- A range ends before it begins. -/
  | badRange
  | check (constraint : String)
  | unique (constraint : String)
  | foreignKey (constraint : String)
  | exclusion (constraint : String)
  /-- A table is append-only. -/
  | featureNotSupported (table : String)
  /-- A statement has failed before. -/
  | inFailedTransaction
  deriving DecidableEq

/-- `entity_type_check`. -/
def entityTypes : List String :=
  ["company", "fund", "instrument", "index", "sovereign", "sector", "founder", "other"]

/-- `entity_status_check`. -/
def entityStatuses : List String := ["active", "suspended", "delisted", "merged", "dissolved"]

/-- A `CHAR(n)`: padded with blanks, or without those that are too many. -/
def bpchar (n : ℕ) (s : String) : Option String :=
  let t := s.toList.rdropWhile (· = ' ')
  if t.length ≤ n then some (String.ofList (t ++ List.replicate (n - t.length) ' ')) else none

namespace Tables

variable (t : Tables)

/-! ### `ref.entity` -/

/-- The constraint that a new row of `ref.entity` violates. -/
def entityViolation (row : EntityRow) : Option DbError :=
  if ¬row.texts.all storableText then some .badText
  else if row.entityType ∉ entityTypes then some (.check "entity_type_check")
  else if row.status ∉ entityStatuses then some (.check "entity_status_check")
  else if row.entityId ∈ t.entity.map (·.entityId) then some (.unique "entity_pkey")
  else if ∃ parent ∈ row.parentEntityId,
      parent ≠ row.entityId ∧ parent ∉ t.entity.map (·.entityId) then
    some (.foreignKey "entity_parent_entity_id_fkey")
  else none

theorem entityId_not_mem {t : Tables} {row : EntityRow} (h : t.entityViolation row = none) :
    row.entityId ∉ t.entity.map (·.entityId) := by
  intro hmem
  unfold entityViolation at h
  split_ifs at h

/-- The tables with a new row of `ref.entity`. -/
def addEntity (row : EntityRow) (h : t.entityViolation row = none) : Tables :=
  { t with
    entity := t.entity ++ [row]
    entity_pkey := by
      rw [List.map_append, List.nodup_append]
      refine ⟨t.entity_pkey, List.nodup_singleton _, fun x hx y hy hxy => ?_⟩
      rw [List.map_singleton, List.mem_singleton] at hy
      subst hxy hy
      exact entityId_not_mem h hx
    identifier_entity := fun r hr => by
      rw [List.map_append]
      exact List.mem_append_left _ (t.identifier_entity r hr) }

/-- `INSERT INTO ref.entity … RETURNING entity_id`. -/
def insertEntity (row : EntityRow) : Except DbError (PgUuid × Tables) :=
  match h : t.entityViolation row with
  | none => .ok (row.entityId, t.addEntity row h)
  | some e => .error e

/-- `SELECT … FROM ref.entity WHERE entity_id = :eid`. -/
def findEntity (entityId : PgUuid) : Option EntityRow := t.entity.find? (·.entityId = entityId)

/-! ### `ref.identifier` -/

/-- The constraint that a new row of `ref.identifier` violates. -/
def identifierViolation (row : IdentifierRow) : Option DbError :=
  if ¬[row.ns, row.value].all storableText then some .badText
  else if row.entityId ∉ t.entity.map (·.entityId) then
    some (.foreignKey "identifier_entity_id_fkey")
  else if ∃ r ∈ t.identifier, r.pair = row.pair ∧ r.window.Overlaps row.window then
    some (.exclusion "identifier_namespace_value_daterange_excl")
  else none

/-- The tables with a new row of `ref.identifier`, which has the next number. -/
def addIdentifier (row : IdentifierRow) (h : t.identifierViolation row = none)
    (hseq : row.identifierId = t.nextIdentifierId) : Tables :=
  { t with
    identifier := t.identifier ++ [row]
    nextIdentifierId := t.nextIdentifierId + 1
    identifier_pkey := by
      rw [List.map_append, List.nodup_append]
      refine ⟨t.identifier_pkey, List.nodup_singleton _, fun x hx y hy hxy => ?_⟩
      rw [List.map_singleton, List.mem_singleton] at hy
      obtain ⟨r, hr, rfl⟩ := List.mem_map.1 hx
      have hlt := t.identifier_seq r hr
      omega
    identifier_seq := fun r hr => by
      rcases List.mem_append.1 hr with hr | hr
      · exact (t.identifier_seq r hr).trans (lt_add_one _)
      · rw [List.mem_singleton.1 hr, hseq]
        exact lt_add_one _
    identifier_excl := by
      unfold identifierViolation at h
      split_ifs at h with _ _ hexcl
      exact t.identifier_excl.concat fun r hr hoverlaps => hexcl ⟨r, hr, hoverlaps⟩
    identifier_entity := fun r hr => by
      unfold identifierViolation at h
      split_ifs at h with _ hentity
      rcases List.mem_append.1 hr with hr | hr
      · exact t.identifier_entity r hr
      · rw [List.mem_singleton.1 hr]
        exact hentity }

/-- `INSERT INTO ref.identifier … RETURNING identifier_id`. -/
def insertIdentifier (row : ℤ → IdentifierRow) (hseq : ∀ n, (row n).identifierId = n) :
    Except DbError (ℤ × Tables) :=
  match h : t.identifierViolation (row t.nextIdentifierId) with
  | none => .ok (t.nextIdentifierId, t.addIdentifier _ h (hseq _))
  | some e => .error e

/-- `SELECT … WHERE namespace = :ns AND value = :v AND :asof >= valid_from AND :asof < valid_to`. -/
def validOn (ns value : String) (asOf : Date) : List IdentifierRow :=
  AslanCore.validOn IdentifierRow.pair IdentifierRow.window (ns, value) asOf t.identifier

/-- The entity that an identifier names on a day: `ORDER BY is_primary DESC, identifier_id DESC
    LIMIT 1`. -/
def resolve (ns value : String) (asOf : Date) : Option PgUuid :=
  let sortKey (r : IdentifierRow) : Boolᵒᵈ ×ₗ ℤᵒᵈ :=
    toLex (OrderDual.toDual r.isPrimary, OrderDual.toDual r.identifierId)
  (orderBy sortKey (t.validOn ns value asOf)).head?.map (·.entityId)

/-- The order does not matter: there is at most one row. -/
theorem resolve_eq (ns value : String) (asOf : Date) :
    t.resolve ns value asOf = (t.validOn ns value asOf).head?.map (·.entityId) := by
  rw [resolve, validOn, t.identifier_excl.orderBy_validOn]

theorem mem_validOn {t : Tables} {ns value : String} {asOf : Date} {r : IdentifierRow} :
    r ∈ t.validOn ns value asOf ↔ r ∈ t.identifier ∧ r.pair = (ns, value) ∧ asOf ∈ r.window :=
  AslanCore.mem_validOn

theorem resolve_eq_some_iff {t : Tables} {ns value : String} {asOf : Date} {entityId : PgUuid} :
    t.resolve ns value asOf = some entityId ↔ ∃ r ∈ t.identifier, r.pair = (ns, value) ∧
      asOf ∈ r.window ∧ r.entityId = entityId := by
  rw [resolve_eq, Option.map_eq_some_iff]
  constructor
  · rintro ⟨r, hr, rfl⟩
    obtain ⟨hr, hpair, hd⟩ := mem_validOn.1 (List.mem_of_mem_head? hr)
    exact ⟨r, hr, hpair, hd, rfl⟩
  · rintro ⟨r, hr, hpair, hd, rfl⟩
    rw [validOn, t.identifier_excl.validOn_eq hr hpair hd]
    exact ⟨r, rfl, rfl⟩

theorem resolve_eq_none_iff {t : Tables} {ns value : String} {asOf : Date} :
    t.resolve ns value asOf = none ↔
      ∀ r ∈ t.identifier, r.pair = (ns, value) → asOf ∉ r.window := by
  rw [Option.eq_none_iff_forall_ne_some]
  refine ⟨fun h r hr hpair hd => h _ (resolve_eq_some_iff.2 ⟨r, hr, hpair, hd, rfl⟩), ?_⟩
  rintro h entityId hsome
  obtain ⟨r, hr, hpair, hd, -⟩ := resolve_eq_some_iff.1 hsome
  exact h r hr hpair hd

/-- `INSERT INTO audit.events`. -/
def record (e : RegistryEvent) : Tables := { t with events := t.events ++ [e] }

end Tables

/-! ### Updates of `ref.identifier` -/

/-- What runs before a row is updated, and may reject the update. -/
abbrev Trigger := IdentifierRow → IdentifierRow → Except DbError Unit

/-- `aslan_core.reject_bitemporal_update_generic`. -/
def rejectBitemporalUpdateGeneric (table : String) : Trigger :=
  fun _ _ => .error (.featureNotSupported table)

/-- The triggers on `ref.identifier`. -/
structure Schema where
  beforeUpdate : List Trigger

/-- The schema of the revision 0043. -/
def Schema.revision0043 : Schema := ⟨[]⟩

/-- The revision 0044 adds the trigger `identifier_no_update`. -/
def Schema.upgrade0044 (schema : Schema) : Schema :=
  ⟨schema.beforeUpdate ++ [rejectBitemporalUpdateGeneric "ref.identifier"]⟩

/-- The schema after all of the revisions: those after 0044 leave the triggers on
    `ref.identifier` alone. -/
def Schema.shipped : Schema := Schema.revision0043.upgrade0044

/-- The row, which is no longer valid from `asOf` on: as it is, unless it is valid on `asOf`. -/
def IdentifierRow.expire (cols : AuditCols) (ns value : String) (asOf : Date) (r : IdentifierRow) :
    IdentifierRow :=
  if h : r.pair = (ns, value) ∧ asOf ∈ r.window then
    { r with window := r.window.cut asOf h.2, toAuditCols := cols }
  else r

section

variable {cols : AuditCols} {ns value : String} {asOf d : Date} {r : IdentifierRow}

@[simp] theorem IdentifierRow.identifierId_expire :
    (r.expire cols ns value asOf).identifierId = r.identifierId := by
  rw [expire]
  split_ifs <;> rfl

@[simp] theorem IdentifierRow.entityId_expire :
    (r.expire cols ns value asOf).entityId = r.entityId := by
  rw [expire]
  split_ifs <;> rfl

@[simp] theorem IdentifierRow.pair_expire :
    (r.expire cols ns value asOf).pair = r.pair := by
  rw [expire]
  split_ifs <;> rfl

/-- The days on which an expired row is valid. -/
theorem IdentifierRow.mem_window_expire : d ∈ (r.expire cols ns value asOf).window ↔
    d ∈ r.window ∧ (r.pair = (ns, value) ∧ asOf ∈ r.window → d < asOf) := by
  rw [expire]
  split_ifs with h
  · rw [Window.mem_cut, forall_prop_of_true h]
  · exact (and_iff_left fun hr => absurd hr h).symm

end

/-- The tables, where the rows that are valid on `asOf` have expired. -/
def Tables.expire (t : Tables) (cols : AuditCols) (ns value : String) (asOf : Date) : Tables :=
  { t with
    identifier := t.identifier.map (·.expire cols ns value asOf)
    identifier_pkey := by
      rw [List.map_map]
      refine (congrArg (List.Nodup <| t.identifier.map ·) (funext fun r => ?_)).mpr
        t.identifier_pkey
      exact IdentifierRow.identifierId_expire
    identifier_seq := fun r hr => by
      obtain ⟨x, hx, rfl⟩ := List.mem_map.1 hr
      rw [IdentifierRow.identifierId_expire]
      exact t.identifier_seq x hx
    identifier_excl := t.identifier_excl.map (fun _ _ => IdentifierRow.pair_expire) fun _ _ _ hd =>
      (IdentifierRow.mem_window_expire.1 hd).1
    identifier_entity := fun r hr => by
      obtain ⟨x, hx, rfl⟩ := List.mem_map.1 hr
      rw [IdentifierRow.entityId_expire]
      exact t.identifier_entity x hx }

/-- The triggers run, one after the other, for each row that is to be updated. -/
def Schema.fire (schema : Schema) (f : IdentifierRow → IdentifierRow) (rows : List IdentifierRow) :
    Except DbError Unit :=
  rows.forM fun r => schema.beforeUpdate.forM fun trigger => trigger r (f r)

/-- `WITH old AS (SELECT … FOR UPDATE), upd AS (UPDATE ref.identifier …) SELECT … FROM old`. -/
def Tables.updateExpired (t : Tables) (schema : Schema) (cols : AuditCols) (ns value : String)
    (asOf : Date) : Except DbError (List IdentifierRow × Tables) :=
  if ¬[ns, value].all storableText then .error .badText
  else
    match schema.fire (·.expire cols ns value asOf) (t.validOn ns value asOf) with
    | .error e => .error e
    | .ok _ => .ok (t.validOn ns value asOf, t.expire cols ns value asOf)

end AslanCore.Registry
