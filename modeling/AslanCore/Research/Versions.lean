import Mathlib.Data.String.Basic
import AslanCore.Store.Column
import AslanCore.Store.Mirror

/-!
# The histories of entities and disclosures

`ref.entity` and `kap.disclosures` are the current state; a trigger on each captures its
changes in `ref.entity_version` and `kap.disclosures_version`, from which `ref.entity_at` and
`kap.disclosures_at` read the state at some time back. Both are mirrored tables
(`entityMirror`, `disclosureMirror`), which agree with what is read back as long as nothing
is deleted, and no row is changed by a transaction that began no later than one whose version
there is (`versions_agree_iff`).
-/

namespace AslanCore.Research

/-! ### Entities -/

/-- The columns of `ref.entity` that are mirrored. -/
structure EntityColumns where
  entityType : String
  legalName : String
  shortName : Option String
  countryCode : String
  domicile : Option String
  incorporationDt : Option Date
  fiscalYearEnd : Option Date
  status : String
  parentEntityId : Option PgUuid
  metadata : Json

/-- Where a row is from, and who wrote it. -/
structure EntityProvenance where
  sourceId : String
  ingestionRunId : ℤ
  actorId : Option String
  actorKind : Option String
  clientIp : Option String
  userAgent : Option String
  requestId : Option PgUuid

/-- A row of `ref.entity`. -/
structure Entity extends EntityColumns, EntityProvenance where
  entityId : PgUuid

/-- `ref.entity_version.event_kind`. -/
inductive EntityEventKind
  | created
  | updated
  | merged
  | split
  | renamed
  | deleted
  deriving DecidableEq

/-- What a row of `ref.entity_version` has of the entity. -/
structure EntitySnapshot extends EntityColumns, EntityProvenance where
  mergedFromEntityIds : Option Json

/-- The kind of a change, as `ref.fn_capture_entity_version` tells them apart. -/
def entityEventKind : RowChange Entity → EntityEventKind
  | .insert _ => .created
  | .update old new =>
    if new.status = "merged" ∧ old.status ≠ "merged" then .merged
    else if new.legalName ≠ old.legalName then .renamed
    else .updated
  | .delete _ => .deleted

/-- How entities are captured. -/
def entityMirror : Mirror Entity PgUuid EntityEventKind EntitySnapshot EntityColumns where
  id row := row.entityId
  kind := entityEventKind
  isDeleted kind := kind = .deleted
  snapshot row :=
    { row with
      mergedFromEntityIds :=
        if jsonbExists "merged_from_entity_ids" row.metadata then
          jsonbGet "merged_from_entity_ids" row.metadata
        else none }
  columns row := row.toEntityColumns
  shown snapshot := snapshot.toEntityColumns
  shown_snapshot _ := rfl
  isDeleted_kind c := by
    rcases c with new | ⟨old, new⟩ | old
    · rfl
    · refine decide_eq_false ?_
      rw [entityEventKind]
      split_ifs <;> exact nofun
    · rfl

/-- A row of `ref.entity_version`. -/
abbrev EntityVersion := RowVersion PgUuid Timestamp EntityEventKind EntitySnapshot

/-- `ref.fn_capture_entity_version`, the trigger on `ref.entity`. -/
def fnCaptureEntityVersion (now : Timestamp) (c : RowChange Entity)
    (versions : List EntityVersion) : List EntityVersion :=
  entityMirror.capture now c versions

/-- `ref.entity_at`. -/
def entityAt (pAsOf : Timestamp) (versions : List EntityVersion) : List EntityVersion :=
  entityMirror.versionsAt pAsOf versions

/-! ### Disclosures -/

/-- The columns of `kap.disclosures` that are mirrored. -/
structure DisclosureColumns where
  entityId : PgUuid
  kapId : String
  publishedAt : Timestamp
  categoryCode : String
  subcategoryCode : Option String
  title : String
  language : String
  kapUrl : String
  isAmendment : Bool
  parentDisclosureId : Option String
  bodyFetched : Bool
  indexFetchedAt : Timestamp
  rawIndexStorageKey : String
  rawBodyStorageKey : Option String
  bodyFetchedAt : Option Timestamp
  rawBodySha256 : Option String
  rawBodyBytes : Option ℤ
  rawBodyMime : Option String

/-- A row of `kap.disclosures`. -/
structure Disclosure extends DisclosureColumns where
  disclosureId : String

/-- `kap.disclosures_version.event_kind`. -/
inductive DisclosureEventKind
  | indexed
  | bodyFetched
  | republished
  | updated
  | deleted
  deriving DecidableEq

/-- `kap.disclosures_version.as_of_provenance`. -/
inductive AsOfProvenance
  | live
  | indexFetchedAt
  | bodyFetchedAt
  | publishedAt
  | preBitemporalUnknown
  deriving DecidableEq

/-- What a row of `kap.disclosures_version` has of the disclosure. -/
structure DisclosureSnapshot extends DisclosureColumns where
  asOfProvenance : AsOfProvenance

/-- The kind of a change, as `kap.fn_capture_disclosure_version` tells them apart. -/
def disclosureEventKind : RowChange Disclosure → DisclosureEventKind
  | .insert _ => .indexed
  | .update old new =>
    if new.bodyFetched ≠ old.bodyFetched ∧ new.bodyFetched = true then .bodyFetched
    else if new.parentDisclosureId ≠ old.parentDisclosureId then .republished
    else .updated
  | .delete _ => .deleted

/-- How disclosures are captured. -/
def disclosureMirror :
    Mirror Disclosure String DisclosureEventKind DisclosureSnapshot DisclosureColumns where
  id row := row.disclosureId
  kind := disclosureEventKind
  isDeleted kind := kind = .deleted
  snapshot row := { row with asOfProvenance := .live }
  columns row := row.toDisclosureColumns
  shown snapshot := snapshot.toDisclosureColumns
  shown_snapshot _ := rfl
  isDeleted_kind c := by
    rcases c with new | ⟨old, new⟩ | old
    · rfl
    · refine decide_eq_false ?_
      rw [disclosureEventKind]
      split_ifs <;> exact nofun
    · rfl

/-- A row of `kap.disclosures_version`. -/
abbrev DisclosureVersion := RowVersion String Timestamp DisclosureEventKind DisclosureSnapshot

/-- `kap.fn_capture_disclosure_version`, the trigger on `kap.disclosures`. -/
def fnCaptureDisclosureVersion (now : Timestamp) (c : RowChange Disclosure)
    (versions : List DisclosureVersion) : List DisclosureVersion :=
  disclosureMirror.capture now c versions

/-- `kap.disclosures_at`. -/
def disclosuresAt (pAsOf : Timestamp) (versions : List DisclosureVersion) :
    List DisclosureVersion :=
  disclosureMirror.versionsAt pAsOf versions

/-! ### Agreement -/

/-- `ref.entity`, its versions, and the transactions. -/
abbrev EntityTables := MirroredTable Entity PgUuid Timestamp EntityEventKind EntitySnapshot

/-- `ref.entity_at` of any time from now on has one version for each entity, with its
    columns, and none of an entity that is no more. -/
def EntitiesAgree (st : EntityTables) : Prop :=
  ∀ t, st.now ≤ t →
    ((entityAt t st.versions).map RowVersion.id).Nodup ∧
    (∀ row ∈ st.rows, ∃ v ∈ entityAt t st.versions,
      v.id = row.entityId ∧ v.snapshot.toEntityColumns = row.toEntityColumns) ∧
    ∀ v ∈ entityAt t st.versions, ∃ row ∈ st.rows, row.entityId = v.id

theorem entitiesAgree_iff {st : EntityTables} : EntitiesAgree st ↔ entityMirror.Agrees st :=
  ⟨fun h => ⟨fun t ht => (h t ht).1, fun t ht => (h t ht).2.1, fun t ht => (h t ht).2.2⟩,
    fun h t ht => ⟨h.nodup t ht, h.rows t ht, h.versions t ht⟩⟩

/-- `kap.disclosures`, its versions, and the transactions. -/
abbrev DisclosureTables :=
  MirroredTable Disclosure String Timestamp DisclosureEventKind DisclosureSnapshot

/-- `kap.disclosures_at` of any time from now on has one version for each disclosure, with
    its columns, and none of a disclosure that is no more. -/
def DisclosuresAgree (st : DisclosureTables) : Prop :=
  ∀ t, st.now ≤ t →
    ((disclosuresAt t st.versions).map RowVersion.id).Nodup ∧
    (∀ row ∈ st.rows, ∃ v ∈ disclosuresAt t st.versions,
      v.id = row.disclosureId ∧ v.snapshot.toDisclosureColumns = row.toDisclosureColumns) ∧
    ∀ v ∈ disclosuresAt t st.versions, ∃ row ∈ st.rows, row.disclosureId = v.id

theorem disclosuresAgree_iff {st : DisclosureTables} :
    DisclosuresAgree st ↔ disclosureMirror.Agrees st :=
  ⟨fun h => ⟨fun t ht => (h t ht).1, fun t ht => (h t ht).2.1, fun t ht => (h t ht).2.2⟩,
    fun h t ht => ⟨h.nodup t ht, h.rows t ht, h.versions t ht⟩⟩

/-- All along a run of transactions on `ref.entity`, what is read back agrees with the table
    if and only if every step is one that keeps it so; and likewise for `kap.disclosures`. -/
theorem versions_agree_iff {steps : List (EntityTables × TableEvent Entity Timestamp)}
    {st : EntityTables} {steps' : List (DisclosureTables × TableEvent Disclosure Timestamp)}
    {st' : DisclosureTables} (h : entityMirror.Run steps st) (h' : disclosureMirror.Run steps' st') :
    (((∀ p ∈ steps, EntitiesAgree p.1) ∧ EntitiesAgree st) ↔
      ∀ p ∈ steps, entityMirror.Clear p.1 p.2) ∧
    (((∀ p ∈ steps', DisclosuresAgree p.1) ∧ DisclosuresAgree st') ↔
      ∀ p ∈ steps', disclosureMirror.Clear p.1 p.2) := by
  simp only [entitiesAgree_iff, disclosuresAgree_iff]
  exact ⟨Mirror.agrees_iff_clear h, Mirror.agrees_iff_clear h'⟩

/-! ### A history -/

/-- An entity. -/
def sampleEntity : Entity where
  entityId := 1
  entityType := "company"
  legalName := "Aslan"
  shortName := none
  countryCode := "TR"
  domicile := none
  incorporationDt := none
  fiscalYearEnd := none
  status := "active"
  parentEntityId := none
  metadata := .obj []
  sourceId := "source"
  ingestionRunId := 1
  actorId := none
  actorKind := none
  clientIp := none
  userAgent := none
  requestId := none

/-- The tables before anything happens. -/
def noEntities : EntityTables := ⟨0, [], [], fun _ => none, fun _ => none⟩

/-- The tables of a transaction that has begun at 0. -/
def entityBegun : EntityTables :=
  { noEntities with begun := Function.update noEntities.begun 1 (some 0) }

/-- It inserts the entity. -/
def entityInserted : EntityTables := entityMirror.changed entityBegun 1 0 (.insert sampleEntity)

/-- It has committed. -/
def entityCommitted : EntityTables :=
  { entityInserted with
    begun := Function.update entityInserted.begun 1 none
    owner := fun i => if entityInserted.owner i = some 1 then none else entityInserted.owner i }

/-- A second transaction has begun at 1. -/
def entityRead : EntityTables :=
  { entityCommitted with
    now := 1
    begun := Function.update entityCommitted.begun 2 (some 1) }

/-- It deletes the entity. -/
def entityDeleted : EntityTables := entityMirror.changed entityRead 2 1 (.delete sampleEntity)

/-- Both have committed. -/
def entityGone : EntityTables :=
  { entityDeleted with
    begun := Function.update entityDeleted.begun 2 none
    owner := fun i => if entityDeleted.owner i = some 2 then none else entityDeleted.owner i }

theorem run_entityInserted :
    entityMirror.Run [(noEntities, .begin 1), (entityBegun, .change 1 (.insert sampleEntity))]
      entityInserted := by
  have hempty : entityMirror.Run [] noEntities := .nil 0
  have hbegin : entityMirror.Step noEntities (.begin 1) entityBegun := .begin rfl
  have hinsert : entityMirror.Step entityBegun (.change 1 (.insert sampleEntity)) entityInserted :=
    (.change rfl (fun _ h => absurd h List.not_mem_nil)
      fun _ _ _ h => absurd h (Option.some_ne_none _).symm)
  exact (hempty.snoc hbegin).snoc hinsert

/-- What is inserted is read back. -/
theorem versions_agree_inserted : EntitiesAgree entityInserted :=
  ((versions_agree_iff run_entityInserted (.nil 0)).1.2 fun p hp => by
    rcases List.mem_cons.1 hp with rfl | hp
    · exact trivial
    · rw [List.mem_singleton.1 hp]
      exact trivial).2

/-- An entity that is deleted, by a transaction that began after its insertion committed, is
    still read back when all have committed. -/
theorem not_entitiesAgree_deleted :
    (∃ steps, entityMirror.Run steps entityGone) ∧
      (∀ x, entityGone.begun x = none) ∧ entityGone.rows = [] ∧ ¬EntitiesAgree entityGone := by
  refine ⟨?_, ?_, rfl, fun h => ?_⟩
  · have hcommit : entityMirror.Step entityInserted (.commit 1) entityCommitted := .commit rfl
    have htick : entityMirror.Step entityCommitted (.tick 1) { entityCommitted with now := 1 } :=
      .tick (show (0 : ℤ) ≤ 1 by decide)
    have hbegin : entityMirror.Step { entityCommitted with now := 1 } (.begin 2) entityRead :=
      .begin rfl
    have hdelete :
        entityMirror.Step entityRead (.change 2 (.delete sampleEntity)) entityDeleted := by
      refine .change rfl List.mem_cons_self fun i hi y hy => ?_
      -- the first transaction holds it no more
      rw [List.mem_singleton.1 hi] at hy
      exact absurd hy (Option.some_ne_none y).symm
    have hgone : entityMirror.Step entityDeleted (.commit 2) entityGone := .commit rfl
    exact ⟨_, ((((run_entityInserted.snoc hcommit).snoc htick).snoc hbegin).snoc hdelete).snoc
      hgone⟩
  · intro x
    simp [entityGone, entityDeleted, Mirror.changed, entityRead, entityCommitted, entityInserted,
      entityBegun, noEntities]
  · have hmem : entityMirror.version 0 (.insert sampleEntity) ∈ entityAt 1 entityGone.versions :=
      List.mem_cons_self
    obtain ⟨row, hrow, -⟩ := (h 1 le_rfl).2.2 _ hmem
    exact List.not_mem_nil hrow

end AslanCore.Research
