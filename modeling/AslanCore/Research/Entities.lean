import Mathlib.Data.String.Basic
import AslanCore.Documents.ObjectKey
import AslanCore.Store.Ties
import AslanCore.Store.Versions
import AslanCore.Research.Endpoints

/-!
# An entity, in the list and alone

The list of entities and the endpoint of a single entity read the same tables, each with its own
statements. Do they show the same?

* `EntityStore`: the versions of the entities, and the records of their lineage;
* `ListAnswer`, `DetailAnswer`: what the two may show, as rows of one time come in any order;
* `listAnswer_of_serves`, `detailAnswer_of_serves`: the handlers show this, if the database answers
  from the store;
* `entityAgrees_iff`: they agree if and only if the entity has no visible events that are in the
  future, of one time, or splits into it.
-/

namespace AslanCore.Research

/-! ### The store -/

/-- A row of `ref.entity_version`. -/
structure EntityVersionRow where
  entityId : PgUuid
  asOf : Timestamp
  eventKind : String
  entityType : String
  legalName : String
  countryCode : String
  mergedFromEntityIds : Option Json

/-- A row of `ref.entity_lineage`. Its entities are texts. -/
structure LineageRow where
  eventKind : String
  fromEntityId : String
  intoEntityId : String
  eventAt : Timestamp
  asOf : Timestamp
  reason : Option String

structure EntityStore where
  versions : List EntityVersionRow
  /-- `PRIMARY KEY (entity_id, as_of)`. -/
  primaryKey : (versions.map fun row => (row.entityId, row.asOf)).Nodup
  lineage : List LineageRow
  /-- `UNIQUE (event_kind, from_entity_id, into_entity_id, event_at, as_of)`. -/
  unique : (lineage.map fun row =>
    (row.eventKind, row.fromEntityId, row.intoEntityId, row.eventAt, row.asOf)).Nodup

/-- The versions that `ref.entity_at` reads. -/
def EntityStore.entityVersions (store : EntityStore) :
    Versions EntityVersionRow PgUuid Timestamp where
  rows := store.versions.filter fun v => v.eventKind ≠ "deleted"
  key := EntityVersionRow.entityId
  asOf := EntityVersionRow.asOf
  nodup := store.primaryKey.sublist (List.filter_sublist.map _)

/-- The records that `ref.entity_lineage_at` reads. -/
def EntityStore.lineageVersions (store : EntityStore) :
    Versions LineageRow (String ×ₗ String ×ₗ String ×ₗ Timestamp) Timestamp where
  rows := store.lineage
  key le := toLex (le.eventKind, toLex (le.fromEntityId, toLex (le.intoEntityId, le.eventAt)))
  asOf := LineageRow.asOf
  nodup := by
    have h := store.unique
    rw [List.Nodup, List.pairwise_map] at h ⊢
    refine h.imp fun hne heq => hne ?_
    simpa only [Prod.mk.injEq, toLex_inj, and_assoc] using heq

/-- `ref.entity_at(:as_of)`. -/
def EntityStore.entityAt (store : EntityStore) (p : Timestamp) : List EntityVersionRow :=
  store.entityVersions.at p

/-- `ref.entity_lineage_at(:as_of)`. -/
def EntityStore.entityLineageAt (store : EntityStore) (p : Timestamp) : List LineageRow :=
  store.lineageVersions.at p

/-- `str(entity_id)`. -/
def entityText (u : PgUuid) : String := String.ofList (Documents.uuidText u)

/-- `… WHERE from_entity_id = :entity_id OR into_entity_id = :entity_id`. -/
def EntityStore.lineageOf (store : EntityStore) (p : Timestamp) (u : PgUuid) : List LineageRow :=
  (store.entityLineageAt p).filter fun le =>
    le.fromEntityId = entityText u ∨ le.intoEntityId = entityText u

/-- `… AND event_at <= :as_of`. -/
def EntityStore.pastLineageOf (store : EntityStore) (p : Timestamp) (u : PgUuid) :
    List LineageRow :=
  (store.lineageOf p u).filter fun le => le.eventAt ≤ p

/-! ### The answers -/

/-- The columns of an entity. -/
def EntityVersionRow.row (v : EntityVersionRow) : ResultRow := [
  ("entity_id", .uuid v.entityId),
  ("as_of", .timestamptz v.asOf),
  ("event_kind", .text v.eventKind),
  ("entity_type", .text v.entityType),
  ("legal_name", .text v.legalName),
  ("country_code", .text v.countryCode),
  ("merged_from_entity_ids", (v.mergedFromEntityIds.map SqlValue.json).getD .null)]

/-- The columns of an event of the lineage. -/
def LineageRow.row (le : LineageRow) : ResultRow := [
  ("event_kind", .text le.eventKind),
  ("from_entity_id", .text le.fromEntityId),
  ("into_entity_id", .text le.intoEntityId),
  ("event_at", .timestamptz le.eventAt),
  ("reason", (le.reason.map SqlValue.text).getD .null)]

/-- What the list may show for an entity. -/
def ListAnswer (store : EntityStore) (p : Timestamp) (u : PgUuid) (obj : Data) : Prop :=
  ∃ v ∈ store.entityAt p, v.entityId = u ∧
    ∃ les, IsOrdered LineageRow.eventAt (store.lineageOf p u) les ∧
      obj = entityItem v.row (les.map LineageRow.row)

/-- What the endpoint of the entity may show. -/
def DetailAnswer (store : EntityStore) (p : Timestamp) (u : PgUuid) (obj : Data) : Prop :=
  ∃ v ∈ store.entityAt p, v.entityId = u ∧
    ∃ les, IsOrdered LineageRow.eventAt (store.pastLineageOf p u) les ∧
      obj = entityItem v.row (les.map LineageRow.row)

/-- A field of an object. -/
def Data.member (name : String) : Data → Option Data
  | .dict items => items.lookup name
  | _ => none

/-- The event is a split into the entity. -/
def LineageRow.SplitsInto (le : LineageRow) (u : PgUuid) : Prop :=
  le.eventKind = "split" ∧ le.intoEntityId = entityText u

/-- The object has the entity of the first visible split, or null if there is none. -/
def ShowsSplit (store : EntityStore) (p : Timestamp) (u : PgUuid) (obj : Data) : Prop :=
  (∃ le ∈ store.entityLineageAt p, le.SplitsInto u ∧
    (∀ le' ∈ store.entityLineageAt p, le'.SplitsInto u → le.eventAt ≤ le'.eventAt) ∧
    obj.member "split_from_entity_id" = some (.str (.text le.fromEntityId))) ∨
  (∀ le ∈ store.entityLineageAt p, ¬le.SplitsInto u) ∧
    obj.member "split_from_entity_id" = some .none

/-- The list and the endpoint of an entity show the same, and the first split. -/
structure EntityAgrees (store : EntityStore) (p : Timestamp) (u : PgUuid) : Prop where
  listed : (∃ obj, ListAnswer store p u obj) ↔ ∃ obj, DetailAnswer store p u obj
  same : ∀ obj obj', ListAnswer store p u obj → DetailAnswer store p u obj' → obj' = obj
  split : ∀ obj, ListAnswer store p u obj ∨ DetailAnswer store p u obj → ShowsSplit store p u obj

/-- There are no visible events of the entity that are in the future, of one time, or splits into
    it. -/
structure PlainLineage (store : EntityStore) (p : Timestamp) (u : PgUuid) : Prop where
  past : ∀ le ∈ store.lineageOf p u, le.eventAt ≤ p
  nodup : ((store.lineageOf p u).map LineageRow.eventAt).Nodup
  noSplit : ∀ le ∈ store.lineageOf p u, ¬le.SplitsInto u

variable {store : EntityStore} {p : Timestamp} {u : PgUuid} {v : EntityVersionRow}
  {le le' : LineageRow} {les les' : List LineageRow} {obj : Data} {env : Environment}

/-! ### Rows -/

/-- A uuid is no text, so no split into the entity is found. -/
theorem splitFrom_eq_none : splitFrom (.uuid u) (les.map LineageRow.row) = .none := by
  have hnone : (les.map LineageRow.row).find? (isSplitInto (.uuid u)) = none := by
    refine List.find?_eq_none.2 (List.forall_mem_map.2 fun le _ => ?_)
    rw [isSplitInto, Bool.and_eq_true]
    exact fun h => Bool.false_ne_true h.2
  rw [splitFrom, hnone]

theorem field_split : (entityItem v.row (les.map LineageRow.row)).member "split_from_entity_id" =
    some .none :=
  congrArg some splitFrom_eq_none

theorem strOrNone_text_inj {s s' : String} (h : strOrNone (.text s) = strOrNone (.text s')) :
    s = s' := by
  have htruthy : ∀ s : String, (SqlValue.text s).truthy = true ↔ s ≠ "" := fun s =>
    decide_eq_true_iff
  unfold strOrNone at h
  split_ifs at h with hs hs' hs'
  · exact SqlValue.text.inj (Data.str.inj h)
  · simp only [htruthy, not_not] at hs hs'
    rw [hs, hs']

/-- An event that is shown is of its key. -/
theorem key_eq_of_lineageEvent (h : lineageEvent le.row = lineageEvent le'.row) :
    store.lineageVersions.key le = store.lineageVersions.key le' := by
  have hitems := Data.dict.inj h
  obtain ⟨hkind, hitems⟩ := List.cons.inj hitems
  obtain ⟨hfrom, hitems⟩ := List.cons.inj hitems
  obtain ⟨hinto, hitems⟩ := List.cons.inj hitems
  obtain ⟨hat, -⟩ := List.cons.inj hitems
  have hkind := SqlValue.text.inj (Data.sql.inj (congrArg Prod.snd hkind))
  have hfrom := strOrNone_text_inj (congrArg Prod.snd hfrom)
  have hinto := strOrNone_text_inj (congrArg Prod.snd hinto)
  have hat := SqlValue.timestamptz.inj (Data.isoformat.inj (congrArg Prod.snd hat))
  have htuple : (le.eventKind, toLex (le.fromEntityId, toLex (le.intoEntityId, le.eventAt))) =
      (le'.eventKind, toLex (le'.fromEntityId, toLex (le'.intoEntityId, le'.eventAt))) := by
    rw [hkind, hfrom, hinto, hat]
  exact congrArg toLex htuple

/-- The entity has one version. -/
theorem eq_of_mem_entityAt {v' : EntityVersionRow} (hv : v ∈ store.entityAt p)
    (hv' : v' ∈ store.entityAt p) (h : v.entityId = v'.entityId) : v = v' :=
  Versions.eq_of_mem_at hv hv' h

/-- Events of the entity are visible ones. -/
theorem mem_lineageOf_of_splitsInto (hle : le ∈ store.entityLineageAt p) (h : le.SplitsInto u) :
    le ∈ store.lineageOf p u :=
  List.mem_filter.2 ⟨hle, decide_eq_true (.inr h.2)⟩

/-- Different visible events are of different keys. -/
theorem pairwise_lineageOf (p : Timestamp) (u : PgUuid) : (store.lineageOf p u).Pairwise
    fun le le' => store.lineageVersions.key le ≠ store.lineageVersions.key le' :=
  (pairwise_distinctOn _ _).filter _

/-- The events that are shown tell the events. -/
theorem eq_of_map_lineageEvent (hles : ∀ le ∈ les, le ∈ store.entityLineageAt p)
    (hles' : ∀ le ∈ les', le ∈ store.entityLineageAt p)
    (h : (les.map LineageRow.row).map lineageEvent = (les'.map LineageRow.row).map lineageEvent) :
    les = les' := by
  induction les generalizing les' with
  | nil => simpa using h.symm
  | cons le les ih =>
    rcases les' with _ | ⟨le', les'⟩
    · cases h
    · obtain ⟨hevent, h⟩ := List.cons.inj h
      obtain ⟨hle, hles⟩ := List.forall_mem_cons.1 hles
      obtain ⟨hle', hles'⟩ := List.forall_mem_cons.1 hles'
      rw [Versions.eq_of_mem_at hle hle' (key_eq_of_lineageEvent hevent), ih hles hles' h]

/-- An object that is shown tells the events. -/
theorem lineage_eq_of_entityItem {v' : EntityVersionRow}
    (hles : ∀ le ∈ les, le ∈ store.entityLineageAt p)
    (hles' : ∀ le ∈ les', le ∈ store.entityLineageAt p)
    (h : entityItem v.row (les.map LineageRow.row) = entityItem v'.row (les'.map LineageRow.row)) :
    les = les' := by
  have hfield := congrArg (Data.member "lineage_events") h
  exact eq_of_map_lineageEvent hles hles' (Data.list.inj (Option.some.inj hfield))

theorem mem_entityLineageAt (h : IsOrdered LineageRow.eventAt (store.lineageOf p u) les) :
    ∀ le ∈ les, le ∈ store.entityLineageAt p :=
  fun _ hle => (List.mem_filter.1 (h.perm.mem_iff.1 hle)).1

/-! ### The handlers -/

/-- The statements for the lineage of an entity of the list, for the entity, and for its lineage. -/
def lineageSql : String := "SELECT event_kind, from_entity_id, into_entity_id, " ++
  "       event_at, reason FROM ref.entity_lineage_at(:as_of) " ++
  "WHERE from_entity_id = :entity_id OR into_entity_id = :entity_id ORDER BY event_at"

def entitySql : String := "SELECT entity_id, as_of, event_kind, entity_type, legal_name, " ++
  "       country_code, merged_from_entity_ids FROM ref.entity_at(:as_of) " ++
  "WHERE entity_id = :entity_id"

def pastLineageSql : String := "SELECT event_kind, from_entity_id, into_entity_id, " ++
  "       event_at, reason FROM ref.entity_lineage_at(:as_of) " ++
  "WHERE (from_entity_id = :entity_id        OR into_entity_id = :entity_id) " ++
  "  AND event_at <= :as_of ORDER BY event_at"

/-- The parameters of the three. -/
def entityParams (p : Timestamp) (u : PgUuid) : Params :=
  [("as_of", .timestamptz p), ("entity_id", .uuid u)]

/-- The database answers from the store. -/
structure Environment.Serves (env : Environment) (store : EntityStore) (p : Timestamp) : Prop where
  lineage : ∀ u, ∃ les, IsOrdered LineageRow.eventAt (store.lineageOf p u) les ∧
    env.execute lineageSql (entityParams p u) = .ok (les.map LineageRow.row)
  entity : ∀ u, ∃ vs : List EntityVersionRow,
    vs.Perm ((store.entityAt p).filter fun v => v.entityId = u) ∧
      env.execute entitySql (entityParams p u) = .ok (vs.map EntityVersionRow.row)
  pastLineage : ∀ u, ∃ les, IsOrdered LineageRow.eventAt (store.pastLineageOf p u) les ∧
    env.execute pastLineageSql (entityParams p u) = .ok (les.map LineageRow.row)

/-- The list shows an answer for each entity. -/
theorem listAnswer_of_serves (h : env.Serves store p) {vs : List EntityVersionRow}
    (hvs : ∀ v ∈ vs, v ∈ store.entityAt p) :
    ∃ data, entityItems env ⟨none, p⟩ (vs.map EntityVersionRow.row) = .ok data ∧
      List.Forall₂ (fun v obj => ListAnswer store p v.entityId obj) vs data := by
  induction vs with
  | nil => exact ⟨[], rfl, .nil⟩
  | cons v vs ih =>
    obtain ⟨hv, hvs⟩ := List.forall_mem_cons.1 hvs
    obtain ⟨les, hles, hexec⟩ := h.lineage v.entityId
    obtain ⟨data, hdata, hanswers⟩ := ih hvs
    have hlineage : entityLineage env ⟨none, p⟩ v.row = .ok (les.map LineageRow.row) := hexec
    rw [entityItems] at hdata
    refine ⟨_, ?_, .cons ⟨v, hv, rfl, les, hles, rfl⟩ hanswers⟩
    rw [entityItems, List.map_cons, List.mapM_cons, hlineage, hdata]
    rfl

/-- The endpoint of an entity shows an answer, or does not find the entity. -/
theorem detailAnswer_of_serves (h : env.Serves store p) (q : GetEntityRequest) :
    (∃ obj, q.find env p = .ok obj ∧ DetailAnswer store p q.entityId obj) ∨
      (∃ error, q.find env p = .error error ∧ error.statusCode = 404) ∧
        ∀ v ∈ store.entityAt p, v.entityId ≠ q.entityId := by
  obtain ⟨vs, hvs, hentity⟩ := h.entity q.entityId
  obtain ⟨les, hles, hlineage⟩ := h.pastLineage q.entityId
  have hmem : ∀ v, v ∈ vs ↔ v ∈ store.entityAt p ∧ v.entityId = q.entityId := fun v => by
    rw [hvs.mem_iff, List.mem_filter, decide_eq_true_iff]
  have hfind : q.find env p = match vs.map EntityVersionRow.row with
      | [] => .error ⟨404, "BITEMPORAL_PRE_BITEMPORAL_REGION",
          "Entity not found at this as_of"⟩
      | r :: _ => .ok (entityItem r (les.map LineageRow.row)) := by
    change (env.execute entitySql (entityParams p q.entityId)).bind _ = _
    rw [hentity, Except.bind]
    rcases vs with _ | ⟨v, vs⟩
    · rfl
    · change (env.execute pastLineageSql (entityParams p q.entityId)).bind _ = _
      rw [hlineage]
      rfl
  rw [hfind]
  rcases vs with _ | ⟨v, vs⟩
  · exact .inr ⟨⟨_, rfl, rfl⟩, fun v hv hu => List.not_mem_nil ((hmem v).2 ⟨hv, hu⟩)⟩
  · obtain ⟨hv, hu⟩ := (hmem v).1 List.mem_cons_self
    exact .inl ⟨_, rfl, v, hv, hu, les, hles, rfl⟩

/-! ### The agreement -/

/-- Each entity that is visible is shown by both. -/
theorem listed_iff : (∃ obj, ListAnswer store p u obj) ↔ ∃ obj, DetailAnswer store p u obj := by
  constructor
  · rintro ⟨_, v, hv, hu, -⟩
    exact ⟨_, v, hv, hu, _, isOrdered_orderBy _ _, rfl⟩
  · rintro ⟨_, v, hv, hu, -⟩
    exact ⟨_, v, hv, hu, _, isOrdered_orderBy _ _, rfl⟩

theorem pastLineageOf_eq (h : ∀ le ∈ store.lineageOf p u, le.eventAt ≤ p) :
    store.pastLineageOf p u = store.lineageOf p u :=
  List.filter_eq_self.2 fun le hle => decide_eq_true (h le hle)

/-- If both show the same, the entity has a plain lineage. -/
theorem plainLineage_of_agrees (hv : v ∈ store.entityAt p) (h : EntityAgrees store p v.entityId) :
    PlainLineage store p v.entityId := by
  -- Whatever the orders of the events are, the two show the same events.
  have hsame : ∀ les les', IsOrdered LineageRow.eventAt (store.lineageOf p v.entityId) les →
      IsOrdered LineageRow.eventAt (store.pastLineageOf p v.entityId) les' → les' = les := by
    intro les les' hles hles'
    have hvisible : ∀ le ∈ les', le ∈ store.entityLineageAt p := fun le hle =>
      (List.mem_filter.1 (List.mem_filter.1 (hles'.perm.mem_iff.1 hle)).1).1
    exact lineage_eq_of_entityItem hvisible (mem_entityLineageAt hles)
      (h.same _ _ ⟨v, hv, rfl, les, hles, rfl⟩ ⟨v, hv, rfl, les', hles', rfl⟩)
  have hpast : ∀ le ∈ store.lineageOf p v.entityId, le.eventAt ≤ p := by
    intro le hle
    have heq := hsame _ _ (isOrdered_orderBy _ _) (isOrdered_orderBy _ _)
    have hmem : le ∈ orderBy LineageRow.eventAt (store.lineageOf p v.entityId) := mem_orderBy.2 hle
    rw [← heq, mem_orderBy] at hmem
    exact of_decide_eq_true (List.mem_filter.1 hmem).2
  refine ⟨hpast, nodup_of_unique ?_ fun les les' hles hles' => ?_, fun le hle hsplit => ?_⟩
  · exact (pairwise_lineageOf p v.entityId).imp fun hne heq => hne (congrArg _ heq)
  · rw [← pastLineageOf_eq hpast] at hles'
    exact (hsame les les' hles hles').symm
  · have hlist : ListAnswer store p v.entityId _ := ⟨v, hv, rfl, _, isOrdered_orderBy _ _, rfl⟩
    have hvisible := (List.mem_filter.1 hle).1
    rcases h.split _ (.inl hlist) with ⟨le', -, -, -, hfield⟩ | ⟨hnone, -⟩
    · rw [field_split] at hfield
      cases hfield
    · exact hnone le hvisible hsplit

/-- The list and the endpoint of an entity show the same, and the first split, if and only if the
    entity has no visible events that are in the future, of one time, or splits into it. -/
theorem entityAgrees_iff (store : EntityStore) (p : Timestamp) (u : PgUuid) :
    EntityAgrees store p u ↔ ∀ v ∈ store.entityAt p, v.entityId = u → PlainLineage store p u := by
  constructor
  · rintro h v hv rfl
    exact plainLineage_of_agrees hv h
  · intro h
    refine ⟨listed_iff, ?_, ?_⟩
    · rintro _ _ ⟨v, hv, hu, les, hles, rfl⟩ ⟨v', hv', hu', les', hles', rfl⟩
      obtain ⟨hpast, hnodup, -⟩ := h v hv hu
      rw [pastLineageOf_eq hpast] at hles'
      rw [eq_of_mem_entityAt hv hv' (hu.trans hu'.symm), hles.unique hnodup hles']
    · intro obj hobj
      have hanswer : ∃ v ∈ store.entityAt p, v.entityId = u ∧
          ∃ les : List LineageRow, obj = entityItem v.row (les.map LineageRow.row) := by
        rcases hobj with ⟨v, hv, hu, les, -, hobj⟩ | ⟨v, hv, hu, les, -, hobj⟩
        · exact ⟨v, hv, hu, les, hobj⟩
        · exact ⟨v, hv, hu, les, hobj⟩
      obtain ⟨v, hv, hu, les, rfl⟩ := hanswer
      exact .inr ⟨fun le hle hsplit =>
        (h v hv hu).noSplit le (mem_lineageOf_of_splitsInto hle hsplit) hsplit, field_split⟩

/-! ### A split -/

/-- A company that was split off, and the record of the split. -/
def splitStore : EntityStore where
  versions := [{
    entityId := 2
    asOf := 1000
    eventKind := "created"
    entityType := "issuer"
    legalName := "Yeni A.Ş."
    countryCode := "TR"
    mergedFromEntityIds := none }]
  primaryKey := List.nodup_singleton _
  lineage := [{
    eventKind := "split"
    fromEntityId := entityText 1
    intoEntityId := entityText 2
    eventAt := 1000
    asOf := 1000
    reason := none }]
  unique := List.nodup_singleton _

/-- The split is shown by neither. -/
theorem not_entityAgrees_split : ¬EntityAgrees splitStore 2000 2 := by
  intro h
  have hlineage : ∀ le ∈ splitStore.lineage, le ∈ splitStore.entityLineageAt 2000 := by
    refine List.forall_mem_singleton.2 (Versions.mem_at.2 ⟨List.mem_cons_self, by decide, ?_⟩)
    exact List.forall_mem_singleton.2 fun _ _ => le_rfl
  have hversion : ∀ v ∈ splitStore.versions, v ∈ splitStore.entityAt 2000 := by
    refine List.forall_mem_singleton.2 (Versions.mem_at.2 ⟨List.mem_cons_self, by decide, ?_⟩)
    exact List.forall_mem_singleton.2 fun _ _ => le_rfl
  have hplain := plainLineage_of_agrees (hversion _ List.mem_cons_self) h
  have hsplits : ∀ le ∈ splitStore.lineage, le.SplitsInto 2 :=
    List.forall_mem_singleton.2 ⟨rfl, rfl⟩
  have hsplit := hsplits _ List.mem_cons_self
  exact hplain.noSplit _ (mem_lineageOf_of_splitsInto (hlineage _ List.mem_cons_self) hsplit) hsplit

end AslanCore.Research
