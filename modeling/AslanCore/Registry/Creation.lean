import AslanCore.Registry.Boundary

/-!
# What create_entity returns

A call of `create_entity` asks for a merge where the rows of its identifiers that are valid today
name more than one entity, or anything of another source (`Tables.NeedsMerge`), and else returns an
entity that all of its identifiers name (`Created`). It does so if and only if there is nothing in
the way of the identifiers that have no row today, and the database takes a new entity where one is
needed (`createEntity_iff`). What is in the way are rows that are valid on other days: the call
looks at the rows of today, and attaches identifiers from 1900 on, until 9999.
-/

namespace AslanCore.Registry

open Timeseries (PyDict fieldsJsonb)

variable {ctx : Context} {s : TxState Tables} {t : Tables} {source : String}
  {fields : EntityFields (Option PyDict)} {identifiers : IdentifierMap} {e : EntityRow}
  {result : Except RegistryError EntityRow}

/-- The rows of today name more than one entity, or an entity or a row is of another source. -/
def Tables.NeedsMerge (t : Tables) (ctx : Context) (identifiers : IdentifierMap) : Prop :=
  (∃ r ∈ t.matching identifiers ctx.today, ∃ r' ∈ t.matching identifiers ctx.today,
    r.entityId ≠ r'.entityId) ∨
  ∃ r ∈ t.matching identifiers ctx.today, t.sourceOf ctx.runId ≠ some r.sourceId ∨
    ∃ e ∈ t.entity, e.entityId = r.entityId ∧ t.sourceOf ctx.runId ≠ some e.sourceId

/-- How a call of `create_entity` should end. -/
structure Created (ctx : Context) (identifiers : IdentifierMap) (s : TxState Tables)
    (result : Except RegistryError EntityRow) (s' : TxState Tables) : Prop where
  merge : s.current.NeedsMerge ctx identifiers → ∃ why, result = .error (.entityMergeRequired why)
  found : ¬s.current.NeedsMerge ctx identifiers → ∃ e, result = .ok e ∧
    ∀ p ∈ identifiers.items, s'.current.resolve p.1 p.2 ctx.today = some e.entityId
  /-- After an error, there is nothing to commit. -/
  atomic : ∀ error, result = .error error → s'.aborted = false →
    s'.current.entity = s.current.entity ∧ s'.current.identifier = s.current.identifier

/-- The database takes a row for a new entity. -/
def Tables.Takes (t : Tables) (ctx : Context) (fields : EntityFields (Option PyDict)) : Prop :=
  fieldsDumps (fields.metadata.getD []) ∧ ∃ source metadata countryCode,
    t.sourceOf ctx.runId = some source ∧ fieldsJsonb [] (fields.metadata.getD []) = some metadata ∧
    bpchar 2 fields.countryCode = some countryCode ∧
    t.entityViolation (newEntity ctx source fields metadata countryCode) = none

/-- There is nothing in the way of a call. -/
structure Creatable (ctx : Context) (fields : EntityFields (Option PyDict))
    (identifiers : IdentifierMap) (s : TxState Tables) : Prop where
  live : s.aborted = false
  actor : ctx.HasActor
  run : (s.current.sourceOf ctx.runId).isSome
  texts : identifiers.Storable
  rows : s.current.NeedsMerge ctx identifiers ∨
    (∀ p ∈ identifiers.items, p ∈ (s.current.matching identifiers ctx.today).map (·.pair) ∨
      s.current.Free p ∧ ctx.today ∈ always) ∧
    (s.current.matching identifiers ctx.today = [] → s.current.Takes ctx fields)

theorem mem_matching {r : IdentifierRow} : r ∈ t.matching identifiers ctx.today ↔
    r ∈ t.identifier ∧ r.pair ∈ identifiers.items ∧ ctx.today ∈ r.window := by
  rw [Tables.matching, List.mem_filter, decide_eq_true_iff]

/-- The entity of a row of today is in the registry. -/
theorem exists_entity {r : IdentifierRow} (hr : r ∈ t.matching identifiers ctx.today) :
    ∃ e ∈ t.entity, e.entityId = r.entityId :=
  List.mem_map.1 (t.identifier_entity r (mem_matching.1 hr).1)

/-- The entities of the rows of today: none, one, or more. -/
theorem matching_cases (t : Tables) (ctx : Context) (identifiers : IdentifierMap) :
    (t.matching identifiers ctx.today = [] ∧
      ((t.matching identifiers ctx.today).map (·.entityId)).dedup = []) ∨
    (∃ r ∈ t.matching identifiers ctx.today,
      (∀ r' ∈ t.matching identifiers ctx.today, r'.entityId = r.entityId) ∧
      ((t.matching identifiers ctx.today).map (·.entityId)).dedup = [r.entityId]) ∨
    (∃ r ∈ t.matching identifiers ctx.today, ∃ r' ∈ t.matching identifiers ctx.today,
      r.entityId ≠ r'.entityId) ∧
      ∃ a b l, ((t.matching identifiers ctx.today).map (·.entityId)).dedup = a :: b :: l := by
  generalize t.matching identifiers ctx.today = rows
  have hmem : ∀ id, id ∈ (rows.map (·.entityId)).dedup ↔ id ∈ rows.map (·.entityId) := fun _ =>
    List.mem_dedup
  have hnodup := List.nodup_dedup (rows.map (·.entityId))
  rcases hids : (rows.map (·.entityId)).dedup with _ | ⟨a, _ | ⟨b, l⟩⟩
  · exact .inl ⟨List.map_eq_nil_iff.1 ((List.dedup_eq_nil _).1 hids), hids⟩
  · obtain ⟨r, hr, rfl⟩ := List.mem_map.1 ((hmem a).1 (hids ▸ List.mem_cons_self))
    refine .inr (.inl ⟨r, hr, fun r' hr' => ?_, hids⟩)
    have hr'' := (hmem r'.entityId).2 (List.mem_map_of_mem hr')
    rw [hids] at hr''
    exact List.mem_singleton.1 hr''
  · obtain ⟨r, hr, rfl⟩ := List.mem_map.1 ((hmem a).1 (hids ▸ List.mem_cons_self))
    obtain ⟨r', hr', rfl⟩ := List.mem_map.1
      ((hmem b).1 (hids ▸ List.mem_cons_of_mem _ List.mem_cons_self))
    have hne : r.entityId ≠ r'.entityId := fun heq => by
      rw [hids, heq] at hnodup
      exact (List.nodup_cons.1 hnodup).1 List.mem_cons_self
    exact .inr (.inr ⟨⟨r, hr, r', hr', hne⟩, _, _, _, hids⟩)

/-! ### A merge is required -/

theorem createFrom_of_needsMerge (hs : s.aborted = false)
    (hsource : s.current.sourceOf ctx.runId = some source)
    (h : s.current.NeedsMerge ctx identifiers) :
    (createFrom ctx source fields identifiers (s.current.matching identifiers ctx.today)).Ends s
      fun result s' => (∃ why, result = .error (.entityMergeRequired why)) ∧ s' = s := by
  rw [createFrom]
  rcases matching_cases s.current ctx identifiers with ⟨hnil, -⟩ | ⟨r, hr, hall, hids⟩ |
    ⟨-, a, b, l, hids⟩
  · obtain ⟨r, hr, -⟩ | ⟨r, hr, -⟩ := h
    all_goals exact absurd (hnil ▸ hr) List.not_mem_nil
  · rw [hids]
    obtain ⟨e, he, hid⟩ := exists_entity hr
    refine Tx.ends_bind.2 ((ends_get hs).2 ?_)
    rw [findEntity_eq_some.2 ⟨he, hid⟩]
    by_cases howner : e.sourceId = source
    swap
    · have hthrow : Tx.Ends (throw (.entityMergeRequired (.ownedBy r.entityId e.sourceId source)) :
          Call EntityRow) s fun result s' =>
          (∃ why, result = .error (.entityMergeRequired why)) ∧ s' = s := ⟨⟨_, rfl⟩, rfl⟩
      simpa only [if_pos howner] using hthrow
    simp only [howner, ne_eq, not_true_eq_false, if_false]
    rcases hfind : (s.current.matching identifiers ctx.today).find?
        (fun r => decide ¬r.sourceId = source) with _ | r'
    swap
    · rw [hfind]
      exact ⟨⟨_, rfl⟩, rfl⟩
    -- All of it is of the source, so that there would be no need for a merge.
    refine absurd h ?_
    rintro (⟨x, hx, y, hy, hne⟩ | ⟨x, hx, hother⟩)
    · exact hne ((hall x hx).trans (hall y hy).symm)
    · have hown : x.sourceId = source := by simpa using List.find?_eq_none.1 hfind x hx
      rcases hother with hother | ⟨e', he', hid', hother⟩
      · exact hother (hown ▸ hsource)
      · rw [eq_of_entityId he' he (hid'.trans ((hall x hx).trans hid.symm)), howner] at hother
        exact hother hsource
  · rw [hids]
    exact ⟨⟨_, rfl⟩, rfl⟩

/-! ### No merge is required -/

/-- The rows of today are of the source, as is the entity that they name. -/
theorem owned_of_not_needsMerge (hsource : s.current.sourceOf ctx.runId = some source)
    (h : ¬s.current.NeedsMerge ctx identifiers) {r : IdentifierRow}
    (hr : r ∈ s.current.matching identifiers ctx.today) :
    r.sourceId = source ∧
      ∀ e ∈ s.current.entity, e.entityId = r.entityId → e.sourceId = source := by
  have hown := not_exists.1 (not_or.1 h).2 r
  rw [hsource] at hown
  constructor
  · by_contra hne
    exact hown ⟨hr, .inl fun heq => hne (Option.some.inj heq).symm⟩
  · intro e he hid
    by_contra hne
    exact hown ⟨hr, .inr ⟨e, he, hid, fun heq => hne (Option.some.inj heq).symm⟩⟩

/-- The call without a merge: it merges into the entity of the rows of today, or creates one. -/
theorem ends_createFrom {Q : Except RegistryError EntityRow → TxState Tables → Prop}
    (hs : s.aborted = false) (hsource : s.current.sourceOf ctx.runId = some source)
    (h : ¬s.current.NeedsMerge ctx identifiers)
    (hmerge : ∀ r ∈ s.current.matching identifiers ctx.today, ∀ e ∈ s.current.entity,
      (∀ r' ∈ s.current.matching identifiers ctx.today, r'.entityId = e.entityId) →
      e.sourceId = source → Tx.Ends (do
        (identifiers.items.filter
            (· ∉ (s.current.matching identifiers ctx.today).map (·.pair))).forM fun p =>
          addIdentifier ctx e.entityId p.1 p.2 none none false
        emitAudit ctx "entity.idempotent_hit" (.entity e.entityId) (some (.entity e))
          (some (.entity e)) true
        pure e) s Q)
    (hfresh : s.current.matching identifiers ctx.today = [] →
      (createFresh ctx source fields identifiers).Ends s Q) :
    (createFrom ctx source fields identifiers (s.current.matching identifiers ctx.today)).Ends s
      Q := by
  rw [createFrom]
  rcases matching_cases s.current ctx identifiers with ⟨hnil, hids⟩ | ⟨r, hr, hall, hids⟩ |
    ⟨hne, -⟩
  · rw [hids]
    exact hfresh hnil
  · rw [hids]
    obtain ⟨e, he, hid⟩ := exists_entity hr
    have howner := (owned_of_not_needsMerge hsource h hr).2 e he hid
    refine Tx.ends_bind.2 ((ends_get hs).2 ?_)
    rw [findEntity_eq_some.2 ⟨he, hid⟩]
    have hfind : (s.current.matching identifiers ctx.today).find?
        (fun r => decide ¬r.sourceId = source) = none := List.find?_eq_none.2 fun x hx => by
      simpa using (owned_of_not_needsMerge hsource h hx).1
    simp only [howner, ne_eq, not_true_eq_false, if_false, hfind]
    rw [← hid]
    exact hmerge r hr e he (fun r' hr' => (hall r' hr').trans hid.symm) howner
  · exact absurd (.inl hne) h

/-- The end of a call: the audit record is written, and the entity is returned. -/
theorem ends_audited (operation : String) (target : Target) (before after : Option Image)
    (returnedExisting : Bool) (hctx : ctx.HasActor) (hs : s.aborted = false) :
    Tx.Ends (do
      emitAudit ctx operation target before after returnedExisting
      pure e) s fun result s' => result = .ok e ∧ SameRows s.current s'.current := by
  refine Tx.ends_bind.2 ((ends_emitAudit ctx operation target before after returnedExisting
    hs).mono fun result s' ⟨hsame, _, hok⟩ => ?_)
  rw [hok hctx]
  exact ⟨rfl, hsame⟩

/-- An identifier that has been attached names the entity, today. -/
theorem resolve_attached {entityId : PgUuid} {p : String × String} (hday : ctx.today ∈ always)
    (h : ∃ row ∈ t.identifier, row.pair = p ∧ row.window = always ∧ row.entityId = entityId) :
    t.resolve p.1 p.2 ctx.today = some entityId := by
  obtain ⟨row, hrow, hpair, hwindow, hid⟩ := h
  exact Tables.resolve_eq_some_iff.2 ⟨row, hrow, hpair, hwindow ▸ hday, hid⟩

theorem nodup_items (identifiers : IdentifierMap) : identifiers.items.Nodup :=
  .of_map _ identifiers.nodup

/-! ### Where there is nothing in the way -/

/-- All identifiers name the entity that is returned. -/
def Found (ctx : Context) (identifiers : IdentifierMap) (result : Except RegistryError EntityRow)
    (t : Tables) : Prop :=
  ∃ e, result = .ok e ∧
    ∀ p ∈ identifiers.items, t.resolve p.1 p.2 ctx.today = some e.entityId

/-- What is missing is attached to the entity of the rows of today. -/
theorem merge_found (hctx : ctx.HasActor) (hs : s.aborted = false)
    (hsource : s.current.sourceOf ctx.runId = some source) (htext : identifiers.Storable)
    (he : e ∈ s.current.entity) (howner : e.sourceId = source)
    (hall : ∀ r ∈ s.current.matching identifiers ctx.today, r.entityId = e.entityId)
    (hfree : ∀ p ∈ identifiers.items,
      p ∈ (s.current.matching identifiers ctx.today).map (·.pair) ∨
        s.current.Free p ∧ ctx.today ∈ always) :
    Tx.Ends (do
      (identifiers.items.filter
          (· ∉ (s.current.matching identifiers ctx.today).map (·.pair))).forM fun p =>
        addIdentifier ctx e.entityId p.1 p.2 none none false
      emitAudit ctx "entity.idempotent_hit" (.entity e.entityId) (some (.entity e))
        (some (.entity e)) true
      pure e) s fun result s' => Found ctx identifiers result s'.current := by
  have hmissing : ∀ p ∈ identifiers.items.filter
      (· ∉ (s.current.matching identifiers ctx.today).map (·.pair)),
      p ∈ identifiers.items ∧ s.current.Free p ∧ ctx.today ∈ always := fun p hp => by
    obtain ⟨hp, hnot⟩ := List.mem_filter.1 hp
    exact ⟨hp, (hfree p hp).resolve_left (of_decide_eq_true hnot)⟩
  have hattach := (ends_attach ctx _ hs hsource ⟨e, he, rfl, howner⟩).and
    (ends_attach_of_free hctx hs hsource ⟨e, he, rfl, howner⟩
      (fun p hp => htext p (hmissing p hp).1) ((nodup_items identifiers).filter _)
      fun p hp => (hmissing p hp).2.1)
  refine Tx.ends_bind.2 (hattach.mono ?_)
  rintro result s' ⟨⟨hgrows, -, hlive⟩, rfl, hrows⟩
  refine (ends_audited _ _ _ _ _ hctx (hlive rfl)).mono ?_
  rintro result s'' ⟨rfl, hsame⟩
  refine ⟨e, rfl, fun p hp => ?_⟩
  rw [hsame.resolve]
  by_cases hmem : p ∈ (s.current.matching identifiers ctx.today).map (·.pair)
  · obtain ⟨r, hr, rfl⟩ := List.mem_map.1 hmem
    obtain ⟨hrow, -, hday⟩ := mem_matching.1 hr
    exact Tables.resolve_eq_some_iff.2 ⟨r, hgrows.mem_identifier hrow, rfl, hday, hall r hr⟩
  · have hp' : p ∈ identifiers.items.filter
        (· ∉ (s.current.matching identifiers ctx.today).map (·.pair)) :=
      List.mem_filter.2 ⟨hp, decide_eq_true hmem⟩
    exact resolve_attached (hmissing p hp').2.2 (hrows p hp')

/-- What it takes for a new entity to be inserted. -/
theorem takes_iff (hsource : t.sourceOf ctx.runId = some source) :
    t.Takes ctx fields ↔ fieldsDumps (fields.metadata.getD []) ∧
      ∃ entityId t', insertEntity ctx source fields t = .ok (entityId, t') := by
  unfold Tables.Takes insertEntity
  refine and_congr_right fun _ => ?_
  constructor
  · rintro ⟨source', metadata, countryCode, hsource', hmetadata, hcode, hviolation⟩
    obtain rfl : source' = source := Option.some.inj (hsource'.symm.trans hsource)
    rw [hmetadata, hcode]
    change ∃ entityId t', t.insertEntity (newEntity ctx source' fields metadata countryCode) =
      .ok (entityId, t')
    unfold Tables.insertEntity
    split
    · exact ⟨_, _, rfl⟩
    · next error herror => exact absurd (herror.symm.trans hviolation) (by exact nofun)
  · rintro ⟨entityId, t', hinsert⟩
    rcases hmetadata : fieldsJsonb [] (fields.metadata.getD []) with _ | metadata
    · rw [hmetadata] at hinsert
      cases hinsert
    rcases hcode : bpchar 2 fields.countryCode with _ | countryCode
    · rw [hmetadata, hcode] at hinsert
      cases hinsert
    rw [hmetadata, hcode] at hinsert
    change t.insertEntity (newEntity ctx source fields metadata countryCode) = _ at hinsert
    unfold Tables.insertEntity at hinsert
    split at hinsert
    · exact ⟨source, metadata, countryCode, hsource, rfl, rfl, ‹_›⟩
    · cases hinsert

/-- All of the identifiers are attached to a new entity. -/
theorem fresh_found (hctx : ctx.HasActor) (hs : s.aborted = false)
    (hsource : s.current.sourceOf ctx.runId = some source) (htext : identifiers.Storable)
    (htakes : s.current.Takes ctx fields)
    (hfree : ∀ p ∈ identifiers.items, s.current.Free p ∧ ctx.today ∈ always) :
    (createFresh ctx source fields identifiers).Ends s fun result s' =>
      Found ctx identifiers result s'.current := by
  obtain ⟨hdumps, entityId, t, hinsert⟩ := (takes_iff hsource).1 htakes
  unfold createFresh
  rw [if_neg (not_not.2 hdumps)]
  refine Tx.ends_bind.2 ((ends_execute hs).2 ?_)
  rw [hinsert]
  obtain ⟨row, rfl, hrow, hentities, hidentifiers, hruns⟩ := insertEntity_eq_ok hinsert
  have hmem : row ∈ t.entity := hentities ▸ List.mem_append_right _ (List.mem_singleton_self row)
  have hfree' : ∀ p ∈ identifiers.items, t.Free p := fun p hp r hr =>
    (hfree p hp).1 r (hidentifiers ▸ hr)
  have hattach := (ends_attach (s := s.put t) ctx identifiers.items hs (hruns ▸ hsource)
    ⟨row, hmem, rfl, hrow⟩).and (ends_attach_of_free (s := s.put t) hctx hs (hruns ▸ hsource)
      ⟨row, hmem, rfl, hrow⟩ htext (nodup_items identifiers) hfree')
  refine Tx.ends_bind.2 (hattach.mono ?_)
  rintro result s' ⟨⟨hgrows, hentities', hlive⟩, rfl, hrows⟩
  refine Tx.ends_bind.2 ((ends_get (hlive rfl)).2 ?_)
  rw [findEntity_eq_some.2 ⟨hentities' ▸ hmem, rfl⟩]
  refine (ends_audited _ _ _ _ _ hctx (hlive rfl)).mono ?_
  rintro result s'' ⟨rfl, hsame⟩
  refine ⟨row, rfl, fun p hp => ?_⟩
  rw [hsame.resolve]
  exact resolve_attached (hfree p hp).2 (hrows p hp)

/-! ### Where there is something in the way -/

/-- New rows are only for identifiers that are free, and a new entity is only returned where the
    database takes it. -/
def Limited (ctx : Context) (fields : EntityFields (Option PyDict)) (identifiers : IdentifierMap)
    (t : Tables) (result : Except RegistryError EntityRow) (t' : Tables) : Prop :=
  (∀ r ∈ t'.identifier, r ∈ t.identifier ∨ r.window = always ∧ t.Free r.pair) ∧
  ∀ e, result = .ok e → t.matching identifiers ctx.today = [] → t.Takes ctx fields

theorem limited_merge (hs : s.aborted = false)
    (hsource : s.current.sourceOf ctx.runId = some source) (he : e ∈ s.current.entity)
    (howner : e.sourceId = source) {r : IdentifierRow}
    (hr : r ∈ s.current.matching identifiers ctx.today) (ps : List (String × String)) :
    Tx.Ends (do
      ps.forM fun p => addIdentifier ctx e.entityId p.1 p.2 none none false
      emitAudit ctx "entity.idempotent_hit" (.entity e.entityId) (some (.entity e))
        (some (.entity e)) true
      pure e) s fun result s' => Limited ctx fields identifiers s.current result s'.current := by
  have hmatching : s.current.matching identifiers ctx.today ≠ [] := List.ne_nil_of_mem hr
  have hattach := (ends_attach ctx ps hs hsource ⟨e, he, rfl, howner⟩).and
    (ends_attach_rows ctx ps hs hsource ⟨e, he, rfl, howner⟩)
  refine Tx.ends_bind.2 (hattach.mono ?_)
  rintro (error | _) s' ⟨⟨-, -, hlive⟩, hrows⟩
  · exact ⟨hrows, fun _ hok => by cases hok⟩
  · refine Tx.ends_bind.2 ((ends_emitAudit _ _ _ _ _ _ (hlive rfl)).mono ?_)
    rintro (error | _) s'' ⟨hsame, -, -⟩
    · exact ⟨fun r hr => hrows r (hsame.identifier ▸ hr), fun _ hok => by cases hok⟩
    · exact ⟨fun r hr => hrows r (hsame.identifier ▸ hr), fun _ _ hnil => absurd hnil hmatching⟩

theorem limited_fresh (hs : s.aborted = false)
    (hsource : s.current.sourceOf ctx.runId = some source) :
    (createFresh ctx source fields identifiers).Ends s fun result s' =>
      Limited ctx fields identifiers s.current result s'.current := by
  unfold createFresh
  by_cases hdumps : fieldsDumps (fields.metadata.getD [])
  swap
  · rw [if_pos hdumps]
    exact ⟨fun r hr => .inl hr, fun _ hok => by cases hok⟩
  rw [if_neg (not_not.2 hdumps)]
  refine Tx.ends_bind.2 ((ends_execute hs).2 ?_)
  rcases hinsert : insertEntity ctx source fields s.current with error | ⟨entityId, t⟩
  · exact ⟨fun r hr => .inl hr, fun _ hok => by cases hok⟩
  have htakes : s.current.Takes ctx fields := (takes_iff hsource).2 ⟨hdumps, entityId, t, hinsert⟩
  obtain ⟨row, rfl, hrow, hentities, hidentifiers, hruns⟩ := insertEntity_eq_ok hinsert
  have hmem : row ∈ t.entity := hentities ▸ List.mem_append_right _ (List.mem_singleton_self row)
  have hattach := (ends_attach (s := s.put t) ctx identifiers.items hs (hruns ▸ hsource)
    ⟨row, hmem, rfl, hrow⟩).and (ends_attach_rows (s := s.put t) ctx identifiers.items hs
      (hruns ▸ hsource) ⟨row, hmem, rfl, hrow⟩)
  refine Tx.ends_bind.2 (hattach.mono ?_)
  rintro result s' ⟨⟨-, hentities', hlive⟩, hrows⟩
  have hrows' : ∀ r ∈ s'.current.identifier, r ∈ s.current.identifier ∨
      r.window = always ∧ s.current.Free r.pair := fun r hr => by
    rcases hrows r hr with hr | ⟨hwindow, hfree⟩
    · exact .inl (hidentifiers ▸ hr)
    · exact .inr ⟨hwindow, fun x hx => hfree x (hidentifiers ▸ hx)⟩
  rcases result with error | _
  · exact ⟨hrows', fun _ hok => by cases hok⟩
  · refine Tx.ends_bind.2 ((ends_get (hlive rfl)).2 ?_)
    rw [findEntity_eq_some.2 ⟨hentities' ▸ hmem, rfl⟩]
    refine Tx.ends_bind.2 ((ends_emitAudit _ _ _ _ _ _ (hlive rfl)).mono ?_)
    rintro (error | _) s'' ⟨hsame, -, -⟩
    · exact ⟨fun r hr => hrows' r (hsame.identifier ▸ hr), fun _ hok => by cases hok⟩
    · exact ⟨fun r hr => hrows' r (hsame.identifier ▸ hr), fun _ _ _ => htakes⟩

/-- A call ends as it should if and only if there is nothing in its way. -/
theorem createEntity_iff (ctx : Context) (fields : EntityFields (Option PyDict))
    (identifiers : IdentifierMap) (s : TxState Tables) :
    (createEntity ctx fields identifiers).Ends s (Created ctx identifiers s) ↔
      Creatable ctx fields identifiers s := by
  by_cases hrun : ctx.HasActor ∧ s.aborted = false ∧ (s.current.sourceOf ctx.runId).isSome ∧
    identifiers.Storable
  swap
  · refine iff_of_false (fun h => ?_) fun h => hrun ⟨h.actor, h.live, h.run, h.texts⟩
    -- The call raises something else, whether a merge is required or not.
    have hraises : (createEntity ctx fields identifiers).Ends s _ := createEntity_raises hrun
    obtain ⟨-, error, herror, hmerge⟩ := hraises
    by_cases hneeds : s.current.NeedsMerge ctx identifiers
    · obtain ⟨why, hwhy⟩ := h.merge hneeds
      exact hmerge why (Except.error.inj (herror.symm.trans hwhy))
    · obtain ⟨e, he, -⟩ := h.found hneeds
      cases herror.symm.trans he
  obtain ⟨hctx, hs, hsome, htext⟩ := hrun
  obtain ⟨source, hsource⟩ := Option.isSome_iff_exists.1 hsome
  rw [ends_createEntity hctx hs hsource htext]
  by_cases hneeds : s.current.NeedsMerge ctx identifiers
  · refine iff_of_true ((createFrom_of_needsMerge hs hsource hneeds).mono ?_)
      ⟨hs, hctx, hsome, htext, .inl hneeds⟩
    rintro result s' ⟨hwhy, rfl⟩
    exact ⟨fun _ => hwhy, fun h => absurd hneeds h, fun _ _ _ => ⟨rfl, rfl⟩⟩
  constructor
  · intro h
    have hlimited : (createFrom ctx source fields identifiers
        (s.current.matching identifiers ctx.today)).Ends s fun result s' =>
          Limited ctx fields identifiers s.current result s'.current :=
      ends_createFrom hs hsource hneeds
        (fun r hr e he _ howner => limited_merge hs hsource he howner hr _) fun _ =>
          limited_fresh hs hsource
    obtain ⟨e, hok, hfound⟩ := h.found hneeds
    refine ⟨hs, hctx, hsome, htext, .inr ⟨fun p hp => ?_, hlimited.2 e hok⟩⟩
    -- The row by which the identifier is found is one of today, or a new one.
    obtain ⟨r, hr, hpair, hday, -⟩ := Tables.resolve_eq_some_iff.1 (hfound p hp)
    obtain rfl : r.pair = p := hpair
    rcases hlimited.1 r hr with hr | ⟨hwindow, hfree⟩
    · exact .inl (List.mem_map_of_mem (mem_matching.2 ⟨hr, hp, hday⟩))
    · exact .inr ⟨hfree, hwindow ▸ hday⟩
  · intro h
    obtain ⟨hfree, htakes⟩ := h.rows.resolve_left hneeds
    have hfound : (createFrom ctx source fields identifiers
        (s.current.matching identifiers ctx.today)).Ends s fun result s' =>
          Found ctx identifiers result s'.current := by
      refine ends_createFrom hs hsource hneeds (fun r hr e he hall howner => ?_) fun hnil => ?_
      · exact merge_found hctx hs hsource htext he howner hall hfree
      · refine fresh_found hctx hs hsource htext (htakes hnil) fun p hp => ?_
        refine (hfree p hp).resolve_left fun hmem => ?_
        rw [hnil] at hmem
        cases hmem
    refine hfound.mono fun result s' hfound => ?_
    obtain ⟨e, rfl, -⟩ := id hfound
    exact ⟨fun h => absurd h hneeds, fun _ => hfound, fun _ herror => by cases herror⟩

/-! ### An expired ticker -/

/-- One company has the ISIN `TR1`; the other one had the ticker `OLD`, until 2020. -/
def tickerTables : Tables where
  sourceOf run := if run = 1 then some "kap" else none
  entity := [kapEntity 7, kapEntity 8]
  identifier := [kapRow 1 7 "isin" "TR1" always,
    kapRow 2 8 "bist_ticker" "OLD" ⟨firstDay, 18262, by decide⟩]
  nextIdentifierId := 3
  events := []
  entity_pkey := by decide
  identifier_pkey := by decide
  identifier_seq := by decide
  identifier_excl := by
    refine List.pairwise_cons.2 ⟨fun r hr => ?_, List.pairwise_singleton _ _⟩
    rw [List.mem_singleton.1 hr]
    decide
  identifier_entity := by decide

/-- A call of a run of `kap`, on 27 April 2026. -/
def kapCall : Context where
  auditStrict := false
  currentActor := none
  runId := 1
  today := 20570
  now := 1777248000000000
  uuid := 9

/-- The company of the ISIN, which also has an LEI, and now has the ticker. -/
def tickerIdentifiers : IdentifierMap where
  items := [("isin", "TR1"), ("lei", "L"), ("bist_ticker", "OLD")]
  nodup := by decide

/-- The call raises a conflict, after it has attached the LEI. -/
theorem not_created_ticker :
    ¬(createEntity kapCall companyFields tickerIdentifiers).Ends ⟨tickerTables, tickerTables, false⟩
      (Created kapCall tickerIdentifiers ⟨tickerTables, tickerTables, false⟩) := by
  intro h
  let outcome := createEntity kapCall companyFields tickerIdentifiers
    ⟨tickerTables, tickerTables, false⟩
  have hlive : outcome.2.aborted = false := by decide +kernel
  have herror : (match outcome.1 with
    | .error _ => true
    | .ok _ => false) = true := by decide +kernel
  have hlength : outcome.2.current.identifier.length = 3 := by decide +kernel
  rcases hresult : outcome.1 with error | e
  · rw [(h.atomic error hresult hlive).2] at hlength
    cases hlength
  · rw [hresult] at herror
    cases herror

end AslanCore.Registry
