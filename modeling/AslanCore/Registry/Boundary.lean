import AslanCore.Registry.Attach

/-!
# The boundary between sources

Whatever other sources have put in the registry before, a call of `create_entity` by a source
returns an entity of that source, attaches identifiers to no other entity, and leaves the rows of
the other sources as they are (`createEntity_confined`). Whether it succeeds or raises, what it
does is to add rows of its own (`Grows`).
-/

namespace AslanCore.Registry

open Timeseries (PyDict storableText)

/-- What a call of `create_entity` by a source leaves of the other ones. -/
structure Confined (source : String) (t : Tables) (result : Except RegistryError EntityRow)
    (t' : Tables) : Prop where
  /-- The entity that is returned is one of the source. -/
  returned : ∀ e, result = .ok e → e ∈ t'.entity ∧ e.sourceId = source
  /-- What is attached is attached to an entity of the source. -/
  attached : ∀ r ∈ t'.identifier, r ∉ t.identifier →
    ∀ e ∈ t'.entity, e.entityId = r.entityId → e.sourceId = source
  entity : t'.entity.filter (·.sourceId ≠ source) = t.entity.filter (·.sourceId ≠ source)
  identifier : t'.identifier.filter (·.sourceId ≠ source) =
    t.identifier.filter (·.sourceId ≠ source)

variable {ctx : Context} {s : TxState Tables} {t t' : Tables} {source : String}
  {fields : EntityFields (Option PyDict)} {identifiers : IdentifierMap} {e e' : EntityRow}
  {result : Except RegistryError EntityRow}

/-! ### Entities -/

/-- The primary key of `ref.entity`. -/
theorem eq_of_entityId (he : e ∈ t.entity) (he' : e' ∈ t.entity) (h : e.entityId = e'.entityId) :
    e = e' :=
  List.inj_on_of_nodup_map t.entity_pkey he he' h

theorem findEntity_eq_some {entityId : PgUuid} :
    t.findEntity entityId = some e ↔ e ∈ t.entity ∧ e.entityId = entityId := by
  constructor
  · intro h
    exact ⟨List.mem_of_find?_eq_some h, by simpa using List.find?_some h⟩
  · rintro ⟨he, rfl⟩
    rcases hfind : t.findEntity e.entityId with _ | e'
    · have hne := List.find?_eq_none.1 hfind e he
      simp at hne
    · have hid : e'.entityId = e.entityId := by simpa using List.find?_some hfind
      rw [eq_of_entityId (List.mem_of_find?_eq_some hfind) he hid]

/-- What the insertion of an entity leaves. -/
theorem insertEntity_eq_ok {entityId : PgUuid} (h : insertEntity ctx source fields t =
    .ok (entityId, t')) : ∃ row : EntityRow, row.entityId = entityId ∧ row.sourceId = source ∧
      t'.entity = t.entity ++ [row] ∧ t'.identifier = t.identifier ∧ t'.sourceOf = t.sourceOf := by
  unfold insertEntity at h
  split at h
  · cases h
  · cases h
  · unfold Tables.insertEntity at h
    split at h
    · cases h
      exact ⟨_, rfl, rfl, rfl, rfl, rfl⟩
    · cases h

/-! ### The paths of a call -/

/-- What a call adds are rows of its source, and what it returns is an entity of its source. -/
def Own (source : String) (t : Tables) (result : Except RegistryError EntityRow)
    (s' : TxState Tables) : Prop :=
  Grows source t s'.current ∧ ∀ e, result = .ok e → e ∈ s'.current.entity ∧ e.sourceId = source

theorem own_error {error : RegistryError} {s' : TxState Tables} (h : Grows source t s'.current) :
    Own source t (.error error) s' :=
  ⟨h, fun _ hok => by cases hok⟩

theorem Own.of_grows {s' : TxState Tables} (h : Grows source t t') (h' : Own source t' result s') :
    Own source t result s' :=
  ⟨h.trans h'.1, h'.2⟩

theorem Own.confined {s' : TxState Tables} (h : Own source t result s') :
    Confined source t result s'.current := by
  obtain ⟨⟨-, ⟨es, hes, hsource⟩, ⟨rs, hrs, howner⟩⟩, hreturned⟩ := h
  refine ⟨hreturned, fun r hr hnew e he hid => ?_, ?_, ?_⟩
  · rw [hrs] at hr
    obtain ⟨-, e', he', hid', hsource'⟩ := howner r ((List.mem_append.1 hr).resolve_left hnew)
    rwa [eq_of_entityId he he' (hid.trans hid'.symm)]
  · have hnil : es.filter (·.sourceId ≠ source) = [] :=
      List.filter_eq_nil_iff.2 fun e he => by simp [hsource e he]
    rw [hes, List.filter_append, hnil, List.append_nil]
  · have hnil : rs.filter (·.sourceId ≠ source) = [] :=
      List.filter_eq_nil_iff.2 fun r hr => by simp [(howner r hr).1]
    rw [hrs, List.filter_append, hnil, List.append_nil]

/-- The audit record comes last. -/
theorem own_of_emitAudit (ctx : Context) (operation : String) (target : Target)
    (before after : Option Image) (returnedExisting : Bool) (hs : s.aborted = false)
    (he : e ∈ s.current.entity) (hsource : e.sourceId = source) :
    Tx.Ends (do
      emitAudit ctx operation target before after returnedExisting
      pure e) s (Own source s.current) := by
  refine Tx.ends_bind.2 ((ends_emitAudit ctx operation target before after returnedExisting
    hs).mono fun result s' ⟨hsame, _, _⟩ => ?_)
  rcases result with error | _
  · exact own_error (.of_sameRows hsame)
  · refine ⟨.of_sameRows hsame, fun e' hok => ?_⟩
    cases hok
    exact ⟨hsame.entity ▸ he, hsource⟩

theorem own_mergeInto (target : PgUuid) (rows : List IdentifierRow) (hs : s.aborted = false)
    (hsource : s.current.sourceOf ctx.runId = some source) :
    (mergeInto ctx source target rows identifiers).Ends s (Own source s.current) := by
  refine Tx.ends_bind.2 ((ends_get hs).2 ?_)
  rcases hfind : s.current.findEntity target with _ | e
  · exact own_error (.of_sameRows (SameRows.refl _))
  obtain ⟨he, rfl⟩ := findEntity_eq_some.1 hfind
  by_cases hsource' : e.sourceId = source
  swap
  · have hthrow : Tx.Ends (throw (.entityMergeRequired (.ownedBy e.entityId e.sourceId source)))
        s (Own source s.current) := own_error (.of_sameRows (SameRows.refl _))
    simpa only [if_pos hsource'] using hthrow
  simp only [hsource', ne_eq, not_true_eq_false, if_false]
  generalize rows.find? (fun r => decide ¬r.sourceId = source) = found
  rcases found with _ | r
  swap
  · exact own_error (.of_sameRows (SameRows.refl _))
  refine Tx.ends_bind.2 ((ends_attach ctx _ hs hsource ⟨e, he, rfl, hsource'⟩).mono ?_)
  rintro (error | _) s' ⟨hgrows, hentities, hlive⟩
  · exact own_error hgrows
  · exact (own_of_emitAudit ctx _ _ _ _ _ (hlive rfl) (hentities ▸ he) hsource').mono
      fun result s'' h => h.of_grows hgrows

theorem own_createFresh (hs : s.aborted = false)
    (hsource : s.current.sourceOf ctx.runId = some source) :
    (createFresh ctx source fields identifiers).Ends s (Own source s.current) := by
  unfold createFresh
  split_ifs
  swap
  · exact own_error (.of_sameRows (SameRows.refl _))
  refine Tx.ends_bind.2 ((ends_execute hs).2 ?_)
  rcases hinsert : insertEntity ctx source fields s.current with error | ⟨entityId, t⟩
  · exact own_error (.of_sameRows (SameRows.refl _))
  obtain ⟨row, rfl, hrow, hentities, hidentifiers, hruns⟩ := insertEntity_eq_ok hinsert
  have hgrows : Grows source s.current t := by
    refine ⟨hruns, ⟨[row], hentities, fun e he => ?_⟩, [], ?_,
      fun _ hr => absurd hr List.not_mem_nil⟩
    · rw [List.mem_singleton.1 he, hrow]
    · rw [hidentifiers, List.append_nil]
  have hmem : row ∈ t.entity := hentities ▸ List.mem_append_right _ (List.mem_singleton_self row)
  have hattach := ends_attach (s := s.put t) ctx identifiers.items hs (hruns ▸ hsource)
    ⟨row, hmem, rfl, hrow⟩
  refine Tx.ends_bind.2 (hattach.mono ?_)
  rintro (error | _) s' ⟨hgrows', hentities', hlive⟩
  · exact own_error (hgrows.trans hgrows')
  · have hfind := findEntity_eq_some.2 ⟨hentities' ▸ hmem, rfl⟩
    refine Tx.ends_bind.2 ((ends_get (hlive rfl)).2 ?_)
    rw [hfind]
    exact (own_of_emitAudit ctx _ _ _ _ _ (hlive rfl) (hentities' ▸ hmem) hrow).mono
      fun result s'' h => h.of_grows (hgrows.trans hgrows')

/-- What a call of a source does is its own. -/
theorem own_createEntity (hsource : s.current.sourceOf ctx.runId = some source) :
    (createEntity ctx fields identifiers).Ends s (Own source s.current) := by
  by_cases hrun : ctx.HasActor ∧ s.aborted = false ∧ (s.current.sourceOf ctx.runId).isSome ∧
    identifiers.Storable
  · obtain ⟨hctx, hs, -, htext⟩ := hrun
    rw [ends_createEntity hctx hs hsource htext, createFrom]
    split
    · exact own_createFresh hs hsource
    · exact own_mergeInto _ _ hs hsource
    · exact own_error (.of_sameRows (SameRows.refl _))
  · refine (createEntity_raises hrun).mono ?_
    rintro result s' ⟨hcurrent, error, rfl, -⟩
    exact own_error (.of_sameRows (hcurrent ▸ SameRows.refl _))

/-- Whether it succeeds or raises, a call of `create_entity` by a source leaves the other sources
    alone, whatever there is in the registry. -/
theorem createEntity_confined (hsource : s.current.sourceOf ctx.runId = some source) :
    (createEntity ctx fields identifiers).Ends s fun result s' =>
      Confined source s.current result s'.current :=
  (own_createEntity hsource).mono fun _ _ h => h.confined

/-! ### A planted identifier -/

/-- A row of the source `kap`. -/
def kapRow (identifierId : ℤ) (entityId : PgUuid) (ns value : String) (window : Window Date) :
    IdentifierRow where
  identifierId := identifierId
  entityId := entityId
  ns := ns
  value := value
  window := window
  isPrimary := false
  sourceId := "kap"
  ingestionRunId := 1
  createdAt := 0
  toAuditCols := ⟨none, none, none, none, none⟩

/-- A company of the source `kap`. -/
def kapEntity (entityId : PgUuid) : EntityRow where
  entityType := "company"
  legalName := "Co"
  shortName := none
  countryCode := "TR"
  domicile := none
  incorporationDt := none
  fiscalYearEnd := none
  status := "active"
  parentEntityId := none
  metadata := []
  entityId := entityId
  sourceId := "kap"
  ingestionRunId := 1
  createdAt := 0
  updatedAt := 0
  toAuditCols := ⟨none, none, none, none, none⟩

/-- What a call says of a company. -/
def companyFields : EntityFields (Option PyDict) where
  entityType := "company"
  legalName := "Co"
  shortName := none
  countryCode := "TR"
  domicile := none
  incorporationDt := none
  fiscalYearEnd := none
  status := "active"
  parentEntityId := none
  metadata := none

/-- Another source has attached a ticker to a company of `kap`. -/
def plantedTables : Tables where
  sourceOf run := if run = 1 then some "kap" else if run = 2 then some "blog" else none
  entity := [kapEntity 7]
  identifier := [kapRow 1 7 "isin" "TR1" always,
    { kapRow 2 7 "bist_ticker" "PLANT" always with sourceId := "blog", ingestionRunId := 2 }]
  nextIdentifierId := 3
  events := []
  entity_pkey := by decide
  identifier_pkey := by decide
  identifier_seq := by decide
  identifier_excl := by
    refine List.pairwise_cons.2 ⟨fun r hr => ?_, List.pairwise_singleton _ _⟩
    rw [List.mem_singleton.1 hr]
    decide
  identifier_entity := by decide

/-- A call of a run of the other source. -/
def blogCall : Context where
  auditStrict := false
  currentActor := none
  runId := 2
  today := 20570
  now := 1777248000000000
  uuid := 9

/-- With the ticker, the other source does not get at the company. -/
theorem createEntity_confined_planted :
    (createEntity blogCall companyFields ⟨[("bist_ticker", "PLANT")], by decide⟩).Ends
      ⟨plantedTables, plantedTables, false⟩ fun result s' =>
        Confined "blog" plantedTables result s'.current :=
  createEntity_confined (s := ⟨plantedTables, plantedTables, false⟩) rfl

end AslanCore.Registry
