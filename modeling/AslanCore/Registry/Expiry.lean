import AslanCore.Registry.Steps

/-!
# The expiry of identifiers

`expire_identifier` ends the window of the row that is valid on a day (`Expires`). In the schema of
the revision 0043 it does (`expires_revision0043`); since the revision 0044, `ref.identifier` is
append-only, the update is rejected, and the call never does (`not_expires`).
-/

namespace AslanCore.Registry

open Timeseries (storableText)

/-- The row `r` of an identifier has expired: on the days from `asOf` on, until its window ended,
    the identifier names no entity; on all other days it names what it did. -/
structure Expired (ns value : String) (asOf : Date) (r : IdentifierRow) (t t' : Tables) : Prop where
  ended : ∀ d, asOf ≤ d → d < r.window.upper → t'.resolve ns value d = none
  unchanged : ∀ d, d < asOf ∨ r.window.upper ≤ d → t'.resolve ns value d = t.resolve ns value d
  apart : t'.identifier.Pairwise fun x y =>
    x.pair = (ns, value) → y.pair = (ns, value) → ¬x.window.Overlaps y.window
  others : ∃ r', t'.identifier = t.identifier.map fun x => if x = r then r' else x
  entity : t'.entity = t.entity

/-- The call returns, and the row has expired. -/
def Expires (schema : Schema) (ctx : Context) (ns value : String) (asOf : Date) (r : IdentifierRow)
    (s : TxState Tables) : Prop :=
  (expireIdentifier schema ctx ns value asOf).Ends s fun result s' =>
    result = .ok () ∧ Expired ns value asOf r s.current s'.current

variable {schema : Schema} {ctx : Context} {ns value : String} {asOf : Date} {r : IdentifierRow}
  {t : Tables} {s : TxState Tables}

/-- The row that is valid on a day is the only one. -/
theorem validOn_eq_singleton (hr : r ∈ t.identifier) (hpair : r.pair = (ns, value))
    (hday : asOf ∈ r.window) : t.validOn ns value asOf = [r] :=
  t.identifier_excl.validOn_eq hr hpair hday

/-- Rows are only updated where no trigger rejects that. -/
theorem fire_shipped {f : IdentifierRow → IdentifierRow} {rows : List IdentifierRow}
    (h : r ∈ rows) :
    Schema.shipped.fire f rows = .error (.featureNotSupported "ref.identifier") := by
  rcases rows with _ | ⟨x, rows⟩
  · cases h
  · rfl

/-! ### Before the trigger -/

theorem expired_expire (cols : AuditCols) (hr : r ∈ t.identifier) (hpair : r.pair = (ns, value))
    (hday : asOf ∈ r.window) : Expired ns value asOf r t (t.expire cols ns value asOf) where
  ended d hd hupper := by
    refine Tables.resolve_eq_none_iff.2 fun x hx hx' hxd => ?_
    obtain ⟨y, hy, rfl⟩ := List.mem_map.1 hx
    rw [IdentifierRow.pair_expire] at hx'
    obtain ⟨hyd, hcut⟩ := IdentifierRow.mem_window_expire.1 hxd
    -- The row of that day is `r`, and `r` has been cut before it.
    have hmem : d ∈ r.window := ⟨hday.1.trans hd, hupper⟩
    have hyr : y = r := t.identifier_excl.eq_of_mem hy hr (hx'.trans hpair.symm) hyd hmem
    subst hyr
    exact absurd (hcut ⟨hpair, hday⟩) (not_lt.2 hd)
  unchanged d hd := by
    refine Option.ext fun entityId => ?_
    rw [Tables.resolve_eq_some_iff, Tables.resolve_eq_some_iff]
    constructor
    · rintro ⟨x, hx, hx', hxd, rfl⟩
      obtain ⟨y, hy, rfl⟩ := List.mem_map.1 hx
      rw [IdentifierRow.pair_expire] at hx'
      exact ⟨y, hy, hx', (IdentifierRow.mem_window_expire.1 hxd).1,
        IdentifierRow.entityId_expire.symm⟩
    · rintro ⟨y, hy, hy', hyd, rfl⟩
      refine ⟨_, List.mem_map_of_mem hy, IdentifierRow.pair_expire.trans hy', ?_,
        IdentifierRow.entityId_expire⟩
      refine IdentifierRow.mem_window_expire.2 ⟨hyd, fun ⟨_, hyday⟩ => ?_⟩
      have hyr : y = r := t.identifier_excl.eq_of_mem hy hr (hy'.trans hpair.symm) hyday hday
      subst hyr
      rcases hd with hd | hd
      · exact hd
      · exact absurd hyd.2 (not_lt.2 hd)
  apart := (t.expire cols ns value asOf).identifier_excl.imp fun hne hx hy hoverlaps =>
    hne ⟨hx.trans hy.symm, hoverlaps⟩
  others := by
    refine ⟨r.expire cols ns value asOf, List.map_congr_left fun x hx => ?_⟩
    split_ifs with hxr
    · rw [hxr]
    · refine dif_neg fun ⟨hx', hxday⟩ => hxr ?_
      exact t.identifier_excl.eq_of_mem hx hr (hx'.trans hpair.symm) hxday hday
  entity := rfl

/-- Without the trigger, the row expires. -/
theorem expires_revision0043 (hs : s.aborted = false) (hctx : ctx.HasActor)
    (htext : [ns, value].all storableText) (hr : r ∈ s.current.identifier)
    (hpair : r.pair = (ns, value)) (hday : asOf ∈ r.window) :
    Expires .revision0043 ctx ns value asOf r s := by
  rw [Expires, expireIdentifier, Tx.ends_bind, ends_assertActor, if_pos hctx]
  rw [Tx.ends_bind, ends_execute hs, Tables.updateExpired, if_neg (not_not.2 htext)]
  rw [validOn_eq_singleton hr hpair hday]
  have hput := expired_expire (auditCols ctx) hr hpair hday
  have haudit := ends_emitAudit (s := s.put (s.current.expire (auditCols ctx) ns value asOf)) ctx
    "identifier.expire" (.identifier r.identifierId)
    (some (.identifier r.identifierId r.entityId ns value r.window.lower (some r.window.upper)
      none))
    (some (.identifier r.identifierId r.entityId ns value r.window.lower (some asOf) none)) false hs
  refine haudit.mono fun result s' ⟨hsame, _, hok⟩ => ⟨hok hctx, ?_⟩
  exact
    { ended := fun d hd hupper => (hsame.resolve ns value d).trans (hput.ended d hd hupper)
      unchanged := fun d hd => (hsame.resolve ns value d).trans (hput.unchanged d hd)
      apart := hsame.identifier ▸ hput.apart
      others := hsame.identifier ▸ hput.others
      entity := hsame.entity.trans hput.entity }

/-! ### Since the trigger -/

/-- No row expires: where there is one that could, the update of it is rejected. -/
theorem not_expires (hr : r ∈ s.current.identifier) (hpair : r.pair = (ns, value))
    (hday : asOf ∈ r.window) : ¬Expires .shipped ctx ns value asOf r s := by
  rw [Expires, expireIdentifier, Tx.ends_bind, ends_assertActor]
  split_ifs
  · rw [Tx.ends_bind]
    rcases hs : s.aborted with _ | _
    · rw [ends_execute hs, Tables.updateExpired]
      have hfire := fire_shipped (f := (·.expire (auditCols ctx) ns value asOf))
        (Tables.mem_validOn.2 ⟨hr, hpair, hday⟩)
      rw [hfire]
      split_ifs <;> exact fun h => by cases h.1
    · rw [execute, Tx.ends_execute_aborted hs]
      exact fun h => by cases h.1
  · exact fun h => by cases h.1

/-- A ticker that has been in use since 1900. -/
def oldTicker : IdentifierRow where
  identifierId := 1
  entityId := 7
  ns := "bist_ticker"
  value := "OLD"
  window := always
  isPrimary := false
  sourceId := "test"
  ingestionRunId := 1
  createdAt := 0
  toAuditCols := ⟨none, none, none, none, none⟩

/-- The entity that it names. -/
def oldEntity : EntityRow where
  entityType := "company"
  legalName := "Old Co"
  shortName := none
  countryCode := "TR"
  domicile := none
  incorporationDt := none
  fiscalYearEnd := none
  status := "active"
  parentEntityId := none
  metadata := []
  entityId := 7
  sourceId := "test"
  ingestionRunId := 1
  createdAt := 0
  updatedAt := 0
  toAuditCols := ⟨none, none, none, none, none⟩

/-- The tables with the two. -/
def oldTables : Tables where
  sourceOf run := if run = 1 then some "test" else none
  entity := [oldEntity]
  identifier := [oldTicker]
  nextIdentifierId := 2
  events := []
  entity_pkey := List.nodup_singleton _
  identifier_pkey := List.nodup_singleton _
  identifier_seq := List.forall_mem_singleton.2 (by decide)
  identifier_excl := List.pairwise_singleton _ _
  identifier_entity := List.forall_mem_singleton.2 (List.mem_singleton_self _)

/-- A call of the run, made by nobody, on 27 April 2026. -/
def oldCall : Context where
  auditStrict := false
  currentActor := none
  runId := 1
  today := 20570
  now := 1777248000000000
  uuid := 8

/-- The ticker does not expire on 27 April 2026. -/
theorem not_expires_oldTicker : ¬Expires .shipped oldCall "bist_ticker" "OLD" 20570 oldTicker
    ⟨oldTables, oldTables, false⟩ := by
  intro h
  have herror : ((expireIdentifier .shipped oldCall "bist_ticker" "OLD" 20570)
      ⟨oldTables, oldTables, false⟩).1 =
      .error (.database (.featureNotSupported "ref.identifier")) := by decide +kernel
  exact absurd (herror.symm.trans h.1) (by exact nofun)

/-- The ticker is valid on the day. -/
theorem not_expires_valid :
    ¬Expires .shipped oldCall "bist_ticker" "OLD" 20570 oldTicker ⟨oldTables, oldTables, false⟩ :=
  not_expires List.mem_cons_self rfl (by decide)

end AslanCore.Registry
