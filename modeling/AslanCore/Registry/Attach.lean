import AslanCore.Registry.Steps

/-!
# Attaching identifiers

What `add_identifier` does (`Added`): it raises and changes no row, hits a row of the entity that
begins on the same day, or inserts a row, which overlaps no other one of its identifier. It
succeeds where the identifier is free (`addIdentifier_of_free`).

`create_entity` attaches all that is missing, without saying from when on: that goes well for
identifiers that have no row between 1900 and 9999 (`Tables.Free`, `ends_attach_of_free`), and
there is no new row for the others (`ends_attach_rows`).
-/

namespace AslanCore.Registry

open Timeseries (storableText)

/-- No row of the identifier is in the way of one without a window. -/
def Tables.Free (t : Tables) (p : String × String) : Prop :=
  ∀ r ∈ t.identifier, r.pair = p → r.window.lower ≠ firstDay ∧ ¬r.window.Overlaps always

instance (t : Tables) (p : String × String) : Decidable (t.Free p) :=
  inferInstanceAs (Decidable (∀ r ∈ t.identifier, _ → _))

/-- How `add_identifier` ends. -/
inductive Added (source : String) (entityId : PgUuid) (p : String × String)
    (validFrom validTo : Date) (t : Tables) :
    Except RegistryError Unit → TxState Tables → Prop
  | raised {e : RegistryError} {s' : TxState Tables} (hsame : SameRows t s'.current) :
    Added source entityId p validFrom validTo t (.error e) s'
  | hit {s' : TxState Tables} (hsame : SameRows t s'.current) (hlive : s'.aborted = false)
    (r : IdentifierRow) (hr : r ∈ t.identifier) (hpair : r.pair = p)
    (hlower : r.window.lower = validFrom) (hentity : r.entityId = entityId) :
    Added source entityId p validFrom validTo t (.ok ()) s'
  | inserted {s' : TxState Tables} (row : IdentifierRow) (hlive : s'.aborted = false)
    (hpair : row.pair = p) (hentity : row.entityId = entityId) (hsource : row.sourceId = source)
    (hlower : row.window.lower = validFrom) (hupper : row.window.upper = validTo)
    (hfree : ∀ r ∈ t.identifier, r.pair = p →
      r.window.lower ≠ validFrom ∧ ¬r.window.Overlaps row.window)
    (hrows : s'.current.identifier = t.identifier ++ [row])
    (hentities : s'.current.entity = t.entity) (hruns : s'.current.sourceOf = t.sourceOf) :
    Added source entityId p validFrom validTo t (.ok ()) s'

variable {ctx : Context} {s : TxState Tables} {t : Tables} {source : String} {entityId : PgUuid}
  {ns value : String} {p : String × String} {ps : List (String × String)}

theorem mem_beginning {vf : Date} {r : IdentifierRow} : r ∈ t.beginning ns value vf ↔
    r ∈ t.identifier ∧ r.pair = (ns, value) ∧ r.window.lower = vf := by
  rw [Tables.beginning, List.mem_filter, decide_eq_true_iff]

/-- What the insertion of an identifier leaves. -/
theorem insertIdentifier_eq_ok {vf vt : Date} {isPrimary : Bool} {id : ℤ} {t' : Tables}
    (h : insertIdentifier ctx source entityId ns value vf vt isPrimary t = .ok (id, t')) :
    ∃ row : IdentifierRow, row.pair = (ns, value) ∧ row.entityId = entityId ∧
      row.sourceId = source ∧ row.window.lower = vf ∧ row.window.upper = vt ∧
      t.identifierViolation row = none ∧ t'.identifier = t.identifier ++ [row] ∧
      t'.entity = t.entity ∧ t'.sourceOf = t.sourceOf := by
  unfold insertIdentifier at h
  split_ifs at h with hle
  unfold Tables.insertIdentifier at h
  split at h
  · cases h
    exact ⟨_, rfl, rfl, rfl, rfl, rfl, ‹_›, rfl, rfl, rfl⟩
  · cases h

theorem not_overlaps_of_violation {row r : IdentifierRow} (h : t.identifierViolation row = none)
    (hr : r ∈ t.identifier) (hpair : r.pair = row.pair) : ¬r.window.Overlaps row.window := by
  unfold Tables.identifierViolation at h
  split_ifs at h with _ _ hexcl
  exact fun hoverlaps => hexcl ⟨r, hr, hpair, hoverlaps⟩

/-- How `add_identifier` ends. -/
theorem ends_addIdentifier (ctx : Context) (entityId : PgUuid) (ns value : String)
    (validFrom validTo : Option Date) (isPrimary : Bool) (hs : s.aborted = false)
    (hsource : s.current.sourceOf ctx.runId = some source) :
    (addIdentifier ctx entityId ns value validFrom validTo isPrimary).Ends s
      (Added source entityId (ns, value) (validFrom.getD firstDay) (validTo.getD lastDay)
        s.current) := by
  rw [addIdentifier, Tx.ends_bind, ends_assertActor]
  by_cases hctx : ctx.HasActor
  swap
  · rw [if_neg hctx]
    exact .raised (SameRows.refl _)
  rw [if_pos hctx, Tx.ends_bind, ends_sourceId hs, hsource]
  refine Tx.ends_bind.2 ((ends_select hs).2 ?_)
  by_cases htext : [ns, value].all storableText
  swap
  · rw [if_neg htext]
    exact .raised (SameRows.refl _)
  rw [if_pos htext]
  refine Tx.ends_bind.2 ?_
  have hmem : ∀ r, r ∈ s.current.beginning ns value (validFrom.getD firstDay) ↔ _ := fun _ =>
    mem_beginning
  generalize s.current.beginning ns value (validFrom.getD firstDay) = rows at hmem ⊢
  rcases rows with _ | ⟨r, _ | ⟨r', l⟩⟩
  · refine Tx.ends_bind.2 (Tx.ends_tryCatch.2 ((ends_execute hs).2 ?_))
    split
    · next id t' hinsert =>
      obtain ⟨row, hpair, hentity, hrow, hlower, hupper, hviolation, hrows, hentities, hruns⟩ :=
        insertIdentifier_eq_ok hinsert
      have haudit := ends_emitAudit (s := s.put t') ctx "identifier.add" (.identifier id) none
        (some (.identifier id entityId ns value (validFrom.getD firstDay)
          (some (validTo.getD lastDay)) (some isPrimary))) false hs
      refine haudit.mono fun result s' ⟨hsame, hlive, hok⟩ => ?_
      rw [hok hctx]
      refine .inserted row hlive hpair hentity hrow hlower hupper (fun r hr hr' => ⟨?_, ?_⟩)
        (hsame.identifier.trans hrows) (hsame.entity.trans hentities) (hsame.sourceOf.trans hruns)
      · exact fun hrlower => absurd ((hmem r).2 ⟨hr, hr', hrlower⟩) List.not_mem_nil
      · exact not_overlaps_of_violation hviolation hr (hr'.trans hpair.symm)
    · exact .raised (SameRows.refl _)
  · obtain ⟨hr, hpair, hlower⟩ := (hmem r).1 List.mem_cons_self
    have hhit : (if r.entityId ≠ entityId then
        throw (.identifierConflict ns value r.window.lower r.entityId)
      else
        emitAudit ctx "identifier.idempotent_hit" (.identifier r.identifierId)
          (some (.identifier r.identifierId r.entityId ns value r.window.lower none none))
          (some (.identifier r.identifierId r.entityId ns value r.window.lower none none))
            true).Ends s (Added source entityId (ns, value) (validFrom.getD firstDay) (validTo.getD lastDay)
          s.current) := by
      split_ifs with hentity
      · exact .raised (SameRows.refl _)
      · refine (ends_emitAudit _ _ _ _ _ _ hs).mono fun result s' ⟨hsame, hlive, hok⟩ => ?_
        rw [hok hctx]
        exact .hit hsame hlive r hr hpair hlower (not_not.1 hentity)
    exact hhit
  · exact .raised (SameRows.refl _)

/-- The identifier of a row that is free can be inserted. -/
theorem exists_insertIdentifier (htext : [ns, value].all storableText)
    (hentity : entityId ∈ t.entity.map (·.entityId)) (hfree : t.Free (ns, value)) :
    ∃ id t', insertIdentifier ctx source entityId ns value firstDay lastDay false t =
      .ok (id, t') := by
  unfold insertIdentifier
  rw [dif_pos (show firstDay ≤ lastDay by decide)]
  unfold Tables.insertIdentifier
  split
  · exact ⟨_, _, rfl⟩
  · next e hviolation =>
    unfold Tables.identifierViolation at hviolation
    rw [if_neg (not_not.2 htext), if_neg (not_not.2 hentity), if_neg] at hviolation
    · cases hviolation
    · rintro ⟨r, hr, hpair, hoverlaps⟩
      exact (hfree r hr hpair).2 hoverlaps

/-- `add_identifier` succeeds, where the identifier is free. -/
theorem addIdentifier_of_free (hctx : ctx.HasActor) (hs : s.aborted = false)
    (hsource : s.current.sourceOf ctx.runId = some source)
    (htext : [ns, value].all storableText)
    (hentity : entityId ∈ s.current.entity.map (·.entityId)) (hfree : s.current.Free (ns, value)) :
    (addIdentifier ctx entityId ns value none none false).Ends s fun result _ =>
      result = .ok () := by
  rw [addIdentifier, Tx.ends_bind, ends_assertActor, if_pos hctx, Tx.ends_bind, ends_sourceId hs,
    hsource]
  refine Tx.ends_bind.2 ((ends_select hs).2 ?_)
  rw [if_pos htext]
  have hnil : s.current.beginning ns value firstDay = [] :=
    List.eq_nil_iff_forall_not_mem.2 fun r hr => by
      obtain ⟨hr, hpair, hlower⟩ := mem_beginning.1 hr
      exact (hfree r hr hpair).1 hlower
  obtain ⟨id, t', hinsert⟩ : ∃ id t', insertIdentifier ctx source entityId ns value firstDay lastDay
      false s.current = .ok (id, t') := exists_insertIdentifier htext hentity hfree
  refine Tx.ends_bind.2 ?_
  change Tx.Ends (oneOrNone (s.current.beginning ns value firstDay)) s _
  rw [hnil]
  refine (Tx.ends_pure.2 ?_ : Tx.Ends (oneOrNone []) s _)
  refine Tx.ends_bind.2 (Tx.ends_tryCatch.2 ((ends_execute hs).2 ?_))
  simp only [Option.getD_none, hinsert]
  have haudit := ends_emitAudit (s := s.put t') ctx "identifier.add" (.identifier id) none
    (some (.identifier id entityId ns value firstDay (some lastDay) (some false))) false hs
  exact haudit.mono fun result s' ⟨_, _, hok⟩ => hok hctx

/-! ### What a call of a source may change -/

/-- What there is stays; what is new is of the source, and about its own entities. -/
structure Grows (source : String) (t t' : Tables) : Prop where
  sourceOf : t'.sourceOf = t.sourceOf
  entity : ∃ es, t'.entity = t.entity ++ es ∧ ∀ e ∈ es, e.sourceId = source
  identifier : ∃ rs, t'.identifier = t.identifier ++ rs ∧ ∀ r ∈ rs, r.sourceId = source ∧
    ∃ e ∈ t'.entity, e.entityId = r.entityId ∧ e.sourceId = source

namespace Grows

variable {t' t'' : Tables}

theorem of_sameRows (h : SameRows t t') : Grows source t t' where
  sourceOf := h.sourceOf
  entity := ⟨[], h.entity.trans (List.append_nil _).symm, fun _ he => absurd he List.not_mem_nil⟩
  identifier :=
    ⟨[], h.identifier.trans (List.append_nil _).symm, fun _ hr => absurd hr List.not_mem_nil⟩

theorem trans (h : Grows source t t') (h' : Grows source t' t'') : Grows source t t'' := by
  obtain ⟨hruns, ⟨es, hes, hsource⟩, ⟨rs, hrs, howner⟩⟩ := h
  obtain ⟨hruns', ⟨es', hes', hsource'⟩, ⟨rs', hrs', howner'⟩⟩ := h'
  refine ⟨hruns'.trans hruns, ⟨es ++ es', ?_, fun e he => ?_⟩, ⟨rs ++ rs', ?_, fun r hr => ?_⟩⟩
  · rw [hes', hes, List.append_assoc]
  · rcases List.mem_append.1 he with he | he
    · exact hsource e he
    · exact hsource' e he
  · rw [hrs', hrs, List.append_assoc]
  · rcases List.mem_append.1 hr with hr | hr
    · obtain ⟨hrow, e, he, hid⟩ := howner r hr
      exact ⟨hrow, e, hes' ▸ List.mem_append_left _ he, hid⟩
    · exact howner' r hr

theorem mem_identifier (h : Grows source t t') {r : IdentifierRow} (hr : r ∈ t.identifier) :
    r ∈ t'.identifier := by
  obtain ⟨rs, hrs, -⟩ := h.identifier
  exact hrs ▸ List.mem_append_left _ hr

end Grows

namespace Added

variable {vf vt : Date} {result : Except RegistryError Unit} {s' : TxState Tables}

theorem grows (h : Added source entityId p vf vt t result s')
    (howner : ∃ e ∈ t.entity, e.entityId = entityId ∧ e.sourceId = source) :
    Grows source t s'.current ∧ s'.current.entity = t.entity := by
  rcases h with hsame | ⟨hsame⟩ | ⟨row, _, _, hentity, hsource, _, _, _, hrows, hentities, hruns⟩
  · exact ⟨.of_sameRows hsame, hsame.entity⟩
  · exact ⟨.of_sameRows hsame, hsame.entity⟩
  · refine ⟨⟨hruns, ⟨[], ?_, fun _ he => absurd he List.not_mem_nil⟩, [row], hrows, fun r hr => ?_⟩,
      hentities⟩
    · rw [hentities, List.append_nil]
    · rw [List.mem_singleton.1 hr, hentity, hentities]
      exact ⟨hsource, howner⟩

theorem live (h : Added source entityId p vf vt t result s') (hok : result = .ok ()) :
    s'.aborted = false := by
  rcases h with _ | ⟨_, hlive⟩ | ⟨_, hlive⟩
  · cases hok
  · exact hlive
  · exact hlive

/-- The rows of other identifiers stay as they are. -/
theorem filter_eq_of_ne (h : Added source entityId p vf vt t result s') {q : String × String}
    (hne : p ≠ q) :
    s'.current.identifier.filter (·.pair = q) = t.identifier.filter (·.pair = q) := by
  rcases h with hsame | ⟨hsame⟩ | ⟨row, _, hpair, _, _, _, _, _, hrows⟩
  · rw [hsame.identifier]
  · rw [hsame.identifier]
  · have hrow : row.pair ≠ q := hpair.trans_ne hne
    rw [hrows, List.filter_append, List.filter_cons_of_neg (by simpa using hrow), List.filter_nil,
      List.append_nil]

theorem window_eq_always {w : Window Date} (hlower : w.lower = firstDay)
    (hupper : w.upper = lastDay) : w = always := by
  rcases w with ⟨lower, upper, hle⟩
  subst hlower hupper
  rfl

/-- The row of an identifier that is free is inserted. -/
theorem exists_row (h : Added source entityId p firstDay lastDay t (.ok ()) s') (hfree : t.Free p) :
    ∃ row ∈ s'.current.identifier, row.pair = p ∧ row.window = always ∧
      row.entityId = entityId := by
  rcases h with _ | ⟨_, _, r, hr, hpair, hlower, _⟩ |
    ⟨row, _, hpair, hentity, _, hlower, hupper, _, hrows⟩
  · exact absurd hlower (hfree r hr hpair).1
  · exact ⟨row, hrows ▸ List.mem_append_right _ (List.mem_singleton_self _), hpair,
      window_eq_always hlower hupper, hentity⟩

/-- A row is only inserted for an identifier that is free. -/
theorem of_mem (h : Added source entityId p firstDay lastDay t result s') {r : IdentifierRow}
    (hr : r ∈ s'.current.identifier) :
    r ∈ t.identifier ∨ r.window = always ∧ t.Free r.pair := by
  rcases h with hsame | ⟨hsame⟩ | ⟨row, _, hpair, _, _, hlower, hupper, hfree, hrows⟩
  · exact .inl (hsame.identifier ▸ hr)
  · exact .inl (hsame.identifier ▸ hr)
  · rcases List.mem_append.1 (hrows ▸ hr) with hr | hr
    · exact .inl hr
    · obtain rfl := List.mem_singleton.1 hr
      have hwindow := window_eq_always hlower hupper
      exact .inr ⟨hwindow, fun r hr hr' => hwindow ▸ hfree r hr (hr'.trans hpair)⟩

end Added

/-- Being free is about the rows of the identifier. -/
theorem free_congr {t' : Tables} {q : String × String}
    (h : t'.identifier.filter (·.pair = q) = t.identifier.filter (·.pair = q)) :
    t'.Free q ↔ t.Free q := by
  have hmem : ∀ r : IdentifierRow, r.pair = q → (r ∈ t'.identifier ↔ r ∈ t.identifier) := by
    intro r hr
    have hiff : r ∈ t'.identifier.filter (·.pair = q) ↔ r ∈ t.identifier.filter (·.pair = q) := by
      rw [h]
    simpa [hr] using hiff
  exact forall_congr' fun r => ⟨fun hr hmem' hpair => hr ((hmem r hpair).2 hmem') hpair,
    fun hr hmem' hpair => hr ((hmem r hpair).1 hmem') hpair⟩

/-! ### Loops -/

/-- What is attached to an entity of the source. -/
theorem ends_attach (ctx : Context) (ps : List (String × String)) (hs : s.aborted = false)
    (hsource : s.current.sourceOf ctx.runId = some source)
    (howner : ∃ e ∈ s.current.entity, e.entityId = entityId ∧ e.sourceId = source) :
    Tx.Ends (ps.forM fun p => addIdentifier ctx entityId p.1 p.2 none none false) s
      fun result s' => Grows source s.current s'.current ∧ s'.current.entity = s.current.entity ∧
        (result = .ok () → s'.aborted = false) := by
  refine Tx.ends_forM (fun _ s' => s'.aborted = false ∧ Grows source s.current s'.current ∧
    s'.current.entity = s.current.entity) ?_ ?_ ps ⟨hs, .of_sameRows (SameRows.refl _), rfl⟩
  · rintro p ps s' ⟨hlive, hgrows, hentities⟩
    have hadded := ends_addIdentifier ctx entityId p.1 p.2 none none false hlive
      (hgrows.sourceOf ▸ hsource)
    refine hadded.mono fun result s'' h => ?_
    obtain ⟨hgrows', hentities'⟩ := h.grows (hentities.symm ▸ howner)
    rcases result with e | _
    · exact ⟨hgrows.trans hgrows', hentities'.trans hentities, fun hok => by cases hok⟩
    · exact ⟨h.live rfl, hgrows.trans hgrows', hentities'.trans hentities⟩
  · rintro s' ⟨hlive, hgrows, hentities⟩
    exact ⟨hgrows, hentities, fun _ => hlive⟩

/-- Rows are only attached to what is free. -/
theorem ends_attach_rows (ctx : Context) (ps : List (String × String)) (hs : s.aborted = false)
    (hsource : s.current.sourceOf ctx.runId = some source)
    (howner : ∃ e ∈ s.current.entity, e.entityId = entityId ∧ e.sourceId = source) :
    Tx.Ends (ps.forM fun p => addIdentifier ctx entityId p.1 p.2 none none false) s
      fun _ s' => ∀ r ∈ s'.current.identifier, r ∈ s.current.identifier ∨
        r.window = always ∧ s.current.Free r.pair := by
  refine Tx.ends_forM (fun _ s' => s'.aborted = false ∧ Grows source s.current s'.current ∧
    s'.current.entity = s.current.entity ∧ ∀ r ∈ s'.current.identifier, r ∈ s.current.identifier ∨
      r.window = always ∧ s.current.Free r.pair) ?_ ?_ ps
    ⟨hs, .of_sameRows (SameRows.refl _), rfl, fun _ hr => .inl hr⟩
  · rintro p ps s' ⟨hlive, hgrows, hentities, hrows⟩
    have hadded := ends_addIdentifier ctx entityId p.1 p.2 none none false hlive
      (hgrows.sourceOf ▸ hsource)
    refine hadded.mono fun result s'' h => ?_
    obtain ⟨hgrows', hentities'⟩ := h.grows (hentities.symm ▸ howner)
    have hrows' : ∀ r ∈ s''.current.identifier, r ∈ s.current.identifier ∨
        r.window = always ∧ s.current.Free r.pair := by
      intro r hr
      rcases h.of_mem hr with hr | ⟨hwindow, hfree⟩
      · exact hrows r hr
      · -- What is free now was free before.
        exact .inr ⟨hwindow, fun x hx => hfree x (hgrows.mem_identifier hx)⟩
    rcases result with e | _
    · exact hrows'
    · exact ⟨h.live rfl, hgrows.trans hgrows', hentities'.trans hentities, hrows'⟩
  · rintro s' ⟨_, _, _, hrows⟩
    exact hrows

/-- All that is free can be attached. -/
theorem ends_attach_of_free (hctx : ctx.HasActor) (hs : s.aborted = false)
    (hsource : s.current.sourceOf ctx.runId = some source)
    (howner : ∃ e ∈ s.current.entity, e.entityId = entityId ∧ e.sourceId = source)
    (htext : ∀ p ∈ ps, [p.1, p.2].all storableText) (hnodup : ps.Nodup)
    (hfree : ∀ p ∈ ps, s.current.Free p) :
    Tx.Ends (ps.forM fun p => addIdentifier ctx entityId p.1 p.2 none none false) s
      fun result s' => result = .ok () ∧ ∀ p ∈ ps, ∃ row ∈ s'.current.identifier, row.pair = p ∧
        row.window = always ∧ row.entityId = entityId := by
  refine Tx.ends_forM (fun qs s' => (s'.aborted = false ∧ Grows source s.current s'.current ∧
    s'.current.entity = s.current.entity) ∧ (qs.Nodup ∧ qs ⊆ ps) ∧
    (∀ p ∈ qs, s'.current.Free p) ∧ ∀ p ∈ ps, p ∈ qs ∨ ∃ row ∈ s'.current.identifier,
      row.pair = p ∧ row.window = always ∧ row.entityId = entityId) ?_ ?_ ps
    ⟨⟨hs, .of_sameRows (SameRows.refl _), rfl⟩, ⟨hnodup, List.Subset.refl _⟩, hfree,
      fun p hp => .inl hp⟩
  · rintro p qs s' ⟨⟨hlive, hgrows, hentities⟩, ⟨hnodup, hsub⟩, hfree, hdone⟩
    obtain ⟨hp, hnodup⟩ := List.nodup_cons.1 hnodup
    obtain ⟨hmem, hsub⟩ := List.cons_subset.1 hsub
    have hsource' := hgrows.sourceOf ▸ hsource
    have hadded := ends_addIdentifier ctx entityId p.1 p.2 none none false hlive hsource'
    have hentity : entityId ∈ s'.current.entity.map (·.entityId) := by
      obtain ⟨e, he, hid, -⟩ := howner
      exact hentities ▸ List.mem_map.2 ⟨e, he, hid⟩
    have hok := addIdentifier_of_free hctx hlive hsource' (htext p hmem) hentity
      (hfree p List.mem_cons_self)
    refine (hadded.and hok).mono fun result s'' ⟨h, hok⟩ => ?_
    subst hok
    obtain ⟨hgrows', hentities'⟩ := h.grows (hentities.symm ▸ howner)
    have hrow := h.exists_row (hfree p List.mem_cons_self)
    refine ⟨⟨h.live rfl, hgrows.trans hgrows', hentities'.trans hentities⟩, ⟨hnodup, hsub⟩,
      fun q hq => ?_, fun q hq => ?_⟩
    · -- The row that has been inserted is not in the way of the others.
      have hne : p ≠ q := fun heq => hp (heq.symm ▸ hq)
      exact (free_congr (h.filter_eq_of_ne hne)).2 (hfree q (List.mem_cons_of_mem _ hq))
    · rcases hdone q hq with hq | ⟨row, hmem, hrow⟩
      · rcases List.mem_cons.1 hq with rfl | hq
        · exact .inr hrow
        · exact .inl hq
      · exact .inr ⟨row, hgrows'.mem_identifier hmem, hrow⟩
  · rintro s' ⟨_, _, _, hdone⟩
    exact ⟨rfl, fun p hp => (hdone p hp).resolve_left List.not_mem_nil⟩

end AslanCore.Registry
