import AslanCore.Registry.Client

/-!
# The steps of a call

What the calls have in common: the statements, the check of the actor, the source of the run, and
the audit record. The record changes no row (`SameRows`), and where there is an actor, or need not
be, it is written (`ends_emitAudit`).
-/

namespace AslanCore.Registry

open Timeseries (storableText)

/-- The rows of `ref.entity` and `ref.identifier` are the same. -/
structure SameRows (t t' : Tables) : Prop where
  entity : t'.entity = t.entity
  identifier : t'.identifier = t.identifier
  sourceOf : t'.sourceOf = t.sourceOf

namespace SameRows

variable {t t' t'' : Tables}

theorem refl (t : Tables) : SameRows t t := ⟨rfl, rfl, rfl⟩

theorem trans (h : SameRows t t') (h' : SameRows t' t'') : SameRows t t'' :=
  ⟨h'.entity.trans h.entity, h'.identifier.trans h.identifier, h'.sourceOf.trans h.sourceOf⟩

theorem resolve (h : SameRows t t') (ns value : String) (asOf : Date) :
    t'.resolve ns value asOf = t.resolve ns value asOf := by
  rw [Tables.resolve_eq, Tables.resolve_eq, Tables.validOn, Tables.validOn, h.identifier]

end SameRows

theorem sameRows_record (t : Tables) (e : RegistryEvent) : SameRows t (t.record e) :=
  ⟨rfl, rfl, rfl⟩

/-- The check of the actor lets the call through. -/
def Context.HasActor (ctx : Context) : Prop := ¬(ctx.auditStrict ∧ ctx.currentActor.isNone)

instance (ctx : Context) : Decidable ctx.HasActor := inferInstanceAs (Decidable (¬_))

variable {ctx : Context} {s : TxState Tables} {α : Type}
  {Q : Except RegistryError α → TxState Tables → Prop}

theorem ends_execute {stmt : Tables → Except DbError (α × Tables)} (hs : s.aborted = false) :
    (execute stmt).Ends s Q ↔
      match stmt s.current with
      | .ok (a, t) => Q (.ok a) (s.put t)
      | .error e => Q (.error (.database e)) s.fail := by
  rw [execute, Tx.ends_execute hs]
  rcases stmt s.current with e | ⟨a, t⟩ <;> rfl

theorem ends_select {f : Tables → Except DbError α} (hs : s.aborted = false) :
    (select f).Ends s Q ↔
      match f s.current with
      | .ok a => Q (.ok a) s
      | .error e => Q (.error (.database e)) s.fail := by
  rw [select, Tx.ends_select hs]
  rcases f s.current with e | a <;> rfl

/-- In an aborted transaction, nothing is read. -/
theorem ends_select_aborted {f : Tables → Except DbError α} (hs : s.aborted = true) :
    (select f).Ends s Q ↔ Q (.error (.database .inFailedTransaction)) s := by
  rw [select, Tx.select, Tx.ends_execute_aborted hs]

theorem ends_assertActor {Q : Except RegistryError Unit → TxState Tables → Prop} :
    (assertActorOrStrictRaise ctx).Ends s Q ↔
      if ctx.HasActor then Q (.ok ()) s else Q (.error .auditMissingActor) s := by
  unfold assertActorOrStrictRaise
  by_cases h : ctx.auditStrict ∧ ctx.currentActor.isNone
  · have hctx : ¬ctx.HasActor := not_not.2 h
    rw [if_pos h, if_neg hctx, Tx.ends_throw]
  · have hctx : ctx.HasActor := h
    rw [if_neg h, if_pos hctx, Tx.ends_pure]

theorem ends_sourceId {Q : Except RegistryError String → TxState Tables → Prop}
    (hs : s.aborted = false) :
    (sourceId ctx).Ends s Q ↔
      match s.current.sourceOf ctx.runId with
      | some sid => Q (.ok sid) s
      | none => Q (.error (.registryConstraintViolation ctx.runId)) s := by
  rw [sourceId, Tx.ends_bind, ends_select hs]
  rcases s.current.sourceOf ctx.runId with _ | sid <;> rfl

/-- Whatever becomes of an audit record, the rows are the same; it is written, where there is an
    actor. -/
theorem ends_emitAudit (ctx : Context) (operation : String) (target : Target)
    (before after : Option Image) (returnedExisting : Bool) (hs : s.aborted = false) :
    (emitAudit ctx operation target before after returnedExisting).Ends s fun r s' =>
      SameRows s.current s'.current ∧ s'.aborted = false ∧ (ctx.HasActor → r = .ok ()) := by
  rw [emitAudit, Tx.ends_bind, ends_assertActor]
  split_ifs with h
  · exact (ends_execute hs).2 ⟨sameRows_record _ _, hs, fun _ => rfl⟩
  · exact ⟨SameRows.refl _, hs, fun hctx => absurd hctx h⟩

theorem ends_get {entityId : PgUuid} {Q : Except RegistryError EntityRow → TxState Tables → Prop}
    (hs : s.aborted = false) :
    (get entityId).Ends s Q ↔
      match s.current.findEntity entityId with
      | some row => Q (.ok row) s
      | none => Q (.error (.entityNotFound entityId)) s := by
  rw [get, Tx.ends_bind, ends_select hs]
  rcases s.current.findEntity entityId with _ | row <;> rfl

theorem ends_lookUp {identifiers : IdentifierMap}
    {Q : Except RegistryError (List IdentifierRow) → TxState Tables → Prop}
    (hs : s.aborted = false) :
    (lookUp ctx identifiers).Ends s Q ↔
      if identifiers.Storable then Q (.ok (s.current.matching identifiers ctx.today)) s
      else Q (.error (.database .badText)) s.fail := by
  unfold lookUp
  by_cases hnil : identifiers.items = []
  · have hstorable : identifiers.Storable := fun p hp => by
      rw [hnil] at hp
      cases hp
    have hmatching : s.current.matching identifiers ctx.today = [] := by
      rw [Tables.matching, List.filter_eq_nil_iff]
      intro r _
      simp [hnil]
    rw [if_pos hnil, if_pos hstorable, hmatching, Tx.ends_pure]
  · rw [if_neg hnil, ends_select hs]
    by_cases hstorable : identifiers.Storable
    · rw [if_pos hstorable, if_pos hstorable]
    · rw [if_neg hstorable, if_neg hstorable]

/-- A call of `create_entity`, up to what it finds. -/
theorem ends_createEntity {fields : EntityFields (Option Timeseries.PyDict)}
    {identifiers : IdentifierMap} {source : String}
    {Q : Except RegistryError EntityRow → TxState Tables → Prop} (hctx : ctx.HasActor)
    (hs : s.aborted = false) (hsource : s.current.sourceOf ctx.runId = some source)
    (htext : identifiers.Storable) :
    (createEntity ctx fields identifiers).Ends s Q ↔
      (createFrom ctx source fields identifiers
        (s.current.matching identifiers ctx.today)).Ends s Q := by
  rw [createEntity, Tx.ends_bind, ends_assertActor, if_pos hctx, Tx.ends_bind, ends_sourceId hs,
    hsource]
  refine Tx.ends_bind.trans ((ends_lookUp hs).trans ?_)
  rw [if_pos htext]

/-- A call of `create_entity` that does not get that far. -/
theorem createEntity_raises {fields : EntityFields (Option Timeseries.PyDict)}
    {identifiers : IdentifierMap}
    (h : ¬(ctx.HasActor ∧ s.aborted = false ∧ (s.current.sourceOf ctx.runId).isSome ∧
      identifiers.Storable)) :
    (createEntity ctx fields identifiers).Ends s fun result s' => s'.current = s.current ∧
      ∃ e, result = .error e ∧ ∀ why, e ≠ .entityMergeRequired why := by
  rw [createEntity, Tx.ends_bind, ends_assertActor]
  by_cases hctx : ctx.HasActor
  swap
  · rw [if_neg hctx]
    exact ⟨rfl, _, rfl, fun _ => by exact nofun⟩
  rw [if_pos hctx]
  rcases hs : s.aborted with _ | _
  swap
  · refine Tx.ends_bind.2 (Tx.ends_bind.2 ((ends_select_aborted hs).2 ?_))
    exact ⟨rfl, _, rfl, fun _ => by exact nofun⟩
  rw [Tx.ends_bind, ends_sourceId hs]
  rcases hsource : s.current.sourceOf ctx.runId with _ | source
  · exact ⟨rfl, _, rfl, fun _ => by exact nofun⟩
  refine Tx.ends_bind.2 ((ends_lookUp hs).2 ?_)
  rw [if_neg fun htext => h ⟨hctx, hs, by rw [hsource]; rfl, htext⟩]
  exact ⟨rfl, _, rfl, fun _ => by exact nofun⟩

end AslanCore.Registry
