import AslanCore.Registry.Links
import AslanCore.Store.Recording

/-!
# Who has written a row

The audit columns of a row should be those of the last call that has changed it (`Attributed`), and
the record of a write should show the row that it has replaced (`Shows`). It is so, if every upsert
meets the row that its call has read, and changes it (`meetsRead`, `attributed_of_reach`). An upsert
that meets another row stamps the columns even if this row has all that the call is made with, and
its record shows the row that was read.
-/

namespace AslanCore.Registry.Links

open Journal

/-! ### What is claimed -/

/-- The operations of the records of writes. -/
def writeOperations : List String :=
  ["entity_relationship.link", "sector.upsert", "entity_sector.upsert"]

/-- The record is one of a write of the row. -/
def LinkEvent.writes (k : LinkKey) (e : LinkEvent) : Bool :=
  e.operation ∈ writeOperations ∧ e.after.map (·.key) = some k

variable {k : LinkKey}

/-- A business field of the row is changed, or the row is inserted. -/
def Changes (w : Overwrite (LinkRow k)) : Prop := ∀ row ∈ w.met, w.row.fields ≠ row.fields

/-- The last write that has changed the row. -/
def IsLastChange (ws : List (Overwrite (LinkRow k))) (w : Overwrite (LinkRow k)) : Prop :=
  ∃ before after, ws = before ++ w :: after ∧ Changes w ∧ ∀ w' ∈ after, ¬Changes w'

/-- The audit columns of the row are those of the last write that has changed it. -/
def Attributed {P : Type} (s : LinkJournal P) (k : LinkKey) : Prop :=
  ∀ row, s.db.committed k = some row →
    ∃ w, IsLastChange (s.writes k) w ∧ row.toAuditCols = w.row.toAuditCols

/-- The actor that a record names. -/
def eventActor (ctx : Context) : RequestActor :=
  ctx.currentActor.getD ⟨AuditEvent.systemUnknown, none, none, none⟩

/-- The record shows the row that the write has replaced, and names who has made the call. -/
structure Shows (k : LinkKey) (e : LinkEvent) (w : Overwrite (LinkRow k)) : Prop where
  before : e.before = w.met.map (image k)
  actor : ∃ ctx, w.row.toAuditCols = auditCols ctx ∧ e.actor = eventActor ctx

/-- An upsert meets the row that its call has read, the audit columns apart, and changes it. -/
def meetsRead (P : Type) [DecidableEq P] : Guard LinkCmd P LinkJob Fault (LinkJournal P) where
  step p c _ s :=
    match c with
    | .upsert k _ set => (s.db.view p k).map (image k) = (s.seen p k).map (image k) ∧
        ∀ row ∈ s.db.view p k, (set row).fields ≠ row.fields
    | _ => True

/-! ### The outline -/

variable {P : Type} [DecidableEq P] {sourceOf : ℤ → Option String} {ctx : Context} {p : P}
  {s : LinkJournal P}

/-- What the records say of the writes. -/
def Tells (k : LinkKey) (e : LinkEvent) (w : Overwrite (LinkRow k)) : Prop := Shows k e w ∧ Changes w

/-- The outline of the calls. -/
def linkOutline (P : Type) [DecidableEq P] : Outline LinkCmd LinkError Unit P LinkJob (LinkJournal P) :=
  outline LinkEvent.writes Tells fun _ _ _ _ => True

/-- An upsert whose record is found, and is about the row of its key. -/
structure Upsertion.Recordable (P : Type) [DecidableEq P] (sourceOf : ℤ → Option String)
    (u : Upsertion) : Prop where
  find : ∀ (p : P) w s, Owes LinkEvent.writes Tells p u.key w s →
    (linkOutline P).Safe (links P sourceOf) (meetsRead P) p u.findTarget
      (Outline.outcome (fun _ => Owes LinkEvent.writes Tells p u.key w)
        fun _ => Recorded LinkEvent.writes Tells p) s
  key_after : ∀ found, (u.after found).key = u.key
  operation : u.operation ∈ writeOperations
  hitOperation : u.hitOperation ∉ writeOperations

theorem safe_emitAudit {operation : String} {found : LinkTarget} {before after : Option LinkImage}
    {returnedExisting : Bool} {Q : Except LinkError Unit → LinkJournal P → Prop}
    (hctx : ¬(ctx.auditStrict ∧ ctx.currentActor.isNone))
    (a : LinkJournal P → Prop) (ha : ∀ s s', Frame p s s' → a s → a s') (h : a s)
    (herror : ∀ e s', Clear p s' → Q (.error e) s')
    (hok : ∀ (e : LinkEvent) s', e.operation = operation → e.before = before → e.after = after →
      e.actor = eventActor ctx → a s' → Q (.ok ()) (s'.record p e)) :
    (linkOutline P).Safe (links P sourceOf) (meetsRead P) p
      (emitAudit ctx operation found before after returnedExisting) Q s := by
  unfold emitAudit assertActorOrStrictRaise
  rw [if_neg hctx]
  refine safe_command a ha h nofun herror fun fault s₁ _ s' _ h₁ _ hexec => ?_
  rw [exec_record_ok hexec]
  exact hok _ s₁ rfl rfl rfl rfl h₁

theorem safe_findRelationship {w : Overwrite (LinkRow k)}
    (h : Owes LinkEvent.writes Tells p k w s) :
    (linkOutline P).Safe (links P sourceOf) (meetsRead P) p (findRelationship k)
      (Outline.outcome (fun _ => Owes LinkEvent.writes Tells p k w)
        fun _ => Recorded LinkEvent.writes Tells p) s := by
  refine Outline.safe_bind.2 (safe_command (Owes LinkEvent.writes Tells p k w)
    (fun _ _ hframe h => h.frame hframe) h nofun (fun _ _ => recorded_of_clear) ?_)
  intro fault s₁ v s' hsound h₁ _ hexec
  obtain ⟨rfl, rfl⟩ := exec_select_ok hexec
  rw [h₁.view hsound]
  exact ⟨h₁.written, h₁.others⟩

/-- The row is written, and the write recorded. -/
theorem safe_write {u : Upsertion} {existing : Option (LinkRow u.key)}
    (hctx : ¬(ctx.auditStrict ∧ ctx.currentActor.isNone)) (hu : u.Recordable P sourceOf)
    (h : Recorded LinkEvent.writes Tells p s) (hseen : s.seen p u.key = existing) :
    (linkOutline P).Safe (links P sourceOf) (meetsRead P) p (write ctx u existing)
      (fun _ => Recorded LinkEvent.writes Tells p) s := by
  have hclear : ∀ (e : LinkError) (s' : LinkJournal P), Clear p s' →
      Recorded LinkEvent.writes Tells p s' := fun _ _ => recorded_of_clear
  have hframe : ∀ s s' : LinkJournal P, Frame p s s' →
      Recorded LinkEvent.writes Tells p s ∧ s.seen p u.key = existing →
      Recorded LinkEvent.writes Tells p s' ∧ s'.seen p u.key = existing :=
    fun s s' hframe h => ⟨h.1.frame hframe, (congrFun hframe.seen _).trans h.2⟩
  unfold write
  by_cases hdumps : ¬u.dumps
  · rw [if_pos hdumps]
    exact h
  rw [if_neg hdumps]
  refine Outline.safe_bind.2 ?_
  unfold upsertRow
  rcases u.stored with _ | fields
  · exact safe_reject (Recorded LinkEvent.writes Tells p) (fun _ _ hframe h => h.frame hframe) h hclear
  refine safe_command _ hframe ⟨h, hseen⟩ nofun hclear ?_
  rintro fault s₁ _ s' - ⟨h₁, hseen₁⟩ ⟨hmeets, hchanges⟩ hexec
  obtain ⟨hlock, rfl⟩ := exec_upsert_ok hexec
  refine Outline.safe_bind.2 ((hu.find p _ _ h₁.put).mono ?_)
  rintro (e | found) s₂ h₂
  · exact h₂
  refine safe_emitAudit hctx (Owes LinkEvent.writes Tells p u.key _)
    (fun _ _ hframe h => h.frame hframe) h₂ hclear ?_
  intro e s₃ hoperation hbefore hafter hactor h₃
  refine Owes.record h₃ ⟨⟨?_, ctx, ?_, hactor⟩, ?_⟩ fun k' => ?_
  · rw [hbefore, ← hseen₁]
    exact hmeets.symm
  · rcases hview : s₁.db.view p u.key with _ | row
    · exact congrArg LinkRow.toAuditCols (upserted_of_none hview)
    · exact congrArg LinkRow.toAuditCols (upserted_of_some hview)
  · intro row hrow heq
    exact hchanges row hrow ((congrArg LinkRow.fields (upserted_of_some hrow)).symm.trans heq)
  · rw [LinkEvent.writes, hoperation, hafter, Option.map_some, hu.key_after, decide_eq_decide]
    constructor
    · rintro ⟨_, hk⟩
      exact (Option.some.inj hk).symm
    · rintro rfl
      exact ⟨hu.operation, rfl⟩

/-- A call writes the row, or records that it is as it should be. -/
theorem safe_upsert {u : Upsertion} (hctx : ¬(ctx.auditStrict ∧ ctx.currentActor.isNone))
    (hu : u.Recordable P sourceOf) (h : Recorded LinkEvent.writes Tells p s) :
    (linkOutline P).Safe (links P sourceOf) (meetsRead P) p (upsert ctx u)
      (fun _ => Recorded LinkEvent.writes Tells p) s := by
  have hclear : ∀ (e : LinkError) (s' : LinkJournal P), Clear p s' →
      Recorded LinkEvent.writes Tells p s' := fun _ _ => recorded_of_clear
  refine Outline.safe_bind.2 (safe_performIf (Recorded LinkEvent.writes Tells p)
    (fun _ _ hframe h => h.frame hframe) h nofun hclear ?_)
  intro fault s₁ existing s' _ h₁ _ hexec
  obtain ⟨rfl, rfl⟩ := exec_select_ok hexec
  have hread : Recorded LinkEvent.writes Tells p (s₁.meet p u.key) := h₁
  have hseen : (s₁.meet p u.key).seen p u.key = s₁.db.view p u.key := seen_meet
  generalize s₁.db.view p u.key = existing at hseen ⊢
  generalize s₁.meet p u.key = s₂ at hread hseen ⊢
  rcases existing with _ | row
  · exact safe_write hctx hu hread hseen
  simp only [Outline.outcome]
  by_cases hsame : u.same row.fields
  · rw [if_pos hsame]
    refine safe_emitAudit hctx (Recorded LinkEvent.writes Tells p)
      (fun _ _ hframe h => h.frame hframe) hread hclear ?_
    intro e s₃ hoperation _ _ _ h₃
    refine h₃.record fun k' => decide_eq_false ?_
    rintro ⟨hwrites, -⟩
    exact hu.hitOperation (hoperation ▸ hwrites)
  · rw [if_neg hsame]
    exact safe_write hctx hu hread hseen

/-- A call that first asserts that there is an actor. -/
theorem safe_assert {m : LinkProg Unit} (h : Recorded LinkEvent.writes Tells p s)
    (hm : ¬(ctx.auditStrict ∧ ctx.currentActor.isNone) →
      (linkOutline P).Safe (links P sourceOf) (meetsRead P) p m
        (fun _ => Recorded LinkEvent.writes Tells p) s) :
    (linkOutline P).Safe (links P sourceOf) (meetsRead P) p
      (assertActorOrStrictRaise ctx >>= fun _ => m)
      (fun _ => Recorded LinkEvent.writes Tells p) s := by
  unfold assertActorOrStrictRaise
  by_cases hctx : ctx.auditStrict ∧ ctx.currentActor.isNone
  · rw [if_pos hctx]
    exact h
  · rw [if_neg hctx]
    exact hm hctx

/-- Every call keeps to the outline. -/
theorem valid_linkOutline (P : Type) [DecidableEq P] (sourceOf : ℤ → Option String) :
    (linkOutline P).Valid (links P sourceOf) (meetsRead P) := by
  refine valid_outline (fun _ _ _ _ _ _ _ => trivial) fun p j s h _ => ?_
  refine Outline.Safe.mono (Q := fun _ => Recorded LinkEvent.writes Tells p) ?_
    fun _ _ h => ⟨h, trivial⟩
  rcases j with ⟨ctx, parentId, childId, relType, weight, validFrom, validTo, metadata⟩ |
    ⟨ctx, sectorId, fields⟩ | ⟨ctx, entityId, sectorId, isPrimary, validFrom, validTo⟩ | _ | _
  · refine safe_assert h fun hctx => ?_
    rcases sourceOf ctx.runId with _ | mySource
    · exact h
    have hhit : "entity_relationship.idempotent_hit" ∉ writeOperations := by decide
    exact safe_upsert hctx ⟨fun p w s h => safe_findRelationship h, fun _ => rfl,
      List.mem_cons_self, hhit⟩ h
  · have hhit : "sector.idempotent_hit" ∉ writeOperations := by decide
    exact safe_assert h fun hctx => safe_upsert hctx ⟨fun p w s h => h, fun _ => rfl,
      List.mem_cons_of_mem _ List.mem_cons_self, hhit⟩ h
  · have hhit : "entity_sector.idempotent_hit" ∉ writeOperations := by decide
    exact safe_assert h fun hctx => safe_upsert hctx ⟨fun p w s h => h, fun _ => rfl,
      List.mem_cons_of_mem _ (List.mem_cons_of_mem _ List.mem_cons_self), hhit⟩ h
  · exact safe_command (Recorded LinkEvent.writes Tells p) (fun _ _ hframe h => h.frame hframe) h
      (fun _ _ h => h) (fun _ _ => recorded_of_clear)
      fun _ _ _ _ _ _ _ hexec => recorded_of_clear (exec_commit_ok hexec)
  · exact safe_command (Recorded LinkEvent.writes Tells p) (fun _ _ hframe h => h.frame hframe) h
      nofun (fun _ _ => recorded_of_clear)
      fun _ _ _ _ _ _ _ hexec => recorded_of_clear (exec_rollback_ok hexec)

/-! ### Runs -/

omit [DecidableEq P] in
/-- Where all writes change the row, the last one is the last change. -/
theorem attributed_of_leads {s : LinkJournal P} (hleads : Leads none (s.writes k) (s.db.committed k))
    (hchanges : ∀ w ∈ s.writes k, Changes w) : Attributed s k := by
  intro row hrow
  rw [hrow] at hleads
  have hlast := hleads.eq_getLast
  rcases hws : (s.writes k).getLast? with _ | w
  · rw [hws] at hlast
    cases hlast
  rw [hws] at hlast
  obtain rfl : row = w.row := Option.some.inj hlast
  obtain ⟨ws, hws⟩ := List.getLast?_eq_some_iff.1 hws
  refine ⟨w, ⟨ws, [], hws, ?_, fun _ h => absurd h List.not_mem_nil⟩, rfl⟩
  exact hchanges w (hws ▸ List.mem_append_right _ List.mem_cons_self)

/-- If every upsert meets the row that its call has read, and changes it, then the audit columns of
    a row are those of the last write that has changed it, and the records show what the writes have
    replaced. -/
theorem attributed_of_reach (P : Type) [DecidableEq P] (sourceOf : ℤ → Option String)
    {cfg : Config LinkCmd Journal.Reply LinkError Unit P LinkJob (LinkJournal P)}
    (h : (links P sourceOf).Reach (meetsRead P).Holds ((links P sourceOf).initial .empty) cfg)
    (k : LinkKey) :
    Attributed cfg.shared k ∧
      List.Forall₂ (Shows k) (cfg.shared.events.filter (·.writes k)) (cfg.shared.writes k) := by
  have hinv : (linkOutline P).inv .empty := ⟨sound_empty, fun k => .nil⟩
  have hidle : ∀ p, (linkOutline P).idle p .empty := fun p k => .nil
  obtain ⟨⟨hsound, hrecords⟩, _⟩ := (valid_linkOutline P sourceOf).safe hinv hidle h
  have hchanges : List.Forall₂ (fun w e => Changes w ∧ Tells k e w) (cfg.shared.writes k)
      (cfg.shared.events.filter (·.writes k)) :=
    (hrecords k).flip.imp fun _ _ htells => ⟨htells.2, htells⟩
  exact ⟨attributed_of_leads (hsound.committed k) ((List.forall₂_and_left _ _).1 hchanges).1,
    (hrecords k).imp fun _ _ htells => htells.1⟩

/-! ### Runs on fixed inputs -/

/-- The calls only insert rows that they have not found. -/
def insertsOnly (P : Type) [DecidableEq P] : Guard LinkCmd P LinkJob Fault (LinkJournal P) where
  step p c _ s :=
    match c with
    | .upsert k _ _ => (s.db.view p k).isNone ∧ (s.seen p k).isNone
    | _ => True

instance (P : Type) [DecidableEq P] (p : P) (j : LinkJob) (s : LinkJournal P) :
    Decidable ((insertsOnly P).start p j s) := isTrue trivial

instance (P : Type) [DecidableEq P] (p : P) (s : LinkJournal P) :
    Decidable ((insertsOnly P).kill p s) := isTrue trivial

instance (P : Type) [DecidableEq P] (p : P) (c : LinkCmd) (o : Fault) (s : LinkJournal P) :
    Decidable ((insertsOnly P).step p c o s) :=
  match c with
  | .upsert k _ _ => inferInstanceAs (Decidable ((s.db.view p k).isNone ∧ (s.seen p k).isNone))
  | .select _ | .insertNew _ _ | .update _ _ _ | .record _ | .reject | .commit | .rollback =>
    isTrue trivial

theorem meetsRead_of_insertsOnly {c : LinkCmd} {o : Fault} (h : (insertsOnly P).step p c o s) :
    (meetsRead P).step p c o s := by
  rcases c with _ | _ | _ | ⟨k, new, set⟩ | _ | _ | _ | _
  case upsert =>
    obtain ⟨hview, hseen⟩ := h
    rw [Option.isNone_iff_eq_none] at hview hseen
    refine ⟨by rw [hview, hseen], fun row hrow => ?_⟩
    rw [hview] at hrow
    cases hrow
  all_goals trivial

def banks : SectorFields := ⟨"bist", "XBANK", "Bankacılık", some "Banks", none⟩

/-- The call of an actor. -/
def contextOf (actorId : String) : Context where
  auditStrict := true
  currentActor := some ⟨⟨actorId, "human"⟩, none, none, none⟩
  runId := 1
  today := 0
  now := 0
  uuid := 0

/-- A job of a session, in as many steps as it takes. -/
def jobEvents {P : Type} (p : P) (j : LinkJob) (steps : ℕ) : List (Event P LinkJob Fault) :=
  .start p j :: List.replicate steps (.step p .none)

/-- Two sessions read that there is no such sector, and then both of them write it. -/
def twoUpserts : List (Event Bool LinkJob Fault) :=
  jobEvents false (.upsertSector (contextOf "actor-a") "XBANK" banks) 1 ++
    jobEvents true (.upsertSector (contextOf "actor-b") "XBANK" banks) 1 ++
    List.replicate 2 (.step false .none) ++ jobEvents false .commit 1 ++
    List.replicate 2 (.step true .none) ++ jobEvents true .commit 1

/-- A sector is inserted by one session, and found by another. -/
theorem attributed_of_upsertSector : ∃ cfg,
    (links Bool fun _ => some "kap").Reach (meetsRead Bool).Holds
        ((links Bool fun _ => some "kap").initial .empty) cfg ∧
      (cfg.shared.events.map (·.operation) = ["sector.upsert", "sector.idempotent_hit"]) ∧
      Attributed cfg.shared (.sector "XBANK") := by
  have hrun : ((links Bool fun _ => some "kap").run (insertsOnly Bool).Holds
      (jobEvents false (.upsertSector (contextOf "actor-a") "XBANK" banks) 3 ++
        jobEvents false .commit 1 ++
        jobEvents true (.upsertSector (contextOf "actor-b") "XBANK" banks) 2 ++
        jobEvents true .commit 1)
      ((links Bool fun _ => some "kap").initial .empty)).any (fun cfg =>
        decide (cfg.shared.events.map (·.operation) =
          ["sector.upsert", "sector.idempotent_hit"])) = true := by decide +kernel
  obtain ⟨cfg, hreach, hevents⟩ := System.Reach.exists_of_run hrun
  have hreach' := hreach.mono fun _ _ h => h.mono (fun _ _ _ _ => trivial)
    (fun _ _ _ _ => meetsRead_of_insertsOnly) fun _ _ _ => trivial
  exact ⟨cfg, hreach', of_decide_eq_true hevents, (attributed_of_reach Bool _ hreach' _).1⟩

/-- What the writes of a sector have met and left, and by whom. -/
def sectorWrites (s : LinkJournal Bool) (sectorId : String) :
    List (Option SectorFields × SectorFields × Option String) :=
  (s.writes (.sector sectorId)).map fun w => (w.met.map (·.fields), w.row.fields, w.row.actorId)

/-- The row is stamped by a call that has changed nothing, whose record says that there was none. -/
theorem not_attributed_of_twoUpserts : ∃ cfg,
    (links Bool fun _ => some "kap").Reach (Guard.Holds {})
        ((links Bool fun _ => some "kap").initial .empty) cfg ∧
      ¬Attributed cfg.shared (.sector "XBANK") ∧
      ¬List.Forall₂ (Shows (.sector "XBANK")) (cfg.shared.events.filter (·.writes (.sector "XBANK")))
        (cfg.shared.writes (.sector "XBANK")) := by
  have hrun : ((links Bool fun _ => some "kap").run (Guard.Holds {}) twoUpserts
      ((links Bool fun _ => some "kap").initial .empty)).any (fun cfg =>
        decide (sectorWrites cfg.shared "XBANK" =
          [(none, banks, some "actor-a"), (some banks, banks, some "actor-b")]) &&
        decide ((cfg.shared.db.committed (.sector "XBANK")).map (·.actorId) = some (some "actor-b")) &&
        decide ((cfg.shared.events.filter (·.writes (.sector "XBANK"))).map (·.before.isNone) =
          [true, true])) = true := by decide +kernel
  obtain ⟨cfg, hreach, hgood⟩ := System.Reach.exists_of_run hrun
  obtain ⟨hgood, hbefore⟩ := Bool.and_eq_true_iff.1 hgood
  obtain ⟨hwrites, hrow⟩ := Bool.and_eq_true_iff.1 hgood
  obtain ⟨w₁, ws, hws, hw₁, hrest⟩ := List.map_eq_cons_iff.1 (of_decide_eq_true hwrites)
  obtain ⟨w₂, _, rfl, hw₂, hnil⟩ := List.map_eq_cons_iff.1 hrest
  obtain rfl := List.map_eq_nil_iff.1 hnil
  simp only [Prod.mk.injEq] at hw₁ hw₂
  obtain ⟨row₁, hmet, hfields⟩ := Option.map_eq_some_iff.1 hw₂.1
  refine ⟨cfg, hreach, fun hattributed => ?_, fun hshows => ?_⟩
  · obtain ⟨row, hrow, hactor⟩ := Option.map_eq_some_iff.1 (of_decide_eq_true hrow)
    obtain ⟨w, ⟨before, after, heq, hchanges, -⟩, hcols⟩ := hattributed row hrow
    have hw : w = w₁ ∨ w = w₂ := by
      have hmem : w ∈ [w₁, w₂] := hws ▸ heq ▸ List.mem_append_right _ List.mem_cons_self
      simpa using hmem
    rcases hw with rfl | rfl
    · have hactors := (congrArg AuditCols.actorId hcols).symm.trans hactor
      rw [hw₁.2.2] at hactors
      exact absurd hactors (by decide)
    · exact hchanges row₁ hmet (hw₂.2.1.trans hfields.symm)
  · obtain ⟨e₁, es, hes, -, hrest⟩ := List.map_eq_cons_iff.1 (of_decide_eq_true hbefore)
    obtain ⟨e₂, _, rfl, he₂, -⟩ := List.map_eq_cons_iff.1 hrest
    rw [hes, hws] at hshows
    obtain ⟨-, hshows⟩ := List.forall₂_cons.1 hshows
    obtain ⟨hshow, -⟩ := List.forall₂_cons.1 hshows
    rw [hshow.before, hmet] at he₂
    cases he₂

end AslanCore.Registry.Links
