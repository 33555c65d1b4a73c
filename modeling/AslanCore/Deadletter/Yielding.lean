import AslanCore.Deadletter.Bookkeeping
import AslanCore.Deadletter.Containment
import AslanCore.Deadletter.SchemaGate

/-!
# Events are yielded one at a time

A consumer yields an event under its advisory lock, whatever becomes of the claims in Redis, and has
looked it up in the registry of redactions under this lock.

* `MayYield`: a process has the lock of an event, and the registry has no row for it, or one that
  offers just this event;
* `yieldOutline`: so it is whenever an event is yielded, as a redaction takes the lock, too;
* `yields_exclusively`: so no two processes yield the same event at the same time, in no group, and
  no event is yielded as it was once its redaction is committed.
-/

set_option linter.unusedSectionVars false

namespace AslanCore

namespace Deadletter

open AslanCore.System Outline Prog World Database
open Streams (Uuid KnownStreamEvent)

/-- Nothing is yielded. -/
def Cmd.NotYield : Cmd → Prop
  | .yield _ => False
  | _ => True

theorem Cmd.IsPlain.notYield {c : Cmd} (h : c.IsPlain) : c.NotYield := by
  cases c <;> trivial

/-- The identifier of an event. -/
abbrev idOf (e : KnownStreamEvent) : Uuid := e.toStreamEvent.eventId

/-- The process has the lock of an event. -/
def World.Locks {P : Type} [DecidableEq P] (p : P) (u : Uuid) (s : World P) : Prop :=
  s.db.owner (.lock u) = some (p, .lock)

/-- The process has the lock of the event, and the registry has no row for it, or one that offers
    it. -/
structure MayYield {P : Type} [DecidableEq P] (env : Env) (p : P) (e : KnownStreamEvent)
    (s : World P) : Prop where
  lock : s.Locks p (idOf e)
  registry : ∀ row, s.registry (idOf e) = some row → Offers env (idOf e) row e

/-- What is known when an event is yielded. -/
def yieldOutline (P : Type) [DecidableEq P] (env : Env) :
    Outline (Cmd ⊕ PassCmd) Exn Unit P DaemonJob (World P) where
  inv s := s.db.Unsaved ∧ s.db.All Tidy
  know p c s := match c with
    | .inl (.yield e) => MayYield env p e s
    | _ => True
  rely p s s' := ∀ u, s.Locks p u → s'.Locks p u ∧ s'.registry u = s.registry u
  idle _ _ := True
  post _ _ _ _ := True

section

variable {P : Type} [DecidableEq P] {env : Env} {p q : P} {s s' : World P} {c : Cmd} {o : Choice}
  {u : Uuid} {e : KnownStreamEvent}

/-! ### Commands -/

/-- A row is added to the registry by a redaction only, which takes the lock of its event. -/
theorem registry_exec {x : Except Exn (Reply c)} (h : World.exec env p c o s = some (x, s'))
    (u : Uuid) : s'.registry u = s.registry u ∨ s.db.CanLock (p, .main) (.lock u) true := by
  by_cases hplain : c.IsPlain
  · exact .inl (congrFun (addsNothing_exec hplain h).registry u)
  cases c <;> try exact absurd trivial hplain
  case setNx key value =>
    simp only [World.exec] at h
    split_ifs at h <;> rcases eq_or_eq_of_redis h with rfl | rfl <;> exact .inl rfl
  case set key value =>
    rcases eq_or_eq_of_redis h with rfl | rfl <;> exact .inl rfl
  case redact u' row =>
    simp only [World.exec] at h
    split_ifs at h with hlock hrow
    · cases h
      exact .inl rfl
    all_goals
      cases h
      by_cases hu : u = u'
      · subst hu
        exact .inr hlock
      · exact .inl (Function.update_of_ne hu _ _)
  case yield e =>
    cases h
    exact .inl rfl

theorem inv_exec (hs : s.db.Unsaved ∧ s.db.All Tidy) {x : Except Exn (Reply c)}
    (h : World.exec env p c o s = some (x, s')) : s'.db.Unsaved ∧ s'.db.All Tidy := by
  have heff := exec_effect hs.1 hs.2 h
  exact ⟨heff.unsaved hs.1, heff.all hs.1 hs.2 fun _ _ _ hw => hw.tidy⟩

/-- Nobody else releases a lock, or redacts its event. -/
theorem locks_exec (hs : s.db.Unsaved ∧ s.db.All Tidy) (hq : q ≠ p) {x : Except Exn (Reply c)}
    (h : World.exec env q c o s = some (x, s')) (hu : s.Locks p u) :
    s'.Locks p u ∧ s'.registry u = s.registry u := by
  have hne : (p, Role.lock) ≠ (q, c.role) := fun he => hq (congrArg Prod.fst he).symm
  refine ⟨(((exec_effect hs.1 hs.2 h).frame hne).owner _).2 hu, ?_⟩
  rcases registry_exec h u with hsame | hlock
  · exact hsame
  · cases hlock.1 _ hu

theorem effect_pass (hs : s.db.Unsaved) {c : PassCmd} {o : PassChoice}
    {x : Except Exn (PassReply c)} (h : World.execPass p c o s = some (x, s')) :
    Effect (p, .main) (Writes c.May (p, .main)) s.db s'.db ∧ s'.registry = s.registry := by
  refine ⟨?_, ?_⟩
  · rcases execPass_db hs h with h | ⟨-, h⟩
    · exact .makes h
    · exact .undone h
  · rcases c with _ | _ | fid | owner
    · simp only [World.execPass] at h
      split_ifs at h
      obtain ⟨db, rfl⟩ := exists_db_of_sql h
      rfl
    · simp only [World.execPass] at h
      split_ifs at h
      obtain ⟨db, rfl⟩ := exists_db_of_sql h
      rfl
    · obtain ⟨db, rfl⟩ := exists_db_of_sql h
      rfl
    · obtain ⟨db, rfl⟩ := exists_db_of_sql h
      rfl

theorem mayYield_stable : (yieldOutline P env).Stable p (MayYield env p e) := by
  rintro s s' hr ⟨hlock, hregistry⟩
  obtain ⟨hlock', hsame⟩ := hr _ hlock
  exact ⟨hlock', fun row hrow => hregistry row (hsame.symm.trans hrow)⟩

/-! ### Consumers -/

variable {g : Guard (Cmd ⊕ PassCmd) P DaemonJob PassChoice (World P)} {α : Type}
  {cons : Consumer} {mid : StreamId} {fields : Fields} {event : KnownStreamEvent}
  {candidate : Option KnownStreamEvent}

/-- A program of the consumers yields what may be yielded. -/
abbrev Yields (env : Env) (g : Guard (Cmd ⊕ PassCmd) P DaemonJob PassChoice (World P)) (p : P)
    (m : Program α) (Q : Except Exn α → World P → Prop) (s : World P) : Prop :=
  (yieldOutline P env).left.Safe (daemons env P).left g.left p m Q s

/-- A program that yields nothing may be run at any time. -/
theorem yields_of_issues {m : Program α} (hm : m.Issues Cmd.NotYield) (s : World P) :
    Yields env g p m (fun _ _ => True) s :=
  safe_of_issues hm fun c _ hc => by cases c <;> trivial

/-- An event is looked up early in a session of its own. -/
theorem issues_fetchCached :
    (withSession .early (fetchCachedRegistryEntry env .early u)).Issues Cmd.NotYield := by
  have hclose : (Cmd.close .early).NotYield := trivial
  have hget : (Cmd.get (redactionCacheKey env u)).NotYield := trivial
  have hselect : (Cmd.selectRegistry .early u).NotYield := trivial
  refine .ensuring (.bind (issues_perform hget) fun raw => ?_) (issues_perform hclose)
  rcases raw with _ | raw
  · refine .bind (.bind (issues_perform hselect) fun row => trivial) fun entry => ?_
    rcases entry with _ | entry
    · trivial
    · refine .bind ?_ fun _ => trivial
      rw [cacheRegistryEntry]
      cases cacheText env entry with
      | none => trivial
      | some text =>
        have hset : (Cmd.set (redactionCacheKey env entry.eventId) text).NotYield := trivial
        exact issues_perform hset
  · dsimp only
    cases cachedEntry env raw <;> trivial

/-- The lock of an event is taken. -/
theorem yields_acquireEventLock (s : World P) :
    Yields env g p (request (.acquireEventLock .lock u))
      (outcome (fun _ s => s.Locks p u) fun _ _ => True) s := by
  refine safe_perform (fun _ => True) (fun _ _ _ h => h) trivial fun s₁ hs₁ _ =>
    ⟨trivial, fun o x s₂ _ hex _ => ?_⟩
  rcases x with e | _
  · trivial
  obtain ⟨⟨y, db⟩, hstmt, hx⟩ := Option.map_eq_some_iff.1 hex
  cases hx
  rcases statement_makes hstmt hs₁.1 with ⟨e, ⟨⟩, -⟩ | ⟨a, ⟨⟩, hok⟩
  split_ifs at hok with hl
  cases hok
  exact Function.update_self _ _ _

/-- What the registry has for an event whose lock is taken stays so. -/
theorem yields_fetchRegistryEntry (h : s.Locks p u) :
    Yields env g p (fetchRegistryEntry .lock u)
      (outcome (fun entry s => s.Locks p u ∧
        (s.registry u).map (fun row => (⟨row, u⟩ : RegistryEntry)) = entry) fun _ _ => True) s := by
  refine safe_bind.2 (safe_perform (Locks p u) (fun s s' hr h => (hr u h).1) h
    fun s₁ hs₁ h₁ => ⟨trivial, fun o x s₂ _ hex _ => ?_⟩)
  rcases x with e | row
  · trivial
  obtain ⟨⟨y, db⟩, hstmt, hx⟩ := Option.map_eq_some_iff.1 hex
  cases hx
  rcases statement_makes hstmt hs₁.1 with ⟨e, ⟨⟩, -⟩ | ⟨a, ⟨⟩, hok⟩
  cases hok
  exact ⟨h₁, rfl⟩

/-- What is found of an event under its lock may be yielded. -/
theorem yields_lockEvent (h : ∀ e ∈ candidate, idOf e = idOf event) (s : World P) :
    Yields env g p (lockEvent env cons event candidate)
      (outcome (fun found s => MayYield env p found.1 s) fun _ _ => True) s := by
  refine safe_bind.2 ((yields_acquireEventLock s).mono ?_)
  rintro (e | _) s₁ hlock
  · trivial
  refine safe_bind.2 ((yields_fetchRegistryEntry hlock).mono ?_)
  rintro (e | entry) s₂ h₂
  · trivial
  obtain ⟨hlock, hentry⟩ := h₂
  cases hrow : s₂.registry (idOf event) with
  | none =>
    -- There is no row: the candidate, or else the event, is yielded as it is.
    rw [hrow] at hentry
    subst hentry
    have hid : idOf (candidate.getD event) = idOf event := by
      rcases candidate with _ | e
      · rfl
      · exact h e rfl
    refine ⟨hid ▸ hlock, fun row hrow' => ?_⟩
    rw [hid, hrow] at hrow'
    cases hrow'
  | some row =>
    rw [hrow] at hentry
    subst hentry
    dsimp only [outcome, Option.map_some]
    cases he : eventFromRegistry env cons.stream (idOf event) row.redactedPayload
      row.redactedPayloadHash with
    | error e => trivial
    | ok e =>
      have hoffers := eventFromRegistry_eq_ok_iff.1 he
      have hid : idOf e = idOf event := hoffers.2.2
      refine ⟨show s₂.Locks p (idOf e) from hid ▸ hlock, fun row' hrow' => ?_⟩
      change s₂.registry (idOf e) = some row' at hrow'
      rw [hid, hrow] at hrow'
      cases hrow'
      exact hid.symm ▸ hoffers

/-- An event is yielded when it may be. -/
theorem yields_yieldEvent (h : ∀ e ∈ candidate, idOf e = idOf event) (s : World P) :
    Yields env g p (yieldEvent env cons mid fields event candidate) (fun _ _ => True) s := by
  refine safe_bind.2 (safe_tryCatch.2 ((yields_lockEvent h s).mono ?_))
  rintro (e | ⟨found, isRedacted⟩) s₁ hfound
  · -- An exception is raised again, after the claim and the lock are released.
    have hdel : (Cmd.del (claimKey env cons (idOf event))).NotYield := trivial
    dsimp only [outcome]
    split_ifs
    · refine safe_bind.2 ((yields_of_issues (issues_perform hdel) s₁).mono ?_)
      rintro (e' | _) s₂ -
      · trivial
      refine safe_bind.2 ((yields_of_issues (issues_releaseLock.mono fun _ hc => hc.notYield)
        s₂).mono ?_)
      rintro (e' | _) s₃ - <;> trivial
    · trivial
  · refine safe_bind.2 (safe_perform (MayYield env p found) mayYield_stable hfound
      fun s₂ _ h₂ => ⟨h₂, fun o x s₃ _ _ _ => ?_⟩)
    rcases x with e | r | r
    · trivial
    · refine yields_of_issues (.bind ?_ fun _ => ?_) s₃
      · exact issues_acknowledge.mono fun _ hc => hc.notYield
      · exact (issues_resume r).mono fun _ hc => hc.notYield
    · exact yields_of_issues ((issues_resume r).mono fun _ hc => hc.notYield) s₃

theorem yields_claimEvent (h : ∀ e ∈ candidate, idOf e = idOf event) (s : World P) :
    Yields env g p (claimEvent env cons mid fields event candidate) (fun _ _ => True) s := by
  have htime : Cmd.time.NotYield := trivial
  have hset : ∀ now, (Cmd.setNx (claimKey env cons (idOf event))
      (claimPayload env cons mid now)).NotYield := fun _ => trivial
  have hget : (Cmd.get (claimKey env cons (idOf event))).NotYield := trivial
  have hmember : (Cmd.sismember (processedKey cons)
      (env.parse.codec.uuidStr (idOf event))).NotYield := trivial
  have hack : (Cmd.xack cons.stream cons.group mid).NotYield := trivial
  refine safe_bind.2 ((yields_of_issues (issues_perform htime) s).mono ?_)
  rintro (e | now) s₁ -
  · trivial
  refine safe_bind.2 ((yields_of_issues (issues_perform (hset now)) s₁).mono ?_)
  rintro (e | _ | _) s₂ -
  · trivial
  · refine safe_bind.2 ((yields_of_issues (issues_perform hget) s₂).mono ?_)
    rintro (e | _ | raw) s₃ -
    · trivial
    · trivial
    simp only [outcome]
    split
    · trivial
    · trivial
    · rename_i existing _ _
      refine safe_bind.2 ((yields_of_issues (ofExcept_issues _) s₃).mono ?_)
      rintro (e | _ | _) s₄ -
      · trivial
      · refine yields_of_issues (.bind (issues_perform hmember) fun processed => ?_) s₄
        cases processed
        · trivial
        · exact issues_perform hack
      · exact yields_yieldEvent h s₄
  · exact yields_yieldEvent h s₂

theorem yields_processEvent (s : World P) :
    Yields env g p (processEvent env cons mid fields event) (fun _ _ => True) s := by
  -- The steps after the candidate is known.
  have hrest : ∀ (candidate : Option KnownStreamEvent) (s₁ : World P),
      (∀ e ∈ candidate, idOf e = idOf event) → Yields env g p (do
        let processed ← request (.sismember (processedKey cons)
          (env.parse.codec.uuidStr (idOf event)))
        if processed then request (.xack cons.stream cons.group mid)
        else claimEvent env cons mid fields event candidate) (fun _ _ => True) s₁ := by
    intro candidate s₁ h
    have hmember : (Cmd.sismember (processedKey cons)
        (env.parse.codec.uuidStr (idOf event))).NotYield := trivial
    have hack : (Cmd.xack cons.stream cons.group mid).NotYield := trivial
    refine safe_bind.2 ((yields_of_issues (issues_perform hmember) s₁).mono ?_)
    rintro (e | _ | _) s₂ -
    · trivial
    · exact yields_claimEvent h s₂
    · exact yields_of_issues (issues_perform hack) s₂
  refine safe_bind.2 ((yields_of_issues issues_fetchCached s).mono ?_)
  rintro (e | _ | entry) s₁ -
  · trivial
  · exact hrest none s₁ (by rintro e ⟨⟩)
  · dsimp only [outcome]
    cases he : eventFromRegistry env cons.stream (idOf event) entry.redactedPayload
      entry.redactedPayloadHash with
    | error e => trivial
    | ok e =>
      refine hrest (some e) s₁ ?_
      rintro e' ⟨⟩
      exact (eventFromRegistry_eq_ok_iff.1 he).2.2

theorem yields_processEntry (entry : StreamId × RawFields) (s : World P) :
    Yields env g p (processEntry env cons entry) (fun _ _ => True) s := by
  rw [processEntry]
  cases decodeFields entry.2 with
  | none => trivial
  | some fields =>
    dsimp only [processMessage]
    cases Streams.gate env.parse cons.cfg cons.stream (ridStr entry.1) fields with
    | error e => trivial
    | ok gated =>
      cases gated with
      | deadletter eventId error =>
        have hack : (Cmd.xack cons.stream cons.group entry.1).NotYield := trivial
        exact yields_of_issues (issues_route (fun _ h => h.isPlain.notYield) hack) s
      | event event => exact yields_processEvent s

theorem yields_consume (count n : ℕ) (s : World P) :
    Yields env g p (consume env cons count n) (fun _ _ => True) s := by
  have hloop : ∀ entries s, Yields env g p (forEach (processEntry env cons) entries)
      (fun _ _ => True) s := fun entries s =>
    safe_forEach (fun _ _ => True) (fun _ _ => trivial) (fun entry _ s₁ _ =>
      (yields_processEntry entry s₁).mono fun x _ _ => by cases x <;> trivial) trivial
  have hclaim : (Cmd.xautoclaim cons.stream cons.group count).NotYield := trivial
  have hread : (Cmd.xreadgroup cons.stream cons.group count).NotYield := trivial
  induction n generalizing s with
  | zero => trivial
  | succ n ih =>
    refine safe_bind.2 (Safe.mono (Q := fun _ _ => True) ?_ ?_)
    · refine safe_bind.2 ((yields_of_issues (.tryCatch (issues_perform hclaim) fun e => ?_)
        s).mono ?_)
      · cases e <;> trivial
      rintro (e | claimed) s₁ -
      · trivial
      refine safe_bind.2 ((hloop claimed s₁).mono ?_)
      rintro (e | _) s₂ -
      · trivial
      refine safe_bind.2 ((yields_of_issues (issues_perform hread) s₂).mono ?_)
      rintro (e | fresh) s₃ -
      · trivial
      · exact hloop fresh s₃
    · rintro (e | _) s₁ -
      · trivial
      · exact ih s₁

end

/-! ### Daemons -/

theorem issues_inl {C D A : Type} {R : C → Type} {RD : D → Type} {E : Type} {ok : C ⊕ D → Prop}
    {m : Prog C R E A} (h : m.Issues fun c => ok (.inl c)) :
    (m.inl : Prog (C ⊕ D) (Sum.elim R RD) E A).Issues ok := by
  induction m with
  | ret a => trivial
  | raise e => trivial
  | call c k ih => exact ⟨h.1, fun r => ih r (h.2 r)⟩

section

variable {env : Env} {ok : Cmd ⊕ PassCmd → Prop} (hok : ∀ c : Cmd, c.OfDeadletters → ok (.inl c))
  (hpass : ∀ c, ok (.inr c)) {α : Type}

include hok

theorem issues_deadletters {c : Cmd} (hc : c.OfDeadletters) :
    ((request c).inl : DaemonProgram (Reply c)).Issues ok :=
  issues_inl (issues_perform (hok c hc))

theorem issues_withDaemonSession {body : DaemonProgram α} (h : body.Issues ok) :
    (withDaemonSession body).Issues ok :=
  .ensuring h (issues_deadletters hok rfl)

theorem issues_undone {body : DaemonProgram Unit} (h : body.Issues ok) :
    (undone body).Issues ok := by
  refine .tryCatch h fun e => ?_
  split_ifs
  · exact issues_deadletters hok rfl
  · trivial

theorem issues_captureLowerBound {stream : String} :
    ((captureRedisLowerBound stream).inl : DaemonProgram StreamId).Issues ok := by
  refine issues_inl (.bind (.tryCatch (issues_perform (hok _ rfl)) fun e => ?_) fun _ => trivial)
  split <;> trivial

theorem issues_resolveCanonicalOrphan {stream : String} {fid : ℤ} :
    (resolveCanonicalOrphan env stream fid).Issues fun c => ok (.inl c) := by
  refine .bind (issues_perform (hok _ rfl)) fun indexed => ?_
  split
  · trivial
  · refine .bind (issues_findOrphan fun c hc => hok c hc) fun orphan => ?_
    split
    · trivial
    · exact .bind (issues_perform (hok _ rfl)) fun _ => trivial

theorem issues_finishRouting {stream : String} {fid : ℤ} {details : LogDetails} :
    (finishRouting env fid stream details).Issues fun c => ok (.inl c) := by
  have haudit : ∀ record, (auditRecord janitorContext .main record).Issues fun c => ok (.inl c) :=
    fun record => issues_auditRecord fun c hc => hok c hc
  refine .bind (.bind (issues_resolveCanonicalOrphan hok) fun canonical => ?_) fun rid =>
    .bind (issues_perform (hok _ rfl)) fun _ => .bind (issues_perform (hok _ rfl)) fun _ =>
      .bind (issues_perform (hok _ rfl)) fun hadLostAudit => ?_
  · split
    · trivial
    · split
      · trivial
      · exact .bind (issues_perform (hok _ rfl)) fun _ =>
          .bind (issues_perform (hok _ rfl)) fun _ => trivial
  · split_ifs
    · exact .bind (haudit _) fun _ => haudit _
    · exact haudit _

theorem issues_reconcileIntent {owner : String} {row : ℤ × String} :
    (reconcileIntent env owner row).Issues ok := by
  refine .bind (issues_captureLowerBound hok) fun lowerBound =>
    .bind (issues_inl (issues_acquireOrAdoptIntent (fun c hc => hok c hc) 3)) fun adoption =>
      ?_
  split
  · exact .bind (issues_deadletters hok rfl) fun _ => issues_deadletters hok rfl
  · exact issues_deadletters hok rfl

include hpass

theorem issues_ask (c : PassCmd) : (ask c).Issues ok := issues_perform (hpass c)

theorem issues_redriveRow {owner : String} {row : ℤ × String} :
    (redriveRow env owner row).Issues ok := by
  refine .bind (issues_captureLowerBound hok) fun lowerBound =>
    .bind (issues_inl (issues_acquireOrAdoptIntent (fun c hc => hok c hc) 3)) fun adoption =>
      ?_
  split
  · refine .bind (.bind (issues_ask hok hpass _) fun row => ?_) fun _ => issues_deadletters hok rfl
    split
    · trivial
    · exact issues_inl (issues_finishRouting hok)
  · exact issues_deadletters hok rfl

/-- A cycle of the janitor is about the dead letters. -/
theorem issues_janitorCycle {window : ℕ} {owner : String} :
    (janitorCycle env window owner).Issues ok := by
  refine .tryCatch (.bind (.bind (issues_withDaemonSession hok (issues_ask hok hpass _))
    fun rows => issues_forEach (fun row => issues_withDaemonSession hok (issues_undone hok
      (issues_reconcileIntent hok))) _) fun _ => .bind (.bind (issues_withDaemonSession hok
    (issues_ask hok hpass _)) fun rows => issues_forEach (fun row => issues_withDaemonSession hok
      (issues_undone hok (issues_redriveRow hok hpass))) _) fun _ =>
    .bind (issues_inl (issues_pass3 fun c hc => hok c hc)) fun _ =>
      issues_inl (issues_pass4 fun c hc => hok c hc)) fun e => ?_
  split_ifs <;> trivial

theorem issues_heartbeat {owner : String} : (heartbeatActiveIntents owner).Issues ok := by
  refine .tryCatch (issues_withDaemonSession hok (.bind (issues_ask hok hpass _) fun _ =>
    issues_deadletters hok rfl)) fun e => ?_
  split <;> trivial

end

section

variable {P : Type} [DecidableEq P] {env : Env}
  {g : Guard (Cmd ⊕ PassCmd) P DaemonJob PassChoice (World P)}

/-- In every run, an event is yielded when it may be. -/
theorem valid_yieldOutline : (yieldOutline P env).Valid (daemons env P) g where
  rely_refl _ _ _ h := ⟨h, rfl⟩
  rely_trans _ _ _ _ h h' u hu :=
    ⟨(h' u (h u hu).1).1, (h' u (h u hu).1).2.trans (h u hu).2⟩
  inv_step := by
    rintro p (c | c) o s x s' hs - - hex
    · exact inv_exec hs hex
    · have heff := (effect_pass hs.1 hex).1
      exact ⟨heff.unsaved hs.1, heff.all hs.1 hs.2 fun _ _ _ hw => hw.tidy⟩
  rely_step := by
    rintro p q (c | c) o s x s' hq hs - - hex u hu
    · exact locks_exec hs hq hex hu
    · obtain ⟨heff, hregistry⟩ := effect_pass hs.1 hex
      have hne : (p, Role.lock) ≠ (q, .main) := fun he => hq (congrArg Prod.fst he).symm
      exact ⟨((heff.frame hne).owner _).2 hu, congrFun hregistry u⟩
  inv_kill p s hs _ := by
    have habort : ∀ (r : Role) (s : World P), s.db.Unsaved ∧ s.db.All Tidy →
        (s.abort p r).db.Unsaved ∧ (s.abort p r).db.All Tidy := by
      intro r s hs
      have heff : Effect (p, r) (Writes (fun _ => False) (p, r)) s.db (s.abort p r).db :=
        .undone undone_abort
      exact ⟨heff.unsaved hs.1, heff.all hs.1 hs.2 fun _ _ _ hw => hw.tidy⟩
    exact habort .lock _ (habort .early _ (habort .recheck _ (habort .main s hs)))
  rely_kill p q s hq _ _ u hu := ⟨((frame_kill hq.symm .lock).owner _).2 hu, rfl⟩
  idle_kill _ _ _ := trivial
  idle_stable _ _ _ _ _ := trivial
  post_stable _ _ _ _ _ _ _ := trivial
  post_idle _ _ _ _ _ := trivial
  body := by
    -- The daemons yield nothing.
    have hfree : ∀ {p : P} {m : DaemonProgram Unit} (s : World P),
        m.Issues (Sum.elim Cmd.NotYield fun _ => True) →
        (yieldOutline P env).Safe (daemons env P) g p m (fun _ _ => True) s := fun s hm =>
      safe_of_issues hm fun c _ hc => by
        rcases c with c | c
        · cases c <;> trivial
        · trivial
    have hdead : ∀ c : Cmd, c.OfDeadletters →
        Sum.elim Cmd.NotYield (fun _ : PassCmd => True) (.inl c) :=
      fun _ hc => hc.isPlain.notYield
    rintro p (j | ⟨window, owner⟩ | owner) s - - -
    · refine Safe.inl ?_
      cases j with
      | pass3 => exact yields_of_issues (issues_pass3 fun _ h => h.isPlain.notYield) s
      | pass4 window => exact yields_of_issues (issues_pass4 fun _ h => h.isPlain.notYield) s
      | consume c count iterations => exact yields_consume count iterations s
      | redact u row =>
        have hredact : (Cmd.redact u row).NotYield := trivial
        exact yields_of_issues (issues_perform hredact) s
      | expire key =>
        have hexpire : (Cmd.expire key).NotYield := trivial
        exact yields_of_issues (issues_perform hexpire) s
    · exact hfree s (issues_janitorCycle hdead fun _ => trivial)
    · exact hfree s (issues_heartbeat hdead fun _ => trivial)

/-- No two processes yield events with the same identifier at the same time, and an event whose
    redaction is committed is yielded as the registry has it. -/
theorem yields_exclusively {s₀ : World P} (hsaved : s₀.db.Unsaved) (htidy : s₀.db.All Tidy)
    {cfg : Config (Cmd ⊕ PassCmd) (Sum.elim Reply PassReply) Exn Unit P DaemonJob (World P)}
    (h : (daemons env P).Reach (fun _ _ => True) ((daemons env P).initial s₀) cfg)
    {p : P} {j : DaemonJob} {e : KnownStreamEvent}
    {k : Except Exn CallerAction → DaemonProgram Unit}
    (hp : cfg.proc p = some (j, .call (.inl (.yield e)) k)) :
    (∀ q j' e' k', cfg.proc q = some (j', .call (.inl (.yield e')) k') → idOf e' = idOf e →
      q = p) ∧
    ∀ row, cfg.shared.registry (idOf e) = some row → Offers env (idOf e) row e := by
  have hreach := h.mono fun cfg e _ => Guard.holds_trivial cfg e
  have hmay : ∀ {q : P} {j : DaemonJob} {e : KnownStreamEvent}
      {k : Except Exn CallerAction → DaemonProgram Unit},
      cfg.proc q = some (j, .call (.inl (.yield e)) k) → MayYield env q e cfg.shared :=
    fun hq => valid_yieldOutline.know ⟨hsaved, htidy⟩ (fun _ => trivial) hreach hq
  refine ⟨fun q j' e' k' hq he => ?_, (hmay hp).registry⟩
  have hlock := (hmay hq).lock
  rw [he] at hlock
  cases hlock.symm.trans (hmay hp).lock
  rfl

/-! ### A run -/

variable {p : P} {s s' : World P}

theorem yielded_exec {c : Cmd} {o : Choice} (hc : c.NotYield) {x : Except Exn (Reply c)}
    (h : World.exec env p c o s = some (x, s')) : s'.yielded = s.yielded := by
  by_cases hplain : c.IsPlain
  · exact (addsNothing_exec hplain h).yielded
  cases c <;> try exact absurd trivial hplain
  case setNx key value =>
    simp only [World.exec] at h
    split_ifs at h <;> rcases eq_or_eq_of_redis h with rfl | rfl <;> rfl
  case set key value =>
    rcases eq_or_eq_of_redis h with rfl | rfl <;> rfl
  case redact u row =>
    simp only [World.exec] at h
    split_ifs at h <;> cases h <;> rfl
  case yield e => cases hc

/-- A consumer that yields an event in a run of its own is about to do so first. -/
theorem reach_yield {g : Guard Cmd P Job Choice (World P)} {m : Program Unit}
    {r : Except Exn Unit} {j : DaemonJob} {proc : P → Option (DaemonJob × DaemonProgram Unit)}
    (h : (system env P).Runs g p m s r s') (hp : proc p = some (j, m.inl))
    (hy : s'.yielded ≠ s.yielded) : ∃ s₁ e k, (daemons env P).Reach (fun _ _ => True) ⟨s, proc⟩
      ⟨s₁, Function.update proc p (some (j, .call (.inl (.yield e)) k))⟩ := by
  induction m generalizing s proc with
  | ret a => exact absurd (congrArg World.yielded h.2) hy
  | raise e => exact absurd (congrArg World.yielded h.2) hy
  | call c k ih =>
    obtain ⟨o, x, s₁, -, hex, hr⟩ := h
    by_cases hc : c.NotYield
    · have hstep : (daemons env P).Reach (fun _ _ => True) ⟨s, proc⟩
          ⟨s₁, Function.update proc p (some (j, (k x).inl))⟩ := by
        refine .step (.step p { toChoice := o }) .init trivial ?_
        have hdaemon : (daemons env P).exec p (.inl c) { toChoice := o } s = some (x, s₁) := hex
        simp only [System.next, hp, Prog.inl, hdaemon]
        rfl
      obtain ⟨s₂, e, k', hreach⟩ := ih x hr (Function.update_self p (some (j, (k x).inl)) proc)
        (by rwa [yielded_exec hc hex])
      rw [Function.update_idem] at hreach
      exact ⟨s₂, e, k', hstep.trans hreach⟩
    · cases c <;> try exact absurd trivial hc
      rename_i e
      refine ⟨s, e, fun x => (k x).inl, ?_⟩
      rw [show Function.update proc p (some (j, .call (.inl (.yield e)) fun x => (k x).inl)) = proc
        from Function.update_eq_self_iff.2 hp.symm]
      exact .init

/-- The registry has a newer filing for the filing. -/
def redactedRegistry : Uuid → Option RegistryRow :=
  Function.update (fun _ => none) 1 (some (redactionBy plainEnv newerFiling))

/-- Where the registry holds the redaction and the cache nothing, the filing's fate is to be yielded
    redacted. -/
theorem fate_redactedFiling {s : World Bool} (hregistry : s.registry = redactedRegistry)
    (hvalues : s.values = fun _ => none) (hsets : s.sets = fun _ _ => false) :
    s.fate plainEnv filingConsumer (Streams.newFiling 1) = .yields newerFiling := by
  have hrow : s.registry (Streams.newFiling 1).toStreamEvent.eventId
      = some (redactionBy plainEnv newerFiling) := by
    rw [hregistry]
    exact Function.update_self _ _ _
  have hfrom : eventFromRegistry plainEnv filingConsumer.stream
      (Streams.newFiling 1).toStreamEvent.eventId
      (redactionBy plainEnv newerFiling).redactedPayload
      (redactionBy plainEnv newerFiling).redactedPayloadHash = .ok newerFiling :=
    eventFromRegistry_eq_ok_iff.2 offers_newerFiling
  obtain ⟨text, htext⟩ : ∃ text, cacheText plainEnv ⟨redactionBy plainEnv newerFiling,
      (Streams.newFiling 1).toStreamEvent.eventId⟩ = some text := offers_newerFiling.cacheText
  have hcache : s.values (redactionCacheKey plainEnv (Streams.newFiling 1).toStreamEvent.eventId)
      = none := by rw [hvalues]
  have hclaim : s.values (claimKey plainEnv filingConsumer
      (Streams.newFiling 1).toStreamEvent.eventId) = none := by rw [hvalues]
  have hearly : s.early plainEnv filingConsumer (Streams.newFiling 1).toStreamEvent.eventId
      = .ok (some newerFiling) := by
    rw [World.early, World.look, hcache, hrow]
    simp only [htext, hfrom, Except.map]
  refine World.fate_eq_yields hearly (by rw [hsets]) hclaim ?_
  rw [World.late, hrow]
  exact hfrom

/-- An entry with a filing is processed as this filing, whatever its text is. -/
theorem processEntry_filing {payloadRaw : String}
    (hparse : Streams.parseOrRaise plainEnv.parse "aslan.kap.filings.new" (ridStr (.ofMs 1))
      [("payload", payloadRaw)] = .ok (Streams.newFiling 1)) :
    processEntry plainEnv filingConsumer (.ofMs 1, encodeFields [("payload", payloadRaw)]) =
      processEvent plainEnv filingConsumer (.ofMs 1) [("payload", payloadRaw)]
        (Streams.newFiling 1) := by
  rw [processEntry, decodeFields_payload]
  show processMessage plainEnv filingConsumer (.ofMs 1) [("payload", payloadRaw)] = _
  rw [processMessage, gate_filing hparse]

/-- A filing whose redaction is committed is about to be yielded, as the registry has it. -/
theorem yields_redactedFiling : ∃ cfg, (daemons plainEnv Bool).Reach (fun _ _ => True)
    ((daemons plainEnv Bool).initial (entryWorld Bool redactedRegistry (fun _ => none) filingText))
      cfg ∧ ∃ j e k, cfg.proc true = some (j, .call (.inl (.yield e)) k) ∧
    (∀ q j' e' k', cfg.proc q = some (j', .call (.inl (.yield e')) k') → idOf e' = idOf e →
      q = true) ∧
    ∀ row, cfg.shared.registry (idOf e) = some row → Offers plainEnv (idOf e) row e := by
  let w := entryWorld Bool redactedRegistry (fun _ => none) filingText
  let entry : StreamId × RawFields := (.ofMs 1, encodeFields [("payload", filingText)])
  have hquiet : w.Quiet := ⟨Database.idle_ofRows _, Nat.zero_le _, nofun, nofun, nofun⟩
  have hdel : w.Delivers filingConsumer ⟨.zero, []⟩ entry := by
    refine ⟨rfl, rfl, List.filter_eq_self.2 fun e he => ?_⟩
    rw [List.mem_singleton.1 he]
    exact decide_eq_true (show StreamId.zero < StreamId.ofMs 1 by decide)
  have hfate : (w.deliver filingConsumer entry).fate plainEnv filingConsumer
      (Streams.newFiling 1) = .yields newerFiling :=
    fate_redactedFiling (s := w.deliver filingConsumer entry) rfl rfl rfl
  have hends : (system plainEnv Bool).Ends (healthyAt none) true
      (Job.program plainEnv (.consume filingConsumer 1 1))
      (fun _ s' => s'.yielded ≠ w.yielded) w := by
    refine ends_bind.2 (ends_consumeOnce hdel Nat.one_pos ?_)
    rw [if_neg not_unreadable_payload, processEntry_filing parse_filingText]
    have hquiet' : (w.deliver filingConsumer entry).Quiet := hquiet.congr rfl rfl rfl
    refine (ends_processEvent hquiet' (Streams.newFiling 1)).mono fun r s' hr => ?_
    have hmem : s'.yielded ≠ w.yielded := by
      rw [hr.yielded, hfate]
      exact List.cons_ne_nil _ _
    cases r <;> exact hmem
  obtain ⟨r, s', hruns⟩ := hends.exists_runs
  obtain ⟨s₁, e, k, hreach⟩ := reach_yield (p := true) hruns (Function.update_self true
    (some (DaemonJob.base (.consume filingConsumer 1 1), _)) fun _ => none) (hends.of_runs hruns)
  have hstart : (daemons plainEnv Bool).Reach (fun _ _ => True)
      ((daemons plainEnv Bool).initial w) ⟨w, Function.update (fun _ => none) true
        (some (.base (.consume filingConsumer 1 1), _))⟩ :=
    .step (.start true (.base (.consume filingConsumer 1 1))) .init trivial rfl
  have hyield := Function.update_self true (some (DaemonJob.base (.consume filingConsumer 1 1),
    (Prog.call (.inl (.yield e)) k : DaemonProgram Unit))) (fun _ => none)
  refine ⟨⟨s₁, Function.update (fun _ => none) true
      (some (.base (.consume filingConsumer 1 1), .call (.inl (.yield e)) k))⟩, ?_, _, e, k,
    hyield, ?_⟩
  · exact hstart.trans (by rwa [Function.update_idem] at hreach)
  · refine yields_exclusively (fun _ => rfl) ?_ (hstart.trans ?_) hyield
    · rintro key v (h | h | ⟨h, _⟩) <;> cases h
    · rwa [Function.update_idem] at hreach

end

end Deadletter

end AslanCore
