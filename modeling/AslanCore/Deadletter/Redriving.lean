import AslanCore.Deadletter.Acknowledging

/-!
# The daemons keep to the outline of the ledger

The second pass records a failure that it routes (`keepsTo_finishRouting`), and the others record
none. With the consumers, the outline is valid (`valid_ledgerOutline`).
-/

set_option linter.unusedSectionVars false

namespace AslanCore

namespace Deadletter

open Outline Prog World Database
open Streams (Uuid KnownStreamEvent)

/-! ### Daemons -/

section

variable {P : Type} [DecidableEq P] {env : Env} {once : Prop} {p : P} {s s' : World P}
  {o : Choice} {fid : ℤ} {rid : StreamId} {α : Type}

/-- A failure that is locked stays so, and as it is, while something else is done. -/
theorem keepsTo_holds {c : Cmd} (hc : c.IsFree) (hends : c.ends = false)
    (hmay : ∀ n, ¬c.May n (.log fid)) (h : once → Holds p fid s) :
    KeepsTo env once p (request c)
      (outcome (fun _ s => once → Holds p fid s) fun _ _ => True) s := by
  refine keepsTo_request (fun s => once → Holds p fid s)
    (fun s s' hg hf h honce => holds_stable s s' hg hf (h honce)) h
    fun s₁ hs₁ _ h₁ => ⟨knows_of_isFree hc p s₁, ?_⟩
  rintro o (e | a) s₂ hex -
  · trivial
  · exact fun honce => holds_of_ok hs₁ hends hex (hmay _) (h₁ honce)

/-- A transaction that routes a failure has still not recorded it, when it does something else. -/
theorem keepsTo_routes {c : Cmd} (hc : c.IsFree) (hends : c.ends = false)
    (hlog : ∀ n, ¬c.May n (.log fid)) (haudit : ∀ n k, ¬c.May n (.audit k))
    (h : once → Routes p fid rid s) : KeepsTo env once p (request c)
      (outcome (fun _ s => once → Routes p fid rid s) fun _ _ => True) s := by
  refine keepsTo_request (fun s => once → Routes p fid rid s)
    (fun s s' hg hf h honce => routes_stable s s' hg hf (h honce)) h
    fun s₁ hs₁ _ h₁ => ⟨knows_of_isFree hc p s₁, ?_⟩
  rintro o (e | a) s₂ hex -
  · trivial
  · exact fun honce => routes_of_ok hs₁ hends hex (hlog _) (haudit _) (h₁ honce)

/-- The same holds while an orphan is searched for. -/
theorem keepsTo_findOrphan {stream : String} {lb : StreamId} {target : ℤ}
    (h : once → Holds p fid s) :
    KeepsTo env once p (findOrphanInDeadletterStream env stream lb target)
      (fun _ s => once → Holds p fid s) s := by
  have hissues : (findOrphanInDeadletterStream env stream lb target).Issues
      fun c => c.sparesRows = true ∧ c.IsFree :=
    issues_searching (fun _ => ⟨rfl, trivial⟩) fun _ _ _ _ => ⟨rfl, trivial⟩
  generalize findOrphanInDeadletterStream env stream lb target = m at hissues
  induction m generalizing s with
  | ret x => exact h
  | raise e => exact h
  | call c k ih =>
    refine fun s₁ hr hs₁ => ⟨knows_of_isFree hissues.1.2 p s₁, fun o x s₂ _ hex _ =>
      ih x (fun honce => ?_) (hissues.2 x)⟩
    have h₁ := holds_stable s s₁ hr.1 hr.2 (h honce)
    have hdb := (db_exec hissues.1.1 hex).1
    exact ⟨by rw [hdb]; exact h₁.owner, by rw [hdb]; exact h₁.stuck⟩

/-- The entry of a failure that is locked is found, or appended. -/
theorem keepsTo_canonicalEntry {streamName : String} {details : LogDetails}
    (h : once → Holds p fid s) :
    KeepsTo env once p (canonicalEntry env fid streamName details)
      (outcome (fun _ s => once → Holds p fid s) fun _ _ => True) s := by
  have hselect : (Cmd.selectIndex .main fid).IsFree := trivial
  have hinsert : ∀ rid, (Cmd.insertIndexNew fid rid).IsFree := fun _ => trivial
  have hadd : ∀ fields, (Cmd.xadd (deadletterStream streamName) fields).IsFree := fun _ => trivial
  refine safe_bind.2 (safe_bind.2 ((keepsTo_holds hselect rfl (fun _ hm => hm) h).mono ?_))
  rintro (e | _ | canonical) s₁ h₁
  · trivial
  swap
  · exact h₁
  refine safe_bind.2 ((keepsTo_findOrphan h₁).mono ?_)
  rintro (e | _ | orphan) s₂ h₂
  · trivial
  · -- There is none: a new entry is appended.
    dsimp only [outcome]
    cases recoveredFields env fid streamName details with
    | none => trivial
    | some fields =>
      refine safe_bind.2 ((keepsTo_holds (hadd fields) rfl (fun _ hm => hm) h₂).mono ?_)
      rintro (e | rid) s₃ h₃
      · trivial
      refine safe_bind.2 ((keepsTo_holds (hinsert rid) rfl (fun _ hm => by cases hm) h₃).mono ?_)
      rintro (e | _) s₄ h₄
      · trivial
      · exact h₄
  · refine safe_bind.2 ((keepsTo_holds (hinsert orphan) rfl (fun _ hm => by cases hm) h₂).mono ?_)
    rintro (e | _) s₃ h₃
    · trivial
    · exact h₃

/-- Something else is recorded. -/
theorem keepsTo_lostRecovered {ctx : Context} {streamName : String} (h : once → Routes p fid rid s) :
    KeepsTo env once p (auditRecord ctx .main (lostRecoveredRecord fid rid streamName))
      (outcome (fun _ s => once → Routes p fid rid s) fun _ _ => True) s := by
  refine keepsTo_auditRecord (a := fun s => once → Routes p fid rid s)
    (fun s s' hg hf h honce => routes_stable s s' hg hf (h honce)) h fun e s₁ he hs₁ h₁ => ?_
  have hop : e.operation ≠ "stream.deadletter" := by
    rw [show e.operation = e.toAuditRecord.operation from rfl,
      AuditEvent.toAuditRecord_of_record he]
    simp [lostRecoveredRecord]
  have hfree : (Cmd.insertAudit .main e).IsFree := hop
  refine ⟨knows_of_isFree hfree p s₁, fun o s₂ hex honce => ?_⟩
  have hroutes := h₁ honce
  refine ⟨?_, ?_, fun n e' he' his => ?_⟩
  · rw [pending_of_ok hs₁ rfl hex (by rintro ⟨⟩)]
    exact hroutes.pending
  · rw [committed_of_ok hs₁ rfl hex]
    exact hroutes.stuck
  · by_cases hn : n = s₁.nextAuditId
    · subst hn
      cases (pending_insertAudit hs₁ hex).symm.trans he'
      exact hop his.1
    · rw [pending_of_ok hs₁ rfl hex (by rintro ⟨⟩; exact hn rfl)] at he'
      exact hroutes.fresh n e' he' his

/-- A failure that is locked, and not routed, is routed and recorded. -/
theorem keepsTo_finishRouting {streamName : String} {details : LogDetails}
    (h : once → Holds p fid s) :
    KeepsTo env once p (finishRouting env fid streamName details) (fun _ _ => True) s := by
  have hdelete : (Cmd.deleteIntent fid).IsFree := trivial
  have hexists : (Cmd.existsAudit "stream.deadletter_orphan_lost" fid).IsFree := trivial
  refine safe_bind.2 ((keepsTo_canonicalEntry h).mono ?_)
  rintro (e | rid) s₁ h₁
  · trivial
  refine safe_bind.2 (keepsTo_request (fun s => once → Holds p fid s)
    (fun s s' hg hf h honce => holds_stable s s' hg hf (h honce)) h₁
    fun s₂ hs₂ ha₂ h₂ => ⟨trivial, ?_⟩)
  rintro o (e | b) s₃ hex -
  · trivial
  have h₃ : once → Routes p fid rid s₃ := by
    intro honce
    rcases updateLogRouted_cases hs₂ ha₂ hex with ⟨-, hroutes, -⟩ | ⟨-, hno⟩
    · exact hroutes honce
    · obtain ⟨row, hrow, hstuck⟩ := (h₂ honce).stuck
      cases hstuck.symm.trans (hno row hrow).1
  refine safe_bind.2 ((keepsTo_routes hdelete rfl (fun _ hm => by cases hm)
    (fun _ _ hm => by cases hm) h₃).mono ?_)
  rintro (e | _) s₄ h₄
  · trivial
  refine safe_bind.2 ((keepsTo_routes hexists rfl (fun _ hm => hm) (fun _ _ hm => hm) h₄).mono ?_)
  rintro (e | hadLostAudit) s₅ h₅
  · trivial
  -- The failure is recorded as routed, with its entry.
  have hlast : ∀ s : World P, (once → Routes p fid rid s) → KeepsTo env once p
      (auditRecord janitorContext .main (recoveredRecord env fid rid streamName details))
      (fun _ _ => True) s := by
    refine fun s h => Safe.mono (keepsTo_auditRecord (a := fun s => once → Routes p fid rid s)
      (fun s s' hg hf h honce => routes_stable s s' hg hf (h honce)) h (Q := fun _ => True)
      fun e s₁ he _ h₁ => ⟨fun honce fid' his => ?_, fun _ _ _ => trivial⟩) fun _ _ _ => trivial
    have hrecord := AuditEvent.toAuditRecord_of_record he
    have hpk : e.targetPk = [("failure_id", .int fid)] := by
      rw [show e.targetPk = e.toAuditRecord.targetPk from rfl, hrecord]
      rfl
    have hfid : fid' = fid := by
      have hmem := his.2
      rw [hpk] at hmem
      simpa using hmem
    subst hfid
    refine ⟨rfl, rid, h₁ honce, his, ?_⟩
    rw [show e.metadata = e.toAuditRecord.metadata from rfl, hrecord]
    simp [recoveredRecord]
  simp only [outcome]
  split_ifs
  · refine safe_bind.2 ((keepsTo_lostRecovered h₅).mono ?_)
    rintro (e | _) s₆ h₆
    · trivial
    · exact hlast s₆ h₆
  · exact hlast s₅ h₅

/-- A program of the daemons keeps to the outline. -/
abbrev DaemonKeepsTo (env : Env) (once : Prop) (p : P) (m : DaemonProgram α)
    (Q : Except Exn α → World P → Prop) (s : World P) : Prop :=
  (ledgerOutline P env once).Safe (daemons env P) (stillStuck P once) p m Q s

/-- Nothing has to be known for a command of the daemons. -/
theorem daemonKeepsTo_ask {c : PassCmd} (s : World P) :
    DaemonKeepsTo env once p (ask c) (fun _ _ => True) s :=
  safe_perform (fun _ => True) (fun _ _ _ h => h) trivial fun _ _ _ =>
    ⟨trivial, fun _ _ _ _ _ _ => trivial⟩

/-- A program of free commands is one of the daemons. -/
theorem daemonKeepsTo_free {m : Program α} (hm : m.Issues Cmd.IsFree) (s : World P) :
    DaemonKeepsTo env once p m.inl (fun _ _ => True) s :=
  (keepsTo_of_issues hm s).inl

theorem daemonKeepsTo_withSession {body : DaemonProgram α}
    (h : DaemonKeepsTo env once p body (fun _ _ => True) s) :
    DaemonKeepsTo env once p (withDaemonSession body) (fun _ _ => True) s := by
  have hclose : (Cmd.close .main).IsFree := trivial
  refine safe_ensuring.2 (h.mono fun x s₁ _ => ?_)
  refine (daemonKeepsTo_free (issues_perform hclose) s₁).mono ?_
  rintro (e | _) s₂ - <;> trivial

theorem daemonKeepsTo_undone {body : DaemonProgram Unit}
    (h : DaemonKeepsTo env once p body (fun _ _ => True) s) :
    DaemonKeepsTo env once p (undone body) (fun _ _ => True) s := by
  have hrollback : (Cmd.rollback .main).IsFree := trivial
  refine safe_tryCatch.2 (h.mono ?_)
  rintro (e | _) s₁ -
  · simp only [outcome]
    split_ifs
    · exact daemonKeepsTo_free (issues_perform hrollback) s₁
    · trivial
  · trivial

/-- A failure that is locked, and still not routed, is routed. -/
theorem daemonKeepsTo_finishRouting (s : World P) :
    DaemonKeepsTo env once p (finishRoutingAfterAdoption env fid) (fun _ _ => True) s := by
  refine safe_bind.2 (safe_perform (fun _ => True) (fun _ _ _ h => h) trivial fun s₁ hs₁ _ =>
    ⟨trivial, fun o x s₂ hg hex _ => ?_⟩)
  rcases x with e | _ | ⟨streamName, details⟩
  · trivial
  · trivial
  have hholds : once → Holds p fid s₂ := by
    intro honce
    obtain ⟨⟨y, db⟩, hstmt, hx⟩ := Option.map_eq_some_iff.1 hex
    cases hx
    rcases statement_makes hstmt hs₁.1.unsaved with ⟨e, ⟨⟩, -⟩ | ⟨a, ⟨⟩, hok⟩
    obtain ⟨⟨row, db₁⟩, hselect, hdb⟩ := Option.map_eq_some_iff.1 hok
    rcases selectForUpdate_cases hselect with ⟨rfl, rfl, -⟩ | ⟨w, rfl, hw, hl, rfl⟩
    · cases hdb
    · have hrow : db = s₁.db.lockRow (p, .main) (.log fid) true hl := by
        simp only [Option.map_some, Except.ok.injEq, Prod.mk.injEq] at hdb
        exact hdb.2.symm
      subst hrow
      exact ⟨by simp, w, hw, hg honce w hw⟩
  exact (keepsTo_finishRouting hholds).inl

/-- A routing that is completed by the second pass. -/
theorem daemonKeepsTo_redriveRow {owner : String} {row : ℤ × String} (s : World P) :
    DaemonKeepsTo env once p (redriveRow env owner row) (fun _ _ => True) s := by
  have hcommit : (Cmd.commit .main).IsFree := trivial
  have hend : ∀ s : World P, DaemonKeepsTo env once p (request (.commit .main)).inl
      (fun _ _ => True) s := daemonKeepsTo_free (issues_perform hcommit)
  have hunknown : ∀ s : World P, IsFiled False row.1 s := fun _ h => h.elim
  refine safe_bind.2 ((daemonKeepsTo_free free_captureRedisLowerBound s).mono ?_)
  rintro (e | lowerBound) s₁ -
  · trivial
  refine safe_bind.2 ((keepsTo_acquireOrAdoptIntent 3 (hunknown s₁)).inl.mono ?_)
  rintro (e | lb | rid | _) s₂ -
  · trivial
  · refine safe_bind.2 ((daemonKeepsTo_finishRouting s₂).mono ?_)
    rintro (e | _) s₃ -
    · trivial
    · exact hend s₃
  · exact hend s₂
  · exact hend s₂

theorem daemonKeepsTo_reconcileIntent {owner : String} {row : ℤ × String} (s : World P) :
    DaemonKeepsTo env once p (reconcileIntent env owner row) (fun _ _ => True) s := by
  have hcommit : (Cmd.commit .main).IsFree := trivial
  have hdelete : (Cmd.deleteIntent row.1).IsFree := trivial
  have hend : ∀ s : World P, DaemonKeepsTo env once p (request (.commit .main)).inl
      (fun _ _ => True) s := daemonKeepsTo_free (issues_perform hcommit)
  have hunknown : ∀ s : World P, IsFiled False row.1 s := fun _ h => h.elim
  refine safe_bind.2 ((daemonKeepsTo_free free_captureRedisLowerBound s).mono ?_)
  rintro (e | lowerBound) s₁ -
  · trivial
  refine safe_bind.2 ((keepsTo_acquireOrAdoptIntent 3 (hunknown s₁)).inl.mono ?_)
  rintro (e | lb | rid | _) s₂ -
  · trivial
  · refine safe_bind.2 ((daemonKeepsTo_free (issues_perform hdelete) s₂).mono ?_)
    rintro (e | _) s₃ -
    · trivial
    · exact hend s₃
  · exact hend s₂
  · exact hend s₂

/-- A pass goes through the rows that it selects, each in a session of its own. -/
theorem daemonKeepsTo_pass {c : PassCmd} {β : Type} {f : PassReply c → List β}
    {body : β → DaemonProgram Unit}
    (h : ∀ row s, DaemonKeepsTo env once p (body row) (fun _ _ => True) s) (s : World P) :
    DaemonKeepsTo env once p (do
      let reply ← withDaemonSession (ask c)
      forEach (fun row => withDaemonSession (undone (body row))) (f reply))
      (fun _ _ => True) s := by
  refine safe_bind.2 ((daemonKeepsTo_withSession (daemonKeepsTo_ask s)).mono ?_)
  rintro (e | reply) s₁ -
  · trivial
  refine safe_forEach (fun _ _ => True) (fun _ _ => trivial) (fun row _ s₂ _ => ?_) trivial
  refine (daemonKeepsTo_withSession (daemonKeepsTo_undone (h row s₂))).mono ?_
  rintro (e | _) s₃ - <;> trivial

/-- A cycle of the janitor. -/
theorem daemonKeepsTo_janitorCycle (window : ℕ) (owner : String) (s : World P) :
    DaemonKeepsTo env once p (janitorCycle env window owner) (fun _ _ => True) s := by
  refine safe_tryCatch.2 (Safe.mono (Q := fun _ _ => True) ?_ ?_)
  · refine safe_bind.2 (Safe.mono (daemonKeepsTo_pass (c := .selectStaleIntents)
      (f := fun rows => rows) (fun _ => daemonKeepsTo_reconcileIntent) s) ?_)
    rintro (e | _) s₁ -
    · trivial
    refine safe_bind.2 (Safe.mono (daemonKeepsTo_pass (c := .selectStuckRows)
      (f := fun rows => rows) (fun _ => daemonKeepsTo_redriveRow) s₁) ?_)
    rintro (e | _) s₂ -
    · trivial
    refine safe_bind.2 ((daemonKeepsTo_free free_pass3 s₂).mono ?_)
    rintro (e | _) s₃ -
    · trivial
    · exact daemonKeepsTo_free free_pass4 s₃
  · rintro (e | _) s₁ -
    · simp only [outcome]
      split_ifs <;> trivial
    · trivial

theorem daemonKeepsTo_heartbeat (owner : String) (s : World P) :
    DaemonKeepsTo env once p (heartbeatActiveIntents owner) (fun _ _ => True) s := by
  have hcommit : (Cmd.commit .main).IsFree := trivial
  refine safe_tryCatch.2 (Safe.mono (daemonKeepsTo_withSession (safe_bind.2
    ((daemonKeepsTo_ask s).mono ?_))) ?_)
  · rintro (e | _) s₁ -
    · trivial
    · exact daemonKeepsTo_free (issues_perform hcommit) s₁
  · rintro (e | _) s₁ -
    · simp only [outcome]
      cases e <;> trivial
    · trivial

/-- The programs of all jobs keep to the outline. -/
theorem daemonKeepsTo_program (j : DaemonJob) (s : World P) :
    DaemonKeepsTo env once p (j.program env) (fun _ _ => True) s := by
  rcases j with j | ⟨window, owner⟩ | owner
  · refine Safe.inl (Safe.mono (Q := fun _ _ => True) ?_ fun _ _ _ => trivial)
    cases j with
    | pass3 => exact keepsTo_of_issues free_pass3 s
    | pass4 window => exact keepsTo_of_issues free_pass4 s
    | consume c count iterations => exact keepsTo_consume count iterations s
    | redact u row =>
      have hredact : (Cmd.redact u row).IsFree := trivial
      exact keepsTo_of_issues (issues_perform hredact) s
    | expire key =>
      have hexpire : (Cmd.expire key).IsFree := trivial
      exact keepsTo_of_issues (issues_perform hexpire) s
  · exact daemonKeepsTo_janitorCycle window owner s
  · exact daemonKeepsTo_heartbeat owner s

/-- The outline of the ledger holds of the consumers and the daemons. -/
theorem valid_ledgerOutline (env : Env) (once : Prop) :
    (ledgerOutline P env once).Valid (daemons env P) (stillStuck P once) where
  rely_refl p s := ⟨.refl s, fun r => .refl _ _⟩
  rely_trans p s s' s'' h h' := ⟨h.1.trans h'.1, fun r => (h.2 r).trans (h'.2 r)⟩
  inv_step := by
    rintro p (c | c) o s x s' hs hk - hex
    · exact ⟨ledger_exec hs.1 hk hex, fun honce => audited_exec honce hs.1 (hs.2 honce) hk hex⟩
    · exact ⟨ledger_execPass hs.1 hex, fun honce => audited_execPass hs.1 (hs.2 honce) hex⟩
  rely_step := by
    rintro p q (c | c) o s x s' hq hs - - hex
    · exact ⟨grown_exec hs.1 hex, frame_exec hs.1 hex hq.symm⟩
    · exact ⟨grown_execPass hs.1 hex, fun r => (effect_execPass hs.1 hex).frame
        fun he => hq (congrArg Prod.fst he).symm⟩
  inv_kill p s hs _ := ⟨ledger_kill hs.1 p, fun honce => audited_kill hs.1 (hs.2 honce) p⟩
  rely_kill p q s hq _ _ := ⟨grown_kill s q, fun r => frame_kill hq.symm r⟩
  idle_kill _ _ _ := trivial
  idle_stable _ _ _ _ _ := trivial
  post_stable _ _ _ _ _ _ _ := trivial
  post_idle _ _ _ _ _ := trivial
  body _ j s _ _ _ := daemonKeepsTo_program j s

end

end Deadletter

end AslanCore
