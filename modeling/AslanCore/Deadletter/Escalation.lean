import AslanCore.Deadletter.Keeping

/-!
# A routing keeps to the outline of the ledger

What a routing comes to, whatever the other processes do between its steps: the failure is routed
when it ends, by this worker or by another one (`keepsTo_routeToDeadletter`). So the entry may be
acknowledged then (`keepsTo_route`).
-/

set_option linter.unusedSectionVars false

namespace AslanCore

namespace Deadletter

open Outline Prog World Database
open Streams (Uuid KnownStreamEvent)

section

variable {P : Type} [DecidableEq P] {env : Env} {once : Prop} {p : P} {s s' : World P}
  {ctx : Context} {c : Cmd} {o : Choice} {n g m : String} {fid : ℤ} {rid : StreamId}

/-! ### Routings -/

/-- A failure is routed by a transaction, or it has been routed before. -/
theorem updateLogRouted_cases (hs : s.Ledger) (ha : once → s.Audited) {b : Bool}
    (h : World.exec env p (.updateLogRouted fid rid) o s = some (.ok b, s')) :
    (b = true ∧ (once → Routes p fid rid s') ∧ Noted p fid s') ∨
      b = false ∧ ∀ row, s.db.view (p, .main) (.log fid) = some row → row.isStuck = false ∧
        Noted p fid s' := by
  obtain ⟨⟨x, db⟩, hstmt, hx⟩ := Option.map_eq_some_iff.1 h
  cases hx
  rcases statement_makes hstmt hs.unsaved with ⟨e, ⟨⟩, -⟩ | ⟨a, ⟨⟩, hok⟩
  obtain ⟨⟨b, db⟩, hupdate, hdb⟩ := Option.map_eq_some_iff.1 hok
  cases hdb
  rcases updateRow_cases hupdate with ⟨rfl, rfl, hno⟩ | ⟨rfl, v, hv, hstuck, hl, rfl⟩
  · refine .inr ⟨rfl, fun row hrow => ⟨hno row hrow, row, hrow, ?_⟩⟩
    by_contra hnone
    rw [Option.not_isSome_iff_eq_none] at hnone
    cases (hno row hrow).symm.trans ((tidy_view hs.tidy hrow).2 hnone)
  · have hnone := (tidy_view hs.tidy hv).1 hstuck
    refine .inl ⟨rfl, fun honce => ⟨⟨v.route rid o.now, ?_, rfl⟩, fun row hrow => ?_,
      fun n e he his => ?_⟩, v.route rid o.now, view_put_self, rfl⟩
    · simp
    · obtain ⟨row', hrow', hkeeps⟩ := rowOrder_log (hs.ascending.le_view (p, .main) (.log fid)) hrow
      cases hv.symm.trans hrow'
      rcases hr : row.redisMessageId with _ | rid'
      · rfl
      · cases hnone.symm.trans (hkeeps rid' hr)
    · -- A failure that was recorded before was routed before.
      have hpending : s.db.pending (p, .main) (.audit n) = some (some e) := by
        simpa using he
      obtain ⟨row, rid', hrow, hrid', -⟩ := (ha honce).pending _ n e fid hpending his
      cases hv.symm.trans hrow
      cases hnone.symm.trans hrid'

/-- A failure that a transaction sees is routed, or it is routed by it. -/
theorem noted_of_updateLogRouted (hs : s.Ledger) (hlog : (s.db.view (p, .main) (.log fid)).isSome)
    {b : Bool} (h : World.exec env p (.updateLogRouted fid rid) o s = some (.ok b, s')) :
    Noted p fid s' := by
  have hno : False → s.Audited := False.elim
  rcases updateLogRouted_cases hs hno h with ⟨-, -, h⟩ | ⟨-, h⟩
  · exact h
  · obtain ⟨row, hrow⟩ := Option.isSome_iff_exists.1 hlog
    exact (h row hrow).2

/-- The event that a worker records is about its failure only. -/
theorem recordsRouting_deadletterRecord {r : Routing} {u : String} {e : AuditEvent} {fid' : ℤ}
    (he : e.toAuditRecord = deadletterRecord r u fid rid)
    (his : IsAudit "stream.deadletter" fid' e) : fid' = fid ∧ RecordsRouting fid rid e := by
  have hpk : e.targetPk = [("failure_id", .int fid)] := by
    rw [show e.targetPk = e.toAuditRecord.targetPk from rfl, he]
    rfl
  have hfid : fid' = fid := by
    have hmem := his.2
    rw [hpk] at hmem
    simpa using hmem
  refine ⟨hfid, hfid ▸ his, ?_⟩
  rw [show e.metadata = e.toAuditRecord.metadata from rfl, he]
  simp [deadletterRecord]

/-- A failure that is filed is routed in the end, whoever routes it. -/
theorem keepsTo_step4 {r : Routing} {ourXadd : Bool}
    (hf : s.db.committed (.routing r.stream r.group r.messageId) = some fid) :
    KeepsTo env once p (step4UpdateLogAndAudit env ctx r fid rid ourXadd)
      (outcome (fun _ s => s.Routed r.stream r.group r.messageId) fun _ _ => True) s := by
  have hfiled : ∀ s s' : World P, Grown s s' → (∀ r, Frame (p, r) s.db s'.db) →
      s.db.committed (.routing r.stream r.group r.messageId) = some fid →
      s'.db.committed (.routing r.stream r.group r.messageId) = some fid :=
    fun s s' hg _ h => lasting_filed s s' hg h
  have hnoted : ∀ s s' : World P, Grown s s' → (∀ r, Frame (p, r) s.db s'.db) →
      (s.db.committed (.routing r.stream r.group r.messageId) = some fid ∧ Noted p fid s) →
      s'.db.committed (.routing r.stream r.group r.messageId) = some fid ∧ Noted p fid s' :=
    fun s s' hg hf h => ⟨lasting_filed s s' hg h.1, noted_stable s s' hg hf h.2⟩
  -- The transaction is committed, once it has seen that the failure is routed.
  have hcommit : ∀ (x : RoutingResult) (s : World P),
      s.db.committed (.routing r.stream r.group r.messageId) = some fid ∧ Noted p fid s →
      KeepsTo env once p (do
        request (.commit .main)
        pure x) (outcome (fun _ s => s.Routed r.stream r.group r.messageId) fun _ _ => True) s := by
    intro x s h
    refine safe_bind.2 (keepsTo_request _ hnoted h fun s₁ hs₁ _ h₁ => ⟨trivial, ?_⟩)
    rintro o (e | u) s₂ hex -
    · trivial
    · exact routed_of_commit (view_routing hs₁ h₁.1 _) h₁.2 hex
  refine keepsTo_withSession (fun _ => lasting_routed) (safe_bind.2 (keepsTo_request _ hfiled hf
    fun s₁ hs₁ ha₁ h₁ => ⟨trivial, ?_⟩))
  rintro o (e | updated) s₂ hex hs₂
  · trivial
  have h₂ := lasting_filed _ _ (grown_exec hs₁ hex) h₁
  rcases updateLogRouted_cases hs₁ ha₁ hex with ⟨rfl, hroutes, hn⟩ | ⟨rfl, hn⟩
  · show KeepsTo env once p (do
      auditRecord ctx .main (deadletterRecord r (env.parse.codec.uuidStr r.eventId) fid rid)
      request (.commit .main)
      pure (RoutingResult.complete rid)) _ s₂
    refine safe_bind.2 ((keepsTo_auditRecord (a := fun s =>
      (s.db.committed (.routing r.stream r.group r.messageId) = some fid ∧ Noted p fid s) ∧
        (once → Routes p fid rid s)) ?_ ⟨⟨h₂, hn⟩, hroutes⟩ (Q := fun s =>
      s.db.committed (.routing r.stream r.group r.messageId) = some fid ∧ Noted p fid s) ?_).mono ?_)
    · exact fun s s' hg hf h =>
        ⟨hnoted s s' hg hf h.1, fun honce => routes_stable s s' hg hf (h.2 honce)⟩
    · intro e s₃ he hs₃ h₃
      refine ⟨fun honce fid' his => ?_, fun o s₄ hex => ⟨lasting_filed _ _ (grown_exec hs₃ hex) h₃.1.1,
        noted_of_ok hs₃ rfl hex h₃.1.2⟩⟩
      obtain ⟨rfl, hrec⟩ :=
        recordsRouting_deadletterRecord (AuditEvent.toAuditRecord_of_record he) his
      exact ⟨rfl, rid, h₃.2 honce, hrec⟩
    · rintro (e | _) s₃ h₃
      · trivial
      · exact hcommit _ s₃ h₃
  · -- Another worker has routed the failure.
    refine safe_bind.2 (keepsTo_request _ hfiled h₂ fun s₃ hs₃ _ h₃ => ⟨trivial, ?_⟩)
    rintro o (e | winner) s₄ hex₄ -
    · trivial
    have h₄ := lasting_filed _ _ (grown_exec hs₃ hex₄) h₃
    have hwinner : ∀ rid, winner.join = some rid → Noted p fid s₄ := by
      intro rid' hjoin
      obtain ⟨⟨x, db⟩, hstmt, hx⟩ := Option.map_eq_some_iff.1 hex₄
      cases hx
      rcases statement_makes hstmt hs₃.unsaved with ⟨e, ⟨⟩, -⟩ | ⟨a, ⟨⟩, hok⟩
      cases hok
      rcases hrow : s₃.db.view (p, .main) (.log fid) with _ | row
      · rw [hrow] at hjoin
        cases hjoin
      · rw [hrow] at hjoin
        exact ⟨row, hrow, Option.isSome_iff_exists.2 ⟨rid', hjoin⟩⟩
    simp only [outcome]
    rcases hjoin : winner.join with _ | rid'
    · have hfree : (Cmd.commit .main).IsFree := trivial
      refine safe_bind.2 ((keepsTo_of_issues (issues_perform hfree) s₄).mono ?_)
      rintro (e | _) s₅ - <;> trivial
    dsimp only
    split_ifs
    · refine safe_bind.2 (keepsTo_request _ hnoted ⟨h₄, hwinner rid' hjoin⟩ fun s₅ hs₅ _ h₅ =>
        ⟨trivial, ?_⟩)
      rintro o (e | _) s₆ hex₆ -
      · trivial
      have h₆ : s₆.db.committed (.routing r.stream r.group r.messageId) = some fid ∧ Noted p fid s₆ :=
        ⟨lasting_filed _ _ (grown_exec hs₅ hex₆) h₅.1, noted_of_ok hs₅ rfl hex₆ h₅.2⟩
      refine safe_bind.2 (safe_tryCatch.2 (keepsTo_request _ hnoted h₆ fun s₇ hs₇ _ h₇ =>
        ⟨trivial, ?_⟩))
      intro o x s₈ hex₈ _
      have h₈ : s₈.db.committed (.routing r.stream r.group r.messageId) = some fid ∧ Noted p fid s₈ := by
        have hdb := (db_exec rfl hex₈).1
        rw [Noted, hdb]
        exact h₇
      rcases x with e | _
      · cases e <;> first | trivial | exact hcommit _ s₈ h₈
      · exact hcommit _ s₈ h₈
    · exact hcommit _ s₄ ⟨h₄, hwinner rid' hjoin⟩

/-- The failure is filed, if that is known. -/
def IsFiled (known : Prop) (fid : ℤ) (s : World P) : Prop :=
  known → ∃ n g m, s.db.committed (.routing n g m) = some fid

theorem lasting_isFiled {known : Prop} : Lasting (P := P) (IsFiled known fid) := by
  intro s s' hg h hknown
  obtain ⟨n, g, m, hf⟩ := h hknown
  exact ⟨n, g, m, lasting_filed s s' hg hf⟩

/-- An orphan that is adopted is the entry of its failure, if it is in the log. -/
theorem keepsTo_adoptStaleIntent {known : Prop} {owner stream : String} {lb : StreamId}
    {existing : IntentRow} (h : IsFiled known fid s) :
    KeepsTo env once p (adoptStaleIntent env ctx fid owner lb stream existing)
      (outcome (fun adoption s => IsFiled known fid s ∧
        ∀ rid, adoption = .reconciledByUs rid → known → Noted p fid s) fun _ _ => True) s := by
  have hfiled : Lasting (P := P) (IsFiled known fid) := lasting_isFiled
  have hnoted : ∀ s s' : World P, Grown s s' → (∀ r, Frame (p, r) s.db s'.db) →
      (IsFiled known fid s ∧ (known → Noted p fid s)) →
        IsFiled known fid s' ∧ (known → Noted p fid s') :=
    fun s s' hg hf h => ⟨hfiled s s' hg h.1, fun hk => noted_stable s s' hg hf (h.2 hk)⟩
  refine safe_bind.2 ((keepsTo_lasting hfiled free_findOrphan h).mono ?_)
  rintro (e | _ | rid) s₁ h₁
  · trivial
  · -- The entry was not found.
    have hreplace : (Cmd.replaceIntent fid owner lb).IsFree := trivial
    refine safe_bind.2 ((keepsTo_free hfiled hreplace h₁).mono ?_)
    rintro (e | _) s₂ h₂
    · trivial
    refine safe_bind.2 ((keepsTo_lasting hfiled (free_auditRecord (by simp [orphanLostRecord]))
      h₂).mono ?_)
    rintro (e | _) s₃ h₃
    · trivial
    · exact ⟨h₃, by rintro rid ⟨⟩⟩
  have hinsert : (Cmd.insertIndexNew fid rid).IsFree := trivial
  have hselect : (Cmd.selectIndex .main fid).IsFree := trivial
  refine safe_bind.2 ((keepsTo_free hfiled hinsert h₁).mono ?_)
  rintro (e | _) s₂ h₂
  · trivial
  refine safe_bind.2 ((keepsTo_free hfiled hselect h₂).mono ?_)
  rintro (e | _ | canonical) s₃ h₃
  · trivial
  · trivial
  refine safe_bind.2 (keepsTo_request _ (fun s s' hg _ => hfiled s s' hg) h₃ fun s₄ hs₄ _ h₄ =>
    ⟨trivial, ?_⟩)
  rintro o (e | b) s₅ hex₅ -
  · trivial
  have h₅ : known → Noted p fid s₅ := by
    intro hknown
    obtain ⟨n, g, m, hf⟩ := h₄ hknown
    exact noted_of_updateLogRouted hs₄ (hs₄.logged _ n g m fid (view_routing hs₄ hf _)) hex₅
  refine safe_bind.2 (keepsTo_request _ hnoted ⟨hfiled _ _ (grown_exec hs₄ hex₅) h₄, h₅⟩
    fun s₆ hs₆ _ h₆ => ⟨trivial, ?_⟩)
  rintro o (e | _) s₇ hex₇ -
  · trivial
  have h₇ : known → Noted p fid s₇ := fun hknown => noted_of_ok hs₆ rfl hex₇ (h₆.2 hknown)
  refine safe_bind.2 ((keepsTo_auditRecord hnoted ⟨hfiled _ _ (grown_exec hs₆ hex₇) h₆.1, h₇⟩
    (Q := fun s => IsFiled known fid s ∧ (known → Noted p fid s))
    fun e s₈ he hs₈ h₈ => ⟨fun _ fid' his => ?_, fun o s₉ hex₉ =>
      ⟨hfiled _ _ (grown_exec hs₈ hex₉) h₈.1, fun hk => noted_of_ok hs₈ rfl hex₉ (h₈.2 hk)⟩⟩).mono ?_)
  · have hop : e.operation = "stream.deadletter_orphan_reconciled" := by
      rw [show e.operation = e.toAuditRecord.operation from rfl,
        AuditEvent.toAuditRecord_of_record he]
      rfl
    rw [IsAudit, hop] at his
    simp at his
  · rintro (e | _) s₈ h₈
    · trivial
    · exact ⟨h₈.1, fun _ _ => h₈.2⟩

theorem keepsTo_tryAcquireIntent {known : Prop} {owner stream : String} {lb : StreamId}
    (h : IsFiled known fid s) :
    KeepsTo env once p (tryAcquireIntent env ctx fid owner lb stream)
      (outcome (fun adoption s => IsFiled known fid s ∧
        ∀ rid, adoption = some (.reconciledByUs rid) → known → Noted p fid s) fun _ _ => True) s := by
  have hfiled : Lasting (P := P) (IsFiled known fid) := lasting_isFiled
  have hinsert : (Cmd.insertIntent fid stream lb owner).IsFree := trivial
  have hselect : (Cmd.selectIntentForUpdate fid).IsFree := trivial
  have htouch : (Cmd.touchIntent fid).IsFree := trivial
  refine safe_bind.2 ((keepsTo_free hfiled hinsert h).mono ?_)
  rintro (e | _ | _) s₁ h₁
  · trivial
  swap
  · exact ⟨h₁, by rintro rid ⟨⟩⟩
  refine safe_bind.2 ((keepsTo_free hfiled hselect h₁).mono ?_)
  rintro (e | _ | ⟨existing, age⟩) s₂ h₂
  · trivial
  · exact ⟨h₂, by rintro rid ⟨⟩⟩
  simp only [outcome]
  split_ifs
  · refine safe_bind.2 ((keepsTo_free hfiled htouch h₂).mono ?_)
    rintro (e | _) s₃ h₃
    · trivial
    · exact ⟨h₃, by rintro rid ⟨⟩⟩
  · exact ⟨h₂, by rintro rid ⟨⟩⟩
  · refine safe_bind.2 ((keepsTo_adoptStaleIntent h₂).mono ?_)
    rintro (e | adoption) s₃ h₃
    · trivial
    · exact ⟨h₃.1, fun rid hrid => h₃.2 rid (Option.some.inj hrid)⟩

/-- Where an orphan is adopted, its failure is seen to be routed. -/
theorem keepsTo_acquireOrAdoptIntent {known : Prop} {owner stream : String} {lb : StreamId}
    (attempts : ℕ) (h : IsFiled known fid s) :
    KeepsTo env once p (acquireOrAdoptIntent env ctx fid owner lb stream attempts)
      (outcome (fun adoption s => ∀ rid, adoption = .reconciledByUs rid → known → Noted p fid s)
        fun _ _ => True) s := by
  induction attempts generalizing s with
  | zero =>
    refine safe_bind.2 ((keepsTo_tryAcquireIntent h).mono ?_)
    rintro (e | _ | adoption) s₁ h₁
    · trivial
    · trivial
    · exact fun rid hrid => h₁.2 rid (congrArg some hrid)
  | succ attempts ih =>
    refine safe_bind.2 ((keepsTo_tryAcquireIntent h).mono ?_)
    rintro (e | _ | adoption) s₁ h₁
    · trivial
    · exact ih h₁.1
    · exact fun rid hrid => h₁.2 rid (congrArg some hrid)

/-- The entry of a failure is appended and indexed, and the failure is routed. -/
theorem keepsTo_appendAndIndex {r : Routing}
    (hf : s.db.committed (.routing r.stream r.group r.messageId) = some fid) :
    KeepsTo env once p (appendAndIndex env ctx r fid)
      (outcome (fun _ s => s.Routed r.stream r.group r.messageId) fun _ _ => True) s := by
  have hfiled : Lasting (P := P) fun s =>
      s.db.committed (.routing r.stream r.group r.messageId) = some fid := lasting_filed
  have hadd : (Cmd.xadd (deadletterStream r.stream) (xaddFields env r fid)).IsFree := trivial
  have hdelete : (Cmd.deleteIntent fid).IsFree := trivial
  have hcommit : (Cmd.commit .main).IsFree := trivial
  refine safe_bind.2 ((keepsTo_free hfiled hadd hf).mono ?_)
  rintro (e | rid) s₁ h₁
  · trivial
  -- What another worker has appended is the entry of the failure, if it is indexed.
  refine safe_bind.2 (Safe.mono (keepsTo_withSession (Q := fun lost s =>
    s.db.committed (.routing r.stream r.group r.messageId) = some fid ∧
      ∀ x, lost = some x → s.Routed r.stream r.group r.messageId)
    (fun lost => hfiled.and fun s s' hg h x hx => lasting_routed s s' hg (h x hx)) ?_) ?_)
  · refine safe_bind.2 (Safe.mono (keepsTo_lasting hfiled (.tryCatch (.bind (issues_perform ?_)
      fun _ => ?_) fun e => ?_) h₁) ?_)
    · trivial
    · trivial
    · cases e <;> first | exact .bind free_recheckWinner fun _ => trivial | trivial
    rintro (e | _ | winner) s₂ h₂
    · trivial
    · refine safe_bind.2 ((keepsTo_free hfiled hdelete h₂).mono ?_)
      rintro (e | _) s₃ h₃
      · trivial
      refine safe_bind.2 ((keepsTo_free hfiled hcommit h₃).mono ?_)
      rintro (e | _) s₄ h₄
      · trivial
      · exact ⟨h₄, by rintro x ⟨⟩⟩
    · refine safe_bind.2 ((keepsTo_and hfiled h₂ (keepsTo_step4 h₂)).mono ?_)
      rintro (e | result) s₃ h₃
      · trivial
      · exact ⟨h₃.1, fun _ _ => h₃.2⟩
  · rintro (e | _ | result) s₂ h₂
    · trivial
    · exact keepsTo_step4 h₂.1
    · exact h₂.2 result rfl

/-- A failure that is filed is routed in the end, unless another worker has the intent to. -/
theorem keepsTo_routeUnindexed {r : Routing}
    (hf : s.db.committed (.routing r.stream r.group r.messageId) = some fid) :
    KeepsTo env once p (routeUnindexed env ctx r fid)
      (outcome (fun result s => result ≠ .aborted → s.Routed r.stream r.group r.messageId)
        fun _ _ => True) s := by
  have hfiled : Lasting (P := P) fun s =>
      s.db.committed (.routing r.stream r.group r.messageId) = some fid := lasting_filed
  refine safe_bind.2 ((keepsTo_lasting hfiled free_captureRedisLowerBound hf).mono ?_)
  rintro (e | lowerBound) s₁ h₁
  · trivial
  refine safe_bind.2 (Safe.mono (keepsTo_withSession (Q := fun (adoption : AdoptionResult) s =>
    s.db.committed (.routing r.stream r.group r.messageId) = some fid ∧
      ∀ rid, adoption = .reconciledByUs rid → s.Routed r.stream r.group r.messageId)
    (fun adoption => hfiled.and fun s s' hg h rid hrid => lasting_routed s s' hg (h rid hrid)) ?_) ?_)
  · have hknown : IsFiled True fid s₁ := fun _ => ⟨_, _, _, h₁⟩
    refine safe_bind.2 ((keepsTo_and hfiled h₁ (keepsTo_acquireOrAdoptIntent 3 hknown)).mono ?_)
    rintro (e | adoption) s₂ h₂
    · trivial
    have hnoted : ∀ s s' : World P, Grown s s' → (∀ r, Frame (p, r) s.db s'.db) →
        (s.db.committed (.routing r.stream r.group r.messageId) = some fid ∧
          ∀ rid, adoption = .reconciledByUs rid → Noted p fid s) →
        s'.db.committed (.routing r.stream r.group r.messageId) = some fid ∧
          ∀ rid, adoption = .reconciledByUs rid → Noted p fid s' :=
      fun s s' hg hf h =>
        ⟨hfiled s s' hg h.1, fun rid hrid => noted_stable s s' hg hf (h.2 rid hrid)⟩
    refine safe_bind.2 (keepsTo_request _ hnoted ⟨h₂.1, fun rid hrid => h₂.2 rid hrid trivial⟩
      fun s₃ hs₃ _ h₃ => ⟨trivial, ?_⟩)
    rintro o (e | u) s₄ hex -
    · trivial
    · exact ⟨hfiled _ _ (grown_exec hs₃ hex) h₃.1, fun rid hrid =>
        routed_of_commit (view_routing hs₃ h₃.1 _) (h₃.2 rid hrid) hex⟩
  · rintro (e | lb | rid | _) s₂ h₂
    · trivial
    · refine (keepsTo_appendAndIndex h₂.1).mono ?_
      rintro (e | result) s₃ h₃
      · trivial
      · exact fun _ => h₃
    · exact fun _ => h₂.2 rid rfl
    · exact fun h => absurd rfl h

/-- A failure is filed, and its entry is the answer if it is routed. -/
theorem insertLog_answers (hs : s.Ledger) {row : LogInsert} {answer : ℤ × Option StreamId}
    (h : World.exec env p (.insertLog row) o s = some (.ok answer, s')) :
    s'.db.view (p, .main) (.routing row.streamName row.groupName row.originalMessageId) =
      some answer.1 ∧ (answer.2.isSome → Noted p answer.1 s') := by
  simp only [World.exec] at h
  obtain ⟨⟨y, s₁⟩, hsql, hx⟩ := Option.map_eq_some_iff.1 h
  cases hx
  obtain ⟨⟨x, db⟩, hstmt, hx⟩ := Option.map_eq_some_iff.1 hsql
  cases hx
  rcases statement_makes hstmt hs.unsaved with ⟨e, ⟨⟩, -⟩ | ⟨a, ⟨⟩, hok⟩
  simp only [World.insertLog] at hok
  split_ifs at hok
  · cases hok
  split at hok
  · cases hok
  · rename_i db₁ hinsert
    obtain ⟨⟨b, db₂⟩, hinsert', hdb⟩ := Option.map_eq_some_iff.1 hok
    cases hdb
    obtain ⟨⟨⟩, -⟩ | ⟨-, -, hlock, rfl⟩ := insertNew_cases hinsert
    refine ⟨?_, by rintro ⟨⟩⟩
    show db₂.view _ _ = _
    rcases insertNew_cases hinsert' with ⟨-, rfl, -⟩ | ⟨-, -, hlock', rfl⟩
    · exact view_put_self
    · rw [view_put_of_ne (by simp)]
      exact view_put_self
  · rename_i db₁ hinsert
    split at hok
    · cases hok
    · rename_i fid' hfid
      obtain ⟨⟨b, db₂⟩, hupdate, hdb⟩ := Option.map_eq_some_iff.1 hok
      cases hdb
      obtain ⟨-, rfl, -⟩ | ⟨⟨⟩, -⟩ := insertNew_cases hinsert
      -- The row that is there is written as it was.
      have hview : ∀ k, db₂.view (p, .main) k = s.db.view (p, .main) k := by
        intro k
        rcases updateRow_cases hupdate with ⟨-, rfl, -⟩ | ⟨-, v, hv, -, hl, rfl⟩
        · rfl
        · by_cases hk : k = .log fid'
          · subst hk
            rw [view_put_self, hv]
            rfl
          · exact view_put_of_ne hk
      refine ⟨(hview _).trans hfid, fun hsome => ?_⟩
      obtain ⟨rid, hrid⟩ := Option.isSome_iff_exists.1 hsome
      obtain ⟨row', hrow', hrid'⟩ := Option.bind_eq_some_iff.1 hrid
      exact ⟨row', (hview _).trans hrow', Option.isSome_iff_exists.2 ⟨rid, hrid'⟩⟩

/-- A failure is routed in the end, unless another worker has the intent to, or an exception is
    raised. -/
theorem keepsTo_routeToDeadletter {r : Routing} (s : World P) :
    KeepsTo env once p (routeToDeadletter env ctx r)
      (outcome (fun result s => result ≠ .aborted → s.Routed r.stream r.group r.messageId)
        fun _ _ => True) s := by
  refine safe_bind.2 (Safe.mono (keepsTo_withSession (Q := fun (row : ℤ × Option StreamId) s =>
    s.db.committed (.routing r.stream r.group r.messageId) = some row.1 ∧
      (row.2.isSome → s.Routed r.stream r.group r.messageId))
    (fun row => lasting_filed.and fun s s' hg h hsome => lasting_routed s s' hg (h hsome)) ?_) ?_)
  · cases coerceJsonbStr env r.payloadExcerpt with
    | error e => trivial
    | ok payload =>
      refine safe_bind.2 (keepsTo_request (fun _ => True) (fun _ _ _ _ h => h) trivial
        fun s₁ hs₁ _ _ => ⟨trivial, ?_⟩)
      rintro o (e | row) s₂ hex -
      · trivial
      have h₂ := insertLog_answers hs₁ hex
      refine safe_bind.2 (keepsTo_request (fun s =>
        s.db.view (p, .main) (.routing r.stream r.group r.messageId) = some row.1 ∧
          (row.2.isSome → Noted p row.1 s)) (fun s s' hg hf h => ?_) h₂ fun s₃ hs₃ _ h₃ =>
            ⟨trivial, ?_⟩)
      · exact ⟨hg.rows.view (hf .main) (.routing r.stream r.group r.messageId) row.1 h.1,
          fun hsome => noted_stable s s' hg hf (h.2 hsome)⟩
      · rintro o (e | u) s₄ hex₄ -
        · trivial
        · refine ⟨?_, fun hsome => routed_of_commit h₃.1 (h₃.2 hsome) hex₄⟩
          rw [committed_of_commit hex₄]
          exact h₃.1
  rintro (e | ⟨fid, _ | rid⟩) s₁ h₁
  · trivial
  swap
  · exact fun _ => h₁.2 rfl
  have hfiled : Lasting (P := P) fun s =>
      s.db.committed (.routing r.stream r.group r.messageId) = some fid := lasting_filed
  have hselect : (Cmd.selectIndex .main fid).IsFree := trivial
  refine safe_bind.2 ((keepsTo_lasting hfiled (free_withSession (issues_perform hselect))
    h₁.1).mono ?_)
  rintro (e | _ | rid) s₂ h₂
  · trivial
  · exact keepsTo_routeUnindexed h₂
  · refine (keepsTo_step4 h₂).mono ?_
    rintro (e | result) s₃ h₃
    · trivial
    · exact fun _ => h₃

/-- An entry that cannot be processed is acknowledged once its failure is routed. -/
theorem keepsTo_route {c : Consumer} {mid : StreamId} {u : Uuid} {fields : Fields}
    {failureCount : ℤ} {lastError : String} (s : World P) :
    KeepsTo env once p (route env c mid u fields failureCount lastError) (fun _ _ => True) s := by
  have hack : ∀ s, s.Routed c.stream c.group (ridStr mid) →
      KeepsTo env once p (ignoringRedisError (request (.xack c.stream c.group mid)))
        (fun _ _ => True) s := by
    refine fun s h => safe_tryCatch.2 (keepsTo_request _ (fun s s' hg _ =>
      lasting_routed s s' hg) h fun s₁ _ _ h₁ => ⟨fun f _ => .inl h₁, ?_⟩)
    rintro o (e | _) s₂ - -
    · simp only [outcome]
      cases e <;> trivial
    · trivial
  refine safe_bind.2 ((keepsTo_routeToDeadletter s).mono ?_)
  rintro (e | rid | rid | _) s₁ h₁
  · trivial
  · exact hack s₁ (h₁ (by rintro ⟨⟩))
  · exact hack s₁ (h₁ (by rintro ⟨⟩))
  · trivial

end

end Deadletter

end AslanCore
