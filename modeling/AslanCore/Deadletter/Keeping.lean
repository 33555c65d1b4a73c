import AslanCore.Deadletter.Bookkeeping

/-!
# Programs that keep to the outline of the ledger

How a program of the consumers is shown to know what it has to (`KeepsTo`), whatever the other
processes do between its steps.

* What lasts is kept by every command (`keepsTo_lasting`);
* what a process has in its transaction is kept by the others, and by its own commands as far as
  they are about something else: that a failure is seen to be routed (`Noted`), that it is locked
  (`Holds`), that it is routed here and not recorded yet (`Routes`).
-/

set_option linter.unusedSectionVars false

namespace AslanCore

namespace Deadletter

open Outline Prog World Database
open Streams (Uuid KnownStreamEvent)

/-- A command that may be issued at any time. -/
def Cmd.IsFree : Cmd → Prop
  | .xack _ _ _ | .ackScript _ _ _ _ _ _ => False
  | .insertAudit _ e => e.operation ≠ "stream.deadletter"
  | _ => True

/-- A program of the consumers keeps to the outline. -/
abbrev KeepsTo {P : Type} [DecidableEq P] (env : Env) (once : Prop) (p : P) {α : Type}
    (m : Program α) (Q : Except Exn α → World P → Prop) (s : World P) : Prop :=
  (ledgerOutline P env once).left.Safe (daemons env P).left (stillStuck P once).left p m Q s

section

variable {P : Type} [DecidableEq P] {env : Env} {once : Prop} {p : P} {α : Type} {s s' : World P}
  {ctx : Context}

/-! ### Commands -/

theorem knows_of_isFree {c : Cmd} (hc : c.IsFree) (p : P) (s : World P) :
    Knows env once p s c := by
  cases c <;> try trivial
  exact fun _ fid his => absurd his.1 hc

/-- A command of a process that knows what it has to. -/
theorem keepsTo_request {c : Cmd} {Q : Except Exn (Reply c) → World P → Prop} (a : World P → Prop)
    (ha : ∀ s s', Grown s s' → (∀ r, Frame (p, r) s.db s'.db) → a s → a s') (h : a s)
    (hc : ∀ s₁, s₁.Ledger → (once → s₁.Audited) → a s₁ → Knows env once p s₁ c ∧
      ∀ o x s₂, World.exec env p c o s₁ = some (x, s₂) → s₂.Ledger → Q x s₂) :
    KeepsTo env once p (request c) Q s := by
  refine safe_perform a (fun s s' hr => ha s s' hr.1 hr.2) h fun s₁ hs₁ h₁ => ?_
  obtain ⟨hk, hQ⟩ := hc s₁ hs₁.1 hs₁.2 h₁
  exact ⟨hk, fun o x s₂ _ hex hs₂ => hQ o.toChoice x s₂ hex hs₂.1⟩

/-- What lasts is kept by a command that may be issued at any time. -/
theorem keepsTo_free {c : Cmd} {a : World P → Prop} (ha : Lasting a) (hc : c.IsFree) (h : a s) :
    KeepsTo env once p (request c) (fun _ => a) s :=
  keepsTo_request a (fun s s' hg _ => ha s s' hg) h fun s₁ hs₁ _ h₁ =>
    ⟨knows_of_isFree hc p s₁, fun _ _ s₂ hex _ => ha s₁ s₂ (grown_exec hs₁ hex) h₁⟩

/-- What lasts is kept by a program of such commands. -/
theorem keepsTo_lasting {m : Program α} {a : World P → Prop} (ha : Lasting a)
    (hm : m.Issues Cmd.IsFree) (h : a s) : KeepsTo env once p m (fun _ => a) s := by
  induction m generalizing s with
  | ret x => exact h
  | raise e => exact h
  | call c k ih =>
    exact fun s₁ hr hs₁ => ⟨knows_of_isFree hm.1 p s₁, fun o x s₂ _ hex _ => ih x (hm.2 x)
      (ha s₁ s₂ (grown_exec hs₁.1 hex) (ha s s₁ hr.1 h))⟩

/-- What lasts is kept by any program. -/
theorem keepsTo_and {m : Program α} {a : World P → Prop} {Q : Except Exn α → World P → Prop}
    (ha : Lasting a) (h : a s) (hm : KeepsTo env once p m Q s) :
    KeepsTo env once p m (fun x s => a s ∧ Q x s) s := by
  induction m generalizing s with
  | ret x => exact ⟨h, hm⟩
  | raise e => exact ⟨h, hm⟩
  | call c k ih =>
    intro s₁ hr hs₁
    obtain ⟨hk, hm⟩ := hm s₁ hr hs₁
    exact ⟨hk, fun o x s₂ hg hex hs₂ => ih x
      (ha s₁ s₂ (grown_exec hs₁.1 hex) (ha s s₁ hr.1 h)) (hm o x s₂ hg hex hs₂)⟩

/-- A session is closed. -/
theorem keepsTo_withSession {r : Role} {body : Program α} {Q : α → World P → Prop}
    (hQ : ∀ x, Lasting (Q x)) (h : KeepsTo env once p body (outcome Q fun _ _ => True) s) :
    KeepsTo env once p (withSession r body) (outcome Q fun _ _ => True) s := by
  have hclose : (Cmd.close r).IsFree := trivial
  refine safe_ensuring.2 (h.mono fun x s₁ hx => ?_)
  rcases x with e | x
  · refine (keepsTo_free lasting_true hclose trivial).mono ?_
    rintro (e' | _) s₂ - <;> trivial
  · refine (keepsTo_free (hQ x) hclose hx).mono ?_
    rintro (e' | _) s₂ hx'
    · trivial
    · exact hx'

/-! ### Free programs -/

/-- A program that may be run at any time. -/
theorem keepsTo_of_issues {m : Program α} (hm : m.Issues Cmd.IsFree) (s : World P) :
    KeepsTo env once p m (fun _ _ => True) s :=
  keepsTo_lasting lasting_true hm trivial

theorem free_withSession {r : Role} {body : Program α} (h : body.Issues Cmd.IsFree) :
    (withSession r body).Issues Cmd.IsFree :=
  .ensuring h (issues_perform trivial)

/-- An orphan is searched for by reading the stream. -/
theorem issues_searching {ok : Cmd → Prop} (hinfo : ∀ n, ok (.xinfoStream n))
    (hrange : ∀ n lo hi count, ok (.xrange n lo hi count)) {stream : String}
    {lowerBound : StreamId} {fid : ℤ} :
    (findOrphanInDeadletterStream env stream lowerBound fid).Issues ok := by
  have hpages : ∀ (upperBound : StreamId) (fuel : ℕ) (cursor : StreamId),
      (findInPages env stream upperBound fid fuel cursor).Issues ok := by
    intro upperBound fuel
    induction fuel with
    | zero => exact fun _ => trivial
    | succ fuel ih =>
      refine fun cursor => .bind (issues_perform (hrange _ _ _ _)) fun page => ?_
      split
      · trivial
      · split
        · trivial
        · trivial
        · dsimp only
          split_ifs
          · trivial
          · exact ih _
  refine .bind (.tryCatch (issues_perform (hinfo _)) fun e => ?_) fun lastEntry => ?_
  · split <;> trivial
  · split
    · trivial
    · split_ifs
      · trivial
      · exact hpages _ _ _

theorem free_findOrphan {stream : String} {lowerBound : StreamId} {fid : ℤ} :
    (findOrphanInDeadletterStream env stream lowerBound fid).Issues Cmd.IsFree :=
  issues_searching (fun _ => trivial) fun _ _ _ _ => trivial

theorem free_captureRedisLowerBound {stream : String} :
    (captureRedisLowerBound stream).Issues Cmd.IsFree := by
  refine .bind (.tryCatch (issues_perform trivial) fun e => ?_) fun _ => trivial
  split <;> trivial

theorem free_ignoringRedisError {body : Program Unit} (h : body.Issues Cmd.IsFree) :
    (ignoringRedisError body).Issues Cmd.IsFree :=
  .tryCatch h fun e => by cases e <;> trivial

theorem free_recheckWinner {r : Routing} {fid : ℤ} {rid : StreamId} {e : Exn} :
    (recheckWinner r fid rid e).Issues Cmd.IsFree := by
  refine .bind (issues_perform trivial) fun _ =>
    .bind (free_ignoringRedisError (issues_perform trivial)) fun _ =>
      .bind (free_withSession (issues_perform trivial)) fun winner => ?_
  split <;> trivial

theorem free_logged {body : Program Unit} (h : body.Issues Cmd.IsFree) :
    (logged body).Issues Cmd.IsFree :=
  .tryCatch h fun _ => issues_perform trivial

/-- The third pass records no failure as routed. -/
theorem free_pass3 : pass3IndexToStreamVerification.Issues Cmd.IsFree := by
  refine .bind (free_withSession (issues_perform trivial)) fun rows =>
    issues_forEach (fun row => free_withSession (free_logged ?_)) _
  refine .bind (issues_perform trivial) fun entries => ?_
  split
  · trivial
  · refine .bind (issues_perform trivial) fun audited => ?_
    split_ifs
    · trivial
    · exact .bind (issues_perform (by simp [Cmd.IsFree, orphanedInRedisRecord, orphanedInRedis]))
        fun _ => issues_perform trivial

theorem free_reconcileEntry {n : String} {rid : StreamId} {fid : ℤ} :
    (reconcileEntry n rid fid).Issues Cmd.IsFree := by
  refine .bind (issues_perform trivial) fun existing => ?_
  split
  · split_ifs
    · trivial
    · exact .bind (issues_perform trivial) fun _ =>
        .bind (issues_perform (by simp [Cmd.IsFree, duplicateRecord])) fun _ =>
          issues_perform trivial
  · refine .bind (issues_perform trivial) fun logExists => ?_
    dsimp only
    split_ifs
    · exact .bind (issues_perform trivial) fun _ => .bind (issues_perform trivial) fun _ =>
        .bind (issues_perform (by simp [Cmd.IsFree, reconciledRecord])) fun _ =>
          issues_perform trivial
    · exact .bind (issues_perform trivial) fun _ =>
        .bind (issues_perform (by simp [Cmd.IsFree, unknownRecord])) fun _ =>
          issues_perform trivial

/-- So does the fourth one. -/
theorem free_pass4 {window : ℕ} :
    (pass4StreamToIndexDefenseInDepth env window).Issues Cmd.IsFree := by
  refine .bind (free_withSession (issues_perform trivial)) fun streams =>
    issues_forEach (fun n => .bind (.tryCatch ?_ fun e => ?_) fun entries => ?_) _
  · exact .bind (issues_perform trivial) fun _ => trivial
  · split <;> trivial
  · split
    · trivial
    · trivial
    · refine issues_forEach (fun e => ?_) _
      rw [reconcileFields]
      split
      · trivial
      · split
        · trivial
        · split
          · trivial
          · exact free_withSession (free_logged free_reconcileEntry)

end

/-! ### In a transaction -/

section

variable {P : Type} [DecidableEq P] {env : Env} {once : Prop} {p : P} {s s' : World P}
  {ctx : Context} {c : Cmd} {o : Choice} {n g m : String} {fid : ℤ} {rid : StreamId}

/-- The transaction of the process sees that the failure is routed. -/
def Noted (p : P) (fid : ℤ) (s : World P) : Prop :=
  ∃ row, s.db.view (p, .main) (.log fid) = some row ∧ row.redisMessageId.isSome

/-- The transaction of the process has the failure locked, and it is not routed. -/
structure Holds (p : P) (fid : ℤ) (s : World P) : Prop where
  owner : s.db.owner (.log fid) = some (p, .main)
  stuck : ∃ row, s.db.view (p, .main) (.log fid) = some row ∧ row.isStuck = true

theorem noted_of_le (h : Noted p fid s)
    (hle : rowOrder.le (.log fid) (s.db.view (p, .main) (.log fid))
      (s'.db.view (p, .main) (.log fid))) : Noted p fid s' := by
  obtain ⟨row, hrow, hsome⟩ := h
  obtain ⟨rid, hrid⟩ := Option.isSome_iff_exists.1 hsome
  obtain ⟨row', hrow', hkeeps⟩ := rowOrder_log hle hrow
  exact ⟨row', hrow', Option.isSome_iff_exists.2 ⟨rid, hkeeps rid hrid⟩⟩

/-- Others leave to the process what it sees. -/
theorem noted_stable (s s' : World P) (hg : Grown s s')
    (hf : ∀ r, Frame (p, r) s.db s'.db) (h : Noted p fid s) : Noted p fid s' :=
  noted_of_le h (hg.rows.view (hf .main) _)

theorem holds_stable (s s' : World P) (_ : Grown s s') (hf : ∀ r, Frame (p, r) s.db s'.db)
    (h : Holds p fid s) : Holds p fid s' :=
  ⟨((hf .main).owner _).2 h.owner, by rw [(hf .main).view h.owner]; exact h.stuck⟩

theorem routes_stable (s s' : World P) (_ : Grown s s') (hf : ∀ r, Frame (p, r) s.db s'.db)
    (h : Routes p fid rid s) : Routes p fid rid s' := by
  have hpending := (hf .main).pending
  refine ⟨by rw [hpending]; exact h.pending, ?_, fun n e he => h.fresh n e (by rwa [hpending] at he)⟩
  obtain ⟨row, hrow, -⟩ := h.pending
  have howner := s.db.owner_of_pending _ _ (Option.isSome_iff_exists.2 ⟨_, hrow⟩)
  rw [(hf .main).committed _ howner]
  exact h.stuck

theorem Routes.noted (h : Routes p fid rid s) : Noted p fid s := by
  obtain ⟨row, hrow, hrid⟩ := h.pending
  exact ⟨row, by rw [view, hrow]; rfl, Option.isSome_iff_exists.2 ⟨rid, hrid⟩⟩

section

variable {a : Reply c} (hs : s.Ledger) (hends : c.ends = false)
  (h : World.exec env p c o s = some (.ok a, s'))
include hs hends h

/-- A statement that answers makes its writes. -/
theorem makes_of_ok :
    Makes (p, c.role) (Writes (c.May s.nextAuditId) (p, c.role)) s.db s'.db := by
  rcases exec_db hs.unsaved hs.tidy h with h | ⟨⟨e, ⟨⟩⟩, -⟩ | ⟨he, -⟩
  · exact h
  · cases hends.symm.trans he

/-- What the transaction sees of a failure is later after its statements. -/
theorem le_view_of_ok (k : Key) :
    rowOrder.le k (s.db.view (p, .main) k) (s'.db.view (p, .main) k) := by
  have hmakes := makes_of_ok hs hends h
  by_cases hr : c.role = .main
  · rw [← hr]
    exact hmakes.rises_view (fun _ _ _ hw => hw.later) k
  · have hne : (p, Role.main) ≠ (p, c.role) := by simpa using fun h => hr h.symm
    rw [view, view, (hmakes.frame hne).pending, hmakes.committed]
    exact rowOrder.refl _ _

/-- A row that is not written is pending as it was. -/
theorem pending_of_ok {k : Key} (hk : ¬c.May s.nextAuditId k) :
    s'.db.pending (p, .main) k = s.db.pending (p, .main) k := by
  have hmakes := makes_of_ok hs hends h
  by_cases hr : c.role = .main
  · rw [hr] at hmakes
    exact hmakes.pending_of_not fun _ _ hw => hk hw.may
  · have hne : (p, Role.main) ≠ (p, c.role) := by simpa using fun h => hr h.symm
    rw [(hmakes.frame hne).pending]

theorem committed_of_ok : s'.db.committed = s.db.committed := (makes_of_ok hs hends h).committed

theorem noted_of_ok (hn : Noted p fid s) : Noted p fid s' :=
  noted_of_le hn (le_view_of_ok hs hends h _)

/-- The failure stays locked, and as it is, when another row is written. -/
theorem holds_of_ok (hmay : ¬c.May s.nextAuditId (.log fid)) (hh : Holds p fid s) :
    Holds p fid s' := by
  refine ⟨?_, ?_⟩
  · have hmakes := makes_of_ok hs hends h
    by_cases hr : c.role = .main
    · rw [hr] at hmakes
      exact hmakes.owner hh.owner
    · have hne : (p, Role.main) ≠ (p, c.role) := by simpa using fun h => hr h.symm
      exact ((hmakes.frame hne).owner _).2 hh.owner
  · rw [view, pending_of_ok hs hends h hmay, committed_of_ok hs hends h]
    exact hh.stuck

/-- The transaction has still not recorded the failure when it does something else. -/
theorem routes_of_ok (hlog : ¬c.May s.nextAuditId (.log fid))
    (haudit : ∀ n, ¬c.May s.nextAuditId (.audit n)) (hh : Routes p fid rid s) :
    Routes p fid rid s' := by
  refine ⟨?_, ?_, fun n e he => ?_⟩
  · rw [pending_of_ok hs hends h hlog]
    exact hh.pending
  · rw [committed_of_ok hs hends h]
    exact hh.stuck
  · rw [pending_of_ok hs hends h (haudit n)] at he
    exact hh.fresh n e he

end

/-- What a committed transaction has seen is committed. -/
theorem committed_of_commit {r : Role} {u : Unit}
    (h : World.exec env p (.commit r) o s = some (.ok u, s')) :
    s'.db.committed = s.db.view (p, r) := by
  have hcommit : s.db.commit (p, r) o.fault Exn.sql = (.ok u, s'.db) := by
    rcases hc : s.db.commit (p, r) o.fault Exn.sql with ⟨res, db⟩
    simp only [World.exec, hc] at h
    cases h
    rfl
  rcases commit_cases hcommit with ⟨⟨⟩, -⟩ | ⟨-, hdb, -⟩
  rw [hdb]
  rfl

/-- A failure that is filed is seen by all. -/
theorem view_routing (hs : s.Ledger) (hf : s.db.committed (.routing n g m) = some fid)
    (t : P × Role) : s.db.view t (.routing n g m) = some fid :=
  hs.ascending.le_view t (.routing n g m) fid hf

/-- A failure that a transaction has filed, and seen to be routed, is routed once it is committed. -/
theorem routed_of_commit (hf : s.db.view (p, .main) (.routing n g m) = some fid)
    (hn : Noted p fid s) {u : Unit}
    (h : World.exec env p (.commit .main) o s = some (.ok u, s')) : s'.Routed n g m := by
  obtain ⟨row, hrow, hsome⟩ := hn
  refine ⟨fid, row, ?_, ?_, hsome⟩
  · rw [committed_of_commit h]
    exact hf
  · rw [committed_of_commit h]
    exact hrow

/-! ### Audit events -/

/-- Something else than a routing is recorded. -/
theorem free_auditRecord {r : Role} {record : AuditRecord}
    (hop : record.operation ≠ "stream.deadletter") :
    (auditRecord ctx r record).Issues Cmd.IsFree := by
  rw [auditRecord]
  split
  · trivial
  · rename_i e he
    refine issues_perform ?_
    show e.operation ≠ _
    rw [AuditEvent.toAuditRecord_of_record he]
    exact hop

/-- What is seen of a failure is still seen when something is recorded. -/
theorem keepsTo_auditRecord {r : Role} {record : AuditRecord} {a : World P → Prop}
    (ha : ∀ s s', Grown s s' → (∀ r, Frame (p, r) s.db s'.db) → a s → a s') (h : a s)
    {Q : World P → Prop}
    (hc : ∀ e s₁, AuditEvent.record ctx.auditStrict ctx.currentActor record = some e →
      s₁.Ledger → a s₁ → Knows env once p s₁ (.insertAudit r e) ∧
        ∀ o s₂, World.exec env p (.insertAudit r e) o s₁ = some (.ok (), s₂) → Q s₂) :
    KeepsTo env once p (auditRecord ctx r record) (outcome (fun _ => Q) fun _ _ => True) s := by
  rw [auditRecord]
  split
  · trivial
  · rename_i e he
    refine keepsTo_request a ha h fun s₁ hs₁ _ h₁ => ?_
    obtain ⟨hk, hQ⟩ := hc e s₁ he hs₁ h₁
    refine ⟨hk, fun o x s₂ hex _ => ?_⟩
    rcases x with e' | ⟨⟩
    · trivial
    · exact hQ o s₂ hex

end

end Deadletter

end AslanCore
