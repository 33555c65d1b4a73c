import Mathlib.Data.Finset.Card
import Mathlib.Data.Finset.Range
import AslanCore.Outbox.Delivery
import AslanCore.Process.Alone

/-!
# Progress

A drainer that is alone publishes every row in the end, when nothing fails but `XADD` for
some of the events, and these rows leave it room: each batch selects the oldest pending
rows, and those that fail stay pending (`drainer_progress`). As many of them as the batch
may select keep the drainer from the rows after them (`drainer_starves`).

What a batch does is `batch_run`, and that it is not kept waiting `exec_enabled`.
-/

set_option linter.unusedSectionVars false

namespace AslanCore

namespace Outbox

open Database Prog Outline

variable {P Payload : Type} [DecidableEq P] {env : Env Payload} {M : Mode P Payload}
  {p : P} {s s' : World P Payload}

/-! ### The commands of an iteration -/

/-- The commands that do not commit rows of the outbox. -/
def Cmd.Interim : Cmd Payload → Prop
  | .commit .batch | .publish _ => False
  | _ => True

/-- The commands that do not insert rows in the outbox. -/
def Cmd.Draining : Cmd Payload → Prop
  | .publish _ => False
  | _ => True

theorem Cmd.Interim.draining {c : Cmd Payload} (h : c.Interim) : c.Draining := by
  cases c <;> first | exact h | trivial

section Issues

variable {ok : Cmd Payload → Prop} {ρ : Role} {n e : String} {rid lower upper cursor : StreamId}

theorem issues_indexEntry (hρ : ρ ≠ .batch) : (indexEntry ρ e n rid : Program Payload Unit).Issues
    Cmd.Interim := by
  refine Issues.ensuring (Issues.bind (issues_perform trivial) fun _ => issues_perform ?_)
    (issues_perform trivial)
  cases ρ <;> first | exact absurd rfl hρ | trivial

theorem issues_scanPages {fuel : ℕ} :
    (scanPages n e upper fuel cursor : Program Payload Unit).Issues Cmd.Interim := by
  induction fuel generalizing cursor with
  | zero => trivial
  | succ fuel ih =>
    refine Issues.bind (issues_perform trivial) fun page => ?_
    cases page.getLast? with
    | none => trivial
    | some last =>
      refine Issues.bind (issues_forEach (fun entry => ?_) page) fun _ => ?_
      · rw [indexMatch]
        split
        · trivial
        · split_ifs
          · trivial
          · exact issues_indexEntry (by decide)
      · dsimp only
        split_ifs
        · trivial
        · exact ih

theorem issues_reconcile :
    (reconcileUnindexedXadd n e lower : Program Payload Unit).Issues Cmd.Interim := by
  refine Issues.bind (Issues.tryCatch (issues_perform trivial) fun e => ?_) fun last => ?_
  · split <;> trivial
  · cases last with
    | none => trivial
    | some upper =>
      rw [scanFrom]
      split_ifs
      · trivial
      · exact issues_scanPages

theorem issues_drainRow {maxlen : ℕ} {acc : ℕ × ℕ} {row : Row Payload} :
    (drainRow env maxlen acc row).Issues Cmd.Interim := by
  refine Issues.bind (issues_perform trivial) fun _ => Issues.bind ?_ fun lower =>
    Issues.tryCatch (Issues.bind ?_ fun _ => trivial) fun e => Issues.bind ?_ fun _ => trivial
  · refine Issues.tryCatch (Issues.bind (issues_perform trivial) fun last => ?_) fun e => ?_
    · cases last with
      | none => trivial
      | some last => exact trivial
    · split <;> trivial
  · refine Issues.bind (issues_perform trivial) fun rid =>
      Issues.bind (issues_indexEntry (by decide)) fun _ =>
      Issues.bind (issues_perform trivial) fun _ => Issues.bind (issues_perform trivial) fun _ =>
      issues_perform trivial
  · refine Issues.bind (issues_perform trivial) fun _ =>
      Issues.bind (Issues.tryCatch issues_reconcile fun _ => trivial) fun _ =>
      Issues.bind (issues_perform trivial) fun _ => Issues.bind (issues_perform trivial) fun _ =>
      Issues.bind (issues_perform trivial) fun _ => Issues.bind (issues_perform trivial) fun _ =>
      trivial

theorem issues_drainOneBatch {args : DrainArgs} :
    (drainOneBatch env args).Issues Cmd.Interim := by
  refine Issues.bind (issues_perform trivial) fun rows => ?_
  cases rows with
  | nil => trivial
  | cons row rest =>
    exact Issues.bind (issues_perform trivial) fun _ =>
      Issues.bind (issues_foldlM (fun _ _ => issues_drainRow) _ _) fun _ => trivial

theorem issues_drainOutbox {args : DrainArgs} : (drainOutbox env args).Issues Cmd.Draining := by
  refine Issues.bind (Issues.ensuring (Issues.bind (Issues.mono issues_drainOneBatch
    fun _ h => h.draining)
    fun acc => ?_) (issues_perform trivial)) fun _ => Issues.bind (Issues.ensuring
      (issues_perform trivial) (issues_perform trivial)) fun _ => trivial
  dsimp only
  split_ifs
  · exact Issues.bind (issues_perform trivial) fun _ => issues_perform trivial
  · exact issues_perform trivial

end Issues

/-! ### A drainer that is alone is not kept waiting -/

section Enabled

variable {t : P × Role} {k : Key}

theorem sql_enabled {α : Type}
    {stmt : Option (Except Exn (α × Database (P × Role) Key (RowOf Payload)))}
    (h : stmt.isSome) : (s.sql t .none stmt).isSome := by
  rw [World.sql, Option.isSome_map, statement]
  split_ifs
  · simpa using h
  · rfl

theorem insertNew_enabled {v : RowOf Payload k} (h : ∀ t', s.db.owner k = some t' → t' = t) :
    (s.db.insertNew t k v).isSome := by
  have hlock : s.db.CanLock t k false := ⟨fun t' ht => h t' ht, nofun⟩
  have hfree : ¬s.db.Contended t k := by
    rintro ⟨t', ht, hne, _⟩
    exact hne (h t' ht)
  rw [insertNew, if_neg hfree]
  split_ifs <;> rfl

theorem updateRow_enabled {w : RowOf Payload k → Bool} {f : RowOf Payload k → RowOf Payload k}
    (h : s.db.owner k = some t) : (s.db.updateRow t k w f).isSome := by
  have hlock : s.db.CanLock t k false := by
    refine ⟨fun t' ht => ?_, nofun⟩
    rw [h] at ht
    exact (Option.some.inj ht).symm
  rw [updateRow]
  split
  · rfl
  · split_ifs <;> rfl

/-- Rows that may be locked, and are there, can be locked one after the other. -/
theorem lockRows_enabled {is : List ℕ} {db : Database (P × Role) Key (RowOf Payload)}
    (h : ∀ i ∈ is, (db.view t (.outbox i)).isSome ∧ db.CanLock t (.outbox i) true) :
    (World.lockRows t is db).isSome := by
  induction is generalizing db with
  | nil => rfl
  | cons i is ih =>
    obtain ⟨hv, hl⟩ := h i (List.mem_cons_self ..)
    obtain ⟨v, hv⟩ := Option.isSome_iff_exists.1 hv
    have hsel : db.selectForUpdate t (.outbox i) =
        some (some v, db.lockRow t (.outbox i) true hl) := by
      rw [selectForUpdate]
      split
      · rename_i hn
        rw [hv] at hn
        cases hn
      · rename_i w hw
        cases Option.some.inj (hv.symm.trans hw)
        rw [dif_pos hl]
    rw [World.lockRows, hsel, Option.isSome_map]
    -- The rows that follow may still be locked.
    refine ih fun j hj => ?_
    obtain ⟨hvj, ho, hr⟩ := h j (List.mem_cons_of_mem _ hj)
    refine ⟨hvj, fun t' ht => ?_, hr⟩
    rw [owner_lockRow] at ht
    by_cases hji : (Key.outbox j) = .outbox i
    · rw [hji, Function.update_self] at ht
      exact (Option.some.inj ht).symm
    · rw [Function.update_of_ne hji] at ht
      exact ho t' ht

/-- The pending rows can be ordered, and the first ones locked. -/
theorem selectPending_enabled (n : ℕ) :
    ∃ is, (World.exec p (.selectPending n) { rows := is } s).isSome := by
  have hnodup : (s.available (p, .batch)).Nodup := List.nodup_range.filter _
  obtain ⟨is, his⟩ := IsTop.exists_of_nodup (s.createdAt (p, .batch)) n hnodup
  refine ⟨is, sql_enabled ?_⟩
  rw [if_pos his, Option.isSome_map]
  refine lockRows_enabled fun i hi => ?_
  have hav := his.subset i hi
  simp only [World.available, List.mem_filter, decide_eq_true_eq] at hav
  exact ⟨Option.isSome_of_any hav.2.1, hav.2.2⟩

end Enabled

/-- `XADD` fails for the events in `poison`, and nothing else fails. No process is killed. -/
abbrev xaddFails (poison : String → Prop) :
    Guard (Cmd Payload) P (Job Payload) Choice (World P Payload) where
  step _ c o _ := o.fault ≠ .none ↔
    ∃ n f m e, c = .xadd n f m ∧ f.lookup "event_id" = some e ∧ poison e
  kill _ _ := False

/-- The runs where `XADD` fails for the events in `poison`, and nothing else does. -/
def poisonedRun (poison : String → Prop) : Mode P Payload where
  guard := xaddFails poison
  steady := True
  healthy e := ¬poison e
  lossless := False
  steady_step _ _ _ _ _ hg := by simpa only [not_not] using hg
  steady_kill _ _ _ hg := hg.elim
  lossless_step h := h.elim
  lossless_kill h := h.elim

/-- No command of the only process waits. -/
theorem exec_enabled {poison : String → Prop} {s : World Unit Payload} {c : Cmd Payload}
    (hc : c.Draining) (hk : Know env (poisonedRun poison) () c s) :
    ∃ o r s', (xaddFails poison).step () c o s ∧ World.exec () c o s = some (r, s') := by
  classical
  -- What is locked is locked by the session that asks for it.
  have hown : ∀ {ρ k}, Unlocked () ρ k s → ∀ t', s.db.owner k = some t' → t' = ((), ρ) := by
    rintro ρ k hu ⟨u, ρ'⟩ ht
    cases hu ρ' ht
    rfl
  have hsome : ∀ o : Choice, (xaddFails poison).step () c o s → (World.exec () c o s).isSome →
      ∃ o r s', (xaddFails poison).step () c o s ∧ World.exec () c o s = some (r, s') := by
    intro o ho hx
    obtain ⟨⟨r, s'⟩, hx⟩ := Option.isSome_iff_exists.1 hx
    exact ⟨o, r, s', ho, hx⟩
  have hnone : ∀ o : Choice, o.fault = .none → (∀ n f m, c ≠ .xadd n f m) →
      (xaddFails poison).step () c o s := by
    intro o ho hx
    refine ⟨fun h => absurd ho h, ?_⟩
    rintro ⟨n, f, m, e, hc, _⟩
    exact absurd hc (hx n f m)
  cases c with
  | publish => exact hc.elim
  | selectPending n =>
    obtain ⟨is, hx⟩ := selectPending_enabled (p := ()) (s := s) n
    exact hsome _ (hnone _ rfl (by simp)) hx
  | xadd n f m =>
    -- Redis draws the next identifier.
    have hid : (s.streams.get n).lastId < (s.streams.get n).lastId.succ :=
      StreamId.lt_iff_succ_le.2 le_rfl
    by_cases hp : ∃ e, f.lookup "event_id" = some e ∧ poison e
    · refine hsome { fault := .refused, id := (s.streams.get n).lastId.succ } ?_ ?_
      · obtain ⟨e, he⟩ := hp
        exact ⟨fun _ => ⟨n, f, m, e, rfl, he⟩, fun _ => nofun⟩
      · rw [World.exec, dif_pos hid]
        rfl
    · refine hsome { id := (s.streams.get n).lastId.succ } ?_ ?_
      · refine ⟨fun h => absurd rfl h, ?_⟩
        rintro ⟨_, _, _, e, hx, he⟩
        cases hx
        exact absurd ⟨e, he⟩ hp
      · rw [World.exec, dif_pos hid]
        rfl
  | xinfoStream n =>
    refine hsome {} (hnone _ rfl (by simp)) ?_
    rw [World.exec]
    split <;> rfl
  | insertIndex ρ e n rid =>
    refine hsome {} (hnone _ rfl (by simp)) (sql_enabled ?_)
    rw [Option.isSome_map]
    exact insertNew_enabled (hown (hk.2 trivial))
  | insertAudit e =>
    refine hsome {} (hnone _ rfl (by simp)) ?_
    rw [World.exec, Option.isSome_map]
    refine sql_enabled ?_
    rw [Option.isSome_map]
    exact insertNew_enabled (hown (hk.2 trivial))
  | markPublished rid i =>
    refine hsome {} (hnone _ rfl (by simp)) (sql_enabled ?_)
    rw [Option.isSome_map]
    exact updateRow_enabled hk.2.1
  | recordFailure err i =>
    refine hsome {} (hnone _ rfl (by simp)) (sql_enabled ?_)
    rw [Option.isSome_map]
    exact updateRow_enabled hk.2
  | beginNested | releaseSavepoint | selectAttempts | countPending =>
    exact hsome {} (hnone _ rfl (by simp)) (sql_enabled rfl)
  | now | rollbackToSavepoint | xrevrange | xrange | commit | close =>
    exact hsome {} (hnone _ rfl (by simp)) rfl

/-! ### What a batch does -/

/-- The rows of the outbox are committed as they were. -/
def SameRows (s s' : World P Payload) : Prop :=
  (∀ i, s'.db.committed (.outbox i) = s.db.committed (.outbox i)) ∧
    s'.nextOutboxId = s.nextOutboxId

theorem SameRows.trans {s'' : World P Payload} (h : SameRows s s') (h' : SameRows s' s'') :
    SameRows s s'' :=
  ⟨fun i => (h'.1 i).trans (h.1 i), h'.2.trans h.2⟩

theorem exec_interim {c : Cmd Payload} {o : Choice} {r : Except Exn (Reply Payload c)}
    (hc : c.Interim) (hi : Invariant env M s) (h : World.exec p c o s = some (r, s')) :
    SameRows s s' := by
  -- The session that commits has not written the outbox.
  have hcommit : ∀ ρ ≠ .batch, ∀ st, SameRows s { s with db := s.db.commitTx (p, ρ) st } := by
    intro ρ hρ st
    refine ⟨fun i => view_eq_committed fun ho => ?_, rfl⟩
    exact hρ (hi.locked i _ ho).1
  cases c with
  | publish => exact hc.elim
  | xadd n f m =>
    simp only [World.exec] at h
    split_ifs at h
    rcases World.redis_cases h with ⟨_, rfl, _⟩ | ⟨_, _, rfl | rfl⟩ <;> exact ⟨fun _ => rfl, rfl⟩
  | commit ρ =>
    have hρ : ρ ≠ .batch := by
      rintro rfl
      exact hc
    cases h
    have hcases : s.db.commit (p, ρ) o.fault Exn.sql = (_, _) := rfl
    rcases commit_cases hcases with ⟨_, ⟨hdb, _⟩ | ⟨hdb, _⟩ | ⟨hdb, _⟩⟩ | ⟨_, hdb, _⟩
    · exact ⟨fun i => by rw [hdb], rfl⟩
    · exact ⟨fun i => by rw [hdb, committed_abort], rfl⟩
    · rw [hdb]
      exact hcommit ρ hρ .gone
    · rw [hdb]
      exact hcommit ρ hρ .ready
  | _ =>
    obtain ⟨_, hcom, hnext⟩ := exec_quiet (by trivial) h
    exact ⟨fun i => by rw [hcom], hnext⟩

/-- A program that does not commit the batch leaves the rows of the outbox as they are. -/
theorem sameRows_of_runs {α : Type} {m : Program Payload α} {Q : Except Exn α → World P Payload → Prop}
    {r : Except Exn α} (hm : m.Issues Cmd.Interim) (h : Keeps env M p m Q s)
    (hi : Invariant env M s) (hr : (system env P).Runs M.guard p m s r s') : SameRows s s' :=
  (outline_valid env M).rel_of_runs SameRows (fun _ => ⟨fun _ => rfl, rfl⟩)
    (fun _ _ _ h h' => h.trans h') (fun _ _ _ _ _ hc hi _ _ hx => exec_interim hc hi hx) hm h hi hr

/-- A row is in the outbox after a batch as before, and it is published if it was, or if
    the batch has selected it and `XADD` does not fail for it. -/
structure Advances (healthy : String → Prop) (sel : List ℕ) (s s' : World P Payload) : Prop where
  rows : ∀ i o, s.db.committed (.outbox i) = some o → ∃ o', s'.db.committed (.outbox i) = some o' ∧
    o'.toRow = o.toRow ∧ (o'.publishedAt.isSome ↔
      o.publishedAt.isSome ∨ i ∈ sel ∧ healthy o.eventId)
  next : s'.nextOutboxId = s.nextOutboxId

theorem Advances.of_same {healthy : String → Prop} {sel : List ℕ} {s s₁ s₂ s' : World P Payload}
    (h : Advances healthy sel s₁ s₂) (h₁ : SameRows s s₁) (h₂ : SameRows s₂ s') :
    Advances healthy sel s s' := by
  refine ⟨fun i o ho => ?_, h₂.2.trans (h.next.trans h₁.2)⟩
  rw [← h₁.1] at ho
  rw [h₂.1]
  exact h.rows i o ho

/-- The commit of a batch publishes the rows it has selected, but for those that fail. -/
theorem advances_of_commit {done : List (Row Payload)} {o : Choice} {x : Except Exn Unit}
    (hi : Invariant env M s) (hs : M.steady) (h : Drained M p done s)
    (hpend : ∀ i ∈ done.map (·.outboxId), ∀ o, s.db.committed (.outbox i) = some o →
      o.publishedAt = none)
    (hg : M.guard.step p (.commit .batch) o s)
    (hex : World.exec p (.commit .batch) o s = some (x, s')) :
    Advances M.healthy (done.map (·.outboxId)) s s' := by
  have hf := M.fault_none hs hg (by simp)
  have hs' : s' = { s with db := s.db.commitTx (p, .batch) .ready } := by
    simp only [World.exec, Database.commit, h.ready, hf, if_true, Option.some.injEq,
      Prod.mk.injEq] at hex
    exact hex.2.symm
  subst hs'
  refine ⟨fun i o ho => ?_, rfl⟩
  rw [committed_commitTx]
  by_cases hown : s.Owns p i
  · have hsel : i ∈ done.map (·.outboxId) := by
      obtain ⟨row, hr, rfl⟩ := h.live.only i hown
      exact List.mem_map_of_mem hr
    obtain ⟨v, hv, hfin⟩ := h.known hi hs i hown
    obtain ⟨_, _, ⟨c, hc, hcol⟩, hpub⟩ := hi.rows _ _ (version_of_view hv)
    cases Option.some.inj (ho.symm.trans hc)
    have heid : v.eventId = o.eventId := congrArg Row.eventId hcol.symm
    refine ⟨v, hv, hcol.symm, fun h => .inr ⟨hsel, heid ▸ (hpub h).2 hs⟩, ?_⟩
    rintro (h' | ⟨_, hh⟩)
    · simp [hpend i hsel o ho] at h'
    · exact (hfin (heid ▸ hh)).1
  · have hsel : i ∉ done.map (·.outboxId) := by
      intro hm
      obtain ⟨row, hr, rfl⟩ := List.mem_map.1 hm
      exact hown (h.live.owns row hr)
    exact ⟨o, (view_eq_committed hown).trans ho, rfl, by simp [hsel]⟩

/-- A batch that nothing keeps from being committed: it selects the first of the rows that
    are available, and publishes those for which `XADD` does not fail. -/
theorem drainOneBatch_run {args : DrainArgs} {x : Except Exn (ℕ × ℕ × ℤ × ℤ)}
    (hi : Invariant env M s) (hs : M.steady) (h : Idle p s)
    (hr : (system env P).Runs M.guard p (drainOneBatch env args) s x s') :
    ∃ done acc, x = .ok acc ∧ Batch M p done [] s' ∧ SameRows s s' ∧
      IsTop (s.createdAt (p, .batch)) args.batchSize (s.available (p, .batch))
        (done.reverse.map (·.outboxId)) := by
  have hsame := sameRows_of_runs issues_drainOneBatch (keeps_drainOneBatch h) hi hr
  obtain ⟨y, s₁, hsel, hrest⟩ := hr.bind
  obtain ⟨o, hg, hex⟩ := System.runs_perform.1 hsel
  have hk : Know env M p (.selectPending args.batchSize) s := h .batch
  cases y with
  | error e =>
    have := adrift_of_error hi hk hg trivial hex h.others
      (fun _ i _ hown => absurd hown ((h .batch).owner _)) fun _ => (h .batch).ready
    exact absurd hs this.failed
  | ok rows =>
  obtain ⟨hb, htop, hids⟩ := batch_of_selectPending hi h hex
  rw [hids] at htop
  have hi₁ : Invariant env M s₁ := invariant_step hi hk hg hex
  cases rows with
  | nil =>
    obtain ⟨rfl, rfl⟩ := hrest
    exact ⟨[], _, rfl, hb, hsame, htop⟩
  | cons row rest =>
    obtain ⟨y, s₂, hnow, hrest⟩ := System.Runs.bind hrest
    obtain ⟨o, _, hex⟩ := System.runs_perform.1 hnow
    cases hex
    obtain ⟨y, s₃, hloop, hrest⟩ := System.Runs.bind hrest
    have hpost := ((outline_valid env M).of_runs (keeps_drainRows hb) hi₁ hloop).1
    cases y with
    | error e => exact absurd hs hpost.failed
    | ok acc =>
      obtain ⟨rfl, rfl⟩ := hrest
      exact ⟨_, _, rfl, hpost, hsame, by rwa [List.reverse_reverse]⟩

/-- An iteration of a drainer that is alone publishes the rows that it selects, but for
    those for which `XADD` fails. -/
theorem drainOutbox_run {args : DrainArgs} {x : Except Exn Unit} (hi : Invariant env M s)
    (hs : M.steady) (h : Idle p s)
    (hr : (system env P).Runs M.guard p (drainOutbox env args) s x s') :
    ∃ sel, IsTop (s.createdAt (p, .batch)) args.batchSize (s.available (p, .batch)) sel ∧
      Advances M.healthy sel s s' := by
  obtain ⟨y, s₅, hsession, hgauge⟩ := System.Runs.bind hr
  obtain ⟨y', s₄, hbody, z, hclose, hy⟩ := System.Runs.ensuring hsession
  obtain ⟨w, s₁, hbatch, hrest⟩ := System.Runs.bind hbody
  obtain ⟨done, ⟨drained, failures, oldestAge, newestAge⟩, rfl, hb, hsame, htop⟩ :=
    drainOneBatch_run hi hs h hbatch
  have hi₁ := ((outline_valid env M).of_runs (keeps_drainOneBatch h) hi hbatch).2
  -- The rows selected are still pending when the batch is committed.
  have hpend : ∀ s₂, SameRows s s₂ → ∀ i ∈ done.map (·.outboxId), ∀ o,
      s₂.db.committed (.outbox i) = some o → o.publishedAt = none := by
    intro s₂ h₂ i hm o ho
    have hav := htop.subset i (by simpa using hm)
    simp only [World.available, List.mem_filter, decide_eq_true_eq, World.Pending,
      view_eq_committed ((h .batch).owner _), ← h₂.1 i, ho, Option.any_some] at hav
    exact Option.isNone_iff_eq_none.1 hav.2.1
  -- What is committed, and what follows the commit.
  have hend : ∀ s₂, Invariant env M s₂ → Drained M p done s₂ → SameRows s s₂ →
      (system env P).Runs M.guard p (request (.commit .batch)) s₂ y' s₄ →
      Advances M.healthy (done.map (·.outboxId)) s s' := by
    intro s₂ hi₂ hd h₂ hc
    obtain ⟨o, hg, hex⟩ := System.runs_perform.1 hc
    have hadv := advances_of_commit hi₂ hs hd (hpend s₂ h₂) hg hex
    obtain ⟨hcl, hi₄⟩ := (outline_valid env M).of_runs (keeps_commitBatch hd) hi₂ hc
    have hissues : (request (.close .batch) : Program Payload Unit).Issues Cmd.Interim :=
      issues_perform trivial
    have h₅ := sameRows_of_runs hissues (keeps_closeBatch hcl) hi₄ hclose
    obtain ⟨hidle, hi₅⟩ := (outline_valid env M).of_runs (keeps_closeBatch hcl) hi₄ hclose
    refine hadv.of_same h₂ (h₅.trans ?_)
    cases y with
    | error e =>
      obtain ⟨_, rfl⟩ := hgauge
      exact ⟨fun _ => rfl, rfl⟩
    | ok u =>
      obtain ⟨v, s₆, hcount, hlast⟩ := System.Runs.bind hgauge
      have h₆ : s' = s₆ := by cases v <;> exact hlast.2
      rw [h₆]
      have hissues : (withSession .gauge (request .countPending) : Program Payload ℕ).Issues
          Cmd.Interim := Issues.ensuring (issues_perform trivial) (issues_perform trivial)
      exact sameRows_of_runs hissues (keeps_countPending hidle) hi₅ hcount
  refine ⟨_, htop, ?_⟩
  have hrev : Advances M.healthy (done.map (·.outboxId)) s s' := by
    dsimp only [outcome] at hrest
    split_ifs at hrest
    · obtain ⟨v, s₂, haudit, hc⟩ := System.Runs.bind hrest
      obtain ⟨o, hg, hex⟩ := System.runs_perform.1 haudit
      have hk : Know env M p (.insertAudit
          { drainedRecord drained failures oldestAge newestAge with actor := drainerActor }) s₁ :=
        ⟨fun hl => (hb.clear hl).covered, fun _ ρ hk => hb.others.unlocked _ ρ hk⟩
      cases v with
      | error e =>
        exact absurd hs
          (adrift_of_error hi₁ hk hg trivial hex hb.others hb.clear fun _ => hb.ready).failed
      | ok u =>
        have ha := Cmd.InBatch.apart (by trivial) hi₁ hk hex
        exact hend s₂ (invariant_step hi₁ hk hg hex)
          (hb.drained.of_local ha (local_insertAudit hex) (by simp))
          (hsame.trans (exec_interim (show Cmd.Interim (.insertAudit _) from trivial) hi₁ hex)) hc
    · exact hend s₁ hi₁ hb.drained hsame hrest
  refine ⟨fun i o ho => ?_, hrev.next⟩
  simpa using hrev.rows i o ho

/-! ### A drainer that is alone -/

section Alone

variable {poison : String → Prop} {c : Contents Payload} {args : DrainArgs} {n : ℕ}
  {s s' : World Unit Payload}

/-- The states between the iterations of a drainer that is alone: no row was added to the
    outbox since its contents were `c`. -/
structure Between (env : Env Payload) (poison : String → Prop) (c : Contents Payload)
    (s : World Unit Payload) : Prop where
  inv : Invariant env (poisonedRun poison) s
  idle : Idle () s
  rows : ∀ i o₀, c.rows[i]? = some o₀ → ∃ o, s.db.committed (.outbox i) = some o ∧
    o.toRow = { o₀.toRow with outboxId := i }
  next : s.nextOutboxId = c.rows.length

theorem between_ofContents : Between env poison c (.ofContents c) := by
  refine ⟨invariant_ofContents c, idle_ofContents c (), fun i o₀ h => ?_, rfl⟩
  exact ⟨{ o₀ with outboxId := i }, congrArg (Option.map _) h, rfl⟩

theorem Between.of_runs {x : Except Exn Unit} (h : Between env poison c s)
    (hr : (system env Unit).Runs (xaddFails poison) () (drainOutbox env args) s x s') :
    Between env poison c s' ∧ ∃ sel, IsTop (s.createdAt ((), .batch)) args.batchSize
      (s.available ((), .batch)) sel ∧ Advances (fun e => ¬poison e) sel s s' := by
  obtain ⟨hidle, hinv⟩ := (outline_valid env (poisonedRun poison)).of_runs
    (keeps_drainOutbox h.idle) h.inv hr
  obtain ⟨sel, htop, hadv⟩ := drainOutbox_run h.inv trivial h.idle hr
  refine ⟨⟨hinv, hidle, fun i o₀ ho₀ => ?_, hadv.next.trans h.next⟩, sel, htop, hadv⟩
  obtain ⟨o, ho, hrow⟩ := h.rows i o₀ ho₀
  obtain ⟨o', ho', hrow', _⟩ := hadv.rows i o ho
  exact ⟨o', ho', hrow'.trans hrow⟩

theorem between_of_repeats
    (h : (system env Unit).Repeats (xaddFails poison) () (.drain args) (.ofContents c) n s) :
    Between env poison c s := by
  induction h with
  | zero => exact between_ofContents
  | succ _ hr ih => exact (ih.of_runs hr).1

/-- A row of the outbox is one of the rows of its contents. -/
theorem Between.origin (h : Between env poison c s) {i : ℕ} {o : OutboxRow Payload}
    (ho : s.db.committed (.outbox i) = some o) : ∃ o₀, c.rows[i]? = some o₀ ∧
      o.eventId = o₀.eventId ∧ o.createdAt = o₀.createdAt := by
  have hlt : i < c.rows.length := h.next ▸ (h.inv.rows _ _ (.committed ho)).2.1
  have hget : c.rows[i]? = some c.rows[i] := List.getElem?_eq_getElem hlt
  obtain ⟨o', ho', hrow⟩ := h.rows i _ hget
  cases Option.some.inj (ho.symm.trans ho')
  exact ⟨_, hget, (congrArg Row.eventId hrow :), (congrArg Row.createdAt hrow :)⟩

/-- The rows that a batch may select are those that are pending. -/
theorem Between.mem_available (h : Between env poison c s) {i : ℕ} :
    i ∈ s.available ((), .batch) ↔
      ∃ o, s.db.committed (.outbox i) = some o ∧ o.publishedAt = none := by
  have hfree : ∀ t, s.db.owner (.outbox i) ≠ some t := fun ⟨_, ρ⟩ => (h.idle ρ).owner _
  have hlock : s.db.CanLock ((), .batch) (.outbox i) true :=
    ⟨fun t ht => absurd ht (hfree t), fun _ t ht => absurd ht (h.inv.refs _ t)⟩
  simp only [World.available, List.mem_filter, List.mem_range, World.Pending,
    view_eq_committed (hfree _), hlock, and_true, decide_eq_true_eq, Option.any_eq_true]
  constructor
  · rintro ⟨_, o, ho, hpub⟩
    exact ⟨o, ho, Option.isNone_iff_eq_none.1 hpub⟩
  · rintro ⟨o, ho, hpub⟩
    exact ⟨(h.inv.rows _ _ (.committed ho)).2.1, o, ho, by rw [hpub]; rfl⟩

theorem Between.createdAt (h : Between env poison c s) {i : ℕ} {o : OutboxRow Payload}
    (ho : s.db.committed (.outbox i) = some o) : s.createdAt ((), .batch) i = o.createdAt := by
  rw [World.createdAt, view_eq_committed ((h.idle .batch).owner _), ho]
  rfl

/-- The positions of the elements of a list that satisfy `q`. -/
def positions {α : Type} (q : α → Bool) (xs : List α) : List ℕ :=
  (List.range xs.length).filter fun i => xs[i]?.any q

theorem length_positions {α : Type} (q : α → Bool) (xs : List α) :
    (positions q xs).length = xs.countP q := by
  induction xs with
  | nil => rfl
  | cons x xs ih =>
    rw [positions, List.length_cons, List.range_succ_eq_map, List.filter_cons, List.filter_map,
      List.countP_cons, ← ih]
    simp only [List.getElem?_cons_zero, Option.any_some, Function.comp_def,
      List.getElem?_cons_succ]
    split_ifs <;> simp [positions]

theorem mem_positions {α : Type} {q : α → Bool} {xs : List α} {i : ℕ} :
    i ∈ positions q xs ↔ ∃ x, xs[i]? = some x ∧ q x = true := by
  simp only [positions, List.mem_filter, List.mem_range, Option.any_eq_true]
  constructor
  · rintro ⟨_, x, hx⟩
    exact ⟨x, hx⟩
  · rintro ⟨x, hx, hq⟩
    exact ⟨(List.getElem?_eq_some_iff.1 hx).1, x, hx, hq⟩

theorem nodup_positions {α : Type} (q : α → Bool) (xs : List α) : (positions q xs).Nodup :=
  List.nodup_range.filter _

/-- An iteration always ends. -/
theorem Between.exists_runs (h : Between env poison c s) (args : DrainArgs) : ∃ x s',
    (system env Unit).Runs (xaddFails poison) () (drainOutbox env args) s x s' :=
  (outline_valid env (poisonedRun poison)).exists_runs
    (fun _ _ hc _ hk => exec_enabled hc hk) issues_drainOutbox (keeps_drainOutbox h.idle) h.inv

theorem exists_repeats (n : ℕ) : ∃ s,
    (system env Unit).Repeats (xaddFails poison) () (.drain args) (.ofContents c) n s := by
  induction n with
  | zero => exact ⟨_, .zero⟩
  | succ n ih =>
    obtain ⟨s, hs⟩ := ih
    obtain ⟨x, s', hr⟩ := (between_of_repeats hs).exists_runs args
    exact ⟨s', .succ hs hr⟩

variable [DecidablePred poison]

/-- The rows of the outbox for which `XADD` fails, created up to `t`. -/
def Contents.poisonedUpTo (c : Contents Payload) (poison : String → Prop) [DecidablePred poison]
    (t : ℕ) : ℕ :=
  c.rows.countP fun o => poison o.eventId ∧ o.createdAt ≤ t

/-- The rows of the outbox for which `XADD` fails, created before `t`. -/
def Contents.poisonedBefore (c : Contents Payload) (poison : String → Prop)
    [DecidablePred poison] (t : ℕ) : ℕ :=
  c.rows.countP fun o => poison o.eventId ∧ o.createdAt < t

/-- The rows that are pending, and for which `XADD` does not fail. -/
def World.waiting (s : World Unit Payload) (poison : String → Prop) [DecidablePred poison] :
    Finset ℕ :=
  (Finset.range s.nextOutboxId).filter fun i => (s.db.committed (.outbox i)).any fun o =>
    o.publishedAt.isNone ∧ ¬poison o.eventId

theorem Between.mem_waiting (h : Between env poison c s) {i : ℕ} :
    i ∈ s.waiting poison ↔ ∃ o, s.db.committed (.outbox i) = some o ∧ o.publishedAt = none ∧
      ¬poison o.eventId := by
  simp only [World.waiting, Finset.mem_filter, Finset.mem_range, Option.any_eq_true,
    decide_eq_true_eq, Option.isNone_iff_eq_none]
  constructor
  · rintro ⟨_, o, ho⟩
    exact ⟨o, ho⟩
  · rintro ⟨o, ho, hpub⟩
    exact ⟨(h.inv.rows _ _ (.committed ho)).2.1, o, ho, hpub⟩

/-- A batch that does not select a row, which is pending and preceded by fewer rows than it
    may select for which `XADD` fails, selects another for which it does not. -/
theorem Between.exists_selected (h : Between env poison c s) {i : ℕ} {o : OutboxRow Payload}
    {sel : List ℕ} (htop : IsTop (s.createdAt ((), .batch)) args.batchSize
      (s.available ((), .batch)) sel)
    (ho : s.db.committed (.outbox i) = some o) (hpub : o.publishedAt = none) (hsel : i ∉ sel)
    (hfew : c.poisonedUpTo poison o.createdAt < args.batchSize) :
    ∃ j ∈ sel, ∃ o', s.db.committed (.outbox j) = some o' ∧ o'.publishedAt = none ∧
      ¬poison o'.eventId := by
  have hav : i ∈ s.available ((), .batch) := h.mem_available.2 ⟨o, ho, hpub⟩
  -- A row is left over, so the batch is full.
  have hfull : sel.length = args.batchSize := by
    have hlt : (i :: sel).length ≤ (s.available ((), .batch)).length :=
      List.Nodup.length_le_of_subset (List.nodup_cons.2 ⟨hsel, htop.nodup⟩)
        (List.cons_subset.2 ⟨hav, htop.subset⟩)
    have := htop.length
    rw [List.length_cons] at hlt
    omega
  by_contra hnone
  push Not at hnone
  -- So it is full of rows for which `XADD` fails, and which precede the one left over.
  have hsub : sel ⊆ positions (fun o₀ : OutboxRow Payload =>
      decide (poison o₀.eventId ∧ o₀.createdAt ≤ o.createdAt)) c.rows := by
    intro j hj
    obtain ⟨o', ho', hpub'⟩ := h.mem_available.1 (htop.subset j hj)
    have hle := htop.first i hav hsel j hj
    rw [h.createdAt ho', h.createdAt ho] at hle
    obtain ⟨o₀, ho₀, heid, hat⟩ := h.origin ho'
    have hp := hnone j hj o' ho' hpub'
    exact mem_positions.2 ⟨o₀, ho₀, by simpa [← heid, ← hat] using ⟨hp, hle⟩⟩
  have hle := htop.nodup.length_le_of_subset hsub
  rw [length_positions] at hle
  exact absurd hfew (by rw [Contents.poisonedUpTo]; omega)

/-- A row that is pending after a batch was pending before, and was not selected unless
    `XADD` fails for it. -/
theorem Between.pending_before {sel : List ℕ} (h : Between env poison c s)
    (hadv : Advances (fun e => ¬poison e) sel s s') (h' : Between env poison c s') {i : ℕ}
    {o : OutboxRow Payload} (ho : s'.db.committed (.outbox i) = some o)
    (hpub : o.publishedAt = none) : ∃ o', s.db.committed (.outbox i) = some o' ∧
      o'.publishedAt = none ∧ o'.toRow = o.toRow ∧ (i ∈ sel → poison o.eventId) := by
  obtain ⟨o₀, ho₀, _⟩ := h'.origin ho
  obtain ⟨o', ho', _⟩ := h.rows i o₀ ho₀
  obtain ⟨o'', ho'', hrow, hiff⟩ := hadv.rows i o' ho'
  cases Option.some.inj (ho.symm.trans ho'')
  have heid : o'.eventId = o.eventId := congrArg Row.eventId hrow.symm
  simp only [hpub, Option.isSome_none, Bool.false_eq_true, false_iff, not_or, not_and,
    not_not, heid] at hiff
  exact ⟨o', ho', by simpa using hiff.1, hrow.symm, hiff.2⟩

/-- A batch leaves fewer rows waiting, if it leaves one that is preceded by fewer rows than
    it may select for which `XADD` fails. -/
theorem Between.waiting_ssubset {x : Except Exn Unit} (h : Between env poison c s)
    (hr : (system env Unit).Runs (xaddFails poison) () (drainOutbox env args) s x s')
    {i : ℕ} {o : OutboxRow Payload} (ho : s'.db.committed (.outbox i) = some o)
    (hhealthy : ¬poison o.eventId) (hpub : o.publishedAt = none)
    (hfew : c.poisonedUpTo poison o.createdAt < args.batchSize) :
    s'.waiting poison ⊂ s.waiting poison := by
  obtain ⟨h', sel, htop, hadv⟩ := h.of_runs hr
  obtain ⟨o', ho', hpub', hrow, hsel⟩ := h.pending_before hadv h' ho hpub
  rw [← congrArg Row.createdAt hrow] at hfew
  obtain ⟨j, hj, w, hw, hwpub, hwh⟩ :=
    h.exists_selected htop ho' hpub' (fun hm => hhealthy (hsel hm)) hfew
  rw [Finset.ssubset_iff_of_subset]
  · -- The row selected is published now.
    refine ⟨j, h.mem_waiting.2 ⟨w, hw, hwpub, hwh⟩, fun hm => ?_⟩
    obtain ⟨w', hw', hwpub', hwh'⟩ := h'.mem_waiting.1 hm
    obtain ⟨_, _, _, _, hp⟩ := h.pending_before hadv h' hw' hwpub'
    exact hwh' (hp hj)
  · intro k hk
    obtain ⟨v, hv, hvpub, hvh⟩ := h'.mem_waiting.1 hk
    obtain ⟨v', hv', hvpub', hvrow, _⟩ := h.pending_before hadv h' hv hvpub
    exact h.mem_waiting.2 ⟨v', hv', hvpub', by rwa [congrArg Row.eventId hvrow]⟩

/-- After as many iterations as there are rows in the outbox, no row is left that is preceded
    by fewer rows than a batch may select for which `XADD` fails. -/
theorem published_of_repeats
    (h : (system env Unit).Repeats (xaddFails poison) () (.drain args) (.ofContents c) n s)
    {i : ℕ} {o : OutboxRow Payload} (ho : s.db.committed (.outbox i) = some o)
    (hhealthy : ¬poison o.eventId) (hfew : c.poisonedUpTo poison o.createdAt < args.batchSize)
    (hpub : o.publishedAt = none) : (s.waiting poison).card + n ≤ c.rows.length := by
  induction h generalizing o with
  | zero =>
    rw [Nat.add_zero]
    exact (Finset.card_filter_le _ _).trans_eq (Finset.card_range _)
  | @succ n s₁ s₂ x h hr ih =>
    have hb := between_of_repeats h
    obtain ⟨h', sel, _, hadv⟩ := hb.of_runs hr
    obtain ⟨o', ho', hpub', hrow, _⟩ := hb.pending_before hadv h' ho hpub
    have hle := ih ho' (by rwa [congrArg Row.eventId hrow])
      (by rwa [congrArg Row.createdAt hrow]) hpub'
    have hlt := Finset.card_lt_card (hb.waiting_ssubset hr ho hhealthy hpub hfew)
    omega

/-- A drainer that is alone, with a fixed set of rows for which `XADD` always fails, can
    always go on, and there is a number of iterations after which every other row is
    published, if a batch may select more rows than there are in the set up to its age. -/
theorem drainer_progress (env : Env Payload) (c : Contents Payload) (args : DrainArgs)
    (poison : String → Prop) [DecidablePred poison] :
    (∀ n s, (system env Unit).Repeats (xaddFails poison) () (.drain args) (.ofContents c) n s →
      ∃ s', (system env Unit).Repeats (xaddFails poison) () (.drain args) (.ofContents c)
        (n + 1) s') ∧
    ∃ N, ∀ n ≥ N, ∀ s,
      (system env Unit).Repeats (xaddFails poison) () (.drain args) (.ofContents c) n s →
        ∀ i o, s.db.committed (.outbox i) = some o → ¬poison o.eventId →
          c.poisonedUpTo poison o.createdAt < args.batchSize → o.publishedAt.isSome := by
  refine ⟨fun n s h => ?_, c.rows.length, fun n hn s h i o ho hhealthy hfew => ?_⟩
  · obtain ⟨x, s', hr⟩ := (between_of_repeats h).exists_runs args
    exact ⟨s', .succ h hr⟩
  · by_contra hpub
    have hnone : o.publishedAt = none := by simpa using hpub
    have hle := published_of_repeats h ho hhealthy hfew hnone
    have hpos : 0 < (s.waiting poison).card := Finset.card_pos.2
      ⟨i, (between_of_repeats h).mem_waiting.2 ⟨o, ho, hnone, hhealthy⟩⟩
    omega

/-! The rows of a witness: one for which `XADD` fails, and a later one. -/

/-- `XADD` fails for the older of the two rows. -/
abbrev firstPoisoned (e : String) : Prop := e = "e"

/-- With room for both rows in a batch, the later one is published in the end. -/
theorem drainer_progress_twoRows : ∃ n s,
    (system plainEnv Unit).Repeats (xaddFails firstPoisoned) () (.drain ⟨2, 100⟩)
      (.ofContents twoRows) n s ∧
    ∃ o, s.db.committed (.outbox 1) = some o ∧ o.publishedAt.isSome := by
  obtain ⟨_, N, hN⟩ := drainer_progress plainEnv twoRows ⟨2, 100⟩ firstPoisoned
  obtain ⟨s, hs⟩ : ∃ s, (system plainEnv Unit).Repeats (xaddFails firstPoisoned) ()
      (.drain ⟨2, 100⟩) (.ofContents twoRows) N s := exists_repeats N
  obtain ⟨o, ho, hrow⟩ := (between_of_repeats hs).rows 1 _ rfl
  have heid : o.eventId = "f" := congrArg Row.eventId hrow
  have hat : o.createdAt = 2 := congrArg Row.createdAt hrow
  refine ⟨N, s, hs, o, ho, hN N le_rfl s hs 1 o ho ?_ ?_⟩
  · rw [heid]
    decide
  · rw [hat]
    decide

/-- A row that is preceded by as many rows as a batch may select for which `XADD` fails is
    never published. -/
theorem drainer_starves
    (h : (system env Unit).Repeats (xaddFails poison) () (.drain args) (.ofContents c) n s)
    {i : ℕ} {o : OutboxRow Payload} (ho : s.db.committed (.outbox i) = some o)
    (hmany : args.batchSize ≤ c.poisonedBefore poison o.createdAt) : o.publishedAt = none := by
  induction h generalizing o with
  | zero =>
    obtain ⟨o₀, ho₀, rfl⟩ := committed_ofContents ho
    exact c.pending o₀ (List.mem_of_getElem? ho₀)
  | @succ n s₁ s₂ x h hr ih =>
    have hb := between_of_repeats h
    obtain ⟨h', sel, htop, hadv⟩ := hb.of_runs hr
    obtain ⟨o₀, ho₀, _⟩ := h'.origin ho
    obtain ⟨o', ho', _⟩ := hb.rows i o₀ ho₀
    obtain ⟨o'', ho'', hrow, hiff⟩ := hadv.rows i o' ho'
    cases Option.some.inj (ho.symm.trans ho'')
    have hpub' := ih ho' (by rwa [← congrArg Row.createdAt hrow])
    -- A batch that selects the row selects all those that precede it: too many.
    have hsel : i ∉ sel := by
      intro hi
      have hsub : i :: positions (fun o₀ : OutboxRow Payload =>
          decide (poison o₀.eventId ∧ o₀.createdAt < o.createdAt)) c.rows ⊆ sel := by
        refine List.cons_subset.2 ⟨hi, fun j hj => ?_⟩
        obtain ⟨w₀, hw₀, hq⟩ := mem_positions.1 hj
        obtain ⟨hp, hlt⟩ := of_decide_eq_true hq
        obtain ⟨w, hw, hwrow⟩ := hb.rows j w₀ hw₀
        have hwid : w.eventId = w₀.eventId := (congrArg Row.eventId hwrow :)
        have hwat : w.createdAt = w₀.createdAt := (congrArg Row.createdAt hwrow :)
        have hwpub : w.publishedAt = none := by
          by_contra hne
          refine ((hb.inv.rows _ _ (.committed hw)).2.2.2 (Option.isSome_iff_ne_none.2 hne)).2
            trivial ?_
          rwa [hwid]
        by_contra hn
        have hle := htop.first j (hb.mem_available.2 ⟨w, hw, hwpub⟩) hn i hi
        rw [hb.createdAt ho', hb.createdAt hw, hwat, ← congrArg Row.createdAt hrow] at hle
        omega
      have hnodup : (i :: positions (fun o₀ : OutboxRow Payload =>
          decide (poison o₀.eventId ∧ o₀.createdAt < o.createdAt)) c.rows).Nodup := by
        refine List.nodup_cons.2 ⟨fun hm => ?_, nodup_positions _ _⟩
        obtain ⟨w₀, hw₀, hq⟩ := mem_positions.1 hm
        obtain ⟨_, hlt⟩ := of_decide_eq_true hq
        obtain ⟨o₁, ho₁, _, hat⟩ := h'.origin ho
        cases Option.some.inj (hw₀.symm.trans ho₁)
        omega
      have hle := hnodup.length_le_of_subset hsub
      have hlen := htop.length
      rw [List.length_cons, length_positions] at hle
      rw [Contents.poisonedBefore] at hmany
      omega
    simpa [hpub', hsel] using hiff

/-- With room for one row in a batch, the later of the two rows is never published. -/
theorem not_drainer_progress : ∃ (c : Contents Unit) (args : DrainArgs), 0 < args.batchSize ∧
    ∀ n, ∃ s, (system plainEnv Unit).Repeats (xaddFails firstPoisoned) () (.drain args)
        (.ofContents c) n s ∧
      ∃ o, s.db.committed (.outbox 1) = some o ∧ ¬firstPoisoned o.eventId ∧
        o.publishedAt = none := by
  refine ⟨twoRows, ⟨1, 100⟩, by decide, fun n => ?_⟩
  obtain ⟨s, hs⟩ : ∃ s, (system plainEnv Unit).Repeats (xaddFails firstPoisoned) ()
      (.drain ⟨1, 100⟩) (.ofContents twoRows) n s := exists_repeats n
  obtain ⟨o, ho, hrow⟩ := (between_of_repeats hs).rows 1 _ rfl
  have heid : o.eventId = "f" := congrArg Row.eventId hrow
  have hat : o.createdAt = 2 := congrArg Row.createdAt hrow
  refine ⟨s, hs, o, ho, ?_, drainer_starves hs ho ?_⟩
  · rw [heid]
    decide
  · rw [hat]
    decide

end Alone

end Outbox

end AslanCore
