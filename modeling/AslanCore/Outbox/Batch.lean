import AslanCore.Outbox.Search

/-!
# A row of a batch that fails

The batch of a drainer goes from row to row (`Batch`). What happens to a row is between
the savepoint set for it and its end (`InSavepoint`). When the publication of the row
fails (`Failed`), its savepoint is undone, its entry is searched for, and the failure is
recorded: the batch then goes on (`keeps_recoverRow`), or an exception ends it
(`Adrift`).

The statements of the batch are given by what they leave unchanged (`Local`), and by what
it means that they fail (`exec_inBatch_error`): not in steady runs.
-/

set_option linter.unusedSectionVars false

namespace AslanCore

namespace Outbox

open Database Prog Outline

variable {P Payload : Type} [DecidableEq P] {env : Env Payload} {M : Mode P Payload}
  {p : P} {s s' : World P Payload} {ρ : Role} {done todo rows : List (Row Payload)}
  {row : Row Payload} {lacking lacking' : StreamId × Fields → Prop} {new : Key → Prop}

/-- The sessions of `p` other than the one of its batch are not in use. -/
def Others (p : P) (s : World P Payload) : Prop := ∀ ρ ≠ .batch, Rest p ρ s

theorem Others.of_apart (h : Others p s) (ha : Apart .batch p s s') : Others p s' :=
  fun ρ hρ => (h ρ hρ).of_frame (ha.frame ρ hρ)

theorem Others.of_rely (h : Others p s) (hr : Rely p s s') : Others p s' :=
  h.of_apart (hr.apart .batch)

theorem others_of_rest (hi : Rest p .index s) (hs : Rest p .scan s) (hg : Rest p .gauge s) :
    Others p s := by
  intro ρ hρ
  cases ρ with
  | batch => exact absurd rfl hρ
  | index => exact hi
  | scan => exact hs
  | gauge => exact hg

/-- What the other sessions of `p` have not locked is not locked but by its batch. -/
theorem Others.unlocked (h : Others p s) (k : Key) : Unlocked p .batch k s := fun ρ hk => by
  by_contra hρ
  exact (h ρ hρ).owner k hk

/-! ### The assertions -/

/-- The rows of a batch, between two of them. -/
structure Batch (M : Mode P Payload) (p : P) (done todo : List (Row Payload))
    (s : World P Payload) : Prop where
  live : Live p (done ++ todo) s
  ready : s.db.status (p, .batch) = .ready
  distinct : ((done ++ todo).map (·.outboxId)).Nodup
  settled : M.lossless → ∀ row ∈ done ++ todo, s.Settled row
  progress : Progress M p done todo s
  others : Others p s

/-- An exception is about to end the batch. -/
structure Adrift (M : Mode P Payload) (p : P) (s : World P Payload) : Prop where
  failed : ¬M.steady
  clear : M.lossless → Clear p s
  others : Others p s

/-- In the savepoint of `row`, whatever its state: the locks taken before it are kept if
    the savepoint is undone. In lossless runs, what the lookup table lacks of the entries
    of `row` is `lacking`. -/
structure InSavepoint (M : Mode P Payload) (p : P) (done todo : List (Row Payload))
    (row : Row Payload) (lacking : StreamId × Fields → Prop) (s : World P Payload) : Prop where
  live : Live p (row :: (done ++ todo)) s
  distinct : ((row :: (done ++ todo)).map (·.outboxId)).Nodup
  kept : ∃ sp, s.db.saved (p, .batch) = some sp ∧
    ∀ row' ∈ row :: (done ++ todo), sp.owned (.outbox row'.outboxId) = true
  settled : M.lossless → ∀ row' ∈ done ++ todo, s.Settled row'
  lacks : M.lossless → Lacks row lacking s

/-- The batch has done nothing since its savepoint. -/
structure Unwritten (p : P) (s : World P Payload) : Prop where
  ready : s.db.status (p, .batch) = .ready
  saved : ∃ sp, s.db.saved (p, .batch) = some sp ∧ sp.pending = s.db.pending (p, .batch)

/-- The publication of `row` has failed: its savepoint can be undone, unless the
    connection is lost. In steady runs, only `XADD` has failed. -/
structure Failed (M : Mode P Payload) (p : P) (done todo : List (Row Payload))
    (row : Row Payload) (lacking : StreamId × Fields → Prop) (s : World P Payload) : Prop where
  unhealthy : M.steady → ¬M.healthy row.eventId
  unwritten : M.steady → Unwritten p s
  state : Lost M p s ∨ InSavepoint M p done todo row lacking s
  progress : Progress M p done todo s
  others : Others p s

/-- What follows the search: the batch goes on, or is lost, and nothing is left to find. -/
structure Settling (M : Mode P Payload) (p : P) (done todo : List (Row Payload))
    (row : Row Payload) (s : World P Payload) : Prop where
  unhealthy : M.steady → ¬M.healthy row.eventId
  state : Lost M p s ∨ Recovering M p done todo row (fun _ => False) s
  others : Others p s

theorem InSavepoint.of_apart (h : InSavepoint M p done todo row lacking s) (ha : Apart ρ p s s')
    (hρ : ρ ≠ .batch) : InSavepoint M p done todo row lacking s' := by
  have hf := ha.frame .batch (Ne.symm hρ)
  refine ⟨h.live.of_frame hf, h.distinct, by rw [hf.saved]; exact h.kept, fun hl row' hr => ?_,
    fun hl => ?_⟩
  · exact ha.settled (h.live.entries ha (List.mem_cons_of_mem _ hr)) (h.settled hl row' hr)
  · exact (h.lacks hl).of_grows ha.toGrows (h.live.entries ha List.mem_cons_self)

theorem InSavepoint.mono (h : InSavepoint M p done todo row lacking s)
    (hl : ∀ e, lacking e → lacking' e) : InSavepoint M p done todo row lacking' s :=
  ⟨h.live, h.distinct, h.kept, h.settled, fun hm => (h.lacks hm).mono hl⟩

theorem Unwritten.of_frame (h : Unwritten p s) (hf : Frame (p, .batch) s.db s'.db) :
    Unwritten p s' := by
  obtain ⟨sp, hsp, hpend⟩ := h.saved
  exact ⟨hf.status.trans h.ready, sp, hf.saved.trans hsp, hpend.trans hf.pending.symm⟩

theorem Failed.of_rely (h : Failed M p done todo row lacking s) (hr : Rely p s s') :
    Failed M p done todo row lacking s' := by
  have ha := hr.apart .index
  refine ⟨h.unhealthy, fun hs => (h.unwritten hs).of_frame (hr.frame .batch),
    h.state.imp (·.of_frame (hr.frame .batch)) (·.of_apart ha (by decide)), ?_,
    h.others.of_rely hr⟩
  rcases h.state with hlost | hin
  · exact progress_of_not_steady hlost.failed
  · exact h.progress.of_apart hin.live (fun _ => List.mem_cons_of_mem _) ha (by decide)

theorem Settling.of_rely (h : Settling M p done todo row s) (hr : Rely p s s') :
    Settling M p done todo row s' :=
  ⟨h.unhealthy,
    h.state.imp (·.of_frame (hr.frame .batch)) (·.of_apart (hr.apart .index) (by decide)),
    h.others.of_rely hr⟩

theorem Batch.of_rely (h : Batch M p done todo s) (hr : Rely p s s') :
    Batch M p done todo s' := by
  have ha := hr.apart .index
  have hf := hr.frame .batch
  exact ⟨h.live.of_frame hf, hf.status.trans h.ready, h.distinct,
    fun hl row hrow => hr.settled (h.live.entries ha hrow) (h.settled hl row hrow),
    h.progress.of_apart h.live (fun _ => id) ha (by decide), h.others.of_rely hr⟩

theorem Batch.clear (h : Batch M p done todo s) (hl : M.lossless) : Clear p s :=
  h.live.clear (h.settled hl)

theorem Live.congr {rows' : List (Row Payload)} (h : Live p rows s)
    (hr : ∀ row, row ∈ rows' ↔ row ∈ rows) : Live p rows' s where
  owns row hrow := h.owns row ((hr row).1 hrow)
  cols row hrow := h.cols row ((hr row).1 hrow)
  only i hi := by
    obtain ⟨row, hrow, hid⟩ := h.only i hi
    exact ⟨row, (hr row).2 hrow, hid⟩

/-- A row that is done, and published if it carries a healthy event. -/
theorem Progress.cons (h : Progress M p done todo s)
    (hrow : M.steady → M.healthy row.eventId →
      (s.entriesOf row).length = 1 ∧ Published p row.outboxId s) :
    Progress M p (row :: done) todo s where
  finished hs row' hr hh := by
    rcases List.mem_cons.1 hr with rfl | hr
    · exact hrow hs hh
    · exact h.finished hs row' hr hh
  fresh := h.fresh
  keys hs k hk := by
    rcases h.keys hs k hk with hi | ⟨row', hr, hkr⟩
    · exact .inl hi
    · exact .inr ⟨row', List.mem_cons_of_mem _ hr, hkr⟩

/-- The batch goes on to the next row. -/
theorem Settling.batch (h : Settling M p done todo row s)
    (hready : s.db.status (p, .batch) = .ready) : Batch M p (row :: done) todo s := by
  have hrec := h.state.resolve_left fun hl => hl.status hready
  exact ⟨hrec.live, hready, hrec.distinct,
    fun hl row' hr => (List.mem_cons.1 hr).elim (fun he => he ▸ (hrec.lacks hl).settled)
      (hrec.settled hl row'),
    hrec.progress.cons fun hs hh => absurd hh (h.unhealthy hs), h.others⟩

theorem Settling.clear (h : Settling M p done todo row s) (hl : M.lossless) : Clear p s := by
  rcases h.state with hlost | hrec
  · exact hlost.clear
  · exact (h.batch hrec.ready).clear hl

/-! ### The statements of a batch -/

/-- The statements of the transaction of a batch. -/
def Cmd.InBatch : Cmd Payload → Prop
  | .selectPending _ | .beginNested | .releaseSavepoint | .insertIndex .batch _ _ _
  | .markPublished _ _ | .recordFailure _ _ | .selectAttempts _ | .insertAudit _ => True
  | _ => False

theorem Cmd.InBatch.quiet {c : Cmd Payload} (hc : c.InBatch) : c.Quiet := by
  cases c <;> trivial

theorem Cmd.InBatch.role {c : Cmd Payload} (hc : c.InBatch) : c.role = .batch := by
  cases c with
  | insertIndex ρ => cases ρ <;> first | rfl | exact hc.elim
  | _ => first | rfl | exact hc.elim

theorem Cmd.InBatch.apart {c : Cmd Payload} {o : Choice} {r : Except Exn (Reply Payload c)}
    (hc : c.InBatch) (hi : Invariant env M s) (hk : Know env M p c s)
    (h : World.exec p c o s = some (r, s')) : Apart .batch p s s' := by
  have ha := apart_step hi hk h (exec_quiet hc.quiet h).1 (by rintro row rfl; exact hc)
  rwa [hc.role] at ha

theorem World.sql_ok {α : Type} {t : P × Role} {fault : Fault} {a : α}
    {stmt : Option (Except Exn (α × Database (P × Role) Key (RowOf Payload)))}
    (h : s.sql t fault stmt = some (.ok a, s')) :
    s.db.status t = .ready ∧ stmt = some (.ok (a, s'.db)) := by
  obtain ⟨_, hst⟩ := World.sql_cases h
  rcases statement_cases hst with ⟨_, he, _⟩ | ⟨a', ha, _, hready, hs⟩
  · cases he
  · cases ha
    exact ⟨hready, hs⟩

theorem World.sql_error {α : Type} {t : P × Role} {fault : Fault} {e : Exn}
    {stmt : Option (Except Exn (α × Database (P × Role) Key (RowOf Payload)))}
    (h : s.sql t fault stmt = some (.error e, s')) :
    s.db.status t ≠ .ready ∧ s'.db = s.db ∨
      (fault = .none → stmt = some (.error e)) ∧
        (s'.db = s.db.fail t ∨ s'.db = s.db.abort t .gone) := by
  rcases statement_cases (World.sql_cases h).2 with ⟨_, he, ⟨h₁, h₂⟩ | ⟨_, h₁, h₂⟩⟩ | ⟨a', ha, _⟩
  · exact .inl ⟨h₁, h₂⟩
  · cases he
    exact .inr ⟨h₁, h₂⟩
  · cases ha

/-- A statement of the batch that raises has failed: not in steady runs. -/
theorem exec_inBatch_error {c : Cmd Payload} {o : Choice} {e : Exn} (hi : Invariant env M s)
    (hk : Know env M p c s) (hg : M.guard.step p c o s) (hc : c.InBatch)
    (h : World.exec p c o s = some (.error e, s')) :
    s.db.status (p, .batch) ≠ .ready ∧ s'.db = s.db ∨
      ¬M.steady ∧ (s'.db = s.db.fail (p, .batch) ∨ s'.db = s.db.abort (p, .batch) .gone) := by
  have hsteady : (o.fault = .none → False) → ¬M.steady := fun hf hs =>
    hf (M.fault_none hs hg fun n f m hx => by subst hx; exact hc)
  cases c with
  | selectPending n =>
    refine (World.sql_error h).imp_right (And.imp_left fun hs => hsteady fun hf => ?_)
    have := hs hf
    split_ifs at this
    simp at this
  | beginNested | releaseSavepoint =>
    refine (World.sql_error h).imp_right (And.imp_left fun hs => hsteady fun hf => ?_)
    cases hs hf
  | insertIndex ρ e' n rid =>
    cases ρ <;> try exact hc.elim
    refine (World.sql_error h).imp_right (And.imp_left fun hs => hsteady fun hf => ?_)
    have := hs hf
    simp at this
  | markPublished rid i | recordFailure err i =>
    refine (World.sql_error h).imp_right (And.imp_left fun hs => hsteady fun hf => ?_)
    have := hs hf
    simp at this
  | selectAttempts i =>
    -- The row is there: no row is deleted.
    obtain ⟨_, w, hw, _⟩ := hi.locked i _ hk.2
    obtain ⟨v, hv, _⟩ := hi.exists_view (p, .batch) hw
    refine (World.sql_error h).imp_right (And.imp_left fun hs => hsteady fun hf => ?_)
    have := hs hf
    rw [hv] at this
    cases this
  | insertAudit ev =>
    obtain ⟨⟨x, s₁⟩, hx, heq⟩ := Option.map_eq_some_iff.1 h
    cases heq
    refine (World.sql_error hx).imp_right (And.imp_left fun hs => hsteady fun hf => ?_)
    have := hs hf
    simp at this
  | _ => exact hc.elim

theorem owns_of_fail {i : ℕ}
    (hdb : s'.db = s.db.fail (p, .batch) ∨ s'.db = s.db.abort (p, .batch) .gone)
    (h : s'.Owns p i) : s.Owns p i := by
  rcases hdb with hdb | hdb
  · rw [World.Owns, hdb] at h
    have hd : Does (p, .batch) (fun _ => False) (fun _ => False) (fun _ _ => True) s.db
        (s.db.fail (p, .batch)) := .fail
    rcases hd.owner_or h with h | ⟨_, h⟩
    · exact h
    · exact h.elim
  · rw [World.Owns, hdb] at h
    exact absurd h owner_abort_self

/-- An exception of a statement that is not in a savepoint ends the batch. -/
theorem adrift_of_error {c : Cmd Payload} {o : Choice} {e : Exn} (hi : Invariant env M s)
    (hk : Know env M p c s) (hg : M.guard.step p c o s) (hc : c.InBatch)
    (h : World.exec p c o s = some (.error e, s')) (ho : Others p s)
    (hcl : M.lossless → Clear p s) (hready : M.steady → s.db.status (p, .batch) = .ready) :
    Adrift M p s' := by
  have ha := hc.apart hi hk h
  have hcom := (exec_quiet hc.quiet h).2.1
  have hown : ∀ i, s'.Owns p i → s.Owns p i := fun i hi' => by
    rcases exec_inBatch_error hi hk hg hc h with ⟨_, hdb⟩ | ⟨_, hdb⟩
    · rwa [World.Owns, hdb] at hi'
    · exact owns_of_fail hdb hi'
  refine ⟨fun hs => ?_, fun hl i o hi' hc' => ?_, ho.of_apart ha⟩
  · rcases exec_inBatch_error hi hk hg hc h with ⟨hn, _⟩ | ⟨hn, _⟩
    · exact hn (hready hs)
    · exact hn hs
  · rw [hcom] at hc'
    exact ha.settled (ha.entries i o (hown i hi') hc') (hcl hl i o (hown i hi') hc')

/-- A statement of the batch, in the savepoint of a row, fails. -/
theorem InSavepoint.failed_of_error {c : Cmd Payload} {o : Choice} {e : Exn}
    (h : InSavepoint M p done todo row lacking s) (hready : s.db.status (p, .batch) = .ready)
    (ho : Others p s) (hi : Invariant env M s) (hk : Know env M p c s)
    (hg : M.guard.step p c o s) (hc : c.InBatch)
    (hex : World.exec p c o s = some (.error e, s')) :
    Failed M p done todo row lacking s' := by
  have ha := hc.apart hi hk hex
  have hcom := (exec_quiet hc.quiet hex).2.1
  rcases exec_inBatch_error hi hk hg hc hex with ⟨hn, _⟩ | ⟨hs, hdb⟩
  · exact absurd hready hn
  have hown : ∀ i, s'.Owns p i → s.Owns p i := fun i => owns_of_fail hdb
  refine ⟨fun h => absurd h hs, fun h => absurd h hs, ?_, progress_of_not_steady hs,
    ho.of_apart ha⟩
  rcases hdb with hdb | hdb
  · obtain ⟨sp, hsp, hkept⟩ := h.kept
    rw [fail] at hdb
    split at hdb
    · rename_i sp' hsp'
      cases Option.some.inj (hsp.symm.trans hsp')
      refine .inr ⟨⟨fun row' hr => ?_, fun row' hr => ?_, fun i hi => h.live.only i (hown i hi)⟩,
        h.distinct, ⟨sp, by rw [hdb]; exact hsp, hkept⟩, fun hl row' hr => ?_, fun hl => ?_⟩
      · rw [World.Owns, hdb]
        simp only [undoTo, hkept row' hr]
        rw [if_neg (by simp)]
        exact h.live.owns row' hr
      · rw [hcom]
        exact h.live.cols row' hr
      · exact ha.settled (h.live.entries ha (List.mem_cons_of_mem _ hr)) (h.settled hl row' hr)
      · exact (h.lacks hl).of_grows ha.toGrows (h.live.entries ha List.mem_cons_self)
    · rename_i hnone
      rw [hnone] at hsp
      cases hsp
  · refine .inl ⟨hs, fun k hk => ?_, ?_, ?_⟩
    · rw [hdb] at hk
      exact owner_abort_self hk
    · rw [hdb, status_abort_self]
      decide
    · rw [hdb, saved_abort_self]

/-! ### What the statements of a batch leave unchanged -/

/-- What a statement of the batch leaves unchanged, when it only locks the rows of
    `new`. -/
structure Local (p : P) (new : Key → Prop) (s s' : World P Payload) : Prop where
  committed : s'.db.committed = s.db.committed
  status : s'.db.status = s.db.status
  owner_of : ∀ k, s.db.owner k = some (p, .batch) → s'.db.owner k = some (p, .batch)
  owner_or : ∀ k, s'.db.owner k = some (p, .batch) → s.db.owner k = some (p, .batch) ∨ new k
  published : ∀ i, Published p i s → Published p i s'

section Local

variable {o : Choice} {i : ℕ}

theorem Live.of_local (h : Live p rows s) (hl : Local p new s s') (hnew : ∀ i, ¬new (.outbox i)) :
    Live p rows s' where
  owns row hr := hl.owner_of _ (h.owns row hr)
  cols row hr := by
    rw [hl.committed]
    exact h.cols row hr
  only i hi := h.only i ((hl.owner_or _ hi).resolve_right (hnew i))

theorem Progress.of_local (h : Progress M p done todo s) (hlive : Live p rows s)
    (hsub : ∀ row ∈ done ++ todo, row ∈ rows) (ha : Apart .batch p s s') (hl : Local p new s s')
    (hnew : ∀ k, new k → (∃ i, k = .outbox i) ∨ ∃ row ∈ done, ∃ n rid, k = .index row.eventId n rid) :
    Progress M p done todo s' where
  finished hs row hr hh := by
    rw [hlive.entries ha (hsub row (List.mem_append_left _ hr))]
    exact (h.finished hs row hr hh).imp_right (hl.published _)
  fresh hs row hr hh := by
    rw [hlive.entries ha (hsub row (List.mem_append_right _ hr))]
    exact h.fresh hs row hr hh
  keys hs k hk := (hl.owner_or k hk).elim (h.keys hs k) (hnew k)

theorem local_of_eq (hcom : s'.db.committed = s.db.committed) (hpend : s'.db.pending = s.db.pending)
    (hst : s'.db.status = s.db.status) (hown : s'.db.owner = s.db.owner) : Local p new s s' := by
  refine ⟨hcom, hst, fun k hk => by rwa [hown], fun k hk => .inl (by rwa [hown] at hk),
    fun i hi => ?_⟩
  rwa [Published, view, hpend, hcom]

/-- The insertion of a row of another table. -/
theorem local_insertNew {k : Key} {v : RowOf Payload k} {b : Bool}
    (h : s.db.insertNew (p, .batch) k v = some (b, s'.db)) (hk : ∀ i, k ≠ .outbox i) :
    Local p (· = k) s s' := by
  rcases insertNew_cases h with ⟨_, hdb, _⟩ | ⟨_, _, _, hdb⟩
  · exact local_of_eq (by rw [hdb]) (by rw [hdb]) (by rw [hdb]) (by rw [hdb])
  · refine ⟨by rw [hdb]; rfl, by rw [hdb]; rfl, fun k' hk' => ?_, fun k' hk' => ?_, fun i hi => ?_⟩
    · rw [hdb, owner_put]
      by_cases hkk : k' = k
      · rw [hkk, Function.update_self]
      · rwa [Function.update_of_ne hkk]
    · rw [hdb, owner_put] at hk'
      by_cases hkk : k' = k
      · exact .inr hkk
      · rw [Function.update_of_ne hkk] at hk'
        exact .inl hk'
    · rwa [Published, hdb, view_put_of_ne (Ne.symm (hk i))]

/-- The update of a row that is locked, and stays published if it is. -/
theorem local_updateRow {w : OutboxRow Payload → Bool} {f : OutboxRow Payload → OutboxRow Payload}
    {b : Bool} (h : s.db.updateRow (p, .batch) (.outbox i) w f = some (b, s'.db))
    (hown : s.Owns p i) (hf : ∀ v, v.publishedAt.isSome → (f v).publishedAt.isSome) :
    Local p (fun _ => False) s s' := by
  rcases updateRow_cases h with ⟨_, hdb, _⟩ | ⟨_, v, hv, _, _, hdb⟩
  · exact local_of_eq (by rw [hdb]) (by rw [hdb]) (by rw [hdb]) (by rw [hdb])
  · have howner : s'.db.owner = s.db.owner := by
      rw [hdb, owner_put]
      exact Function.update_eq_self_iff.2 hown.symm
    refine ⟨by rw [hdb]; rfl, by rw [hdb]; rfl, fun k hk => by rwa [howner],
      fun k hk => .inl (by rwa [howner] at hk), fun j ⟨u, hu, hpub⟩ => ?_⟩
    by_cases hj : j = i
    · subst hj
      cases Option.some.inj (hv.symm.trans hu)
      exact ⟨f u, by rw [hdb, view_put_self], hf u hpub⟩
    · exact ⟨u, by rw [hdb, view_put_of_ne (by simpa using hj)]; exact hu, hpub⟩

theorem exec_beginNested_ok (h : World.exec p .beginNested o s = some (.ok (), s')) :
    s.db.status (p, .batch) = .ready ∧ s'.db = s.db.savepoint (p, .batch) := by
  obtain ⟨hst, hs⟩ := World.sql_ok h
  exact ⟨hst, (congrArg Prod.snd (Except.ok.inj (Option.some.inj hs))).symm⟩

theorem local_beginNested (h : World.exec p .beginNested o s = some (.ok (), s')) :
    Local p (fun _ => False) s s' := by
  have hdb := (exec_beginNested_ok h).2
  exact local_of_eq (by rw [hdb]; rfl) (by rw [hdb]; rfl) (by rw [hdb]; rfl) (by rw [hdb]; rfl)

theorem local_releaseSavepoint (h : World.exec p .releaseSavepoint o s = some (.ok (), s')) :
    Local p (fun _ => False) s s' := by
  obtain ⟨_, hs⟩ := World.sql_ok h
  have hdb : s'.db = s.db.release (p, .batch) :=
    (congrArg Prod.snd (Except.ok.inj (Option.some.inj hs))).symm
  exact local_of_eq (by rw [hdb]; rfl) (by rw [hdb]; rfl) (by rw [hdb]; rfl) (by rw [hdb]; rfl)

theorem local_selectAttempts {n : ℕ}
    (h : World.exec p (.selectAttempts i) o s = some (.ok n, s')) :
    Local p (fun _ => False) s s' := by
  obtain ⟨_, hs⟩ := World.sql_ok h
  split at hs
  · have hdb : s.db = s'.db := congrArg Prod.snd (Except.ok.inj (Option.some.inj hs))
    exact local_of_eq (by rw [hdb]) (by rw [hdb]) (by rw [hdb]) (by rw [hdb])
  · cases hs

theorem local_recordFailure {err : String}
    (h : World.exec p (.recordFailure err i) o s = some (.ok (), s')) (hown : s.Owns p i) :
    Local p (fun _ => False) s s' := by
  obtain ⟨_, hs⟩ := World.sql_ok h
  obtain ⟨⟨b, db⟩, hx, heq⟩ := Option.map_eq_some_iff.1 hs
  have hdb : db = s'.db := congrArg Prod.snd (Except.ok.inj heq)
  subst hdb
  exact local_updateRow hx hown fun _ h => h

end Local

theorem Batch.of_local (h : Batch M p done todo s) (ha : Apart .batch p s s')
    (hl : Local p (fun _ => False) s s') : Batch M p done todo s' where
  live := h.live.of_local hl fun _ => id
  ready := by
    rw [hl.status]
    exact h.ready
  distinct := h.distinct
  settled hm row hr := ha.settled (h.live.entries ha hr) (h.settled hm row hr)
  progress := h.progress.of_local h.live (fun _ => id) ha hl fun _ => False.elim
  others := h.others.of_apart ha

/-- A statement of the batch between two rows, or an exception that ends the batch. -/
theorem keeps_batch {c : Cmd Payload}
    {Q : Except Exn (Reply Payload c) → World P Payload → Prop}
    (hc : c.InBatch) (h : Batch M p done todo s)
    (hk : ∀ s, Batch M p done todo s → Know env M p c s)
    (heff : ∀ s o a s', Batch M p done todo s → World.exec p c o s = some (.ok a, s') →
      Local p (fun _ => False) s s')
    (hok : ∀ a s', Batch M p done todo s' → Q (.ok a) s')
    (herr : ∀ e s', Adrift M p s' → Q (.error e) s') : Keeps env M p (request c) Q s := by
  refine keeps_request (Batch M p done todo) (fun _ _ hr h => h.of_rely hr) h
    fun s₁ hi h₁ => ⟨hk s₁ h₁, fun o r s₂ hg hex _ => ?_⟩
  cases r with
  | ok a => exact hok a s₂ (h₁.of_local (hc.apart hi (hk s₁ h₁) hex) (heff s₁ o a s₂ h₁ hex))
  | error e =>
    exact herr e s₂ (adrift_of_error hi (hk s₁ h₁) hg hc hex h₁.others h₁.clear fun _ => h₁.ready)

/-! ### A row that fails -/

/-- The savepoint of a row is undone. In steady runs it was not written. -/
theorem Failed.undone {sp : Savepoint Key (RowOf Payload)} (h : Failed M p done todo row lacking s)
    (hin : InSavepoint M p done todo row lacking s) (ha : Apart .batch p s s')
    (hcom : s'.db.committed = s.db.committed) (hsp : s.db.saved (p, .batch) = some sp)
    (hdb : s'.db = (s.db.undoTo (p, .batch) sp hsp .ready).release (p, .batch)) :
    Recovering M p done todo row lacking s' := by
  have howner : ∀ k, s'.db.owner k = some (p, .batch) → s.db.owner k = some (p, .batch) := by
    intro k hk
    rw [hdb] at hk
    simp only [release, undoTo] at hk
    split_ifs at hk
    exact hk
  have hview : M.steady → ∀ i, Published p i s → Published p i s' := fun hs i hi => by
    obtain ⟨sp', hsp', hpend⟩ := (h.unwritten hs).saved
    cases Option.some.inj (hsp.symm.trans hsp')
    rw [Published, view, hdb]
    simp only [release, undoTo, Function.update_self, hpend]
    exact hi
  refine ⟨⟨fun row' hr => ?_, fun row' hr => ?_, fun i hi => hin.live.only i (howner _ hi)⟩, ?_,
    hin.distinct, fun hl row' hr => ?_, fun hl => ?_, ⟨fun hs row' hr hh => ?_,
      fun hs row' hr hh => ?_, fun hs k hk => h.progress.keys hs k (howner k hk)⟩⟩
  · obtain ⟨sp', hsp', hkept⟩ := hin.kept
    cases Option.some.inj (hsp.symm.trans hsp')
    rw [World.Owns, hdb]
    simp only [release, undoTo, hkept row' hr]
    rw [if_neg (by simp)]
    exact hin.live.owns row' hr
  · rw [hcom]
    exact hin.live.cols row' hr
  · rw [hdb]
    simp [release, undoTo]
  · exact ha.settled (hin.live.entries ha (List.mem_cons_of_mem _ hr)) (hin.settled hl row' hr)
  · exact (hin.lacks hl).of_grows ha.toGrows (hin.live.entries ha List.mem_cons_self)
  · rw [hin.live.entries ha (List.mem_cons_of_mem _ (List.mem_append_left _ hr))]
    exact (h.progress.finished hs row' hr hh).imp_right (hview hs _)
  · rw [hin.live.entries ha (List.mem_cons_of_mem _ (List.mem_append_right _ hr))]
    exact h.progress.fresh hs row' hr hh

/-- The savepoint is undone, and the locks taken before it kept. -/
theorem keeps_rollbackToSavepoint (h : Failed M p done todo row lacking s) :
    Keeps env M p (request .rollbackToSavepoint)
      (outcome (fun _ s => (M.steady → ¬M.healthy row.eventId) ∧ Others p s ∧
        Searching M p done todo row lacking s) fun _ => Adrift M p) s := by
  refine keeps_request (Failed M p done todo row lacking) (fun _ _ hr h => h.of_rely hr) h
    fun s₁ hi h₁ => ?_
  have hk : Know env M p .rollbackToSavepoint s₁ := by
    intro sp hsp i hown
    rcases h₁.state with hlost | hin
    · exact absurd hown (hlost.owner _)
    · obtain ⟨sp', hsp', hk⟩ := hin.kept
      cases Option.some.inj (hsp.symm.trans hsp')
      obtain ⟨row', hr, rfl⟩ := hin.live.only i hown
      exact hk row' hr
  refine ⟨hk, fun o r s₂ hg hex _ => ?_⟩
  have ha : Apart .batch p s₁ s₂ :=
    apart_step hi hk hex (exec_quiet (by trivial) hex).1 (by simp)
  have ho := h₁.others.of_apart ha
  have hcom := (exec_quiet (by trivial) hex).2.1
  cases hex
  have hcases : s₁.db.rollbackTo (p, Role.batch) o.fault Exn.sql = (_, _) := rfl
  rcases rollbackTo_cases hcases with ⟨hr, hfault, hdb⟩ | ⟨hr, ⟨hnone, hdb⟩ | ⟨sp, hsp, hdb⟩⟩
  · -- The transaction is lost.
    rw [hr]
    refine ⟨fun hs => hfault (M.fault_none hs hg (by simp)), fun hl i c hown hc => ?_, ho⟩
    rw [World.Owns, hdb] at hown
    exact absurd hown owner_abort_self
  · rw [hr]
    refine ⟨h₁.unhealthy, ho, .inl ?_, ho .index (by decide), ho .gauge (by decide)⟩
    rcases h₁.state with hlost | hin
    · rw [hdb]
      exact hlost
    · obtain ⟨sp, hsp, _⟩ := hin.kept
      rw [hnone] at hsp
      cases hsp
  · rw [hr]
    refine ⟨h₁.unhealthy, ho, .inr ?_, ho .index (by decide), ho .gauge (by decide)⟩
    rcases h₁.state with hlost | hin
    · rw [hlost.saved] at hsp
      cases hsp
    · exact h₁.undone hin ha hcom hsp hdb

/-- A row whose publication failed is left pending, with its entries in the lookup table
    in lossless runs. -/
theorem keeps_recoverRow {lower : StreamId} {e : Exn}
    (h : Failed M p done todo row (fun e => lower ≤ e.1) s) :
    Keeps env M p (recoverRow env row lower e)
      (outcome (fun _ => Batch M p (row :: done) todo) fun _ => Adrift M p) s := by
  have hcov : ∀ s, Batch M p (row :: done) todo s → M.lossless → s.Covered p := fun s h hl =>
    (h.clear hl).covered
  rw [recoverRow, keeps_bind]
  refine (keeps_rollbackToSavepoint h).mono fun r s₁ h₁ => ?_
  cases r with
  | error e => exact h₁
  | ok u =>
  obtain ⟨hun, ho, hs⟩ := h₁
  show Keeps env M p _ _ _
  rw [keeps_bind, keeps_tryCatch]
  refine (keeps_reconcileUnindexedXadd hs (ho .scan (by decide))).mono fun r s₂ h₂ => ?_
  have hset : Settling M p done todo row s₂ :=
    ⟨hun, h₂.1.1, others_of_rest h₂.1.2.1 h₂.2 h₂.1.2.2⟩
  have hnext : Keeps env M p (do
      request .beginNested
      request (.recordFailure ((env.formatExc e).take 4000).toString row.outboxId)
      request .releaseSavepoint
      let _ ← request (.selectAttempts row.outboxId))
      (outcome (fun _ => Batch M p (row :: done) todo) fun _ => Adrift M p) s₂ := by
    rw [keeps_bind]
    refine keeps_request (Settling M p done todo row) (fun _ _ hr h => h.of_rely hr) hset
      fun s₁ hi h₁ => ⟨fun hl => (h₁.clear hl).covered, fun o r s₂ hg hex _ => ?_⟩
    have hk : Know env M p .beginNested s₁ := fun hl => (h₁.clear hl).covered
    cases r with
    | error e =>
      exact adrift_of_error hi hk hg trivial hex h₁.others h₁.clear fun hs =>
        (h₁.state.resolve_left fun hl => hl.failed hs).ready
    | ok u =>
      have h₂ : Batch M p (row :: done) todo s₂ :=
        (h₁.batch (exec_beginNested_ok hex).1).of_local (Cmd.InBatch.apart (by trivial) hi hk hex)
          (local_beginNested hex)
      show Keeps env M p _ _ _
      rw [keeps_bind]
      refine keeps_batch trivial h₂ (fun s h => ⟨hcov s h, h.live.owns row List.mem_cons_self⟩)
        (fun s o a s' h hex => local_recordFailure hex (h.live.owns row List.mem_cons_self))
        (fun _ s₃ h₃ => ?_) fun _ _ h => h
      show Keeps env M p _ _ _
      rw [keeps_bind]
      refine keeps_batch trivial h₃ hcov (fun s o a s' _ hex => local_releaseSavepoint hex)
        (fun _ s₄ h₄ => ?_) fun _ _ h => h
      show Keeps env M p _ _ _
      rw [keeps_bind]
      exact keeps_batch trivial h₄ (fun s h => ⟨hcov s h, h.live.owns row List.mem_cons_self⟩)
        (fun s o a s' _ hex => local_selectAttempts hex) (fun _ _ h₅ => h₅) fun _ _ h => h
  cases r with
  | ok u => exact hnext
  | error e => exact hnext

end Outbox

end AslanCore
