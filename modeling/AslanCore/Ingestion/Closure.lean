import AslanCore.Ingestion.Run

/-!
# The end of a run

A run that has been opened should be closed, whatever the body does (`Closed`): its row says
whether the body has succeeded, with the counters of the handle, what the body has raised goes on,
and the actor of the context is what it was. It is so if and only if no record of the handle has
failed in the database, and all that is to be written at the end can be written (`closed_iff`).
Else the row is left `running`, and what the body has raised is replaced by another error.
-/

namespace AslanCore.Ingestion

variable {E : Type} {env : RunEnv} {h : Handle} {s : TxState Db} {runId : ℤ}
  {status : RunStatus} {error : Option PyText} {metadata : Option Timeseries.Jsonb}

/-- The handle at the end of the body. -/
def finalHandle (runId : ℤ) (calls : List HandleCall) : Handle :=
  calls.foldl HandleCall.update (.init runId)

/-- The actor in the block. -/
def blockActor (call : RunCall) (s : Session) : Option Actor :=
  match call.actor with
  | none => s.actor
  | some actor => some actor

/-- The run is closed as it should be. -/
structure Closed (runId : ℤ) (body : Body E) (s : Session) (result : Except (RunError E) Unit)
    (s' : Session) : Prop where
  row : ∃ row, s'.db.runs runId = some row ∧
    row.status = (if body.raised.isNone then .succeeded else .failed) ∧
    row.counters = (finalHandle runId body.calls).counters
  propagated : result = match body.raised with
    | none => .ok ()
    | some e => .error (.body e)
  actor : s'.actor = s.actor

/-! ### When it is -/

/-- The record of the call fails in the database. -/
def HandleCall.poisons (h : Handle) : HandleCall → Bool
  | incrementRows n fault => decide (CanDump h n) && fault
  | _ => false

/-- The record of one of the calls fails in the database. -/
def Poisoned : Handle → List HandleCall → Bool
  | _, [] => false
  | h, c :: cs => c.poisons h || Poisoned (c.update h) cs

/-- A record of `set_metadata` can be written. -/
def CanFlush (p : PyObject × PyObject) : Prop :=
  (p.1.isNone ∨ (p.1.jsonb true).isSome) ∧ (p.2.jsonb true).isSome

/-- What the handle has can be written. -/
structure Writable (h : Handle) (error : Option PyText) : Prop where
  counters : h.counters.Fit
  error : ∀ text ∈ error, text.Storable
  metadata : h.metadata.isNone ∨ (h.metadata.jsonb false).isSome
  /-- Also what has been replaced since. -/
  pending : ∀ p ∈ h.pending, CanFlush p

/-- The run can be closed. -/
structure Closable (traceback : E → PyText) (runId : ℤ) (body : Body E) : Prop where
  unpoisoned : Poisoned (.init runId) body.calls = false
  writable : Writable (finalHandle runId body.calls)
    (body.raised.map fun e => truncateTb (traceback e))

/-! ### The steps -/

/-- An actor is set, or need not be. -/
def RunEnv.HasActor (env : RunEnv) : Prop := ¬(env.auditStrict ∧ env.actor.isNone)

/-- What leaves the runs alone. -/
structure KeepsRuns (s s' : TxState Db) : Prop where
  committed : s'.committed = s.committed
  runs : s'.current.runs = s.current.runs

theorem KeepsRuns.refl (s : TxState Db) : KeepsRuns s s := ⟨rfl, rfl⟩

theorem KeepsRuns.trans {s s' s'' : TxState Db} (h : KeepsRuns s s') (h' : KeepsRuns s' s'') :
    KeepsRuns s s'' :=
  ⟨h'.committed.trans h.committed, h'.runs.trans h.runs⟩

/-- A record leaves the runs alone; it aborts the transaction, if there is a fault. -/
theorem ends_auditRecord (henv : env.HasActor) (runId : ℤ) (audit : RunAudit) (fault : Bool) :
    (auditRecordOnConn env runId audit fault : Tx Db (RunError E) Unit).Ends s fun r s' =>
      KeepsRuns s s' ∧ s'.aborted = (s.aborted || fault) ∧
        (r = .ok () ↔ s.aborted = false ∧ fault = false) := by
  rw [auditRecordOnConn, if_neg henv, execute]
  rcases hs : s.aborted with _ | _
  · refine (Tx.ends_execute hs).2 ?_
    rcases fault with _ | _
    · exact ⟨⟨rfl, rfl⟩, by simp [hs], by simp⟩
    · exact ⟨⟨rfl, rfl⟩, by simp, by simp⟩
  · refine (Tx.ends_execute_aborted hs).2 ⟨.refl _, by simp [hs], by simp⟩

theorem ends_emit (henv : env.HasActor) (c : HandleCall) :
    (c.emit env h : Tx Db (RunError E) Unit).Ends s fun _ s' =>
      KeepsRuns s s' ∧ s'.aborted = (s.aborted || c.poisons h) := by
  rcases c with ⟨n, fault⟩ | n | n | n | d
  · simp only [HandleCall.emit, HandleCall.poisons]
    split_ifs with hdump
    · refine (ends_auditRecord henv _ _ fault).mono fun r s' hx => ?_
      obtain ⟨hruns, haborted, -⟩ := hx
      refine ⟨hruns, ?_⟩
      rw [haborted, decide_eq_true hdump, Bool.true_and]
    · rw [decide_eq_false hdump, Bool.false_and, Bool.or_false]
      exact ⟨.refl _, rfl⟩
  all_goals exact ⟨.refl _, (Bool.or_false _).symm⟩

/-- What the calls of a body leave. -/
theorem runCalls_spec (E : Type) (henv : env.HasActor) (cs : List HandleCall) (h : Handle)
    (s : TxState Db) :
    (runCalls E env cs h s).1 = cs.foldl HandleCall.update h ∧
      KeepsRuns s (runCalls E env cs h s).2 ∧
      (runCalls E env cs h s).2.aborted = (s.aborted || Poisoned h cs) := by
  induction cs generalizing h s with
  | nil => exact ⟨rfl, .refl _, (Bool.or_false _).symm⟩
  | cons c cs ih =>
    obtain ⟨hruns, haborted⟩ := ends_emit (E := E) henv c (s := s) (h := h)
    obtain ⟨hhandle, hruns', haborted'⟩ :=
      ih (c.update h) ((c.emit env h : Tx Db (RunError E) Unit) s).2
    refine ⟨hhandle, hruns.trans hruns', haborted'.trans ?_⟩
    rw [haborted, Poisoned, Bool.or_assoc]

/-- A record of `set_metadata` is written, if it can be. -/
theorem ends_flushPending (henv : env.HasActor) (hs : s.aborted = false) (runId : ℤ)
    (p : PyObject × PyObject) :
    (flushPending env runId p : Tx Db (RunError E) PUnit).Ends s fun r s' =>
      KeepsRuns s s' ∧ s'.aborted = false ∧ (r = .ok ⟨⟩ ↔ CanFlush p) := by
  have hwrite : ∀ audit, (auditRecordOnConn env runId audit false : Tx Db (RunError E) Unit).Ends s
      fun r s' => KeepsRuns s s' ∧ s'.aborted = false ∧ r = .ok () := fun audit =>
    (ends_auditRecord henv runId audit false).mono fun r s' ⟨hruns, haborted, hok⟩ =>
      ⟨hruns, haborted.trans (by rw [hs]; rfl), hok.2 ⟨hs, rfl⟩⟩
  unfold flushPending CanFlush
  by_cases hnone : p.1.isNone
  · rw [if_pos hnone]
    rcases p.2.jsonb true with _ | after
    · exact ⟨.refl _, hs, by simp⟩
    · refine (hwrite _).mono fun r s' ⟨hruns, hlive, hok⟩ => ⟨hruns, hlive, ?_⟩
      simp [hok, hnone]
  · rw [if_neg hnone]
    rcases p.1.jsonb true with _ | before
    · exact ⟨.refl _, hs, by simp [hnone]⟩
    rcases p.2.jsonb true with _ | after
    · exact ⟨.refl _, hs, by simp⟩
    · refine (hwrite _).mono fun r s' ⟨hruns, hlive, hok⟩ => ⟨hruns, hlive, ?_⟩
      simp [hok]

theorem ends_flush (henv : env.HasActor) (hs : s.aborted = false) (runId : ℤ)
    (ps : List (PyObject × PyObject)) :
    Tx.Ends (ps.forM (flushPending env runId : _ → Tx Db (RunError E) PUnit)) s fun r s' =>
      KeepsRuns s s' ∧ s'.aborted = false ∧ (r = .ok ⟨⟩ ↔ ∀ p ∈ ps, CanFlush p) := by
  induction ps generalizing s with
  | nil => exact ⟨.refl _, hs, iff_of_true rfl fun _ hp => absurd hp List.not_mem_nil⟩
  | cons p ps ih =>
    refine Tx.ends_bind.2 ((ends_flushPending henv hs runId p).mono ?_)
    rintro (e | _) s' ⟨hruns, hlive, hok⟩
    · refine ⟨hruns, hlive, iff_of_false (by exact nofun) fun hall => ?_⟩
      cases hok.2 (hall p List.mem_cons_self)
    · refine (ih hlive).mono fun r s'' ⟨hruns', hlive', hok'⟩ => ⟨hruns.trans hruns', hlive', ?_⟩
      rw [hok', List.forall_mem_cons]
      exact (and_iff_right (hok.1 rfl)).symm

/-! ### Closing -/

/-- How a run is closed: its row is written, or nothing is committed. -/
structure Closes (h : Handle) (status : RunStatus) (error : Option PyText) (s : TxState Db)
    (r : Except (RunError E) Unit) (s' : TxState Db) : Prop where
  written : s.aborted = false → Writable h error → r = .ok () ∧ ∃ metadata,
    s'.committed.runs h.id = (s.current.runs h.id).map (.close status h.counters error metadata)
  failed : ¬(s.aborted = false ∧ Writable h error) →
    (∃ e, r = .error e) ∧ s'.committed = s.committed

/-- What is raised before the commit. -/
theorem closes_of_error {e : RunError E} {s' : TxState Db}
    (hfail : ¬(s.aborted = false ∧ Writable h error)) (hcommitted : s'.committed = s.committed) :
    Closes h status error s (.error e) s' :=
  ⟨fun hs hwritable => absurd ⟨hs, hwritable⟩ hfail, fun _ => ⟨⟨e, rfl⟩, hcommitted⟩⟩

theorem ends_closeWith (henv : env.HasActor)
    (hmetadata : h.metadata.isNone ∨ (h.metadata.jsonb false).isSome) :
    (closeWith env h status error metadata : Tx Db (RunError E) Unit).Ends s
      (Closes h status error s) := by
  refine Tx.ends_bind.2 ?_
  rcases hs : s.aborted with _ | _
  swap
  · refine (Tx.ends_execute_aborted hs).2 (closes_of_error (fun ⟨hs', _⟩ => ?_) rfl)
    cases hs.symm.trans hs'
  refine (Tx.ends_execute hs).2 ?_
  by_cases hfit : h.counters.Fit ∧ ∀ text ∈ error, text.Storable
  swap
  · rw [updateRun, if_neg hfit]
    exact closes_of_error (fun ⟨_, hwritable⟩ => hfit ⟨hwritable.counters, hwritable.error⟩) rfl
  rw [updateRun, if_pos hfit]
  let updated := s.put (s.current.update h.id (.close status h.counters error metadata))
  refine Tx.ends_bind.2 ((ends_flush (s := updated) henv hs h.id h.pending).mono ?_)
  rintro (e | _) s' ⟨hruns, hlive, hok⟩
  · refine closes_of_error (fun ⟨_, hwritable⟩ => ?_) hruns.committed
    cases hok.2 hwritable.pending
  refine Tx.ends_bind.2 ((ends_auditRecord henv h.id _ false).mono ?_)
  rintro r s'' ⟨hruns', haborted, hok'⟩
  rw [hok'.2 ⟨hlive, rfl⟩]
  have hlive' : s''.aborted = false := haborted.trans (by rw [hlive]; rfl)
  have hwritable : Writable h error := ⟨hfit.1, hfit.2, hmetadata, hok.1 rfl⟩
  refine ⟨fun _ _ => ⟨rfl, metadata, ?_⟩, fun hfail => absurd ⟨hs, hwritable⟩ hfail⟩
  have hrow : s''.current.runs h.id =
      (s.current.update h.id (.close status h.counters error metadata)).runs h.id := by
    rw [hruns'.runs, hruns.runs]
    rfl
  change (if s''.aborted then s''.committed else s''.current).runs h.id = _
  rw [if_neg (by rw [hlive']; exact Bool.false_ne_true), hrow]
  exact if_pos rfl

/-- A run is closed if and only if the transaction is not aborted, and what the handle has can be
    written. -/
theorem ends_closeRun (henv : env.HasActor) (h : Handle) (status : RunStatus)
    (error : Option PyText) (s : TxState Db) :
    (closeRun env h status error : Tx Db (RunError E) Unit).Ends s (Closes h status error s) := by
  unfold closeRun
  by_cases hnone : h.metadata.isNone
  · rw [if_pos hnone]
    exact ends_closeWith henv (.inl hnone)
  rw [if_neg hnone]
  rcases hjsonb : h.metadata.jsonb false with _ | metadata
  · refine closes_of_error (fun ⟨_, hwritable⟩ => ?_) rfl
    have hsome := hwritable.metadata.resolve_left hnone
    rw [hjsonb] at hsome
    cases hsome
  · exact ends_closeWith henv (.inr (by rw [hjsonb]; rfl))

/-! ### A block -/

theorem id_foldl_update (cs : List HandleCall) (h : Handle) :
    (cs.foldl HandleCall.update h).id = h.id := by
  induction cs generalizing h with
  | nil => rfl
  | cons c cs ih =>
    refine (ih _).trans ?_
    rcases c with _ | _ | _ | _ | _ <;> rfl

theorem id_finalHandle (runId : ℤ) (calls : List HandleCall) :
    (finalHandle runId calls).id = runId := id_foldl_update calls _

/-- The run is open: its row is committed. -/
structure Opened (runId : ℤ) (s : TxState Db) : Prop where
  live : s.aborted = false
  clean : s.current = s.committed
  row : ∃ row, s.committed.runs runId = some row ∧ row.status = .running

/-- How a block ends. -/
theorem runBlock_spec (henv : env.HasActor) (traceback : E → PyText) (body : Body E)
    (hs : Opened runId s) :
    (Closable traceback runId body →
      (runBlock env traceback runId body s).1 = (match body.raised with
        | none => .ok ()
        | some e => .error (.body e)) ∧
      ∃ row, (runBlock env traceback runId body s).2.committed.runs runId = some row ∧
        row.status = (if body.raised.isNone then .succeeded else .failed) ∧
        row.counters = (finalHandle runId body.calls).counters) ∧
    (¬Closable traceback runId body →
      (runBlock env traceback runId body s).2.committed = s.committed) := by
  obtain ⟨hhandle, hruns, haborted⟩ := runCalls_spec E henv body.calls (.init runId) s
  rw [hs.live, Bool.false_or] at haborted
  change _ = finalHandle runId body.calls at hhandle
  obtain ⟨row, hrow, -⟩ := hs.row
  have hid : (finalHandle runId body.calls).id = runId := id_finalHandle runId body.calls
  have hrow' : (runCalls E env body.calls (.init runId) s).2.current.runs runId = some row := by
    rw [hruns.runs, hs.clean, hrow]
  unfold runBlock
  generalize runCalls E env body.calls (.init runId) s = t at hhandle hruns haborted hrow' ⊢
  obtain ⟨h, t⟩ := t
  obtain rfl : h = finalHandle runId body.calls := hhandle
  rcases body with ⟨calls, _ | e⟩
  · have hcloses : Closes _ _ _ t _ _ :=
      ends_closeRun (E := E) henv (finalHandle runId calls) .succeeded none t
    refine ⟨fun hclosable => ?_, fun hnot => ?_⟩
    · obtain ⟨hok, metadata, hcommitted⟩ := hcloses.written (haborted.trans hclosable.unpoisoned)
        hclosable.writable
      exact ⟨hok, _, (hid ▸ hcommitted).trans (congrArg _ hrow'), rfl, rfl⟩
    · exact (hcloses.failed fun ⟨hlive, hwritable⟩ =>
        hnot ⟨haborted.symm.trans hlive, hwritable⟩).2.trans hruns.committed
  · have hcloses : Closes _ _ _ t _ _ := ends_closeRun (E := E) henv (finalHandle runId calls) .failed
      (some (truncateTb (traceback e))) t
    simp only
    generalize (closeRun env (finalHandle runId calls) .failed (some (truncateTb (traceback e))) t :
      Except (RunError E) Unit × TxState Db) = closed at hcloses ⊢
    obtain ⟨r, t'⟩ := closed
    refine ⟨fun hclosable => ?_, fun hnot => ?_⟩
    · obtain ⟨rfl, metadata, hcommitted⟩ := hcloses.written
        (haborted.trans hclosable.unpoisoned) hclosable.writable
      exact ⟨rfl, _, (hid ▸ hcommitted).trans (congrArg _ hrow'), rfl, rfl⟩
    · obtain ⟨⟨e', rfl⟩, hcommitted⟩ := hcloses.failed fun ⟨hlive, hwritable⟩ =>
        hnot ⟨haborted.symm.trans hlive, hwritable⟩
      exact hcommitted.trans hruns.committed

/-- What opening a run leaves. -/
theorem openRun_spec {call : RunCall} (hdb : s.aborted = false) :
    (openRun env call : Tx Db (RunError E) ℤ).Ends s fun r s' => ∀ runId, r = .ok runId →
      env.HasActor ∧ Opened runId s' := by
  unfold openRun
  by_cases henv : env.auditStrict ∧ env.actor.isNone
  · rw [if_pos henv]
    exact fun _ hok => by cases hok
  rw [if_neg henv]
  refine Tx.ends_bind.2 ((Tx.ends_execute hdb).2 ?_)
  by_cases htext : Timeseries.storableText call.sourceId
  swap
  · rw [if_neg htext]
    exact fun _ hok => by cases hok
  rw [if_pos htext]
  rcases hsource : s.current.source call.sourceId with _ | _
  · exact fun _ hok => by cases hok
  rcases (Timeseries.PyValue.dict (call.metadata.getD [])).jsonb with _ | metadata
  · exact fun _ hok => by cases hok
  refine Tx.ends_bind.2 ((Tx.ends_execute hdb).2 ?_)
  unfold insertRun
  split_ifs
  swap
  · exact fun _ hok => by cases hok
  refine Tx.ends_bind.2 ((ends_auditRecord henv s.current.nextRunId _ false).mono ?_)
  rintro r s' ⟨hruns, haborted, hok⟩
  rw [hok.2 ⟨hdb, rfl⟩]
  have hlive : s'.aborted = false := haborted.trans (by simp [hdb])
  rintro runId hrunId
  obtain rfl : s.current.nextRunId = runId := Except.ok.inj hrunId
  refine ⟨henv, rfl, rfl, ?_⟩
  have hcommitted : (Tx.commit s' : Except (RunError E) Unit × TxState Db).2.committed =
      s'.current := by
    change (if s'.aborted then s'.committed else s'.current) = _
    rw [if_neg (by rw [hlive]; exact Bool.false_ne_true)]
  change ∃ row, (Tx.commit s' : Except (RunError E) Unit × TxState Db).2.committed.runs
    s.current.nextRunId = some row ∧ _
  rw [hcommitted, hruns.runs]
  exact ⟨_, if_pos rfl, rfl⟩

/-- What a run does once it has been opened. -/
theorem runAs_eq {auditStrict : Bool} {call : RunCall} (traceback : E → PyText) (body : Body E)
    {s : Session} {t : TxState Db}
    (hopen : (openRun ⟨auditStrict, s.actor⟩ call : Tx Db (RunError E) ℤ) ⟨s.db, s.db, false⟩ =
      (.ok runId, t)) :
    runAs auditStrict call traceback body s =
      ((runBlock ⟨auditStrict, s.actor⟩ traceback runId body t).1,
        ⟨(runBlock ⟨auditStrict, s.actor⟩ traceback runId body t).2.committed, s.actor⟩) := by
  simp only [runAs, hopen]

/-- The actor is what it was, and else nothing depends on where it is from. -/
theorem ingestionRun_eq {auditStrict : Bool} {call : RunCall} (traceback : E → PyText)
    (body : Body E) {s : Session} {t : TxState Db}
    (hopen : (openRun ⟨auditStrict, blockActor call s⟩ call : Tx Db (RunError E) ℤ)
      ⟨s.db, s.db, false⟩ = (.ok runId, t)) :
    ingestionRun auditStrict call traceback body s =
      ((runBlock ⟨auditStrict, blockActor call s⟩ traceback runId body t).1,
        ⟨(runBlock ⟨auditStrict, blockActor call s⟩ traceback runId body t).2.committed,
          s.actor⟩) := by
  unfold ingestionRun
  unfold blockActor at hopen ⊢
  rcases hactor : call.actor with _ | actor
  · rw [hactor] at hopen
    exact runAs_eq traceback body hopen
  · rw [hactor] at hopen
    have hrun : runAs auditStrict call traceback body (pushActor actor s).2 = _ :=
      runAs_eq traceback body hopen
    simp only [hrun]
    rfl

/-- A run that has been opened is closed as it should be if and only if no record of the handle has
    failed in the database, and what is to be written at the end can be. -/
theorem closed_iff (auditStrict : Bool) (call : RunCall) (traceback : E → PyText) (body : Body E)
    (s : Session)
    (hopen : ((openRun ⟨auditStrict, blockActor call s⟩ call : Tx Db (RunError E) ℤ)
      ⟨s.db, s.db, false⟩).1 = .ok runId) :
    Closed runId body s (ingestionRun auditStrict call traceback body s).1
        (ingestionRun auditStrict call traceback body s).2 ↔
      Closable traceback runId body := by
  have hspec : (openRun ⟨auditStrict, blockActor call s⟩ call : Tx Db (RunError E) ℤ).Ends
      ⟨s.db, s.db, false⟩ _ := openRun_spec rfl
  obtain ⟨henv, hopened⟩ := hspec runId hopen
  obtain ⟨t, ht⟩ : ∃ t, (openRun ⟨auditStrict, blockActor call s⟩ call :
      Tx Db (RunError E) ℤ) ⟨s.db, s.db, false⟩ = (.ok runId, t) := ⟨_, Prod.ext hopen rfl⟩
  rw [ht] at hopened
  rw [ingestionRun_eq traceback body ht]
  obtain ⟨hclosed, hleft⟩ := runBlock_spec henv traceback body hopened
  constructor
  · intro h
    by_contra hnot
    -- The row is as it was committed when the run was opened.
    obtain ⟨row, hrow, hstatus, -⟩ := h.row
    obtain ⟨row', hrow', hrunning⟩ := hopened.row
    rw [hleft hnot, hrow'] at hrow
    obtain rfl := Option.some.inj hrow
    rw [hrunning] at hstatus
    split_ifs at hstatus
  · intro hclosable
    obtain ⟨hresult, hrow⟩ := hclosed hclosable
    exact ⟨hrow, hresult, rfl⟩

/-! ### Metadata that cannot be written -/

/-- A source, and no run yet. -/
def emptyDb : Db where
  source sid := sid = "kap"
  runs _ := none
  nextRunId := 1
  events := []
  runs_seq _ _ := rfl

/-- A job of the source. -/
def kapJob : RunCall where
  sourceId := "kap"
  jobName := "entity_catalog"
  configHash := none
  metadata := none
  actor := none

/-- The body counts three rows, sets a time of the day as metadata, and ends normally. -/
def timeBody : Body Unit where
  calls := [.incrementRows 3 false,
    .setMetadata (.dict [(some (.str "finished"), .other (some "2026-04-27 12:00:00"))])]
  raised := none

/-- The run of the body is left `running`. -/
theorem not_closed_time : ¬Closed 1 timeBody ⟨emptyDb, none⟩
    (ingestionRun false kapJob (fun _ => []) timeBody ⟨emptyDb, none⟩).1
    (ingestionRun false kapJob (fun _ => []) timeBody ⟨emptyDb, none⟩).2 := by
  intro h
  have hresult : (ingestionRun false kapJob (fun _ => []) timeBody ⟨emptyDb, none⟩).1 =
      .error .encoder := by decide +kernel
  cases hresult.symm.trans h.propagated

/-- The job can be opened. -/
theorem closed_time_iff : Closed 1 timeBody ⟨emptyDb, none⟩
      (ingestionRun false kapJob (fun _ => []) timeBody ⟨emptyDb, none⟩).1
      (ingestionRun false kapJob (fun _ => []) timeBody ⟨emptyDb, none⟩).2 ↔
    Closable (fun _ => []) 1 timeBody :=
  closed_iff false kapJob (fun _ => []) timeBody ⟨emptyDb, none⟩ (by decide +kernel)

end AslanCore.Ingestion
