import AslanCore.Documents.Chain

/-!
# Amendments

Whatever writers do at the same time, and whatever goes wrong, the revisions of a reference are a
chain, when the calls leave its fields to the store (`amendmentChain_of_reach`).

What a writer knows when it issues the upsert is said by an outline (`outline`): it holds the lock
of the reference, and the fields of the new revision follow the chain that it sees (`Knows`). The
others do not change this chain (`Rely`).
-/

set_option linter.unusedSectionVars false

namespace AslanCore

namespace Documents

open Database Outline Prog

variable {P : Type} [DecidableEq P] {env : Env} {p q : P} {s s' : World P} {c : Cmd} {o : Choice}
  {r : Except Exn (Reply c)} {v : FilingValues}

/-- The writer holds the lock of the reference. -/
def Holds (env : Env) (p : P) (source ref : String) (s : World P) : Prop :=
  s.db.owner (World.lockKey env source ref) = some p

/-- What a writer knows when it issues the upsert: the fields of the new revision follow the chain,
    unless there is a row with its hash. -/
structure Knows (env : Env) (p : P) (v : FilingValues) (s : World P) : Prop where
  holds : Holds env p v.sourceId v.sourceFilingRef s
  follows : (∃ l, IsChain (Links (s.db.view p) v.sourceId v.sourceFilingRef) l ∧
      v.previousFilingId = lastFiling none l ∧ v.isAmendment = (lastFiling none l).isSome) ∨
    (s.db.view p (.filing v.sourceId v.primarySha256)).isSome

/-- What a writer relies on. -/
structure Rely (env : Env) (p : P) (s s' : World P) : Prop where
  frame : Frame p s.db s'.db
  links : ∀ source ref, Holds env p source ref s → ∀ x,
    Links (s'.db.view p) source ref x ↔ Links (s.db.view p) source ref x
  visible : ∀ source sha, (s.db.view p (.filing source sha)).isSome →
    (s'.db.view p (.filing source sha)).isSome

/-- The outline of the writers. -/
def outline (env : Env) : Outline Cmd Exn (Option PutFilingResult) P Job (World P) where
  inv s := Chained env s.hashes s.db
  know p c s :=
    match c with
    | .upsert v => Knows env p v s
    | _ => True
  rely := Rely env
  idle _ _ := True
  post _ _ _ _ := True

/-! ### Steps -/

theorem filed_view (h : Chained env s.hashes s.db) : Filed s.hashes (s.db.view p) :=
  fun hrow => h.rowOk (occurs_of_view hrow)

theorem filed_committed (h : Chained env s.hashes s.db) : Filed s.hashes s.db.committed :=
  fun hrow => h.rowOk (.inl hrow)

/-- A filing that is inserted has an identifier of its own. -/
theorem distinct_of_inserts {now : Timestamp} {db : Database P Key RowOf}
    (h : Chained env s.hashes s.db) (hins : Inserts p v now s db) {source sha : String}
    {row : FilingRow} (hrow : Occurs s.db source sha row) : row.filingId ≠ v.filingId := by
  have hne : ∀ row ∈ s.filings p ++ s.pendingOfOthers p, row.filingId ≠ v.filingId :=
    fun row hrow hid => hins.distinct row hrow (.inl hid)
  have hmem := (h.rowOk hrow).2.2
  rcases hrow with hc | ⟨t, hp⟩
  · obtain ⟨row', hrow', hlink, -⟩ := h.view_kept (t := p) hc
    have hrow'mem : row' ∈ s.filings p := mem_filingsOf_of (filed_view h) hrow'
    rw [← show row'.filingId = row.filingId from congrArg Link.filingId hlink]
    exact hne _ (List.mem_append_left _ hrow'mem)
  · have hview : s.db.view t (.filing source sha) = some row := by
      rw [view, hp, Option.getD_some]
    by_cases ht : t = p
    · subst ht
      exact hne _ (List.mem_append_left _ (mem_filingsOf_of (filed_view h) hview))
    · refine hne _ (List.mem_append_right _ (List.mem_filterMap.2 ⟨(source, sha), hmem, ?_⟩))
      have howner := s.db.owner_of_pending t (.filing source sha) (by rw [hp]; rfl)
      simp only [howner, if_neg ht]
      exact hview

/-- A filing is inserted as the next revision. -/
theorem chained_of_inserts {now : Timestamp} {db : Database P Key RowOf}
    (h : Chained env s.hashes s.db) (hk : Knows env p v s) (hins : Inserts p v now s db) :
    Chained env (s.hashes.insert (v.sourceId, v.primarySha256)) db := by
  have hdistinct : ∀ source sha row, Occurs s.db source sha row → row.filingId ≠ v.filingId :=
    fun _ _ _ hrow => distinct_of_inserts h hins hrow
  obtain ⟨habsent, -, -, db₁, hdb₁, -, rfl⟩ := hins
  obtain ⟨l, hl, hprevious, hamendment⟩ := hk.follows.resolve_right (by rw [habsent]; simp)
  have hperm := perm_of_isChain (filed_view h) h.nodup hl
  have h' := h.insertHash (v.sourceId, v.primarySha256)
  have hrevision : nextRevision v.sourceId v.sourceFilingRef (s.filings p) = l.length + 1 :=
    nextRevision_eq hl.numbered hperm
  have hmem : (v.sourceId, v.primarySha256) ∈ s.hashes.insert (v.sourceId, v.primarySha256) :=
    List.mem_insert_self
  rcases hdb₁ with rfl | ⟨k, rfl⟩
  · exact h'.insert (v.row now _) habsent ⟨rfl, rfl, hmem⟩ hk.holds hdistinct hl hrevision hprevious hamendment
  · exact h'.addRef.insert (v.row now _) habsent ⟨rfl, rfl, hmem⟩ hk.holds hdistinct hl hrevision hprevious
      hamendment

theorem inv_step (h : Chained env s.hashes s.db) (hk : (outline env).know p c s)
    (hex : World.exec env p c o s = some (r, s')) : Chained env s'.hashes s'.db := by
  rcases hashes_of_exec hex with rfl | hhashes
  · exact h
  have heffect := effect_of_exec hex
  have hmono : ∀ {db : Database P Key RowOf}, Chained env s.hashes db → Chained env (c.hashes s.hashes) db := by
    intro db hdb
    cases c with
    | upsert v => exact hdb.insertHash _
    | _ => exact hdb
  rw [hhashes]
  generalize s'.db = db at heffect
  rcases heffect with _ | _ | _ | _ | _ | ⟨k, row, hkey, _⟩ | hins | ⟨hold, _, rfl⟩
  · exact hmono h
  · exact hmono h.abort
  · exact hmono h.fail
  · exact hmono h.commitTx
  · exact hmono h.lockRow
  · exact hmono (h.put_other hkey)
  · exact chained_of_inserts h hk hins
  · exact hmono (h.republish hold)

/-- The other writers keep the chains whose lock a writer holds. -/
theorem rely_of_effect {db : Database P Key RowOf} (h : Chained env s.hashes s.db)
    (heffect : Effect q s c db) (hp : p ≠ q) (hdb : s'.db = db) : Rely env p s s' := by
  have hframe := heffect.frame hp
  rcases heffect.committed_cases with hcommitted | ⟨st, -, hcommit⟩
  · have hview : s'.db.view p = s.db.view p := by
      funext k
      rw [view, view, hdb, hcommitted, hframe.pending]
    exact ⟨hdb ▸ hframe, fun _ _ _ _ => by rw [hview], fun _ _ => by rw [hview]; exact id⟩
  · refine ⟨hdb ▸ hframe, fun source ref hholds x => ?_, fun source sha hrow => ?_⟩
    · rw [hdb, hcommit]
      exact h.links_commitTx hp hholds
    · rw [hdb, hcommit, view, (frame_commitTx hp).pending, committed_commitTx]
      cases hpending : s.db.pending p (.filing source sha) with
      | some w =>
        rw [view, hpending, Option.getD_some] at hrow
        exact hrow
      | none =>
        rw [view, hpending, Option.getD_none] at hrow
        obtain ⟨row, hc⟩ := Option.isSome_iff_exists.1 hrow
        obtain ⟨row', hrow', -⟩ := h.view_kept (t := q) hc
        rw [Option.getD_none, hrow']
        rfl

/-- The commands that may be issued at any time. -/
def Cmd.NoUpsert : Cmd → Prop
  | .upsert _ => False
  | _ => True

theorem Cmd.Inner.noUpsert (c : Cmd) (h : c.Inner) : c.NoUpsert := by
  cases c with
  | upsert v => exact h
  | _ => trivial

/-! ### What a writer knows -/

/-- The calls leave the fields of the chain to the store. -/
def PutFilingCall.Defaults (call : PutFilingCall) : Prop :=
  call.previousFilingId = none ∧ call.isAmendment = false

instance : DecidablePred PutFilingCall.Defaults := fun _ => inferInstanceAs (Decidable (_ ∧ _))

def Job.Defaults : Job → Prop
  | .put _ args | .transaction _ args => args.Defaults
  | .commit | .rollback => True

instance : DecidablePred Job.Defaults := fun
  | .put _ args | .transaction _ args => inferInstanceAs (Decidable args.Defaults)
  | .commit | .rollback => inferInstanceAs (Decidable True)

/-- What follows is about runs in which anything may happen, but all calls leave the fields of the
    chain to the store. -/
abbrev defaultsGuard (P : Type) : Guard Cmd P Job Choice (World P) where
  start _ j _ := j.Defaults

/-- The latest revision that was read is the last one of the chain. -/
def ReadPrior (env : Env) (p : P) (source ref : String) (prior : Option Filing) (s : World P) :
    Prop :=
  Holds env p source ref s ∧ ∃ l, IsChain (Links (s.db.view p) source ref) l ∧
    prior.map (fun f => (f.filingId, f.primarySha256)) =
      l.getLast?.map fun x => (x.filingId, x.primarySha256)

section

variable {source ref : String} {prior : Option Filing} {caller : Caller} {call : PutFilingCall}

theorem Holds.of_rely (h : Holds env p source ref s) (hr : Rely env p s s') :
    Holds env p source ref s' := (hr.frame.owner _).2 h

theorem ReadPrior.of_rely (h : ReadPrior env p source ref prior s) (hr : Rely env p s s') :
    ReadPrior env p source ref prior s' := by
  obtain ⟨hholds, l, hl, hprior⟩ := h
  exact ⟨hholds.of_rely hr, l, ⟨fun x => (hr.links _ _ hholds x).trans (hl.mem x), hl.numbered⟩,
    hprior⟩

/-- The fields of the new revision follow the chain, unless its bytes are those of the latest
    revision. -/
theorem knows_of_readPrior (hcall : call.Defaults)
    (h : ReadPrior env p call.sourceId call.sourceFilingRef prior s) (sha : String)
    (filingId : PgUuid) (metadata : List (String × Timeseries.Jsonb)) :
    Knows env p (filingValues caller call sha filingId (chainFields call sha prior) metadata) s := by
  obtain ⟨hholds, l, hl, hprior⟩ := h
  refine ⟨hholds, ?_⟩
  cases prior with
  | none =>
    have hlast : l.getLast? = none := by simpa using hprior.symm
    refine .inl ⟨l, hl, ?_⟩
    simp only [filingValues, chainFields, lastFiling, hlast]
    exact ⟨hcall.1, hcall.2⟩
  | some f =>
    obtain ⟨x, hx, hfx⟩ := Option.map_eq_some_iff.1 hprior.symm
    obtain ⟨hid, hsha⟩ := Prod.mk.inj hfx
    by_cases hf : f.primarySha256 = sha
    · obtain ⟨row, hrow, -⟩ := (hl.mem x).2 (List.mem_of_getLast? hx)
      refine .inr ?_
      rw [← hf, ← hsha]
      exact Option.isSome_iff_exists.2 ⟨row, hrow⟩
    · refine .inl ⟨l, hl, ?_⟩
      simp only [filingValues, chainFields, lastFiling, hx, if_pos hf, hcall.1, hid]
      exact ⟨trivial, rfl⟩

/-! ### The outline holds -/

/-- What the outline says of a program of a writer. -/
abbrev Keeps {α : Type} (env : Env) (p : P) (m : Program α) (Q : Except Exn α → World P → Prop)
    (s : World P) : Prop :=
  (outline env).Safe (system env P) (defaultsGuard P) p m Q s

/-- A program without an upsert may run at any time. -/
theorem keeps_of_issues {α : Type} {m : Program α} (hm : m.Issues Cmd.NoUpsert) (s : World P) :
    Keeps env p m (fun _ _ => True) s := by
  refine safe_of_issues hm fun c s hc => ?_
  cases c with
  | upsert v => exact hc.elim
  | _ => trivial

/-- What comes after a program that may run at any time. -/
theorem keeps_bind {α β : Type} {m : Program α} {f : α → Program β} (hm : m.Issues Cmd.NoUpsert)
    (hf : ∀ a s, Keeps env p (f a) (fun _ _ => True) s) :
    Keeps env p (m >>= f) (fun _ _ => True) s :=
  safe_bind.2 ((keeps_of_issues hm s).mono fun r s' _ => by
    cases r with
    | ok a => exact hf a s'
    | error e => trivial)

theorem keeps_storeFiling {pre : Option FilingRow} (hcall : call.Defaults) (bucket sha : String)
    (filingId : PgUuid) (h : ReadPrior env p call.sourceId call.sourceFilingRef prior s) :
    Keeps env p (storeFiling env caller bucket call sha filingId prior pre) (fun _ _ => True) s := by
  rw [storeFiling]
  split
  · trivial
  · refine safe_bind.2 (safe_perform (ReadPrior env p call.sourceId call.sourceFilingRef prior)
      (fun _ _ hr h => h.of_rely hr) h fun s₁ _ h₁ => ⟨knows_of_readPrior hcall h₁ _ _ _,
        fun o r s₂ _ _ _ => ?_⟩)
    cases r with
    | error e => trivial
    | ok up =>
      exact keeps_of_issues ((issues_finishCall _ _ _ _ _ _).mono Cmd.Inner.noUpsert) s₂

/-- What is read of the latest revision. -/
theorem readPrior_of_exec (hs : Chained env s.hashes s.db) (hholds : Holds env p source ref s)
    (h : World.exec env p (.findCanonicalByRef source ref) o s = some (.ok prior, s')) :
    ReadPrior env p source ref prior s' := by
  obtain ⟨db, hstmt, rfl⟩ := World.sql_eq_ok (run_of_exec h)
  cases hstmt
  obtain ⟨l, hl⟩ := hs.chainOf p source ref
  refine ⟨hholds, l, hl, ?_⟩
  have hlast : (latestRevision source ref (s.filings p)).map FilingRow.link = l.getLast? :=
    latestRevision_eq hl.numbered (perm_of_isChain (filed_view hs) hs.nodup hl)
  rw [← hlast, Option.map_map, Option.map_map]
  rfl

theorem holds_of_exec (h : World.exec env p (.advisoryLock source ref) o s = some (.ok (), s')) :
    Holds env p source ref s' := by
  obtain ⟨db, hstmt, rfl⟩ := World.sql_eq_ok (run_of_exec h)
  split_ifs at hstmt with hl
  cases hstmt
  exact Function.update_self _ _ _

/-- A command that keeps the tables as they are, or locks a row. -/
def Cmd.Reads : Cmd → Prop
  | .uploadedKeys _ | .putObject _ _ _ => True
  | _ => False

theorem issues_uploadXbrl_reads (bucket : String) (call : PutFilingCall) (filingId : PgUuid) :
    (uploadXbrl bucket call filingId).Issues Cmd.Reads := by
  rw [uploadXbrl]
  split
  · exact Issues.bind (issues_track (fun _ => trivial) _) fun _ => issues_perform trivial
  · trivial

theorem db_of_reads (hc : c.Reads) (h : World.exec env p c o s = some (r, s')) : s'.db = s.db := by
  rcases exec_cases h with ⟨-, rfl⟩ | ⟨r', hrun, -⟩
  · rfl
  cases c with
  | uploadedKeys f =>
    cases hrun
    rfl
  | putObject bucket key body =>
    rcases World.storage_cases hrun with ⟨-, rfl, -⟩ | ⟨-, -, rfl | rfl⟩ <;> rfl
  | _ => exact hc.elim

theorem ReadPrior.of_db (h : ReadPrior env p source ref prior s) (hdb : s'.db = s.db) :
    ReadPrior env p source ref prior s' := by
  rw [ReadPrior, Holds, hdb]
  exact h

theorem readPrior_of_selectForUpdate {sha : String} {pre : Option FilingRow}
    (h : ReadPrior env p source ref prior s)
    (hex : World.exec env p (.selectForUpdate source sha) o s = some (.ok pre, s')) :
    ReadPrior env p source ref prior s' := by
  obtain ⟨db, hstmt, rfl⟩ := World.sql_eq_ok (run_of_exec hex)
  obtain ⟨⟨w, db₁⟩, hsel, heq⟩ := Option.map_eq_some_iff.1 hstmt
  cases heq
  rcases selectForUpdate_cases hsel with ⟨-, rfl, -⟩ | ⟨w, -, -, hl, rfl⟩
  · exact h
  · refine ⟨?_, h.2⟩
    rw [Holds, owner_lockRow, Function.update_of_ne Key.noConfusion]
    exact h.1

theorem keeps_uploadAndStore (hcall : call.Defaults) (bucket sha : String) (filingId : PgUuid) :
    Keeps env p (uploadAndStore env caller bucket call sha filingId) (fun _ _ => True) s := by
  refine keeps_bind ((issues_uploadPrimary _ _ _).mono Cmd.Inner.noUpsert) fun _ s => ?_
  refine safe_bind.2 (safe_perform (fun _ => True) (fun _ _ _ _ => trivial) trivial
    fun s₁ _ _ => ⟨trivial, fun o r s₂ _ hex _ => ?_⟩)
  cases r with
  | error e => trivial
  | ok _ =>
    have hholds := holds_of_exec hex
    refine safe_bind.2 (safe_perform (Holds env p call.sourceId call.sourceFilingRef)
      (fun _ _ hr h => h.of_rely hr) hholds fun s₃ hi h₃ => ⟨trivial, fun o r s₄ _ hex _ => ?_⟩)
    cases r with
    | error e => trivial
    | ok prior =>
      have hprior := readPrior_of_exec hi h₃ hex
      refine safe_bind.2 ((safe_keeps (a := ReadPrior env p call.sourceId call.sourceFilingRef prior)
        (issues_uploadXbrl_reads bucket call filingId) (fun _ _ hr h => h.of_rely hr)
        (fun c _ hc => ?_) (fun _ _ _ _ _ hc _ h hex => h.of_db (db_of_reads hc hex)) hprior).mono
          fun r s₅ h₅ => ?_)
      · cases c with
        | upsert v => exact hc.elim
        | _ => trivial
      · cases r with
        | error e => trivial
        | ok _ =>
          refine safe_bind.2 (safe_perform _ (fun _ _ hr h => ReadPrior.of_rely h hr) h₅
            fun s₆ _ h₆ => ⟨trivial, fun o r s₇ _ hex _ => ?_⟩)
          cases r with
          | error e => trivial
          | ok pre => exact keeps_storeFiling hcall _ _ _ (readPrior_of_selectForUpdate h₆ hex)

theorem keeps_putFiling (hcall : call.Defaults) :
    Keeps env p (putFiling env caller call) (fun _ _ => True) s := by
  rw [putFiling]
  split
  · trivial
  · refine keeps_bind (issues_perform trivial) fun filingId s => ?_
    refine keeps_bind (issues_perform trivial) fun _ s => ?_
    refine safe_tryCatch.2 ((keeps_uploadAndStore hcall _ _ _).mono fun r s' _ => ?_)
    cases r with
    | ok result => trivial
    | error e => exact keeps_of_issues ((issues_cleanUp _ _).mono Cmd.Inner.noUpsert) s'

theorem keeps_transaction (hcall : call.Defaults) :
    Keeps env p (transaction env caller call) (fun _ _ => True) s := by
  refine safe_tryCatch.2 (Safe.mono (Q := fun _ _ => True) ?_ fun r s' _ => ?_)
  · refine safe_bind.2 ((keeps_putFiling hcall).mono fun r s' _ => ?_)
    cases r with
    | ok result => exact keeps_bind (issues_perform trivial) fun _ _ => trivial
    | error e => trivial
  · cases r with
    | ok result => trivial
    | error e => exact keeps_bind (issues_perform trivial) fun _ _ => trivial

end

theorem Rely.refl (s : World P) : Rely env p s s :=
  ⟨.refl _ _, fun _ _ _ _ => Iff.rfl, fun _ _ => id⟩

theorem Rely.trans {s'' : World P} (h : Rely env p s s') (h' : Rely env p s' s'') :
    Rely env p s s'' where
  frame := h.frame.trans h'.frame
  links source ref hholds x :=
    (h'.links source ref (hholds.of_rely h) x).trans (h.links source ref hholds x)
  visible source sha hrow := h'.visible source sha (h.visible source sha hrow)

/-- Every writer keeps to the outline. -/
theorem outline_valid : (outline env).Valid (system env P) (defaultsGuard P) where
  rely_refl _ s := .refl s
  rely_trans _ _ _ _ h h' := h.trans h'
  inv_step _ _ _ _ _ _ h hk _ hex := inv_step h hk hex
  rely_step _ _ _ _ _ _ _ hq h _ _ hex := rely_of_effect h (effect_of_exec hex) hq.symm rfl
  inv_kill _ _ h _ := Chained.abort h
  rely_kill _ _ s hq h _ := rely_of_effect (c := .close) h (.ended .ready fun _ => rfl) hq.symm rfl
  idle_kill _ _ _ := trivial
  idle_stable _ _ _ _ _ := trivial
  post_stable _ _ _ _ _ _ _ := trivial
  post_idle _ _ _ _ _ := trivial
  body p j s _ _ hj := by
    cases j with
    | put caller call =>
      refine safe_bind.2 ((keeps_putFiling hj).mono fun r s' _ => ?_)
      cases r <;> trivial
    | commit => exact keeps_bind (issues_perform trivial) fun _ _ => trivial
    | rollback => exact keeps_bind (issues_perform trivial) fun _ _ => trivial
    | transaction caller call =>
      refine safe_bind.2 ((keeps_transaction hj).mono fun r s' _ => ?_)
      cases r <;> trivial

/-! ### The chains -/

/-- The rows are the revisions from 1 on, and each one has the one before it as the previous
    filing. -/
def AreRevisions (rows : List FilingRow) : Prop :=
  ∀ i (hi : i < rows.length), rows[i].revisionNo = i + 1 ∧
    rows[i].previousFilingId = (if i = 0 then none else (rows[i - 1]?).map fun row => row.filingId) ∧
    rows[i].isAmendment = decide (0 < i)

theorem isChain_nil {L : Link → Prop} (h : ∀ x, ¬L x) : IsChain L [] :=
  ⟨fun x => iff_of_false (h x) List.not_mem_nil, trivial⟩

theorem chained_empty : Chained env (World.empty (P := P)).hashes (World.empty (P := P)).db where
  nodup := List.nodup_nil
  saved _ := rfl
  rows k w hw := by rcases hw with hw | hw | ⟨hw, -⟩ <;> cases hw
  kept hp _ := by cases hp
  locked hp _ := by cases hp
  distinct {source sha row source' sha' row'} h _ _ := by rcases h with h | ⟨_, h⟩ <;> cases h
  chain _ _ := ⟨[], isChain_nil fun _ ⟨_, h, _⟩ => by cases h⟩
  chainOf _ _ _ := ⟨[], isChain_nil fun _ ⟨_, h, _⟩ => by cases h⟩

theorem chained_of_reach {cfg : Config Cmd Reply Exn (Option PutFilingResult) P Job (World P)}
    (h : (system env P).Reach (defaultsGuard P).Holds ((system env P).initial .empty) cfg) :
    Chained env cfg.shared.hashes cfg.shared.db :=
  (outline_valid.safe chained_empty (fun _ => trivial) h).1

theorem areRevisions_of_numbered {rows : List FilingRow}
    (h : Numbered none 0 (rows.map FilingRow.link)) : AreRevisions rows := by
  intro i hi
  have hi' : i < (rows.map FilingRow.link).length := by rwa [List.length_map]
  obtain ⟨hrevision, hprevious, hamendment⟩ := h.getElem hi'
  rw [List.getElem_map] at hrevision hprevious hamendment
  have hlast : lastFiling none ((rows.map FilingRow.link).take i) =
      if i = 0 then none else (rows[i - 1]?).map fun row => row.filingId := by
    split_ifs with hzero
    · rw [hzero]
      rfl
    · rw [lastFiling, List.getLast?_take, if_neg hzero, List.getElem?_map]
      have hlt : i - 1 < rows.length := by omega
      rw [List.getElem?_eq_getElem hlt]
      rfl
  refine ⟨by rw [show rows[i].revisionNo = 0 + i + 1 from hrevision]; omega,
    (show rows[i].previousFilingId = _ from hprevious).trans hlast,
    (show rows[i].isAmendment = _ from hamendment).trans ?_⟩
  rw [hlast]
  split_ifs with hzero
  · rw [hzero]
    rfl
  · have hlt : i - 1 < rows.length := by omega
    rw [List.getElem?_eq_getElem hlt, Option.map_some, Option.isSome_some, eq_comm, decide_eq_true_iff]
    exact Nat.pos_of_ne_zero hzero

/-- In every state that is reached, the chain of a filing is all that is committed of its
    reference: the revisions from 1 on, each one after the one that it amends. -/
theorem amendmentChain_of_reach
    {cfg : Config Cmd Reply Exn (Option PutFilingResult) P Job (World P)}
    (h : (system env P).Reach (defaultsGuard P).Holds ((system env P).initial .empty) cfg)
    {source sha : String} {row : FilingRow}
    (hrow : cfg.shared.db.committed (.filing source sha) = some row) :
    ∃ rows, amendmentChain row.filingId cfg.shared.committedFilings = some rows ∧
      (∀ row', row' ∈ rows ↔ ∃ sha', cfg.shared.db.committed (.filing source sha') = some row' ∧
        row'.sourceFilingRef = row.sourceFilingRef) ∧ AreRevisions rows := by
  have hs := chained_of_reach h
  have hfiled : Filed cfg.shared.hashes cfg.shared.db.committed := filed_committed hs
  obtain ⟨hsource, -, -⟩ := hfiled hrow
  have hmem : row ∈ cfg.shared.committedFilings := mem_filingsOf_of hfiled hrow
  -- The row that is found by its identifier is the only one.
  have hfind : cfg.shared.committedFilings.find? (fun row' => row'.filingId = row.filingId) =
      some row := by
    have hfound : (cfg.shared.committedFilings.find? fun row' => row'.filingId = row.filingId).isSome :=
      List.find?_isSome.2 ⟨row, hmem, decide_eq_true rfl⟩
    obtain ⟨row', hrow'⟩ := Option.isSome_iff_exists.1 hfound
    obtain ⟨source', sha', hw⟩ := (mem_filingsOf_iff hfiled).1 (List.mem_of_find?_eq_some hrow')
    have hid := List.find?_some hrow'
    obtain ⟨rfl, rfl⟩ := hs.distinct (.inl hw) (.inl hrow) (of_decide_eq_true hid)
    rw [hrow', ← hw, hrow]
  obtain ⟨l, hl⟩ := hs.chain source row.sourceFilingRef
  have hperm := perm_of_isChain hfiled hs.nodup hl
  refine ⟨_, by rw [amendmentChain, hfind, Option.map_some], fun row' => ?_, ?_⟩
  · rw [mem_orderBy, List.mem_filter, hsource]
    constructor
    · rintro ⟨hmem', hof⟩
      obtain ⟨source', sha', hw⟩ := (mem_filingsOf_iff hfiled).1 hmem'
      obtain ⟨hsource', href⟩ := of_decide_eq_true hof
      exact ⟨sha', (hfiled hw).1.symm.trans hsource' ▸ hw, href⟩
    · rintro ⟨sha', hw, href⟩
      exact ⟨mem_filingsOf_of hfiled hw, decide_eq_true ⟨(hfiled hw).1, href⟩⟩
  · rw [hsource]
    refine areRevisions_of_numbered ?_
    have hmap := map_link_orderBy hl.numbered hperm
    rw [← hmap] at hl
    exact hl.numbered

/-- Other bytes are put under the same reference. -/
theorem amendmentChain_of_reach_two : ∃ cfg sha row rows,
    (system plainEnv Unit).Reach (defaultsGuard Unit).Holds ((system plainEnv Unit).initial .empty)
      cfg ∧ cfg.shared.db.committed (.filing "kap" sha) = some row ∧ row.revisionNo = 2 ∧
    amendmentChain row.filingId cfg.shared.committedFilings = some rows ∧ AreRevisions rows := by
  have hrun : ((system plainEnv Unit).run (defaultsGuard Unit).Holds
      (plainTransaction () 1 "r" [1] ++ plainTransaction () 2 "r" [2])
      ((system plainEnv Unit).initial .empty)).any (fun cfg =>
        (cfg.shared.db.committed (.filing "kap" (plainEnv.sha256 [2]))).any fun row =>
          row.revisionNo = 2) = true := by decide +kernel
  obtain ⟨cfg, hreach, hrow⟩ := System.Reach.exists_of_run hrun
  obtain ⟨row, hrow, hrevision⟩ := Option.any_eq_true _ _ |>.1 hrow
  obtain ⟨rows, hrows, -, hrevisions⟩ := amendmentChain_of_reach hreach hrow
  exact ⟨cfg, _, row, rows, hreach, hrow, of_decide_eq_true hrevision, hrows, hrevisions⟩

end Documents

end AslanCore
