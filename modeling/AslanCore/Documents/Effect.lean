import AslanCore.Documents.Put
import AslanCore.Process.Alone
import AslanCore.Store.Isolation

/-!
# What the commands do

A command of a writer is carried out, or not, or its reply is lost (`exec_cases`). What it does to
the tables is one of a few things (`Effect`, `effect_of_exec`): it takes a lock, it writes a row
that is no filing, it inserts a filing or republishes one (`upsert_cases`), or it ends the
transaction of the writer.
-/

set_option linter.unusedSectionVars false

namespace AslanCore

namespace Documents

open Database

variable {P : Type} [DecidableEq P] {env : Env} {p : P} {s s' : World P} {c : Cmd} {o : Choice}
  {r : Except Exn (Reply c)} {v : FilingValues} {now : Timestamp}

/-- A command is not carried out, or it is, and its answer may be lost. -/
theorem exec_cases (h : World.exec env p c o s = some (r, s')) :
    (r = .error .cancelled ∧ s' = s) ∨
      ∃ r', World.run env p c o s = some (r', s') ∧ (r = r' ∨ r = .error .cancelled) := by
  rw [World.exec] at h
  split_ifs at h
  · split at h
    · exact .inr ⟨r, h, .inl rfl⟩
    · cases h
      exact .inl ⟨rfl, rfl⟩
    · obtain ⟨⟨r', s₁⟩, hrun, heq⟩ := Option.map_eq_some_iff.1 h
      cases heq
      exact .inr ⟨r', hrun, .inr rfl⟩
  · exact .inr ⟨r, h, .inl rfl⟩

/-- What answers is carried out. -/
theorem run_of_exec {a : Reply c} (h : World.exec env p c o s = some (.ok a, s')) :
    World.run env p c o s = some (.ok a, s') := by
  rcases exec_cases h with ⟨h, -⟩ | ⟨r', hrun, rfl | h⟩
  · cases h
  · exact hrun
  · cases h

namespace World

theorem storage_cases {fault : Fault} {s₁ : World P} {x : Except Exn Unit}
    (h : s.storage fault s₁ = some (x, s')) :
    (x = .ok () ∧ s' = s₁ ∧ fault = .none) ∨
      (x = .error .storage ∧ fault ≠ .none ∧ (s' = s ∨ s' = s₁)) := by
  cases fault <;> cases h
  · exact .inl ⟨rfl, rfl, rfl⟩
  · exact .inr ⟨rfl, by decide, .inl rfl⟩
  · exact .inr ⟨rfl, by decide, .inr rfl⟩

theorem sql_cases {α : Type} {fault : Fault} {x : Except Exn α}
    {stmt : Option (Except Exn (α × Database P Key RowOf))}
    (h : s.sql p fault stmt = some (x, s')) :
    s' = { s with db := s'.db } ∧ s.db.statement p fault .sql stmt = some (x, s'.db) := by
  obtain ⟨⟨x', db⟩, hx, hs⟩ := Option.map_eq_some_iff.1 h
  cases hs
  exact ⟨rfl, hx⟩

/-- A statement that answers is executed. -/
theorem sql_eq_ok {α : Type} {fault : Fault} {a : α}
    {stmt : Option (Except Exn (α × Database P Key RowOf))}
    (h : s.sql p fault stmt = some (.ok a, s')) :
    ∃ db, stmt = some (.ok (a, db)) ∧ s' = { s with db } := by
  obtain ⟨heq, hst⟩ := sql_cases h
  rcases statement_cases hst with ⟨_, he, _⟩ | ⟨a', ha, _, _, hstmt⟩
  · cases he
  · cases ha
    exact ⟨s'.db, hstmt, heq⟩

end World

/-! ### The upsert -/

/-- What the upsert finds when it inserts a row. -/
structure Inserts (p : P) (v : FilingValues) (now : Timestamp) (s : World P)
    (db : Database P Key RowOf) : Prop where
  absent : s.db.view p (.filing v.sourceId v.primarySha256) = none
  free : ¬s.db.Contended p (.filing v.sourceId v.primarySha256)
  distinct : ∀ row ∈ s.filings p ++ s.pendingOfOthers p,
    ¬World.Clashes v (nextRevision v.sourceId v.sourceFilingRef (s.filings p)) row
  put : ∃ db₁, (db₁ = s.db ∨ ∃ k, db₁ = s.db.addRef p k) ∧
    ∃ hl : db₁.CanLock p (.filing v.sourceId v.primarySha256) false,
      db = db₁.put p (.filing v.sourceId v.primarySha256)
        (some (v.row now (nextRevision v.sourceId v.sourceFilingRef (s.filings p)))) false hl

/-- What the upsert does when it finds a row. -/
structure Republishes (p : P) (v : FilingValues) (old : FilingRow) (s : World P)
    (db : Database P Key RowOf) : Prop where
  found : s.db.view p (.filing v.sourceId v.primarySha256) = some old
  put : ∃ hl : s.db.CanLock p (.filing v.sourceId v.primarySha256) false,
    db = s.db.put p (.filing v.sourceId v.primarySha256)
      (some (old.republish v.sourceFilingRef v.actor)) false hl

theorem insertFiling_eq_some {db db' : Database P Key RowOf} {revisionNo : ℕ} {up : Upserted}
    (h : World.insertFiling p db v now revisionNo = some (.ok (up, db'))) :
    up = ⟨v.filingId, revisionNo, true⟩ ∧
      ∃ hl : db.CanLock p (.filing v.sourceId v.primarySha256) false,
        db' = db.put p (.filing v.sourceId v.primarySha256) (some (v.row now revisionNo)) false hl := by
  rw [World.insertFiling] at h
  split_ifs at h with hl
  cases h
  exact ⟨rfl, hl, rfl⟩

/-- The upsert inserts a row, or republishes the one that it finds. -/
theorem upsert_cases {up : Upserted} {db : Database P Key RowOf}
    (h : s.upsert env p v now = some (.ok (up, db))) :
    (up = ⟨v.filingId, nextRevision v.sourceId v.sourceFilingRef (s.filings p), true⟩ ∧
        Inserts p v now s db) ∨
      ∃ old, up = ⟨old.filingId, old.revisionNo, false⟩ ∧ Republishes p v old s db := by
  simp only [World.upsert] at h
  by_cases hstorable : env.storable v = false
  · rw [if_pos hstorable] at h
    cases h
  rw [if_neg hstorable] at h
  by_cases hfree : s.db.Contended p (.filing v.sourceId v.primarySha256)
  · rw [if_pos hfree] at h
    cases h
  rw [if_neg hfree] at h
  split at h
  · rename_i old hold
    split_ifs at h with hl
    cases h
    exact .inr ⟨old, rfl, hold, hl, rfl⟩
  · rename_i habsent
    by_cases hvisible : env.foreignKeys v = false ∨ ∃ row ∈ s.filings p, World.Clashes v
        (nextRevision v.sourceId v.sourceFilingRef (s.filings p)) row
    · rw [if_pos hvisible] at h
      cases h
    rw [if_neg hvisible] at h
    by_cases hpending : ∃ row ∈ s.pendingOfOthers p, World.Clashes v
        (nextRevision v.sourceId v.sourceFilingRef (s.filings p)) row
    · rw [if_pos hpending] at h
      cases h
    rw [if_neg hpending] at h
    push Not at hvisible hpending
    have hdistinct : ∀ row ∈ s.filings p ++ s.pendingOfOthers p, ¬World.Clashes v
        (nextRevision v.sourceId v.sourceFilingRef (s.filings p)) row := fun row hrow =>
      (List.mem_append.1 hrow).elim (hvisible.2 row) (hpending row)
    split at h
    · obtain ⟨rfl, hput⟩ := insertFiling_eq_some h
      exact .inl ⟨rfl, habsent, hfree, hdistinct, _, .inl rfl, hput⟩
    · split at h
      · cases h
      · split_ifs at h
        obtain ⟨rfl, hput⟩ := insertFiling_eq_some h
        exact .inl ⟨rfl, habsent, hfree, hdistinct, _, .inr ⟨_, rfl⟩, hput⟩

/-! ### The effects -/

/-- What a command does to the tables. -/
inductive Effect (p : P) (s : World P) : Cmd → Database P Key RowOf → Prop
  | none {c : Cmd} : Effect p s c s.db
  | ended {c : Cmd} (st : Status) (h : st = .ready → c = .close) : Effect p s c (s.db.abort p st)
  | failed {c : Cmd} : Effect p s c (s.db.fail p)
  | committed (st : Status) : Effect p s .commit (s.db.commitTx p st)
  | locked {c : Cmd} (k : Key) (h : s.db.CanLock p k true) :
    Effect p s c (s.db.lockRow p k true h)
  | wrote {c : Cmd} (k : Key) (row : RowOf k) (hk : ∀ source sha, k ≠ .filing source sha)
    (h : s.db.CanLock p k false) : Effect p s c (s.db.put p k (some row) false h)
  | inserted {v : FilingValues} {now : Timestamp} {db : Database P Key RowOf}
    (h : Inserts p v now s db) : Effect p s (.upsert v) db
  | republished {v : FilingValues} {old : FilingRow} {db : Database P Key RowOf}
    (h : Republishes p v old s db) : Effect p s (.upsert v) db

/-- A statement has no effect but that of what it is executed for, or it ends the transaction. -/
theorem effect_of_statement {α : Type} {fault : Fault} {x : Except Exn α}
    {stmt : Option (Except Exn (α × Database P Key RowOf))} {db : Database P Key RowOf}
    (h : s.db.statement p fault .sql stmt = some (x, db))
    (hs : ∀ a, stmt = some (.ok (a, db)) → Effect p s c db) : Effect p s c db := by
  rcases statement_cases h with ⟨_, _, ⟨_, rfl⟩ | ⟨_, _, rfl | rfl⟩⟩ | ⟨a, _, _, _, ha⟩
  · exact .none
  · exact .failed
  · exact .ended _ Status.noConfusion
  · exact hs a ha

theorem effect_of_sql {α : Type} {fault : Fault} {x : Except Exn α}
    {stmt : Option (Except Exn (α × Database P Key RowOf))}
    (h : s.sql p fault stmt = some (x, s'))
    (hs : ∀ a, stmt = some (.ok (a, s'.db)) → Effect p s c s'.db) : Effect p s c s'.db :=
  effect_of_statement (World.sql_cases h).2 hs

theorem effect_of_run (h : World.run env p c o s = some (r, s')) : Effect p s c s'.db := by
  cases c with
  | uuid4 | uploadedKeys =>
    cases h
    exact .none
  | putObject bucket key body =>
    rcases World.storage_cases h with ⟨-, rfl, -⟩ | ⟨-, -, rfl | rfl⟩ <;> exact .none
  | deleteObject loop bucket key =>
    rcases World.storage_cases h with ⟨-, rfl, -⟩ | ⟨-, -, rfl | rfl⟩ <;> exact .none
  | advisoryLock source ref =>
    refine effect_of_sql h fun a ha => ?_
    split_ifs at ha with hl
    rw [← (Prod.mk.inj (Except.ok.inj (Option.some.inj ha))).2]
    exact .locked _ hl
  | findCanonicalByRef source ref =>
    refine effect_of_sql h fun a ha => ?_
    rw [← (Prod.mk.inj (Except.ok.inj (Option.some.inj ha))).2]
    exact .none
  | selectForUpdate source sha =>
    refine effect_of_sql h fun a ha => ?_
    obtain ⟨⟨w, db⟩, hw, heq⟩ := Option.map_eq_some_iff.1 ha
    cases heq
    rcases selectForUpdate_cases hw with ⟨-, hdb, -⟩ | ⟨_, -, -, hl, hdb⟩ <;> rw [hdb]
    · exact .none
    · exact .locked _ hl
  | upsert v =>
    obtain ⟨⟨x, s₁⟩, hsql, heq⟩ := Option.map_eq_some_iff.1 h
    cases heq
    show Effect p s (.upsert v) s₁.db
    refine effect_of_sql hsql fun a ha => ?_
    rcases upsert_cases ha with ⟨-, hins⟩ | ⟨old, -, hrep⟩
    · exact .inserted hins
    · exact .republished hrep
  | insertAttachment row =>
    refine effect_of_sql h fun a ha => ?_
    split_ifs at ha
    · obtain ⟨⟨b, db⟩, hins, heq⟩ := Option.map_eq_some_iff.1 ha
      cases heq
      rcases insertNew_cases hins with ⟨-, hdb, -⟩ | ⟨-, -, hl, hdb⟩ <;> rw [hdb]
      · exact .none
      · exact .wrote _ _ (fun _ _ => Key.noConfusion) hl
    · cases ha
  | selectFiling filingId =>
    refine effect_of_sql h fun a ha => ?_
    rw [← (Prod.mk.inj (Except.ok.inj (Option.some.inj ha))).2]
    exact .none
  | insertAudit e =>
    obtain ⟨⟨x, s₁⟩, hsql, heq⟩ := Option.map_eq_some_iff.1 h
    cases heq
    show Effect p s (.insertAudit e) s₁.db
    refine effect_of_sql hsql fun a ha => ?_
    obtain ⟨⟨b, db⟩, hins, heq⟩ := Option.map_eq_some_iff.1 ha
    cases heq
    rcases insertNew_cases hins with ⟨-, hdb, -⟩ | ⟨-, -, hl, hdb⟩ <;> rw [hdb]
    · exact .none
    · exact .wrote _ _ (fun _ _ => Key.noConfusion) hl
  | commit =>
    cases h
    rcases commit_cases (rfl : s.db.commit p o.fault Exn.sql = _) with
      ⟨-, ⟨hdb, -⟩ | ⟨hdb, -⟩ | ⟨hdb, -⟩⟩ | ⟨-, hdb, -⟩ <;> simp only [hdb]
    · exact .none
    · exact .ended _ Status.noConfusion
    · exact .committed _
    · exact .committed _
  | close =>
    cases h
    rw [(close_cases (rfl : s.db.close p o.fault Exn.sql = _)).1]
    exact .ended _ fun _ => rfl

theorem effect_of_exec (h : World.exec env p c o s = some (r, s')) : Effect p s c s'.db := by
  rcases exec_cases h with ⟨-, rfl⟩ | ⟨r', hrun, -⟩
  · exact .none
  · exact effect_of_run hrun

/-- The hashes, with that of a filing that is to be inserted. -/
def Cmd.hashes : Cmd → List (String × String) → List (String × String)
  | .upsert v, hashes => hashes.insert (v.sourceId, v.primarySha256)
  | _, hashes => hashes

theorem hashes_of_exec (h : World.exec env p c o s = some (r, s')) :
    s' = s ∨ s'.hashes = c.hashes s.hashes := by
  rcases exec_cases h with ⟨-, rfl⟩ | ⟨r', hrun, -⟩
  · exact .inl rfl
  refine .inr ?_
  cases c with
  | uuid4 | uploadedKeys | commit | close =>
    cases hrun
    rfl
  | putObject | deleteObject =>
    rcases World.storage_cases hrun with ⟨-, rfl, -⟩ | ⟨-, -, rfl | rfl⟩ <;> rfl
  | advisoryLock | findCanonicalByRef | selectForUpdate | insertAttachment | selectFiling =>
    rw [(World.sql_cases hrun).1]
    rfl
  | upsert v =>
    obtain ⟨⟨x, s₁⟩, hsql, heq⟩ := Option.map_eq_some_iff.1 hrun
    cases heq
    rfl
  | insertAudit e =>
    obtain ⟨⟨x, s₁⟩, hsql, heq⟩ := Option.map_eq_some_iff.1 hrun
    cases heq
    rw [(World.sql_cases hsql).1]
    rfl

namespace Effect

variable {db : Database P Key RowOf} {q : P}

/-- The other writers find everything of theirs unchanged. -/
theorem frame (h : Effect q s c db) (hp : p ≠ q) : Frame p s.db db := by
  rcases h with _ | _ | _ | _ | _ | _ | ⟨_, _, _, _, hdb, _, rfl⟩ | ⟨_, _, rfl⟩
  · exact .refl _ _
  · exact frame_abort hp
  · exact frame_fail hp
  · exact frame_commitTx hp
  · exact frame_lockRow hp
  · exact frame_put hp
  · rcases hdb with rfl | ⟨k, rfl⟩
    · exact frame_put hp
    · exact (frame_addRef hp).trans (frame_put hp)
  · exact frame_put hp

/-- What is committed changes when the writer commits. -/
theorem committed_cases (h : Effect q s c db) :
    db.committed = s.db.committed ∨ ∃ st, c = .commit ∧ db = s.db.commitTx q st := by
  rcases h with _ | _ | _ | st | _ | _ | ⟨_, _, _, _, hdb, _, rfl⟩ | ⟨_, _, rfl⟩
  · exact .inl rfl
  · exact .inl rfl
  · exact .inl committed_fail
  · exact .inr ⟨st, rfl, rfl⟩
  · exact .inl rfl
  · exact .inl rfl
  · rcases hdb with rfl | ⟨k, rfl⟩ <;> exact .inl rfl
  · exact .inl rfl

end Effect

section Programs

open Prog

/-! ### The commands that the programs issue -/

/-- The commands within a transaction that keep the filings as they are. -/
def Cmd.Inner : Cmd → Prop
  | .upsert _ | .commit | .close => False
  | _ => True

theorem issues_track {ok : Cmd → Prop} (h : ∀ f, ok (.uploadedKeys f)) (key : String) :
    (track key).Issues ok :=
  Issues.bind (issues_perform (h _)) fun _ => trivial

theorem issues_uploadPrimary (bucket key : String) (body : Bytes) :
    (uploadPrimary bucket key body).Issues Cmd.Inner := by
  refine Issues.bind (issues_track (fun _ => trivial) key) fun _ => (issues_perform trivial).tryCatch fun e => ?_
  split_ifs <;> trivial

theorem issues_uploadXbrl (bucket : String) (call : PutFilingCall) (filingId : PgUuid) :
    (uploadXbrl bucket call filingId).Issues Cmd.Inner := by
  rw [uploadXbrl]
  split
  · exact Issues.bind (issues_track (fun _ => trivial) _) fun _ => issues_perform trivial
  · trivial

theorem issues_deletion (loop : Cleanup) (bucket key : String) :
    ((request (.deleteObject loop bucket key)).tryCatch fun e =>
      if e.isException then pure () else throw e).Issues Cmd.Inner := by
  refine (issues_perform trivial).tryCatch fun e => ?_
  split_ifs <;> trivial

theorem issues_cleanUp {α : Type} (bucket : String) (e : Exn) :
    (cleanUp (α := α) bucket e).Issues Cmd.Inner := by
  refine (issues_perform trivial).bind fun keys => ?_
  refine Issues.bind (issues_forEach (issues_deletion _ _) keys) fun _ => ?_
  split_ifs <;> trivial

theorem issues_dropUploads (bucket : String) : (dropUploads bucket).Issues Cmd.Inner := by
  refine (issues_perform trivial).bind fun keys => issues_forEach (fun k => ?_) keys
  exact (issues_deletion _ _ k).bind fun _ => (issues_perform trivial).bind fun _ => trivial

theorem issues_persistAttachments (bucket : String) (call : PutFilingCall) (filingId : PgUuid) :
    (persistAttachments env bucket call filingId).Issues Cmd.Inner :=
  issues_forEach (fun _ => Issues.bind (issues_track (fun _ => trivial) _) fun _ => (issues_perform trivial).bind fun _ =>
    issues_perform trivial) _

theorem issues_finishUploads (bucket : String) (call : PutFilingCall) (up : Upserted) :
    (finishUploads env bucket call up).Issues Cmd.Inner := by
  rw [finishUploads]
  split_ifs
  · exact issues_persistAttachments _ _ _
  · exact issues_dropUploads _

theorem issues_getFiling {ok : Cmd → Prop} (h : ∀ u, ok (.selectFiling u)) (filingId : PgUuid) :
    (getFiling filingId).Issues ok := by
  refine (issues_perform (h _)).bind fun row => ?_
  cases row <;> trivial

theorem issues_classify {ok : Cmd → Prop} (created : Bool) (pre : Option FilingRow) (ref : String) :
    (classify created pre ref).Issues ok := by
  unfold classify
  split_ifs
  · trivial
  · cases pre with
    | none => trivial
    | some pre =>
      dsimp only
      split_ifs
      · trivial
      · split <;> trivial

theorem issues_recordEvent {ok : Cmd → Prop} (h : ∀ e, ok (.insertAudit e)) (caller : Caller)
    (call : PutFilingCall) (sha256 : String) (filing : Filing) (up : Upserted)
    (operation : FilingOperation × Option FilingBefore) :
    (recordEvent env caller call sha256 filing up operation).Issues ok := by
  rw [recordEvent]
  split_ifs
  · trivial
  · exact issues_perform (h _)

theorem issues_finishCall (caller : Caller) (bucket : String) (call : PutFilingCall)
    (sha256 : String) (pre : Option FilingRow) (up : Upserted) :
    (finishCall env caller bucket call sha256 pre up).Issues Cmd.Inner := by
  refine Issues.bind (issues_finishUploads _ _ _) fun _ =>
    Issues.bind (issues_getFiling (fun _ => trivial) _) fun _ =>
      Issues.bind (issues_classify _ _ _) fun _ =>
        Issues.bind (issues_recordEvent (fun _ => trivial) _ _ _ _ _ _) fun _ => ?_
  exact Issues.bind (issues_perform trivial) fun _ => trivial

end Programs

end Documents

end AslanCore
