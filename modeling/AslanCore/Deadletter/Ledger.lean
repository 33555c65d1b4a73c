import AslanCore.Deadletter.Filing
import AslanCore.Deadletter.Passes
import AslanCore.Store.Ascending

/-!
# The ledger of the dead letters

What the consumers and the daemons keep of the rows, whatever order they take their steps in.

* Rows of the log, of the routings and of the audit events only grow (`rowOrder`): a failure that is
  routed stays routed, to the same entry, and what is recorded stays recorded;
* `Ledger`: what always holds of the rows, and of the sets of processed events: an event that is in
  one was recorded as consumed before (`World.Consumed`);
* `exec_db` and `execPass_db`: what a command does to the rows;
* `Grown`: what all commands do to the stores, from which what lasts is derived.
-/

set_option linter.unusedSectionVars false

namespace AslanCore

namespace Deadletter

open Prog World Database
open Streams (Uuid)

/-! ### Rows -/

/-- The order of the versions of a row. -/
def rowOrder : Database.Order RowOf where
  le
    | .log _, v, v' => ∀ row, v = some row → ∃ row', v' = some row' ∧
        ∀ rid, row.redisMessageId = some rid → row'.redisMessageId = some rid
    | .routing _ _ _, v, v' => ∀ fid, v = some fid → v' = some fid
    | .audit _, v, v' => ∀ e, v = some e → v' = some e
    | _, _, _ => True
  refl := by
    rintro (_ | _ | _ | _ | _ | _) v
    · exact fun row h => ⟨row, h, fun _ h => h⟩
    · exact fun _ h => h
    · trivial
    · trivial
    · exact fun _ h => h
    · trivial
  trans := by
    rintro (_ | _ | _ | _ | _ | _) v v' v'' h h'
    · intro row hrow
      obtain ⟨row', hrow', hrid⟩ := h row hrow
      obtain ⟨row'', hrow'', hrid'⟩ := h' row' hrow'
      exact ⟨row'', hrow'', fun rid hr => hrid' rid (hrid rid hr)⟩
    · exact fun fid hf => h' fid (h fid hf)
    · trivial
    · trivial
    · exact fun e he => h' e (h e he)
    · trivial

/-- Rows of the log, of the routings and of the audit events are not deleted, and a row of the log
    has an entry once it is routed. -/
def Tidy : (k : Key) → Option (RowOf k) → Prop
  | .log _, v => ∃ row, v = some row ∧ (row.isStuck = true ↔ row.redisMessageId = none)
  | .routing _ _ _, v => v.isSome
  | .audit _, v => v.isSome
  | _, _ => True

/-- The audit events have been given their numbers. -/
def Numbered (nextAuditId : ℕ) : (k : Key) → Option (RowOf k) → Prop
  | .audit n, _ => n < nextAuditId
  | _, _ => True

/-- What is filed is in the log. -/
def Logged (rows : (k : Key) → Option (RowOf k)) : Prop :=
  ∀ n g m fid, rows (.routing n g m) = some fid → (rows (.log fid)).isSome

/-- What is written: something tidy, that is later than what the session sees, under one of some
    keys. -/
structure Writes {P : Type} (may : Key → Prop) (t : P × Role)
    (db : Database (P × Role) Key RowOf) (k : Key) (v : Option (RowOf k)) : Prop where
  tidy : Tidy k v
  later : rowOrder.le k (db.view t k) v
  may : may k

/-- The session of a command. -/
def Cmd.role : Cmd → Role
  | .selectIndex r _ | .insertAudit r _ | .acquireEventLock r _ | .selectRegistry r _ | .commit r |
    .rollback r | .close r => r
  | _ => .main

/-- The command ends a transaction. -/
def Cmd.ends : Cmd → Bool
  | .commit _ | .rollback _ | .close _ => true
  | _ => false

/-- The keys of the rows that a command may write. -/
def Cmd.May (nextAuditId : ℕ) : Cmd → Key → Prop
  | .insertLog _, .log _ | .insertLog _, .routing _ _ _ => True
  | .updateLogRouted fid _, k => k = .log fid
  | .insertIndex fid _, k | .insertIndexNew fid _, k | .deleteIndex fid _, k => k = .index fid
  | .insertIntent fid _ _ _, k | .touchIntent fid, k | .replaceIntent fid _ _, k |
    .deleteIntent fid, k => k = .intent fid
  | .insertAudit _ _, k => k = .audit nextAuditId
  | _, _ => False

/-- The keys of the rows that a command of the daemons may write. -/
def PassCmd.May : PassCmd → Key → Prop
  | .touchIntents _, .intent _ => True
  | _, _ => False

section

variable {P : Type} [DecidableEq P] {env : Env} {p : P} {t : P × Role} {c : Cmd} {o : Choice}
  {s s' : World P} {may : Key → Prop} {db db' : Database (P × Role) Key RowOf}

theorem rowOrder_log {fid : ℤ} {v v' : Option LogRow} (h : rowOrder.le (.log fid) v v')
    {row : LogRow} (hv : v = some row) : ∃ row', v' = some row' ∧
      ∀ rid, row.redisMessageId = some rid → row'.redisMessageId = some rid :=
  h row hv

/-- Nothing is said of rows that are not there yet, and nothing but that of those of the index and of
    the intents. -/
theorem rowOrder_of_eq_none {k : Key} {v v' : Option (RowOf k)} (h : v = none) :
    rowOrder.le k v v' := by
  subst h
  rcases k with _ | _ | _ | _ | _ | _
  · rintro row ⟨⟩
  · rintro fid ⟨⟩
  · trivial
  · trivial
  · rintro e ⟨⟩
  · trivial

theorem not_tidy_none {fid : ℤ} : ¬Tidy (.log fid) none := by
  rintro ⟨row, ⟨⟩, -⟩

/-! ### Statements -/

/-- What a session reads is tidy. -/
theorem tidy_view (h : db.All Tidy) {fid : ℤ} {row : LogRow}
    (hrow : db.view t (.log fid) = some row) :
    row.isStuck = true ↔ row.redisMessageId = none := by
  obtain ⟨row', hrow', htidy⟩ := h _ _ (version_of_view hrow)
  cases hrow'
  exact htidy

theorem writes_index {fid : ℤ} (v : Option StreamId) (hmay : may (.index fid)) :
    Writes may t db (.index fid) v :=
  ⟨trivial, trivial, hmay⟩

theorem writes_intent {fid : ℤ} (v : Option IntentRow) (hmay : may (.intent fid)) :
    Writes may t db (.intent fid) v :=
  ⟨trivial, trivial, hmay⟩

/-- A row of the log is written as it was. -/
theorem writes_same (h : db.All Tidy) {fid : ℤ} {row : LogRow}
    (hrow : db.view t (.log fid) = some row) (hmay : may (.log fid)) :
    Writes may t db (.log fid) (some row) := by
  refine ⟨⟨row, rfl, tidy_view h hrow⟩, ?_, hmay⟩
  rw [hrow]
  exact rowOrder.refl (.log fid) (some row)

/-- A row of the log that is not routed yet is routed. -/
theorem writes_route (h : db.All Tidy) {fid : ℤ} {row : LogRow} {rid : StreamId} {now : ℕ}
    (hrow : db.view t (.log fid) = some row) (hstuck : row.isStuck = true)
    (hmay : may (.log fid)) : Writes may t db (.log fid) (some (row.route rid now)) := by
  refine ⟨⟨_, rfl, by simp [LogRow.route, LogRow.isStuck]⟩, ?_, hmay⟩
  rintro row' hrow'
  cases hrow.symm.trans hrow'
  refine ⟨_, rfl, fun rid' hrid => ?_⟩
  cases ((tidy_view h hrow).1 hstuck).symm.trans hrid

/-- A row of the index, or an intent, is inserted. -/
theorem insertChild_makes {k : Key} {v : RowOf k} {fid : ℤ} {b : Bool}
    (h : s.insertChild t k v fid = some (.ok (b, db')))
    (hW : s.db.view t k = none → Writes may t s.db k (some v)) :
    Makes t (Writes may t) s.db db' := by
  rw [insertChild] at h
  split at h
  · cases h
  · rename_i db₁ hinsert
    cases h
    exact insertNew_makes hinsert hW
  · rename_i db₁ hinsert
    split_ifs at h <;> cases h
    exact (insertNew_makes hinsert hW).trans (.stay stays_addRef)

/-- A failure is filed, and logged. -/
theorem insertLog_makes (hs : s.db.All Tidy) {row : LogInsert} {nextAuditId : ℕ}
    {a : ℤ × Option StreamId} (h : s.insertLog t row = some (.ok (a, db'))) :
    Makes t (Writes ((Cmd.insertLog row).May nextAuditId) t) s.db db' := by
  simp only [World.insertLog] at h
  split_ifs at h
  · cases h
  split at h
  · cases h
  · rename_i db₁ hinsert
    obtain ⟨⟨b, db₂⟩, hinsert', hdb⟩ := Option.map_eq_some_iff.1 h
    cases hdb
    exact (insertNew_makes hinsert fun hnone => ⟨rfl, rowOrder_of_eq_none hnone, trivial⟩).trans
      (insertNew_makes hinsert' fun hnone => ⟨⟨_, rfl, by simp [LogRow.isStuck]⟩,
        rowOrder_of_eq_none hnone, trivial⟩)
  · rename_i db₁ hinsert
    split at h
    · cases h
    · obtain ⟨⟨b, db₂⟩, hupdate, hdb⟩ := Option.map_eq_some_iff.1 h
      cases hdb
      obtain ⟨-, rfl, -⟩ | ⟨⟨⟩, -⟩ := insertNew_cases hinsert
      exact updateRow_makes hupdate fun v hv _ => writes_same hs hv trivial

/-- A statement does what it is executed for, or is undone. -/
theorem sql_makes {α : Type} {f : Fault} {x : Except Exn α}
    {stmt : Option (Except Exn (α × Database (P × Role) Key RowOf))} (hu : s.db.Unsaved)
    (h : s.sql t f stmt = some (x, s'))
    (hs : ∀ a db', stmt = some (.ok (a, db')) → Makes t (Writes may t) s.db db') :
    Makes t (Writes may t) s.db s'.db ∨
      (∃ e, x = .error e) ∧ Undone t s.db s'.db := by
  obtain ⟨⟨x', db⟩, hstmt, hx⟩ := Option.map_eq_some_iff.1 h
  cases hx
  rcases statement_makes hstmt hu with ⟨e, rfl, rfl | hundone⟩ | ⟨a, rfl, hok⟩
  · exact .inl (.refl _)
  · exact .inr ⟨⟨e, rfl⟩, hundone⟩
  · exact .inl (hs a db hok)

theorem query_makes {α : Type} {f : Fault} {a : α} {x : Except Exn α} (hu : s.db.Unsaved)
    (h : s.query t f a = some (x, s')) : Makes t (Writes may t) s.db s'.db ∨
      (∃ e, x = .error e) ∧ Undone t s.db s'.db := by
  refine sql_makes hu h ?_
  rintro a' db' ⟨⟩
  exact .refl _

theorem queryFailure_makes {α : Type} {f : Fault} {fid : ℤ} {a : α} {x : Except Exn α}
    (hu : s.db.Unsaved) (h : s.queryFailure t f fid a = some (x, s')) :
    Makes t (Writes may t) s.db s'.db ∨ (∃ e, x = .error e) ∧ Undone t s.db s'.db := by
  refine sql_makes hu h ?_
  intro a' db' hok
  split_ifs at hok <;> cases hok
  exact .refl _

/-- A command of Redis leaves the rows alone. -/
theorem redis_makes {α : Type} {f : Fault} {a x : Except Exn α} {s'' : World P}
    (h : s.redis f a s'' = some (x, s')) (hs : s''.db = s.db) :
    Makes t (Writes may t) s.db s'.db := by
  rcases eq_or_eq_of_redis h with rfl | rfl
  · exact .refl _
  · rw [hs]
    exact .refl _

/-! ### Commands -/

/-- A command of Redis, or of the registry. -/
def Cmd.sparesRows : Cmd → Bool
  | .xinfoStream _ | .xrange _ _ _ _ | .xrevrange _ _ | .xadd _ _ | .xdel _ _ | .xack _ _ _ |
    .xautoclaim _ _ _ | .xreadgroup _ _ _ | .sismember _ _ | .setNx _ _ | .set _ _ | .get _ |
    .time | .del _ | .expire _ | .hincrby _ _ | .ackScript _ _ _ _ _ _ | .redact _ _ | .yield _ =>
    true
  | _ => false

/-- It leaves the rows alone. -/
theorem db_exec {x : Except Exn (Reply c)} (hc : c.sparesRows = true)
    (h : World.exec env p c o s = some (x, s')) :
    s'.db = s.db ∧ s'.nextAuditId = s.nextAuditId := by
  have hredis : ∀ {α : Type} {a y : Except Exn α} {s'' : World P},
      s.redis o.fault a s'' = some (y, s') → s''.db = s.db ∧ s''.nextAuditId = s.nextAuditId →
        s'.db = s.db ∧ s'.nextAuditId = s.nextAuditId := by
    rintro α a y s'' hr hdb
    rcases eq_or_eq_of_redis hr with rfl | rfl
    · exact ⟨rfl, rfl⟩
    · exact hdb
  cases c <;> try cases hc
  case xinfoStream n =>
    simp only [World.exec] at h
    split at h <;> exact hredis h ⟨rfl, rfl⟩
  case xrevrange n count =>
    simp only [World.exec] at h
    split at h
    · exact hredis h ⟨rfl, rfl⟩
    · split_ifs at h <;> exact hredis h ⟨rfl, rfl⟩
  case xadd n f =>
    simp only [World.exec] at h
    split_ifs at h
    exact hredis h ⟨rfl, rfl⟩
  case xdel n i =>
    simp only [World.exec] at h
    split at h <;> exact hredis h ⟨rfl, rfl⟩
  case xautoclaim n g count =>
    simp only [World.exec] at h
    split at h <;> exact hredis h ⟨rfl, rfl⟩
  case xreadgroup n g count =>
    simp only [World.exec] at h
    split at h <;> exact hredis h ⟨rfl, rfl⟩
  case setNx key value =>
    simp only [World.exec] at h
    split_ifs at h <;> exact hredis h ⟨rfl, rfl⟩
  case get key =>
    simp only [World.exec] at h
    split_ifs at h <;> exact hredis h ⟨rfl, rfl⟩
  case time =>
    cases h
    exact ⟨rfl, rfl⟩
  case expire key =>
    cases h
    exact ⟨rfl, rfl⟩
  case redact u row =>
    simp only [World.exec] at h
    split_ifs at h <;> cases h <;> exact ⟨rfl, rfl⟩
  case yield e =>
    cases h
    exact ⟨rfl, rfl⟩
  all_goals exact hredis h ⟨rfl, rfl⟩

/-- What a command does to the rows: some writes, unless it fails and its transaction is undone, or
    ends one. -/
theorem exec_db (hu : s.db.Unsaved) (hs : s.db.All Tidy) {x : Except Exn (Reply c)}
    (h : exec env p c o s = some (x, s')) :
    Makes (p, c.role) (Writes (c.May s.nextAuditId) (p, c.role)) s.db s'.db ∨
      (∃ e, x = .error e) ∧ Undone (p, c.role) s.db s'.db ∨
      c.ends = true ∧
        Effect (p, c.role) (Writes (c.May s.nextAuditId) (p, c.role)) s.db s'.db := by
  by_cases hc : c.sparesRows = true
  · rw [(db_exec hc h).1]
    exact .inl (.refl _)
  have hor : ∀ {A B C : Prop}, A ∨ B → A ∨ B ∨ C := fun h => h.imp id .inl
  cases c <;> try exact absurd rfl hc
  case insertLog row =>
    simp only [World.exec] at h
    obtain ⟨⟨y, s₁⟩, hsql, hx⟩ := Option.map_eq_some_iff.1 h
    cases hx
    have hmakes : Makes (p, .main) (Writes ((Cmd.insertLog row).May s.nextAuditId) (p, .main)) s.db
        s₁.db ∨ (∃ e, y = .error e) ∧ Undone (p, .main) s.db s₁.db :=
      sql_makes hu hsql fun a db' hok => insertLog_makes hs hok
    exact hor hmakes
  case selectIndexPage limit => exact hor (query_makes hu h)
  case selectStreams => exact hor (query_makes hu h)
  case selectIndex r fid => exact hor (queryFailure_makes hu h)
  case selectLogExists fid => exact hor (queryFailure_makes hu h)
  case selectLogRid fid => exact hor (query_makes hu h)
  case existsAudit operation fid => exact hor (query_makes hu h)
  case selectRegistry r u => exact hor (query_makes hu h)
  case insertIndex fid rid =>
    refine hor (sql_makes hu h fun a db' hok => ?_)
    obtain ⟨y, hy, hok⟩ := Option.map_eq_some_iff.1 hok
    obtain ⟨⟨b, db₁⟩, rfl, hok⟩ := except_bind_eq_ok.1 hok
    rcases b with _ | _ <;> cases hok
    exact insertChild_makes hy fun _ => writes_index _ rfl
  case insertIndexNew fid rid =>
    refine hor (sql_makes hu h fun a db' hok => ?_)
    obtain ⟨y, hy, hok⟩ := Option.map_eq_some_iff.1 hok
    rcases y with e | ⟨b, db₁⟩ <;> cases hok
    exact insertChild_makes hy fun _ => writes_index _ rfl
  case deleteIndex fid rid =>
    refine hor (sql_makes hu h fun a db' hok => ?_)
    obtain ⟨⟨b, db₁⟩, hy, hok⟩ := Option.map_eq_some_iff.1 hok
    cases hok
    exact deleteRow_makes hy (writes_index _ rfl)
  case insertIntent fid n lb owner =>
    exact hor (sql_makes hu h fun a db' hok => insertChild_makes hok fun _ => writes_intent _ rfl)
  case selectIntentForUpdate fid =>
    refine hor (sql_makes hu h fun a db' hok => ?_)
    obtain ⟨⟨b, db₁⟩, hy, hok⟩ := Option.map_eq_some_iff.1 hok
    cases hok
    exact selectForUpdate_makes hy
  case touchIntent fid =>
    refine hor (sql_makes hu h fun a db' hok => ?_)
    obtain ⟨⟨b, db₁⟩, hy, hok⟩ := Option.map_eq_some_iff.1 hok
    cases hok
    exact updateRow_makes hy fun v _ _ => writes_intent _ rfl
  case replaceIntent fid owner lb =>
    refine hor (sql_makes hu h fun a db' hok => ?_)
    obtain ⟨⟨b, db₁⟩, hy, hok⟩ := Option.map_eq_some_iff.1 hok
    cases hok
    exact updateRow_makes hy fun v _ _ => writes_intent _ rfl
  case deleteIntent fid =>
    refine hor (sql_makes hu h fun a db' hok => ?_)
    obtain ⟨⟨b, db₁⟩, hy, hok⟩ := Option.map_eq_some_iff.1 hok
    cases hok
    exact deleteRow_makes hy (writes_intent _ rfl)
  case updateLogRouted fid rid =>
    refine hor (sql_makes hu h fun a db' hok => ?_)
    obtain ⟨⟨b, db₁⟩, hy, hok⟩ := Option.map_eq_some_iff.1 hok
    cases hok
    exact updateRow_makes hy fun v hv hstuck => writes_route hs hv hstuck rfl
  case insertAudit r e =>
    simp only [World.exec] at h
    obtain ⟨⟨y, s₁⟩, hsql, hx⟩ := Option.map_eq_some_iff.1 h
    cases hx
    have hmakes : Makes (p, r) (Writes ((Cmd.insertAudit r e).May s.nextAuditId) (p, r)) s.db
        s₁.db ∨ (∃ e, y = .error e) ∧ Undone (p, r) s.db s₁.db := by
      refine sql_makes hu hsql fun a db' hok => ?_
      obtain ⟨⟨b, db₁⟩, hy, hok⟩ := Option.map_eq_some_iff.1 hok
      cases hok
      exact insertNew_makes hy fun hnone => ⟨rfl, rowOrder_of_eq_none hnone, rfl⟩
    exact hor hmakes
  case acquireEventLock r u =>
    refine hor (sql_makes hu h fun a db' hok => ?_)
    split_ifs at hok with hl
    cases hok
    exact .stay stays_lockRow
  case commit r =>
    cases h
    exact .inr (.inr ⟨rfl, commit_effect rfl⟩)
  case rollback r =>
    cases h
    exact .inr (.inr ⟨rfl, rollback_effect rfl⟩)
  case close r =>
    cases h
    exact .inr (.inr ⟨rfl, close_effect rfl⟩)

theorem exec_effect (hu : s.db.Unsaved) (hs : s.db.All Tidy) {x : Except Exn (Reply c)}
    (h : exec env p c o s = some (x, s')) :
    Effect (p, c.role) (Writes (c.May s.nextAuditId) (p, c.role)) s.db s'.db := by
  rcases exec_db hu hs h with h | ⟨-, h⟩ | ⟨-, h⟩
  · exact .makes h
  · exact .undone h
  · exact h

/-- The audit events have been given their numbers. -/
theorem nextAuditId_exec {x : Except Exn (Reply c)} (h : World.exec env p c o s = some (x, s')) :
    s.nextAuditId ≤ s'.nextAuditId ∧
      ∀ n, c.May s.nextAuditId (.audit n) → n < s'.nextAuditId := by
  by_cases hc : c.sparesRows = true
  · rw [(db_exec hc h).2]
    refine ⟨le_rfl, fun n hn => ?_⟩
    cases c <;> first | exact hn.elim | cases hc
  have hsql : ∀ {α : Type} {t : P × Role} {y : Except Exn α} {s₁ : World P}
      {stmt : Option (Except Exn (α × Database (P × Role) Key RowOf))},
      s.sql t o.fault stmt = some (y, s₁) → s₁.nextAuditId = s.nextAuditId := by
    rintro α t y s₁ stmt h
    obtain ⟨db, rfl⟩ := exists_db_of_sql h
    rfl
  have hsame : s'.nextAuditId = s.nextAuditId → (∀ n, ¬c.May s.nextAuditId (.audit n)) →
      s.nextAuditId ≤ s'.nextAuditId ∧
      ∀ n, c.May s.nextAuditId (.audit n) → n < s'.nextAuditId :=
    fun h hno => ⟨h.ge, fun n hn => absurd hn (hno n)⟩
  cases c <;> try exact absurd rfl hc
  case insertLog row =>
    simp only [World.exec] at h
    obtain ⟨⟨y, s₁⟩, hs, hx⟩ := Option.map_eq_some_iff.1 h
    cases hx
    have hnext : s₁.nextAuditId = s.nextAuditId := hsql hs
    exact hsame hnext fun _ hn => by cases hn
  case insertAudit r e =>
    simp only [World.exec] at h
    obtain ⟨⟨y, s₁⟩, hs, hx⟩ := Option.map_eq_some_iff.1 h
    cases hx
    refine ⟨Nat.le_succ _, ?_⟩
    rintro n ⟨⟩
    exact Nat.lt_succ_self _
  case commit r =>
    cases h
    exact hsame rfl fun _ hn => by cases hn
  case rollback r =>
    cases h
    exact hsame rfl fun _ hn => by cases hn
  case close r =>
    cases h
    exact hsame rfl fun _ hn => by cases hn
  all_goals exact hsame (hsql h) fun _ hn => by cases hn

theorem touchIntents_makes {owner : String} {now : ℕ} {fids : List ℤ}
    (hmay : ∀ fid, may (.intent fid))
    (h : touchIntents (p, .main) owner now fids db = some db') :
    Makes (p, .main) (Writes may (p, .main)) db db' := by
  induction fids generalizing db with
  | nil =>
    cases h
    exact .refl _
  | cons fid fids ih =>
    rw [touchIntents] at h
    obtain ⟨⟨b, db₁⟩, hy, h⟩ := Option.bind_eq_some_iff.1 h
    exact (updateRow_makes hy fun v _ _ => writes_intent _ (hmay fid)).trans (ih h)

/-- What a command of the daemons does to the rows. -/
theorem execPass_db (hu : s.db.Unsaved) {c : PassCmd} {o : PassChoice}
    {x : Except Exn (PassReply c)} (h : execPass p c o s = some (x, s')) :
    Makes (p, .main) (Writes c.May (p, .main)) s.db s'.db ∨
      (∃ e, x = .error e) ∧ Undone (p, .main) s.db s'.db := by
  rcases c with _ | _ | fid | owner
  · simp only [execPass] at h
    split_ifs at h
    exact query_makes hu h
  · simp only [execPass] at h
    split_ifs at h
    exact query_makes hu h
  · refine sql_makes hu h fun a db' hok => ?_
    obtain ⟨⟨b, db₁⟩, hy, hok⟩ := Option.map_eq_some_iff.1 hok
    cases hok
    exact selectForUpdate_makes hy
  · refine sql_makes hu h fun a db' hok => ?_
    obtain ⟨db₁, hy, hok⟩ := Option.map_eq_some_iff.1 hok
    cases hok
    exact touchIntents_makes (fun _ => trivial) hy

/-! ### What is filed -/

/-- What the session sees is as it was. -/
theorem view_of_frame {t' : P × Role} (h : Frame t' db db') (hcom : db'.committed = db.committed) :
    db'.view t' = db.view t' := by
  funext k
  rw [view, view, h.pending, hcom]

/-- What is filed is in the log, after writes that file nothing. -/
theorem logged_makes (hmay : ∀ n g m, ¬may (.routing n g m))
    (h : Makes t (Writes may t) db db') (hl : Logged (db.view t)) : Logged (db'.view t) := by
  induction h with
  | @stay db db' h =>
    have hview : db'.view t = db.view t := by
      funext k
      rw [view, view, h.pending, h.committed]
    rwa [hview]
  | @put db k v fu h hv =>
    intro n g m fid hrouting
    have hne : Key.routing n g m ≠ k := by
      rintro rfl
      exact hmay n g m hv.may
    rw [view_put_of_ne hne] at hrouting
    by_cases hk : Key.log fid = k
    · subst hk
      obtain ⟨row, rfl, -⟩ := hv.tidy
      rw [view_put_self]
      rfl
    · rw [view_put_of_ne hk]
      exact hl n g m fid hrouting
  | trans _ _ ih ih' => exact ih' (ih hl)

/-- A failure that is filed is in the log. -/
theorem logged_insertLog (hs : s.db.All Tidy) (hl : Logged (s.db.view t)) {row : LogInsert}
    {a : ℤ × Option StreamId} (h : s.insertLog t row = some (.ok (a, db'))) :
    Logged (db'.view t) := by
  simp only [World.insertLog] at h
  split_ifs at h
  · cases h
  split at h
  · cases h
  · rename_i db₁ hinsert
    obtain ⟨⟨b, db₂⟩, hinsert', hdb⟩ := Option.map_eq_some_iff.1 h
    cases hdb
    obtain ⟨⟨⟩, -⟩ | ⟨-, -, hlock, rfl⟩ := insertNew_cases hinsert
    -- The row of the log is there in the end, and the others as they were.
    have hnew : (db₂.view t (.log s.nextFailureId)).isSome ∧
        ∀ k, k ≠ .log s.nextFailureId → db₂.view t k = (s.db.put t (.routing row.streamName
          row.groupName row.originalMessageId) (some (s.nextFailureId : ℤ)) false hlock).view t k := by
      rcases insertNew_cases hinsert' with ⟨-, rfl, hsome⟩ | ⟨-, -, hlock', rfl⟩
      · exact ⟨hsome, fun _ _ => rfl⟩
      · refine ⟨?_, fun k hk => view_put_of_ne hk⟩
        rw [view_put_self]
        rfl
    intro n g m fid hrouting
    by_cases hfid : fid = s.nextFailureId
    · rw [hfid]
      exact hnew.1
    rw [hnew.2 _ (by simp)] at hrouting
    rw [hnew.2 _ (by simpa using hfid), view_put_of_ne (by simp)]
    by_cases hk : Key.routing n g m =
      .routing row.streamName row.groupName row.originalMessageId
    · obtain ⟨rfl, rfl, rfl⟩ : n = row.streamName ∧ g = row.groupName ∧
        m = row.originalMessageId := by simpa using hk
      rw [view_put_self] at hrouting
      exact absurd (Option.some.inj hrouting).symm hfid
    · rw [view_put_of_ne hk] at hrouting
      exact hl n g m fid hrouting
  · rename_i db₁ hinsert
    split at h
    · cases h
    · obtain ⟨⟨b, db₂⟩, hupdate, hdb⟩ := Option.map_eq_some_iff.1 h
      cases hdb
      obtain ⟨-, rfl, -⟩ | ⟨⟨⟩, -⟩ := insertNew_cases hinsert
      have hmakes : Makes t (Writes (fun k => ∃ fid, k = .log fid) t) s.db db₂ :=
        updateRow_makes hupdate fun v hv _ => writes_same hs hv ⟨_, rfl⟩
      exact logged_makes (by rintro n g m ⟨fid, ⟨⟩⟩) hmakes hl

/-- What is filed is in the log when a transaction is committed. -/
theorem logged_commitTx {st : Status} (hs : db.All Tidy) (hl : ∀ t, Logged (db.view t))
    (t t' : P × Role) : Logged ((db.commitTx t st).view t') := by
  by_cases ht : t' = t
  · subst ht
    have hview : (db.commitTx t' st).view t' = db.view t' := by
      funext k
      rw [view, pending_commitTx_self, committed_commitTx]
      rfl
    rw [hview]
    exact hl t'
  have hpending : (db.commitTx t st).pending t' = db.pending t' := (frame_commitTx ht).pending
  -- A row of the log that a session sees is seen by all once it is committed.
  have hlog : ∀ fid, (db.view t (.log fid)).isSome →
      ((db.commitTx t st).view t' (.log fid)).isSome := fun fid hsome =>
    hs.commitTx.isSome_view not_tidy_none hsome t'
  intro n g m fid hrouting
  rw [view, hpending, committed_commitTx] at hrouting
  rcases hp : db.pending t' (.routing n g m) with _ | w
  · rw [hp] at hrouting
    exact hlog fid (hl t n g m fid hrouting)
  · have hsees : db.view t' (.routing n g m) = some fid := by
      rw [view, hp]
      rwa [hp] at hrouting
    have hsome := hl t' n g m fid hsees
    rcases hp' : db.pending t' (.log fid) with _ | w'
    · rw [view, hp'] at hsome
      exact hlog fid (hs.isSome_view not_tidy_none hsome t)
    · rw [view, hpending, hp']
      rwa [view, hp'] at hsome

/-- What all sessions see is in the log after the requests of one, if what it sees is. -/
theorem logged_effect {W : Database (P × Role) Key RowOf → (k : Key) → Option (RowOf k) → Prop}
    (h : Effect t W db db') (hs : db.All Tidy) (hl : ∀ t, Logged (db.view t))
    (hcom : Logged db.committed) (ht : Makes t W db db' → Logged (db'.view t)) :
    (∀ t, Logged (db'.view t)) ∧ Logged db'.committed := by
  rcases h with h | h | ⟨st, rfl⟩
  · refine ⟨fun t' => ?_, by rwa [h.committed]⟩
    by_cases htt : t' = t
    · exact htt ▸ ht h
    · rw [view_of_frame (h.frame htt) h.committed]
      exact hl t'
  · refine ⟨fun t' => ?_, by rwa [h.committed]⟩
    by_cases htt : t' = t
    · subst htt
      have hview : db'.view t' = db.committed := by
        funext k
        rw [view, h.pending, h.committed]
        rfl
      rwa [hview]
    · rw [view_of_frame (h.frame htt) h.committed]
      exact hl t'
  · exact ⟨logged_commitTx hs hl t, hl t⟩

end

end Deadletter

end AslanCore
