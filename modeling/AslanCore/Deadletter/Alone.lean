import AslanCore.Deadletter.Janitor
import AslanCore.Process.Alone
import AslanCore.Store.Solo

/-!
# Janitors that are alone

What the commands of a janitor do when nothing goes wrong in the stores, and no other process
uses them: no statement waits, and the rows that its session sees are changed one by one.

* `Quiet`: no process uses the stores;
* `Lone`: a single session is in use, and it sees the given rows;
* `ends_withSession`: what a session has committed is there when it is closed.
-/

set_option linter.unusedSectionVars false

namespace AslanCore

namespace Deadletter

open AslanCore.System Outline

/-- The integer of a text of digits. -/
def parseDecimal (v : String) : Option ℤ :=
  if v.toList ≠ [] ∧ v.toList.all Char.isDigit then some (Nat.ofDigitChars 10 v.toList 0) else none

/-- A client that decodes. All texts are the same to the database. -/
def plainEnv : Env where
  decodeResponses := true
  parseInt := parseDecimal
  collate _ _ := true
  parse := Streams.plainEnv
  sha256 text := text
  strOf _ := ""
  dictOf _ := none
  isoformat := toString

/-- Nothing goes wrong in the stores, and a caller only asks for the next event. The time may be
    given. -/
def healthyAt {P : Type} (now : Option ℕ) : Guard Cmd P Job Choice (World P) where
  step _ _ o _ := o.fault = .none ∧ o.action = .resume .next ∧ ∀ t ∈ now, o.now = t

/-- Nothing goes wrong in the stores, and a caller only asks for the next event. -/
abbrev healthy {P : Type} : Guard Cmd P Job Choice (World P) := healthyAt none

/-- The rows are under the keys that were drawn, and those of the index refer to the log. -/
structure Sound (nextFailureId nextAuditId : ℕ) (rows : (k : Key) → Option (RowOf k)) : Prop where
  log_lt : ∀ fid, (rows (.log fid)).isSome → 0 ≤ fid ∧ fid < nextFailureId
  index_log : ∀ fid, (rows (.index fid)).isSome → (rows (.log fid)).isSome
  audit_lt : ∀ n, (rows (.audit n)).isSome → n < nextAuditId

namespace World

variable {P : Type} [DecidableEq P]

/-- No process uses the stores. -/
structure Quiet (s : World P) : Prop where
  idle : s.db.Idle
  bigint : s.nextFailureId ≤ 2 ^ 63
  sound : Sound s.nextFailureId s.nextAuditId s.db.committed

/-- No session but `t` is in use. -/
structure Used (t : P × Role) (s : World P) : Prop where
  onlyUsedBy : s.db.OnlyUsedBy t
  bigint : s.nextFailureId ≤ 2 ^ 63
  committed : Sound s.nextFailureId s.nextAuditId s.db.committed

/-- No session but `t` is in use, and it sees the rows `w`. -/
structure Lone (t : P × Role) (s : World P) (w : (k : Key) → Option (RowOf k)) : Prop where
  solo : s.db.Solo t w
  bigint : s.nextFailureId ≤ 2 ^ 63
  committed : Sound s.nextFailureId s.nextAuditId s.db.committed
  seen : Sound s.nextFailureId s.nextAuditId w

theorem Quiet.lone {s : World P} (h : s.Quiet) (t : P × Role) : s.Lone t s.db.committed :=
  ⟨h.idle.solo _, h.bigint, h.sound, h.sound⟩

/-- What is quiet depends on the rows only. -/
theorem Quiet.congr {s s' : World P} (h : s.Quiet) (hf : s'.nextFailureId = s.nextFailureId)
    (ha : s'.nextAuditId = s.nextAuditId) (hdb : s'.db = s.db) : s'.Quiet :=
  ⟨hdb ▸ h.idle, hf ▸ h.bigint, by rw [hf, ha, hdb]; exact h.sound⟩

theorem Lone.used {t : P × Role} {s : World P} {w : (k : Key) → Option (RowOf k)}
    (h : s.Lone t w) : s.Used t :=
  ⟨h.solo.toOnlyUsedBy, h.bigint, h.committed⟩

end World

variable {P : Type} [DecidableEq P] {env : Env} {τ : Option ℕ} {p : P} {r : Role} {t : P × Role}
  {s : World P}
  {w : (k : Key) → Option (RowOf k)}

/-- A command ends as its effect says, whatever is left open. -/
theorem ends_request {c : Cmd} {Q : Except Exn (Reply c) → World P → Prop}
    (h : ∀ o : Choice, o.fault = .none →
      ∃ x s₁, World.exec env p c o s = some (x, s₁) ∧ Q x s₁) :
    (system env P).Ends (healthyAt τ) p (request c) Q s := by
  refine ends_perform.2 ⟨?_, ?_⟩
  · obtain ⟨x, s₁, hx, -⟩ := h { now := τ.getD 0 } rfl
    refine ⟨{ now := τ.getD 0 }, x, s₁, ⟨rfl, rfl, fun t ht => ?_⟩, hx⟩
    rw [ht]
    rfl
  · rintro o x s₁ ho hx
    obtain ⟨x', s₁', hx', hQ⟩ := h o ho.1
    obtain ⟨rfl, rfl⟩ := Prod.mk.inj (Option.some.inj (hx'.symm.trans hx))
    exact hQ

namespace World

/-- A statement is executed: the rows are those that its session sees then. -/
theorem Lone.sql_some (h : s.Lone t w) {α : Type} (a : α) (db : Database (P × Role) Key RowOf) :
    s.sql t .none (some (.ok (a, db))) = some (.ok a, { s with db := db }) := by
  simp only [sql, Database.statement, h.solo.status_self, if_true, Option.map_some]

/-- A statement fails. -/
theorem Lone.sql_error (h : s.Lone t w) {α : Type} (e : Exn) :
    s.sql t .none (some (.error e) : Option (Except Exn (α × _))) =
      some (.error e, { s with db := s.db.fail t }) := by
  simp only [sql, Database.statement, h.solo.status_self, if_true, Option.map_some]

theorem Lone.fail (h : s.Lone t w) : { s with db := s.db.fail t : World P }.Used t ∧
    (s.db.fail t).committed = s.db.committed := by
  obtain ⟨hused, hcom⟩ := h.solo.fail
  exact ⟨⟨hused, h.bigint, (congrArg (Sound _ _) hcom).mpr h.committed⟩, hcom⟩

section

variable (h : s.Lone t w)
include h

/-- A query leaves everything as it is. -/
theorem Lone.query {α : Type} (a : α) : s.query t .none a = some (.ok a, s) := h.sql_some a s.db

theorem Lone.queryFailure {α : Type} {fid : ℤ} (hf : IsBigint fid) (a : α) :
    s.queryFailure t .none fid a = some (.ok a, s) := by
  rw [World.queryFailure, if_pos hf]
  exact h.query a

/-- A number that is no `BIGINT` is refused. -/
theorem Lone.queryFailure_error {α : Type} {fid : ℤ} (hf : ¬IsBigint fid) (a : α) :
    s.queryFailure t .none fid a = some (.error .sql, { s with db := s.db.fail t }) := by
  rw [World.queryFailure, if_neg hf]
  exact h.sql_error .sql

/-- A row that refers to a failure of the log is inserted. -/
theorem Lone.insertChild {k : Key} (v : RowOf k) {fid : ℤ}
    (hlog : (w (.log fid)).isSome) (hnew : w k = none) : ∃ db,
    s.insertChild t k v fid = some (.ok (true, db)) ∧ db.committed = s.db.committed ∧
      db.Solo t (Function.update w k (some v)) := by
  obtain ⟨db, hdb, hsolo, hcom⟩ := h.solo.insertNew (v := v) hnew
  refine ⟨db.addRef t (.log fid), ?_, hcom, hsolo.addRef _⟩
  have hview : ¬s.db.view t (.log fid) = none := by
    rw [h.solo.view_eq]
    exact Option.isSome_iff_ne_none.1 hlog
  simp only [World.insertChild, hdb, if_neg hview, if_pos (h.solo.canRefer _)]

/-- The rows that a session sees are changed. -/
theorem Lone.update {db : Database (P × Role) Key RowOf} {w' : (k : Key) → Option (RowOf k)}
    (hsolo : db.Solo t w') (hcom : db.committed = s.db.committed)
    (hseen : Sound s.nextFailureId s.nextAuditId w') :
    { s with db := db : World P }.Lone t w' :=
  ⟨hsolo, h.bigint, (congrArg (Sound _ _) hcom).mpr h.committed, hseen⟩

end

section

variable {o : Choice} (ho : o.fault = .none)
include ho

theorem Lone.selectIndexPage (h : s.Lone (p, .main) w) (limit : ℕ) :
    exec env p (.selectIndexPage limit) o s =
      some (.ok ((s.indexRows (p, .main)).take limit), s) := by
  rw [exec, ho]
  exact h.query _

theorem Lone.selectStreams (h : s.Lone (p, .main) w) :
    exec env p .selectStreams o s =
      some (.ok ((s.streamNames (p, .main)).mergeSort env.collate), s) := by
  rw [exec, ho]
  exact h.query _

theorem Lone.selectIndex (h : s.Lone (p, r) w) {fid : ℤ} (hf : IsBigint fid) :
    exec env p (.selectIndex r fid) o s = some (.ok (w (.index fid)), s) := by
  rw [exec, ho, ← h.solo.view_eq]
  exact h.queryFailure hf _

theorem Lone.selectLogExists (h : s.Lone (p, .main) w) {fid : ℤ} (hf : IsBigint fid) :
    exec env p (.selectLogExists fid) o s = some (.ok (w (.log fid)).isSome, s) := by
  rw [exec, ho, ← h.solo.view_eq]
  exact h.queryFailure hf _

theorem Lone.existsAudit (h : s.Lone (p, .main) w) (operation : String) (fid : ℤ) :
    exec env p (.existsAudit operation fid) o s =
      some (.ok ((s.audits (p, .main)).any (IsAudit operation fid)), s) := by
  rw [exec, ho]
  exact h.query _

theorem Lone.insertAudit (h : s.Lone (p, r) w) (env : Env) (e : AuditEvent) : ∃ db,
    exec env p (.insertAudit r e) o s =
      some (.ok (), { s with nextAuditId := s.nextAuditId + 1, db := db }) ∧
    db.committed = s.db.committed ∧
    { s with nextAuditId := s.nextAuditId + 1, db := db : World P }.Lone (p, r)
      (Function.update w (.audit s.nextAuditId) (some e)) := by
  have hnew : w (.audit s.nextAuditId) = none := by
    by_contra hne
    exact absurd (h.seen.audit_lt _ (Option.isSome_iff_ne_none.2 hne)) (lt_irrefl _)
  obtain ⟨db, hdb, hsolo, hcom⟩ := h.solo.insertNew (v := (e : RowOf (.audit s.nextAuditId))) hnew
  refine ⟨db, ?_, hcom, hsolo, h.bigint, ?_, ?_⟩
  · simp only [exec, ho, hdb, Option.map_some, h.sql_some]
  · rw [hcom]
    exact ⟨h.committed.log_lt, h.committed.index_log, fun n hn =>
      (h.committed.audit_lt n hn).trans (Nat.lt_succ_self _)⟩
  · refine ⟨h.seen.log_lt, h.seen.index_log, fun n hn => ?_⟩
    by_cases hne : n = s.nextAuditId
    · exact hne ▸ Nat.lt_succ_self _
    · rw [Function.update_of_ne (by simpa using hne)] at hn
      exact (h.seen.audit_lt n hn).trans (Nat.lt_succ_self _)

/-- A failure of the log is indexed. -/
theorem Lone.insertIndexNew (h : s.Lone (p, .main) w) (env : Env) (rid : StreamId) {fid : ℤ}
    (hlog : (w (.log fid)).isSome) (hnew : w (.index fid) = none) : ∃ db,
    exec env p (.insertIndexNew fid rid) o s = some (.ok (), { s with db := db }) ∧
    db.committed = s.db.committed ∧
    { s with db := db : World P }.Lone (p, .main) (Function.update w (.index fid) (some rid)) := by
  obtain ⟨db, hdb, hcom, hsolo⟩ :=
    h.insertChild (k := .index fid) (rid : RowOf (.index fid)) hlog hnew
  refine ⟨db, ?_, hcom, h.update hsolo hcom ⟨h.seen.log_lt, fun fid' hf => ?_, h.seen.audit_lt⟩⟩
  · simp only [exec, ho, hdb, Option.map_some, Except.map, h.sql_some]
  · by_cases hne : fid' = fid
    · subst hne
      exact hlog
    · rw [Function.update_of_ne (by simpa using hne)] at hf
      exact h.seen.index_log fid' hf

/-- A failure of the log is routed, if it is not yet. -/
theorem Lone.updateLogRouted (h : s.Lone (p, .main) w) (env : Env) (rid : StreamId) {fid : ℤ}
    {row : LogRow} (hrow : w (.log fid) = some row) : ∃ db,
    exec env p (.updateLogRouted fid rid) o s = some (.ok row.isStuck, { s with db := db }) ∧
    db.committed = s.db.committed ∧
    { s with db := db : World P }.Lone (p, .main) (Function.update w (.log fid)
      (some (if row.isStuck then row.route rid o.now else row))) := by
  have hseen : ∀ row' : LogRow,
      Sound s.nextFailureId s.nextAuditId (Function.update w (.log fid) (some row')) := by
    intro row'
    have hsome : ∀ fid', (Function.update w (.log fid) (some row') (.log fid')).isSome ↔
        (w (.log fid')).isSome := by
      intro fid'
      by_cases hne : fid' = fid
      · subst hne
        simp [hrow]
      · rw [Function.update_of_ne (by simpa using hne)]
    exact ⟨fun fid' hf => h.seen.log_lt fid' ((hsome fid').1 hf),
      fun fid' hf => (hsome fid').2 (h.seen.index_log fid' hf), h.seen.audit_lt⟩
  by_cases hr : row.isStuck = true
  · obtain ⟨db, hdb, hsolo, hcom⟩ := h.solo.updateRow (k := .log fid) (f := LogRow.route rid o.now)
      hrow hr
    refine ⟨db, ?_, hcom, ?_⟩
    · simp only [exec, ho, hdb, Option.map_some, h.sql_some, hr]
    · rw [if_pos hr]
      exact h.update hsolo hcom (hseen _)
  · have hdb : s.db.updateRow (p, .main) (.log fid) LogRow.isStuck (LogRow.route rid o.now) =
        some (false, s.db) := by
      refine h.solo.updateRow_none fun row' hrow' => ?_
      obtain rfl : row = row' := Option.some.inj (hrow.symm.trans hrow')
      exact Bool.eq_false_of_not_eq_true hr
    refine ⟨s.db, ?_, rfl, ?_⟩
    · simp only [exec, ho, hdb, Option.map_some, h.sql_some, Bool.eq_false_of_not_eq_true hr]
    · rw [if_neg hr, ← hrow, Function.update_eq_self]
      exact h

/-- What the session sees is committed. -/
theorem Lone.commit (h : s.Lone (p, r) w) (env : Env) : ∃ db,
    exec env p (.commit r) o s = some (.ok (), { s with db := db }) ∧
    db.committed = w ∧ { s with db := db : World P }.Lone (p, r) w := by
  obtain ⟨db, hdb, hidle, hcom⟩ := h.solo.commit (e := Exn.sql)
  refine ⟨db, by simp only [exec, ho, hdb], hcom, ?_, h.bigint, ?_, h.seen⟩
  · exact hcom ▸ hidle.solo _
  · exact (congrArg (Sound _ _) hcom).mpr h.seen

theorem Used.close (h : s.Used (p, r)) (env : Env) : ∃ db,
    exec env p (.close r) o s = some (.ok (), { s with db := db }) ∧
    db.committed = s.db.committed ∧ { s with db := db : World P }.Quiet := by
  refine ⟨s.db.abort (p, r) .ready, ?_, rfl, h.onlyUsedBy.abort, h.bigint, h.committed⟩
  rw [exec, ho]
  rfl

theorem Used.rollback (h : s.Used (p, r)) (env : Env) : ∃ db,
    exec env p (.rollback r) o s = some (.ok (), { s with db := db }) ∧
    db.committed = s.db.committed ∧ { s with db := db : World P }.Quiet := by
  refine ⟨s.db.abort (p, r) .ready, ?_, rfl, h.onlyUsedBy.abort, h.bigint, h.committed⟩
  rw [exec, ho]
  rfl

/-- An entry is deleted, if it is present. -/
theorem xdel (n : String) (i : StreamId) :
    exec env p (.xdel n i) o s =
      some (.ok (), { s with streams := match s.streams n with
        | none => s.streams
        | some st => s.streams.set n (st.delete i) }) := by
  rw [exec, ho]
  cases s.streams n <;> rfl

theorem xrange (n : String) (lo hi : StreamId) (count : Option ℕ) :
    exec env p (.xrange n lo hi count) o s = some (reply env ((s.streams.get n).range lo hi
      (count.getD (s.streams.get n).entries.length)), s) := by
  rw [exec, ho]
  rfl

theorem xrevrange_none {n : String} (hn : s.streams n = none) (count : ℕ) :
    exec env p (.xrevrange n count) o s = some (.ok (some []), s) := by
  rw [exec, hn, ho]
  rfl

theorem xrevrange_zero {n : String} {st : Stream RawFields} (hn : s.streams n = some st) :
    exec env p (.xrevrange n 0) o s = some (.ok none, s) := by
  simp only [exec, hn, ho, if_true, redis]

theorem xrevrange_some {n : String} {st : Stream RawFields} (hn : s.streams n = some st)
    {count : ℕ} (hcount : count ≠ 0) :
    exec env p (.xrevrange n count) o s =
      some ((reply env (st.revRange count)).map some, s) := by
  simp only [exec, hn, ho, if_neg hcount, redis]

end

end World

open World

/-- A session is closed: what it has committed is there. -/
theorem ends_withSession {α : Type} {body : Program α} {Q : Except Exn α → World P → Prop}
    (hb : (system env P).Ends (healthyAt τ) p body (fun x s₁ => s₁.Used (p, r) ∧ ∀ db,
      db.committed = s₁.db.committed → { s₁ with db := db : World P }.Quiet →
        Q x { s₁ with db := db }) s) :
    (system env P).Ends (healthyAt τ) p (withSession r body) Q s := by
  refine ends_ensuring.2 (hb.mono fun x s₁ ⟨hused, hQ⟩ => ends_request fun o ho => ?_)
  obtain ⟨db, hex, hcom, hquiet⟩ := hused.close ho env
  exact ⟨_, _, hex, hQ db hcom hquiet⟩

/-- An exception is logged: what the session has not committed is undone. -/
theorem ends_logged {body : Program Unit} {Q : Except Exn Unit → World P → Prop}
    (hb : (system env P).Ends (healthyAt τ) p body (outcome (fun _ => Q (.ok ())) fun _ s₁ =>
      s₁.Used (p, .main) ∧ ∀ db, db.committed = s₁.db.committed →
        { s₁ with db := db : World P }.Quiet → Q (.ok ()) { s₁ with db := db }) s) :
    (system env P).Ends (healthyAt τ) p (logged body) Q s := by
  refine ends_tryCatch.2 (hb.mono fun x s₁ hx => ?_)
  rcases x with e | u
  · obtain ⟨hused, hQ⟩ := hx
    refine ends_request fun o ho => ?_
    obtain ⟨db, hex, hcom, hquiet⟩ := hused.rollback ho env
    exact ⟨_, _, hex, hQ db hcom hquiet⟩
  · exact hx

/-- An event is audited, and the transaction committed. -/
theorem ends_insertAudit (h : s.Lone (p, r) w) {e : AuditEvent} {Q : Except Exn Unit → World P → Prop}
    (hQ : ∀ db, db.committed = Function.update w (.audit s.nextAuditId) (some e) →
      { s with nextAuditId := s.nextAuditId + 1, db := db : World P }.Used (p, r) →
      Q (.ok ()) { s with nextAuditId := s.nextAuditId + 1, db := db }) :
    (system env P).Ends (healthyAt τ) p (do
      request (.insertAudit r e)
      request (.commit r)) Q s := by
  refine ends_bind.2 (ends_request fun o ho => ?_)
  obtain ⟨db, hex, -, hlone⟩ := h.insertAudit ho env e
  refine ⟨_, _, hex, ends_request fun o ho => ?_⟩
  obtain ⟨db', hex', hcom, hlone'⟩ := hlone.commit ho env
  exact ⟨_, _, hex', hQ db' hcom hlone'.used⟩

end Deadletter

end AslanCore
