import AslanCore.Deadletter.Alone
import AslanCore.Deadletter.Frame

/-!
# The routing of a failure, alone

What `route_to_deadletter` comes to when nothing goes wrong in the stores, and no other process uses
them. It is known before, from the row that the log has of the failure, from its index and from its
intent.

* `Filed`: what the rows have of the failure;
* `Routable`: the failure can be routed;
* `ends_routeToDeadletter`: it is routed then, and the log refers to its dead letter. Otherwise, an
  exception is raised, or the routing is left to another worker.
-/

set_option linter.unusedSectionVars false

namespace AslanCore

namespace Deadletter

open AslanCore.System Outline Prog World

variable {P : Type} [DecidableEq P] {env : Env} {ctx : Context} {τ : Option ℕ} {p : P}
  {t : P × Role} {s : World P} {w : (k : Key) → Option (RowOf k)} {r : Routing} {fid : ℤ}

/-- What is recorded has an actor, or needs none. -/
def Context.Audits (ctx : Context) : Prop := ctx.auditStrict = true → ctx.currentActor.isSome

/-- What the rows have of a failure: its number, its row in the log, its entry in the index, and the
    intent to append one. -/
structure Filed (r : Routing) (fid : ℤ) (row : LogRow) (index : Option StreamId)
    (intent : Option IntentRow) (rows : (k : Key) → Option (RowOf k)) : Prop where
  routing : rows (.routing r.stream r.group r.messageId) = some fid
  log : rows (.log fid) = some row
  index : rows (.index fid) = index
  intent : rows (.intent fid) = intent

/-- The rows refer to rows of the log. -/
structure Refers (rows : (k : Key) → Option (RowOf k)) : Prop where
  routing : ∀ n g m fid, rows (.routing n g m) = some fid → (rows (.log fid)).isSome
  intent : ∀ fid, (rows (.intent fid)).isSome → (rows (.log fid)).isSome

namespace World

/-- The failure of an entry of a stream in a group is routed: the log refers to its dead letter. -/
def Routed (s : World P) (n g messageId : String) : Prop := ∃ fid row,
  s.db.committed (.routing n g messageId) = some fid ∧
    s.db.committed (.log fid) = some row ∧ row.redisMessageId.isSome

/-- The first entry of a stream, and the last one, can be read. -/
def Captures (env : Env) (n : String) (s : World P) : Prop :=
  ¬Unreadable env ((s.streams.get n).entries.head?.toList ++
    (s.streams.get n).entries.getLast?.toList)

end World

/-! ### Rows -/

section

variable {nextFailureId nextAuditId : ℕ} (h : Sound nextFailureId nextAuditId w)
include h

/-- What is known of the rows does not depend on the intents. -/
theorem Sound.intent (v : Option IntentRow) :
    Sound nextFailureId nextAuditId (Function.update w (.intent fid) v) := by
  refine ⟨fun fid' hf => h.log_lt fid' ?_, fun fid' hf => ?_, fun n hn => h.audit_lt n ?_⟩
  · rwa [Function.update_of_ne (by simp)] at hf
  · rw [Function.update_of_ne (by simp)] at hf ⊢
    exact h.index_log fid' hf
  · rwa [Function.update_of_ne (by simp)] at hn

theorem Sound.mono {n : ℕ} (hn : nextFailureId ≤ n) : Sound n nextAuditId w :=
  ⟨fun fid hf => ⟨(h.log_lt fid hf).1, (h.log_lt fid hf).2.trans_le (by exact_mod_cast hn)⟩,
    h.index_log, h.audit_lt⟩

/-- A failure is given its number. -/
theorem Sound.file {n g m : String} (row : LogRow) : Sound (nextFailureId + 1) nextAuditId
    (Function.update (Function.update w (.routing n g m) (some (nextFailureId : ℤ)))
      (.log (nextFailureId : ℤ)) (some row)) := by
  refine ⟨fun fid hf => ?_, fun fid hf => ?_, fun k hk => h.audit_lt k ?_⟩
  · by_cases hfid : fid = nextFailureId
    · omega
    · rw [Function.update_of_ne (by simpa using hfid), Function.update_of_ne (by simp)] at hf
      have := h.log_lt fid hf
      omega
  · rw [Function.update_of_ne (by simp), Function.update_of_ne (by simp)] at hf
    by_cases hfid : fid = nextFailureId
    · rw [hfid, Function.update_self]
      rfl
    · rw [Function.update_of_ne (by simpa using hfid), Function.update_of_ne (by simp)]
      exact h.index_log fid hf
  · rwa [Function.update_of_ne (by simp), Function.update_of_ne (by simp)] at hk

end

/-! ### Statements -/

namespace World

section

variable {o : Choice} (ho : o.fault = .none)
include ho

theorem Lone.selectLogRid (h : s.Lone (p, .main) w) (fid : ℤ) :
    exec env p (.selectLogRid fid) o s =
      some (.ok ((w (.log fid)).map (·.redisMessageId)), s) := by
  rw [exec, ho, ← h.solo.view_eq]
  exact h.query _

/-- A failure is refused by the log. -/
theorem Lone.insertLog_error (h : s.Lone (p, .main) w) (env : Env) {row : LogInsert}
    (hrow : ¬row.Storable ∨ ¬IsBigint s.nextFailureId) : ∃ s',
    exec env p (.insertLog row) o s = some (.error .sql, s') ∧ s'.Used (p, .main) := by
  obtain ⟨hused, -⟩ := h.fail
  have hn : s.nextFailureId ≤ Min.min (s.nextFailureId + 1) (2 ^ 63) :=
    le_min (Nat.le_succ _) h.bigint
  refine ⟨{ s with
    db := s.db.fail (p, .main), nextFailureId := Min.min (s.nextFailureId + 1) (2 ^ 63) }, ?_,
    hused.onlyUsedBy, min_le_right _ _, hused.committed.mono hn⟩
  simp only [exec, ho, World.insertLog, if_pos hrow, h.sql_error, Option.map_some]

/-- A failure is new to the log: it is given the next number. -/
theorem Lone.insertLog_new (h : s.Lone (p, .main) w) (env : Env) {row : LogInsert}
    (hrow : row.Storable) (hnext : IsBigint s.nextFailureId)
    (hnew : w (.routing row.streamName row.groupName row.originalMessageId) = none) : ∃ s',
    exec env p (.insertLog row) o s = some (.ok ((s.nextFailureId : ℤ), none), s') ∧
      s'.streams = s.streams ∧ s'.Lone (p, .main) (Function.update (Function.update w
        (.routing row.streamName row.groupName row.originalMessageId) (some (s.nextFailureId : ℤ)))
        (.log s.nextFailureId) (some ⟨row.streamName, none, none⟩)) := by
  have hlog : w (.log s.nextFailureId) = none := by
    by_contra hne
    exact absurd (h.seen.log_lt _ (Option.isSome_iff_ne_none.2 hne)).2 (lt_irrefl _)
  obtain ⟨db, hdb, hsolo, hcom⟩ := h.solo.insertNew
    (k := .routing row.streamName row.groupName row.originalMessageId)
    (v := (s.nextFailureId : ℤ)) hnew
  obtain ⟨db', hdb', hsolo', hcom'⟩ := hsolo.insertNew (k := .log s.nextFailureId)
    (v := (⟨row.streamName, none, none⟩ : LogRow)) ((Function.update_of_ne (by simp) _ _).trans hlog)
  have hlt : s.nextFailureId + 1 ≤ 2 ^ 63 := by
    have := hnext.2
    omega
  have hcommitted : db'.committed = s.db.committed := hcom'.trans hcom
  refine ⟨{ s with db := db', nextFailureId := s.nextFailureId + 1 }, ?_, rfl, hsolo', hlt, ?_,
    h.seen.file _⟩
  · have hok : ¬(¬row.Storable ∨ ¬IsBigint s.nextFailureId) := by
      rintro (hno | hno)
      · exact hno hrow
      · exact hno hnext
    simp only [exec, ho, World.insertLog, if_neg hok, hdb, hdb', Option.map_some, h.sql_some,
      min_eq_left hlt]
  · show Sound _ _ db'.committed
    rw [hcommitted]
    exact h.committed.mono (Nat.le_succ _)

/-- A failure is in the log already. -/
theorem Lone.insertLog_conflict (h : s.Lone (p, .main) w) (env : Env) {row : LogInsert}
    (hrow : row.Storable) (hnext : IsBigint s.nextFailureId) {old : LogRow}
    (hfid : w (.routing row.streamName row.groupName row.originalMessageId) = some fid)
    (hold : w (.log fid) = some old) : ∃ s',
    exec env p (.insertLog row) o s = some (.ok (fid, old.redisMessageId), s') ∧
      s'.streams = s.streams ∧ s'.Lone (p, .main) w := by
  obtain ⟨db, hdb, hsolo, hcom⟩ := h.solo.updateRow (k := .log fid) (c := fun _ => true)
    (f := id) hold rfl
  have hsame : Function.update w (.log fid) (some (id old)) = w := by
    rw [id, ← hold, Function.update_eq_self]
  have hlt : s.nextFailureId + 1 ≤ 2 ^ 63 := by
    have := hnext.2
    omega
  have hconflict := h.solo.insertNew_conflict
    (k := .routing row.streamName row.groupName row.originalMessageId)
    (v := (s.nextFailureId : ℤ)) (by rw [hfid]; rfl)
  refine ⟨{ s with db := db, nextFailureId := s.nextFailureId + 1 }, ?_, rfl, hsame ▸ hsolo, hlt, ?_,
    h.seen.mono (Nat.le_succ _)⟩
  · have hok : ¬(¬row.Storable ∨ ¬IsBigint s.nextFailureId) := by
      rintro (hno | hno)
      · exact hno hrow
      · exact hno hnext
    simp only [exec, ho, World.insertLog, if_neg hok, hconflict, h.solo.view_eq, hfid, hdb, hold,
      Option.map_some, Option.bind_some, h.sql_some, min_eq_left hlt]
  · show Sound _ _ db.committed
    rw [hcom]
    exact h.committed.mono (Nat.le_succ _)

/-- The entry of a failure is indexed. -/
theorem Lone.insertIndex (h : s.Lone (p, .main) w) (env : Env) (rid : StreamId)
    (hlog : (w (.log fid)).isSome) (hnew : w (.index fid) = none) : ∃ db,
    exec env p (.insertIndex fid rid) o s = some (.ok (), { s with db := db }) ∧
    { s with db := db : World P }.Lone (p, .main) (Function.update w (.index fid) (some rid)) := by
  obtain ⟨db, hdb, hcom, hsolo⟩ :=
    h.insertChild (k := .index fid) (rid : RowOf (.index fid)) hlog hnew
  refine ⟨db, ?_, h.update hsolo hcom ⟨h.seen.log_lt, fun fid' hf => ?_, h.seen.audit_lt⟩⟩
  · simp only [exec, ho, hdb, Option.map_some, Except.bind, if_true, h.sql_some]
  · by_cases hne : fid' = fid
    · subst hne
      exact hlog
    · rw [Function.update_of_ne (by simpa using hne)] at hf
      exact h.seen.index_log fid' hf

/-- An intent is inserted. -/
theorem Lone.insertIntent_new (h : s.Lone (p, .main) w) (env : Env) (n owner : String)
    (lb : StreamId) (hlog : (w (.log fid)).isSome) (hnew : w (.intent fid) = none) : ∃ db,
    exec env p (.insertIntent fid n lb owner) o s = some (.ok true, { s with db := db }) ∧
    { s with db := db : World P }.Lone (p, .main)
      (Function.update w (.intent fid) (some ⟨n, o.now, lb, owner, o.now⟩)) := by
  obtain ⟨db, hdb, hcom, hsolo⟩ := h.insertChild (k := .intent fid)
    (⟨n, o.now, lb, owner, o.now⟩ : IntentRow) hlog hnew
  refine ⟨db, ?_, h.update hsolo hcom (h.seen.intent _)⟩
  simp only [exec, ho, hdb, h.sql_some]

/-- There is an intent already. -/
theorem Lone.insertIntent_conflict (h : s.Lone (p, .main) w) (env : Env) (n owner : String)
    (lb : StreamId) (hold : (w (.intent fid)).isSome) :
    exec env p (.insertIntent fid n lb owner) o s = some (.ok false, s) := by
  have hconflict := h.solo.insertNew_conflict (k := .intent fid)
    (v := (⟨n, o.now, lb, owner, o.now⟩ : IntentRow)) hold
  simp only [exec, ho, World.insertChild, hconflict, h.sql_some]

/-- The intent is selected, with its age, and locked. -/
theorem Lone.selectIntentForUpdate (h : s.Lone (p, .main) w) (env : Env) {old : IntentRow}
    (hold : w (.intent fid) = some old) : ∃ db,
    exec env p (.selectIntentForUpdate fid) o s =
      some (.ok (some (old, (o.now : ℤ) - old.ownerHeartbeatAt)), { s with db := db }) ∧
    { s with db := db : World P }.Lone (p, .main) w := by
  obtain ⟨db, hdb, hsolo, hcom⟩ := h.solo.selectForUpdate (k := .intent fid) hold
  refine ⟨db, ?_, h.update hsolo hcom h.seen⟩
  simp only [exec, ho, hdb, Option.map_some, h.sql_some]

/-- The heartbeat of an intent. -/
theorem Lone.touchIntent (h : s.Lone (p, .main) w) (env : Env) {old : IntentRow}
    (hold : w (.intent fid) = some old) : ∃ db,
    exec env p (.touchIntent fid) o s = some (.ok (), { s with db := db }) ∧
    { s with db := db : World P }.Lone (p, .main)
      (Function.update w (.intent fid) (some { old with ownerHeartbeatAt := o.now })) := by
  obtain ⟨db, hdb, hsolo, hcom⟩ := h.solo.updateRow (k := .intent fid) (c := fun _ => true)
    (f := fun row : IntentRow => ({ row with ownerHeartbeatAt := o.now } : IntentRow)) hold rfl
  refine ⟨db, ?_, h.update hsolo hcom (h.seen.intent _)⟩
  simp only [exec, ho, hdb, Option.map_some, h.sql_some]

theorem Lone.deleteIntent (h : s.Lone (p, .main) w) (env : Env) {old : IntentRow}
    (hold : w (.intent fid) = some old) : ∃ db,
    exec env p (.deleteIntent fid) o s = some (.ok (), { s with db := db }) ∧
    { s with db := db : World P }.Lone (p, .main) (Function.update w (.intent fid) none) := by
  obtain ⟨db, hdb, hsolo, hcom⟩ := h.solo.deleteRow (k := .intent fid) (c := fun _ => true)
    hold rfl
  refine ⟨db, ?_, h.update hsolo hcom (h.seen.intent _)⟩
  simp only [exec, ho, hdb, Option.map_some, h.sql_some]

end

end World

/-! ### Steps -/

/-- An entry is appended, under an identifier that Redis draws. -/
theorem ends_xadd {n : String} {fields : Fields} {Q : Except Exn StreamId → World P → Prop}
    (h : ∀ rid streams, Q (.ok rid) { s with streams := streams }) :
    (system env P).Ends (healthyAt τ) p (request (.xadd n fields)) Q s := by
  refine ends_perform.2 ⟨?_, ?_⟩
  · have hlt : (s.streams.get n).lastId < (s.streams.get n).lastId.succ :=
      StreamId.lt_iff_succ_le.2 le_rfl
    refine ⟨{ id := (s.streams.get n).lastId.succ, now := τ.getD 0 }, _, _,
      ⟨rfl, rfl, fun t ht => ?_⟩, dif_pos hlt⟩
    rw [ht]
    rfl
  · rintro o x s₁ ⟨ho, -, -⟩ hx
    simp only [system, World.exec, ho] at hx
    split_ifs at hx with hlt
    cases hx
    exact h _ _

/-- The lower bound of the entries that are appended from now on is captured. -/
theorem ends_captureRedisLowerBound {n : String} {Q : Except Exn StreamId → World P → Prop}
    (hok : s.Captures env n → ∀ lb, Q (.ok lb) s) (herror : ¬s.Captures env n → Q (.error .value) s) :
    (system env P).Ends (healthyAt τ) p (captureRedisLowerBound n) Q s := by
  refine ends_bind.2 (ends_tryCatch.2 (ends_request fun o ho => ?_))
  cases hn : s.streams n with
  | none =>
    have hcap : s.Captures env n := by
      rintro ⟨-, e, he, -⟩
      simp [Streams.get, hn, Stream.empty] at he
    refine ⟨.error (.redis true), s, ?_, hok hcap .zero⟩
    simp only [World.exec, hn, ho]
    rfl
  | some st =>
    have hget : s.streams.get n = st := by rw [Streams.get, hn, Option.getD_some]
    have hcap : s.Captures env n ↔
        ¬Unreadable env (st.entries.head?.toList ++ st.entries.getLast?.toList) := by
      rw [Captures, hget]
    by_cases hread : Unreadable env (st.entries.head?.toList ++ st.entries.getLast?.toList)
    · refine ⟨.error .value, s, ?_, herror fun h => hcap.1 h hread⟩
      simp only [World.exec, hn, ho, reply, if_pos hread]
      rfl
    · refine ⟨.ok ((st.entries.head?.toList ++ st.entries.getLast?.toList).getLast?.map (·.1)), s,
        ?_, hok (hcap.2 hread) _⟩
      simp only [World.exec, hn, ho, reply, if_neg hread]
      rfl

/-- An event is recorded, unless an actor is missing. -/
theorem ends_auditRecord {role : Role} (h : s.Lone (p, role) w) {record : AuditRecord}
    {Q : Except Exn Unit → World P → Prop}
    (hok : ctx.Audits → ∀ s' w', s'.Lone (p, role) w' → (∀ k : Key, (∀ n, k ≠ .audit n) →
      w' k = w k) → Q (.ok ()) s')
    (herror : ¬ctx.Audits → Q (.error .auditMissingActor) s) :
    (system env P).Ends (healthyAt τ) p (auditRecord ctx role record) Q s := by
  rw [auditRecord]
  cases he : AuditEvent.record ctx.auditStrict ctx.currentActor record with
  | none =>
    refine herror fun haudits => ?_
    simp only [AuditEvent.record] at he
    split at he
    · cases he
    · rename_i hactor
      split_ifs at he with hstrict
      rw [Context.Audits, hactor] at haudits
      cases haudits hstrict
  | some e =>
    have haudits : ctx.Audits := by
      intro hstrict
      cases hactor : ctx.currentActor with
      | none =>
        simp only [AuditEvent.record, hactor, hstrict, if_true] at he
        cases he
      | some actor => rfl
    refine ends_request fun o ho => ?_
    obtain ⟨db, hex, -, hlone⟩ := h.insertAudit ho env e
    exact ⟨_, _, hex, hok haudits _ _ hlone fun k hk => Function.update_of_ne (hk _) _ _⟩

/-- How a routing ends: the failure is routed if it can be, and otherwise, an exception is raised,
    or the routing is left to another worker. -/
def Routing.Ends (r : Routing) (routable : Prop) (x : Except Exn RoutingResult) (s' : World P) :
    Prop :=
  routable ∧ (∃ rid, x = .ok (.complete rid)) ∧ s'.Routed r.stream r.group r.messageId ∨
    ¬routable ∧ ((∃ e, x = .error e) ∨ x = .ok .aborted)

theorem Routing.Ends.congr {a b : Prop} {x : Except Exn RoutingResult} {s' : World P}
    (h : r.Ends a x s') (hab : a ↔ b) : r.Ends b x s' := by
  rwa [Routing.Ends, ← hab]

theorem Routing.ends_error {a : Prop} (ha : ¬a) (e : Exn) (s' : World P) :
    r.Ends a (.error e) s' :=
  .inr ⟨ha, .inl ⟨e, rfl⟩⟩

/-- The log and the audit are updated, if the failure is not routed yet. -/
theorem ends_step4 (hs : s.Quiet) {row : LogRow} {index : Option StreamId}
    {intent : Option IntentRow} (hf : Filed r fid row index intent s.db.committed)
    (hrid : row.redisMessageId = none) (rid : StreamId) (ourXadd : Bool) :
    (system env P).Ends (healthyAt τ) p (step4UpdateLogAndAudit env ctx r fid rid ourXadd)
      (r.Ends (row.isStuck = true ∧ ctx.Audits)) s := by
  refine ends_withSession (ends_bind.2 (ends_request fun o ho => ?_))
  obtain ⟨db, hex, -, hlone⟩ := (hs.lone (p, .main)).updateLogRouted ho env rid hf.log
  refine ⟨_, _, hex, ?_⟩
  cases hstuck : row.isStuck with
  | true =>
    rw [hstuck, if_pos rfl] at hlone
    refine ends_bind.2 (ends_auditRecord hlone (fun haudits s₁ w' hlone hw' => ?_)
      fun haudits => ⟨hlone.used, fun _ _ _ => r.ends_error (fun h => haudits h.2) _ _⟩)
    refine ends_bind.2 (ends_request fun o' ho' => ?_)
    obtain ⟨db', hex', hcom, hlone'⟩ := hlone.commit ho' env
    refine ⟨_, _, hex', hlone'.used, fun db'' hcom' _ => .inl ⟨⟨rfl, haudits⟩, ⟨rid, rfl⟩, fid,
      row.route rid o.now, ?_, ?_, rfl⟩⟩
    · rw [hcom', hcom, hw' _ (by simp), Function.update_of_ne (by simp)]
      exact hf.routing
    · rw [hcom', hcom, hw' _ (by simp), Function.update_self]
  | false =>
    -- The failure is routed to no entry: that there is one is asserted.
    rw [hstuck, if_neg Bool.false_ne_true] at hlone
    refine ends_bind.2 (ends_request fun o' ho' => ⟨_, _, hlone.selectLogRid ho' fid, ?_⟩)
    rw [Function.update_self, Option.map_some, hrid]
    refine ends_bind.2 (ends_request fun o'' ho'' => ?_)
    obtain ⟨db', hex', -, hlone'⟩ := hlone.commit ho'' env
    exact ⟨_, _, hex', hlone'.used, fun _ _ _ => r.ends_error (fun h => nomatch h.1) _ _⟩

/-- The intent to append an entry is taken, if there is none, or it is one of the owner. A fresh one
    of another worker is left to it. -/
theorem ends_tryAcquireIntent {owner n : String} {lowerBound : StreamId}
    (h : s.Lone (p, .main) w) (hlog : (w (.log fid)).isSome)
    {Q : Except Exn (Option AdoptionResult) → World P → Prop}
    (hτ : (∀ i ∈ w (.intent fid), i.ownerId = owner) ∨
      ∀ i ∈ w (.intent fid), τ = some i.ownerHeartbeatAt)
    (hown : (∀ i ∈ w (.intent fid), i.ownerId = owner) → ∀ lb i s',
      s'.Lone (p, .main) (Function.update w (.intent fid) (some i)) → Q (.ok (some (.own lb))) s')
    (habort : ¬(∀ i ∈ w (.intent fid), i.ownerId = owner) → ∀ s', s'.Lone (p, .main) w →
      Q (.ok (some .abort)) s') :
    (system env P).Ends (healthyAt τ) p (tryAcquireIntent env ctx fid owner lowerBound n) Q s := by
  refine ends_bind.2 (ends_request fun o ho => ?_)
  cases hold : w (.intent fid) with
  | none =>
    obtain ⟨db, hex, hlone⟩ := h.insertIntent_new ho env n owner lowerBound hlog hold
    refine ⟨_, _, hex, hown ?_ _ _ _ hlone⟩
    rw [hold]
    exact nofun
  | some old =>
    refine ⟨_, _, h.insertIntent_conflict ho env n owner lowerBound (by rw [hold]; rfl), ?_⟩
    rw [hold] at hτ hown habort
    refine ends_bind.2 (ends_perform.2 ⟨?_, ?_⟩)
    · obtain ⟨db, hex, -⟩ := h.selectIntentForUpdate (o := { now := τ.getD 0 }) rfl env hold
      refine ⟨{ now := τ.getD 0 }, _, _, ⟨rfl, rfl, fun t ht => ?_⟩, hex⟩
      rw [ht]
      rfl
    rintro o' x s₁ ⟨ho', -, hnow⟩ hx
    obtain ⟨db, hex, hlone⟩ := h.selectIntentForUpdate ho' env hold
    cases hex.symm.trans hx
    show (system env P).Ends (healthyAt τ) p (if old.ownerId = owner then do
        request (.touchIntent fid)
        pure (some (AdoptionResult.own old.redisLowerBoundId))
      else if (o'.now : ℤ) - old.ownerHeartbeatAt < staleAge then pure (some .abort)
      else do
        let adoption ← adoptStaleIntent env ctx fid owner lowerBound n old
        pure (some adoption)) Q _
    split_ifs with howner hage
    · refine ends_bind.2 (ends_request fun o'' ho'' => ?_)
      obtain ⟨db', hex', hlone'⟩ := hlone.touchIntent ho'' env hold
      refine ⟨_, _, hex', hown ?_ _ _ _ hlone'⟩
      rintro i ⟨⟩
      exact howner
    · exact habort (fun hall => howner (hall old rfl)) _ hlone
    · -- The intent is not stale, at the time of its heartbeat.
      have hτ := (hτ.resolve_left fun hall => howner (hall old rfl)) old rfl
      rw [hnow _ hτ, sub_self, staleAge] at hage
      exact absurd (by decide) hage

/-- So it is in a session. -/
theorem ends_acquireOrAdoptIntent (hs : s.Quiet) {row : LogRow} {intent : Option IntentRow}
    (hf : Filed r fid row none intent s.db.committed) (lowerBound : StreamId) (attempts : ℕ)
    {Q : Except Exn AdoptionResult → World P → Prop}
    (hτ : (∀ i ∈ intent, i.ownerId = r.ownerId) ∨ ∀ i ∈ intent, τ = some i.ownerHeartbeatAt)
    (hown : (∀ i ∈ intent, i.ownerId = r.ownerId) → ∀ lb i s', s'.Quiet →
      Filed r fid row none (some i) s'.db.committed → Q (.ok (.own lb)) s')
    (habort : ¬(∀ i ∈ intent, i.ownerId = r.ownerId) → ∀ s', Q (.ok .abort) s') :
    (system env P).Ends (healthyAt τ) p (withSession .main do
      let adoption ← acquireOrAdoptIntent env ctx fid r.ownerId lowerBound r.stream attempts
      request (.commit .main)
      pure adoption) Q s := by
  have hlog : (s.db.committed (.log fid)).isSome := by
    rw [hf.log]
    rfl
  obtain rfl := hf.intent
  -- The session is committed, with an intent of the owner.
  have hown' : (∀ i ∈ s.db.committed (.intent fid), i.ownerId = r.ownerId) →
      ∀ lb i s₁, s₁.Lone (p, .main) (Function.update s.db.committed (.intent fid) (some i)) →
      (system env P).Ends (healthyAt τ) p (do
        request (.commit .main)
        pure (AdoptionResult.own lb)) (fun x s' => s'.Used (p, .main) ∧ ∀ db,
          db.committed = s'.db.committed → { s' with db := db : World P }.Quiet →
            Q x { s' with db := db }) s₁ := by
    intro howner lb i s₁ hlone
    refine ends_bind.2 (ends_request fun o ho => ?_)
    obtain ⟨db, hex, hcom, hlone'⟩ := hlone.commit ho env
    refine ⟨_, _, hex, hlone'.used, fun db' hcom' hquiet => hown howner lb i _ hquiet ?_⟩
    rw [show db'.committed = Function.update s.db.committed (.intent fid) (some i) from
      hcom'.trans hcom]
    refine ⟨?_, ?_, ?_, Function.update_self _ _ _⟩ <;> rw [Function.update_of_ne (by simp)]
    · exact hf.routing
    · exact hf.log
    · exact hf.index
  have habort' : ¬(∀ i ∈ s.db.committed (.intent fid), i.ownerId = r.ownerId) →
      ∀ s₁ : World P, s₁.Lone (p, .main) s.db.committed →
      (system env P).Ends (healthyAt τ) p (do
        request (.commit .main)
        pure AdoptionResult.abort) (fun x s' => s'.Used (p, .main) ∧ ∀ db,
          db.committed = s'.db.committed → { s' with db := db : World P }.Quiet →
            Q x { s' with db := db }) s₁ := by
    intro hforeign s₁ hlone
    refine ends_bind.2 (ends_request fun o ho => ?_)
    obtain ⟨db, hex, -, hlone'⟩ := hlone.commit ho env
    exact ⟨_, _, hex, hlone'.used, fun _ _ _ => habort hforeign _⟩
  refine ends_withSession (ends_bind.2 ?_)
  -- The first attempt succeeds.
  cases attempts <;>
    exact ends_bind.2 (ends_tryAcquireIntent (hs.lone (p, .main)) hlog hτ hown' habort')

/-- An entry is appended and indexed, and the log updated. -/
theorem ends_appendAndIndex (hs : s.Quiet) {row : LogRow} {i : IntentRow}
    (hf : Filed r fid row none (some i) s.db.committed) (hrid : row.redisMessageId = none) :
    (system env P).Ends (healthyAt τ) p (appendAndIndex env ctx r fid)
      (r.Ends (row.isStuck = true ∧ ctx.Audits)) s := by
  have hlog : (s.db.committed (.log fid)).isSome := by
    rw [hf.log]
    rfl
  refine ends_bind.2 (ends_xadd fun rid streams => ends_bind.2 (ends_withSession ?_))
  have hquiet : ({ s with streams := streams } : World P).Quiet := hs.congr rfl rfl rfl
  refine ends_bind.2 (ends_tryCatch.2 (ends_bind.2 (ends_request fun o ho => ?_)))
  obtain ⟨db, hex, hlone⟩ := (hquiet.lone (p, .main)).insertIndex ho env rid hlog hf.index
  refine ⟨_, _, hex, ends_bind.2 (ends_request fun o₁ ho₁ => ?_)⟩
  obtain ⟨db₁, hex₁, hlone₁⟩ := hlone.deleteIntent ho₁ env
    ((Function.update_of_ne (by simp) _ _).trans hf.intent)
  refine ⟨_, _, hex₁, ends_bind.2 (ends_request fun o₂ ho₂ => ?_)⟩
  obtain ⟨db₂, hex₂, hcom, hlone₂⟩ := hlone₁.commit ho₂ env
  refine ⟨_, _, hex₂, hlone₂.used, fun db₃ hcom' hquiet' => ?_⟩
  have hfiled : Filed r fid row (some rid) none db₃.committed → (system env P).Ends (healthyAt τ) p
      (step4UpdateLogAndAudit env ctx r fid rid true) (r.Ends (row.isStuck = true ∧ ctx.Audits))
      { s with streams := streams, db := db₃ } := fun hf => ends_step4 hquiet' hf hrid rid true
  refine hfiled ?_
  rw [show db₃.committed = Function.update (Function.update s.db.committed (.index fid) (some rid))
    (.intent fid) none from hcom'.trans hcom]
  refine ⟨?_, ?_, ?_, Function.update_self _ _ _⟩
  · rw [Function.update_of_ne (by simp), Function.update_of_ne (by simp)]
    exact hf.routing
  · rw [Function.update_of_ne (by simp), Function.update_of_ne (by simp)]
    exact hf.log
  · rw [Function.update_of_ne (by simp), Function.update_self]

/-- A failure that is not indexed is routed, unless another worker has the intent to. -/
theorem ends_routeUnindexed (hs : s.Quiet) {row : LogRow} {intent : Option IntentRow}
    (hf : Filed r fid row none intent s.db.committed) (hrid : row.redisMessageId = none)
    (hτ : (∀ i ∈ intent, i.ownerId = r.ownerId) ∨ ∀ i ∈ intent, τ = some i.ownerHeartbeatAt) :
    (system env P).Ends (healthyAt τ) p (routeUnindexed env ctx r fid)
      (r.Ends ((row.isStuck = true ∧ ctx.Audits) ∧ s.Captures env (deadletterStream r.stream) ∧
        ∀ i ∈ intent, i.ownerId = r.ownerId)) s := by
  refine ends_bind.2 (ends_captureRedisLowerBound (fun hcap lb => ?_)
    fun hcap => r.ends_error (fun h => hcap h.2.1) _ _)
  refine ends_bind.2 (ends_acquireOrAdoptIntent hs hf lb 3 hτ (fun howner lb' i s₁ hs₁ hf₁ => ?_)
    fun hforeign s₁ => .inr ⟨fun h => hforeign h.2.2, .inr rfl⟩)
  exact (ends_appendAndIndex hs₁ hf₁ hrid).mono fun x s' h =>
    h.congr ⟨fun ha => ⟨ha, hcap, howner⟩, And.left⟩

/-! ### Routings -/

/-- The row of the log allows the routing to be completed: it has an entry already, or it has none,
    what is recorded has an actor, and the failure is indexed, or else no other worker has the intent
    to append an entry. -/
def Completes (env : Env) (ctx : Context) (r : Routing) (s : World P) (fid : ℤ) (row : LogRow) :
    Prop :=
  row.redisMessageId.isSome ∨ (row.isStuck = true ∧ ctx.Audits) ∧
    ((s.db.committed (.index fid)).isSome ∨ s.Captures env (deadletterStream r.stream) ∧
      ∀ i ∈ s.db.committed (.intent fid), i.ownerId = r.ownerId)

/-- The failure can be routed: the database accepts it, and it is new to the log, or its row allows
    the routing to be completed. -/
def Routable (env : Env) (ctx : Context) (r : Routing) (s : World P) : Prop :=
  (∃ payload, coerceJsonbStr env r.payloadExcerpt = .ok payload ∧ (logInsert r payload).Storable ∧
    IsBigint s.nextFailureId) ∧
  (s.db.committed (.routing r.stream r.group r.messageId) = none →
    ctx.Audits ∧ s.Captures env (deadletterStream r.stream)) ∧
  ∀ fid row, s.db.committed (.routing r.stream r.group r.messageId) = some fid →
    s.db.committed (.log fid) = some row → Completes env ctx r s fid row

/-- What follows once the failure is in the log, without an entry. -/
theorem ends_routeFiled (hs : s.Quiet) {row : LogRow} {index : Option StreamId}
    {intent : Option IntentRow} (hf : Filed r fid row index intent s.db.committed)
    (hrid : row.redisMessageId = none)
    (hτ : index = none → (∀ i ∈ intent, i.ownerId = r.ownerId) ∨
      ∀ i ∈ intent, τ = some i.ownerHeartbeatAt) :
    (system env P).Ends (healthyAt τ) p (do
      let indexed ← withSession .main (request (.selectIndex .main fid))
      match indexed with
      | some rid => step4UpdateLogAndAudit env ctx r fid rid false
      | none => routeUnindexed env ctx r fid) (r.Ends (Completes env ctx r s fid row)) s := by
  have hlone := hs.lone (p, .main)
  have hbig : IsBigint fid := by
    obtain ⟨h0, hlt⟩ := hs.sound.log_lt fid (by rw [hf.log]; rfl)
    have := hs.bigint
    exact ⟨by omega, by omega⟩
  refine ends_bind.2 (ends_withSession (ends_request fun o ho =>
    ⟨_, _, hlone.selectIndex ho hbig, hlone.used, fun db hcom hquiet => ?_⟩))
  have hf' : Filed r fid row index intent db.committed := (congrArg (Filed _ _ _ _ _) hcom).mpr hf
  rw [hf.index]
  cases index with
  | some rid =>
    refine (ends_step4 hquiet hf' hrid rid false).mono fun x s' h => h.congr ?_
    rw [Completes, hrid, hf.index]
    exact ⟨fun h => .inr ⟨h, .inl rfl⟩, fun h => (h.resolve_left Bool.false_ne_true).1⟩
  | none =>
    refine (ends_routeUnindexed hquiet hf' hrid (hτ rfl)).mono fun x s' h => h.congr ?_
    rw [Completes, hrid, hf.index, hf.intent]
    exact ⟨fun h => .inr ⟨h.1, .inr h.2⟩, fun h => (h.resolve_left Bool.false_ne_true).imp id
      fun h => h.resolve_left Bool.false_ne_true⟩

/-- A failure is routed if it can be. If it cannot, an exception is raised, or the routing is left to
    another worker, at the time of the heartbeat of its intent. -/
theorem ends_routeToDeadletter (hs : s.Quiet) (hrefers : Refers s.db.committed)
    (hτ : Routable env ctx r s ∨ ∀ fid,
      s.db.committed (.routing r.stream r.group r.messageId) = some fid →
        ∀ i ∈ s.db.committed (.intent fid), τ = some i.ownerHeartbeatAt) :
    (system env P).Ends (healthyAt τ) p (routeToDeadletter env ctx r)
      (r.Ends (Routable env ctx r s)) s := by
  have hlone := hs.lone (p, .main)
  refine ends_bind.2 (ends_withSession ?_)
  cases hcoerce : coerceJsonbStr env r.payloadExcerpt with
  | error e =>
    refine ⟨hlone.used, fun _ _ _ => r.ends_error ?_ _ _⟩
    rintro ⟨⟨payload, hpayload, -⟩, -⟩
    cases hcoerce.symm.trans hpayload
  | ok payload =>
    by_cases hrow : ¬(logInsert r payload).Storable ∨ ¬IsBigint s.nextFailureId
    · refine ends_bind.2 (ends_request fun o ho => ?_)
      obtain ⟨s', hex, hused⟩ := hlone.insertLog_error ho env hrow
      refine ⟨_, _, hex, hused, fun _ _ _ => r.ends_error ?_ _ _⟩
      rintro ⟨⟨payload', hpayload, hstorable, hnext⟩, -⟩
      cases hcoerce.symm.trans hpayload
      exact hrow.elim (fun h => h hstorable) fun h => h hnext
    obtain ⟨hstorable, hnext⟩ := not_or.1 hrow
    rw [not_not] at hstorable hnext
    have hinsert : ∃ payload, coerceJsonbStr env r.payloadExcerpt = .ok payload ∧
        (logInsert r payload).Storable ∧ IsBigint s.nextFailureId :=
      ⟨payload, hcoerce, hstorable, hnext⟩
    cases hfid : s.db.committed (.routing r.stream r.group r.messageId) with
    | none =>
      refine ends_bind.2 (ends_request fun o ho => ?_)
      obtain ⟨s₁, hex, hstreams, hlone₁⟩ := hlone.insertLog_new ho env hstorable hnext hfid
      refine ⟨_, _, hex, ends_bind.2 (ends_request fun o' ho' => ?_)⟩
      obtain ⟨db, hex', hcom, hlone₂⟩ := hlone₁.commit ho' env
      refine ⟨_, _, hex', hlone₂.used, fun db' hcom' hquiet => ?_⟩
      have hintent : s.db.committed (.intent s.nextFailureId) = none := by
        by_contra hne
        have hlog := hrefers.intent _ (Option.isSome_iff_ne_none.2 hne)
        exact absurd (hs.sound.log_lt _ hlog).2 (lt_irrefl _)
      have hindex : s.db.committed (.index s.nextFailureId) = none := by
        by_contra hne
        have hlog := hs.sound.index_log _ (Option.isSome_iff_ne_none.2 hne)
        exact absurd (hs.sound.log_lt _ hlog).2 (lt_irrefl _)
      have hf : Filed r s.nextFailureId ⟨r.stream, none, none⟩ none none db'.committed := by
        rw [show db'.committed = _ from hcom'.trans hcom]
        refine ⟨?_, Function.update_self _ _ _, ?_, ?_⟩
        · rw [Function.update_of_ne (by simp)]
          exact Function.update_self _ _ _
        · rw [Function.update_of_ne (by simp), Function.update_of_ne (by simp)]
          exact hindex
        · rw [Function.update_of_ne (by simp), Function.update_of_ne (by simp)]
          exact hintent
      refine (ends_routeFiled hquiet hf rfl fun _ => .inl nofun).mono fun x s' h => h.congr ?_
      have hcap : Captures env (deadletterStream r.stream) { s₁ with db := db' } ↔
          s.Captures env (deadletterStream r.stream) := by
        rw [Captures, Captures, ← hstreams]
      rw [Completes, hcap, hf.index, hf.intent]
      refine ⟨fun h => ⟨hinsert, fun _ => ?_, fun fid row hsome => ?_⟩, fun h => ?_⟩
      · obtain ⟨⟨-, haudits⟩, h⟩ := h.resolve_left Bool.false_ne_true
        exact ⟨haudits, (h.resolve_left Bool.false_ne_true).1⟩
      · cases hfid.symm.trans hsome
      · obtain ⟨haudits, hcap⟩ := h.2.1 hfid
        exact .inr ⟨⟨rfl, haudits⟩, .inr ⟨hcap, nofun⟩⟩
    | some fid =>
      obtain ⟨row, hrow⟩ := Option.isSome_iff_exists.1 (hrefers.routing _ _ _ _ hfid)
      have hroutable : Completes env ctx r s fid row → Routable env ctx r s := by
        refine fun h => ⟨hinsert, fun hnone => ?_, fun fid' row' hfid' hrow' => ?_⟩
        · cases hnone.symm.trans hfid
        cases hfid.symm.trans hfid'
        cases hrow.symm.trans hrow'
        exact h
      refine ends_bind.2 (ends_request fun o ho => ?_)
      obtain ⟨s₁, hex, hstreams, hlone₁⟩ := hlone.insertLog_conflict ho env hstorable hnext hfid hrow
      refine ⟨_, _, hex, ends_bind.2 (ends_request fun o' ho' => ?_)⟩
      obtain ⟨db, hex', hcom, hlone₂⟩ := hlone₁.commit ho' env
      refine ⟨_, _, hex', hlone₂.used, fun db' hcom' hquiet => ?_⟩
      have hf : Filed r fid row (s.db.committed (.index fid)) (s.db.committed (.intent fid))
          db'.committed := by
        rw [show db'.committed = s.db.committed from hcom'.trans hcom]
        exact ⟨hfid, hrow, rfl, rfl⟩
      cases hrid : row.redisMessageId with
      | some rid =>
        refine .inl ⟨hroutable (.inl (by rw [hrid]; rfl)), ⟨rid, rfl⟩, fid, row, hf.routing, hf.log, ?_⟩
        rw [hrid]
        rfl
      | none =>
        refine (ends_routeFiled hquiet hf hrid ?_).mono fun x s' h => h.congr ?_
        · intro hindex
          refine hτ.imp (fun h => ?_) fun h => h fid hfid
          obtain h := h.2.2 fid row hfid hrow
          rw [Completes, hrid, hindex] at h
          exact ((h.resolve_left Bool.false_ne_true).2.resolve_left Bool.false_ne_true).2
        · have hcap : Captures env (deadletterStream r.stream) { s₁ with db := db' } ↔
              s.Captures env (deadletterStream r.stream) := by
            rw [Captures, Captures, ← hstreams]
          have hcompletes : Completes env ctx r { s₁ with db := db' } fid row ↔
              Completes env ctx r s fid row := by
            rw [Completes, Completes, hcap, hf.index, hf.intent]
          rw [hcompletes]
          exact ⟨hroutable, fun h => h.2.2 fid row hfid hrow⟩

end Deadletter

end AslanCore
