import AslanCore.Deadletter.Ledger

/-!
# The outline of the consumers and the daemons

What a consumer, or a daemon, knows when it issues a command, whatever the others do between its
steps (`ledgerOutline`).

* An entry is acknowledged once it is *settled* (`World.Settled`): its failure is routed, or it is
  recorded that its event was consumed;
* an event is added to a set of processed events once it is recorded that it was consumed;
* a failure is recorded as routed by the transaction that routes it (`Routes`).

`ledger_exec` says that the commands keep the ledger, when they are issued so.
-/

set_option linter.unusedSectionVars false

namespace AslanCore

namespace Deadletter

open Outline Prog World Database
open Streams (Uuid KnownStreamEvent)

/-! ### What is settled -/

/-- The key of the events that a group has processed. -/
def processedSet (n g : String) : String := "stream:" ++ n ++ ":" ++ g ++ ":processed"

theorem processedKey_eq (c : Consumer) : processedKey c = processedSet c.stream c.group := rfl

/-- An entry of a stream is parsed as an event with this identifier. -/
def EventOf (env : Env) (n : String) (e : StreamId × RawFields) (member : String) : Prop :=
  ∃ fields event, decodeFields e.2 = some fields ∧
    Streams.parseOrRaise env.parse n (ridStr e.1) fields = .ok event ∧
    env.parse.codec.uuidStr event.toStreamEvent.eventId = member

/-- It is recorded that an event was consumed by a group. -/
structure RecordsConsumption (n g member : String) (e : AuditEvent) : Prop where
  operation : e.operation = "stream.consume_ack" ∨ e.operation = "stream.consumed_redacted"
  targetPk : e.targetPk = [("event_id", .str member)]
  stream : ("stream_name", .str n) ∈ e.metadata
  group : ("group_name", .str g) ∈ e.metadata

/-- It is recorded that a failure was routed to an entry. -/
structure RecordsRouting (failureId : ℤ) (rid : StreamId) (e : AuditEvent) : Prop where
  isAudit : IsAudit "stream.deadletter" failureId e
  entry : ("redis_message_id", .str (ridStr rid)) ∈ e.metadata

namespace World

variable {P : Type} [DecidableEq P]

/-- It is recorded that an event was consumed by a group with this set of processed events. -/
def Consumed (key member : String) (s : World P) : Prop := ∃ m e n g,
  s.db.committed (.audit m) = some e ∧ RecordsConsumption n g member e ∧ processedSet n g = key

/-- The failure of an entry is routed, or it is recorded that its event was consumed. -/
def Settled (env : Env) (n g : String) (e : StreamId × RawFields) (s : World P) : Prop :=
  s.Routed n g (ridStr e.1) ∨
    ∃ member, EventOf env n e member ∧ s.Consumed (processedSet n g) member

/-- An entry was appended to a stream. -/
def Appended (n : String) (e : StreamId × RawFields) (s : World P) : Prop :=
  e ∈ (s.streams.get n).appended

/-- What the commands do to the stores. -/
structure Grown (s s' : World P) : Prop where
  rows : Rises rowOrder s.db s'.db
  streams : ∀ n, (s.streams.get n).appended ⊆ (s'.streams.get n).appended

/-- What always holds of the stores. -/
structure Ledger (s : World P) : Prop where
  unsaved : s.db.Unsaved
  tidy : s.db.All Tidy
  ascending : Ascending rowOrder s.db
  numbered : s.db.All (Numbered s.nextAuditId)
  logged : ∀ t, Logged (s.db.view t)
  filed : Logged s.db.committed
  processed : ∀ key member, s.sets key member = true → s.Consumed key member

/-- Each failure is recorded as routed once, by the transaction that routes it. -/
structure Audited (s : World P) : Prop where
  committed : ∀ n e fid, s.db.committed (.audit n) = some e → IsAudit "stream.deadletter" fid e →
    ∃ row rid, s.db.committed (.log fid) = some row ∧ row.redisMessageId = some rid ∧
      RecordsRouting fid rid e
  pending : ∀ t n e fid, s.db.pending t (.audit n) = some (some e) →
    IsAudit "stream.deadletter" fid e → ∃ row rid, s.db.view t (.log fid) = some row ∧
      row.redisMessageId = some rid ∧ RecordsRouting fid rid e
  stuck : ∀ t n e fid, s.db.pending t (.audit n) = some (some e) →
    IsAudit "stream.deadletter" fid e → ∀ row, s.db.committed (.log fid) = some row →
      row.redisMessageId = none
  once : ∀ n n' e e' fid, s.db.committed (.audit n) = some e → IsAudit "stream.deadletter" fid e →
    s.db.committed (.audit n') = some e' → IsAudit "stream.deadletter" fid e' → n = n'
  pendingOnce : ∀ t n n' e e' fid, s.db.pending t (.audit n) = some (some e) →
    IsAudit "stream.deadletter" fid e → s.db.pending t (.audit n') = some (some e') →
      IsAudit "stream.deadletter" fid e' → n = n'

end World

/-- What the steps of any process keep. -/
def Lasting {P : Type} [DecidableEq P] (a : World P → Prop) : Prop :=
  ∀ s s', Grown s s' → a s → a s'

section

variable {P : Type} [DecidableEq P] {env : Env} {s s' s'' : World P} {n g m : String}

theorem World.Grown.refl (s : World P) : Grown s s := ⟨.refl _, fun _ => List.Subset.refl _⟩

theorem World.Grown.trans (h : Grown s s') (h' : Grown s' s'') : Grown s s'' :=
  ⟨h.rows.trans h'.rows, fun n => List.Subset.trans (h.streams n) (h'.streams n)⟩

theorem lasting_true : Lasting (P := P) fun _ => True := fun _ _ _ _ => trivial

theorem Lasting.and {a b : World P → Prop} (ha : Lasting a) (hb : Lasting b) :
    Lasting fun s => a s ∧ b s :=
  fun s s' h hs => ⟨ha s s' h hs.1, hb s s' h hs.2⟩

theorem lasting_const (q : Prop) : Lasting (P := P) fun _ => q := fun _ _ _ h => h

theorem lasting_appended {e : StreamId × RawFields} : Lasting (P := P) (Appended n e) :=
  fun _ _ h he => h.streams n he

/-- A failure that is filed stays so. -/
theorem lasting_filed {fid : ℤ} :
    Lasting (P := P) fun s => s.db.committed (.routing n g m) = some fid :=
  fun _ _ h hf => h.rows (.routing n g m) fid hf

theorem lasting_consumed {key member : String} : Lasting (P := P) (Consumed key member) := by
  rintro s s' h ⟨k, e, n, g, he, hrest⟩
  exact ⟨k, e, n, g, h.rows (.audit k) e he, hrest⟩

/-- A failure that is routed stays so. -/
theorem lasting_routed : Lasting (P := P) (Routed · n g m) := by
  rintro s s' h ⟨fid, row, hfid, hrow, hrid⟩
  obtain ⟨rid, hrid⟩ := Option.isSome_iff_exists.1 hrid
  obtain ⟨row', hrow', hkeeps⟩ := h.rows (.log fid) row hrow
  exact ⟨fid, row', h.rows (.routing n g m) fid hfid, hrow',
    Option.isSome_iff_exists.2 ⟨rid, hkeeps rid hrid⟩⟩

/-- An entry that is settled stays so. -/
theorem lasting_settled {e : StreamId × RawFields} : Lasting (P := P) (Settled env n g e) := by
  rintro s s' h (hrouted | ⟨member, hevent, hconsumed⟩)
  · exact .inl (lasting_routed s s' h hrouted)
  · exact .inr ⟨member, hevent, lasting_consumed s s' h hconsumed⟩

end

/-! ### The commands of Redis -/

/-- The command leaves alone the streams, the groups and the sets of processed events. -/
def Cmd.sparesStreams : Cmd → Bool
  | .xadd _ _ | .xdel _ _ | .xack _ _ _ | .xreadgroup _ _ _ | .expire _ |
    .ackScript _ _ _ _ _ _ => false
  | _ => true

section

variable {P : Type} [DecidableEq P] {env : Env} {p : P} {c : Cmd} {o : Choice} {s s' : World P}

/-- The streams, the groups and the sets are as they were. -/
structure World.SameStreams (s s' : World P) : Prop where
  streams : s'.streams = s.streams
  groups : s'.groups = s.groups
  sets : s'.sets = s.sets

theorem sameStreams_exec {x : Except Exn (Reply c)} (hc : c.sparesStreams = true)
    (h : World.exec env p c o s = some (x, s')) : SameStreams s s' := by
  have hredis : ∀ {α : Type} {a y : Except Exn α} {s'' : World P},
      s.redis o.fault a s'' = some (y, s') → SameStreams s s'' → SameStreams s s' := by
    rintro α a y s'' hr hsame
    rcases eq_or_eq_of_redis hr with rfl | rfl
    · exact ⟨rfl, rfl, rfl⟩
    · exact hsame
  have hsql : ∀ {α : Type} {t : P × Role} {y : Except Exn α} {s₁ : World P}
      {stmt : Option (Except Exn (α × Database (P × Role) Key RowOf))},
      s.sql t o.fault stmt = some (y, s₁) → SameStreams s s₁ := by
    rintro α t y s₁ stmt h
    obtain ⟨db, rfl⟩ := exists_db_of_sql h
    exact ⟨rfl, rfl, rfl⟩
  cases c <;> try cases hc
  case xinfoStream n =>
    simp only [World.exec] at h
    split at h <;> exact hredis h ⟨rfl, rfl, rfl⟩
  case xrange n lo hi count => exact hredis h ⟨rfl, rfl, rfl⟩
  case xrevrange n count =>
    simp only [World.exec] at h
    split at h
    · exact hredis h ⟨rfl, rfl, rfl⟩
    · split_ifs at h <;> exact hredis h ⟨rfl, rfl, rfl⟩
  case xautoclaim n g count =>
    simp only [World.exec] at h
    split at h <;> exact hredis h ⟨rfl, rfl, rfl⟩
  case sismember key member => exact hredis h ⟨rfl, rfl, rfl⟩
  case setNx key value =>
    simp only [World.exec] at h
    split_ifs at h <;> exact hredis h ⟨rfl, rfl, rfl⟩
  case set key value => exact hredis h ⟨rfl, rfl, rfl⟩
  case get key =>
    simp only [World.exec] at h
    split_ifs at h <;> exact hredis h ⟨rfl, rfl, rfl⟩
  case time =>
    cases h
    exact ⟨rfl, rfl, rfl⟩
  case del key => exact hredis h ⟨rfl, rfl, rfl⟩
  case hincrby key field => exact hredis h ⟨rfl, rfl, rfl⟩
  case insertLog row =>
    simp only [World.exec] at h
    obtain ⟨⟨x', s₁⟩, hs, hx⟩ := Option.map_eq_some_iff.1 h
    cases hx
    obtain ⟨h₁, h₂, h₃⟩ := hsql hs
    exact ⟨h₁, h₂, h₃⟩
  case insertAudit r e =>
    simp only [World.exec] at h
    obtain ⟨⟨x', s₁⟩, hs, hx⟩ := Option.map_eq_some_iff.1 h
    cases hx
    obtain ⟨h₁, h₂, h₃⟩ := hsql hs
    exact ⟨h₁, h₂, h₃⟩
  case redact u row =>
    simp only [World.exec] at h
    split_ifs at h <;> cases h <;> exact ⟨rfl, rfl, rfl⟩
  case commit r =>
    cases h
    exact ⟨rfl, rfl, rfl⟩
  case rollback r =>
    cases h
    exact ⟨rfl, rfl, rfl⟩
  case close r =>
    cases h
    exact ⟨rfl, rfl, rfl⟩
  case yield e =>
    cases h
    exact ⟨rfl, rfl, rfl⟩
  all_goals exact hsql h

/-- Entries are only appended. -/
theorem appended_exec {x : Except Exn (Reply c)} (h : World.exec env p c o s = some (x, s'))
    (n : String) : (s.streams.get n).appended ⊆ (s'.streams.get n).appended := by
  by_cases hc : c.sparesStreams = true
  · rw [(sameStreams_exec hc h).streams]
    exact List.Subset.refl _
  have hredis : ∀ {α : Type} {a y : Except Exn α} {s'' : World P},
      s.redis o.fault a s'' = some (y, s') →
      (s.streams.get n).appended ⊆ (s''.streams.get n).appended →
      (s.streams.get n).appended ⊆ (s'.streams.get n).appended := by
    rintro α a y s'' hr hsub
    rcases eq_or_eq_of_redis hr with rfl | rfl
    · exact List.Subset.refl _
    · exact hsub
  cases c <;> try exact absurd rfl hc
  case xadd n' f =>
    simp only [World.exec] at h
    split_ifs at h
    refine hredis h ?_
    by_cases hn : n = n'
    · subst hn
      simp [Streams.get, Streams.set, Stream.append]
    · rw [Streams.get_set_of_ne hn]
      exact List.Subset.refl _
  case xdel n' i =>
    simp only [World.exec] at h
    split at h
    · exact hredis h (List.Subset.refl _)
    · rename_i st hst
      refine hredis h ?_
      by_cases hn : n = n'
      · subst hn
        simp [Streams.get, Streams.set, Stream.delete, hst]
      · rw [Streams.get_set_of_ne hn]
        exact List.Subset.refl _
  case xack n' g i => exact hredis h (List.Subset.refl _)
  case xreadgroup n' g count =>
    simp only [World.exec] at h
    split at h <;> exact hredis h (List.Subset.refl _)
  case expire key =>
    cases h
    exact List.Subset.refl _
  case ackScript pk ck n' member g i => exact hredis h (List.Subset.refl _)

/-- What lasts is kept by the commands. -/
theorem grown_exec (hs : s.Ledger) {x : Except Exn (Reply c)}
    (h : World.exec env p c o s = some (x, s')) : Grown s s' :=
  ⟨(exec_effect hs.unsaved hs.tidy h).rises hs.ascending, appended_exec h⟩

/-- Others find the transactions of their sessions as they were. -/
theorem frame_exec (hs : s.Ledger) {x : Except Exn (Reply c)}
    (h : World.exec env p c o s = some (x, s')) {q : P} (hq : q ≠ p) (r : Role) :
    Frame (q, r) s.db s'.db :=
  (exec_effect hs.unsaved hs.tidy h).frame fun he => hq (congrArg Prod.fst he)

/-! ### The ledger -/

/-- The ledger is kept by writes, and by the end of a transaction. -/
theorem World.Ledger.of_effect {t : P × Role} {may : Key → Prop} (hs : s.Ledger)
    (h : Effect t (Writes may t) s.db s'.db) (hnext : s.nextAuditId ≤ s'.nextAuditId)
    (haudit : ∀ n, may (.audit n) → n < s'.nextAuditId)
    (hlogged : Makes t (Writes may t) s.db s'.db → Logged (s'.db.view t))
    (hsets : ∀ key member, s'.sets key member = true →
      s.Consumed key member ∨ s'.Consumed key member)
    (hstreams : ∀ n, (s.streams.get n).appended ⊆ (s'.streams.get n).appended) : s'.Ledger := by
  have hgrown : Grown s s' := ⟨h.rises hs.ascending, hstreams⟩
  have hboth := logged_effect h hs.tidy hs.logged hs.filed hlogged
  refine ⟨h.unsaved hs.unsaved, h.all hs.unsaved hs.tidy fun _ _ _ hw => hw.tidy,
    h.ascending (fun _ _ _ hw => hw.later) hs.ascending, ?_, hboth.1, hboth.2, fun key member hm => ?_⟩
  · refine h.all hs.unsaved (hs.numbered.mono fun k w hk => ?_) fun db k v hw => ?_
    · rcases k with _ | _ | _ | _ | n | _
      · trivial
      · trivial
      · trivial
      · trivial
      · exact lt_of_lt_of_le hk hnext
      · trivial
    · rcases k with _ | _ | _ | _ | n | _
      · trivial
      · trivial
      · trivial
      · trivial
      · exact haudit n hw.may
      · trivial
  · exact (hsets key member hm).elim (lasting_consumed s s' hgrown) id

end

/-! ### What is known -/

/-- The process routes a failure to an entry, in a transaction that has not recorded it yet. -/
structure Routes {P : Type} [DecidableEq P] (p : P) (fid : ℤ) (rid : StreamId) (s : World P) :
    Prop where
  pending : ∃ row, s.db.pending (p, .main) (.log fid) = some (some row) ∧
    row.redisMessageId = some rid
  stuck : ∀ row, s.db.committed (.log fid) = some row → row.redisMessageId = none
  fresh : ∀ n e, s.db.pending (p, .main) (.audit n) = some (some e) →
    ¬IsAudit "stream.deadletter" fid e

/-- What is known when a command is issued. That a failure is recorded as routed by the one that
    routes it is only said if `once`. -/
def Knows {P : Type} [DecidableEq P] (env : Env) (once : Prop) (p : P) (s : World P) : Cmd → Prop
  | .xack n g i => ∀ f, s.Appended n (i, f) → s.Settled env n g (i, f)
  | .ackScript key _ n member g i =>
    s.Consumed key member ∧ ∀ f, s.Appended n (i, f) → s.Settled env n g (i, f)
  | .insertAudit r e => once → ∀ fid, IsAudit "stream.deadletter" fid e →
    r = .main ∧ ∃ rid, Routes p fid rid s ∧ RecordsRouting fid rid e
  | _ => True

/-- What the consumers and the daemons know. -/
def ledgerOutline (P : Type) [DecidableEq P] (env : Env) (once : Prop) :
    Outline (Cmd ⊕ PassCmd) Exn Unit P DaemonJob (World P) where
  inv s := s.Ledger ∧ (once → s.Audited)
  know p c s := c.elim (Knows env once p s) fun _ => True
  rely p s s' := Grown s s' ∧ ∀ r, Frame (p, r) s.db s'.db
  idle _ _ := True
  post _ _ _ _ := True

/-- A failure that the second pass locks is still not routed, if `once`. -/
def stillStuck (P : Type) [DecidableEq P] (once : Prop) :
    Guard (Cmd ⊕ PassCmd) P DaemonJob PassChoice (World P) where
  step p c _ s := match c with
    | .inr (.selectLogForUpdate fid) =>
      once → ∀ row, s.db.view (p, .main) (.log fid) = some row → row.isStuck = true
    | _ => True

section

variable {P : Type} [DecidableEq P] {env : Env} {once : Prop} {p : P} {c : Cmd} {o : Choice}
  {s s' : World P}

/-- The commands keep the ledger. -/
theorem ledger_exec (hs : s.Ledger) (hk : Knows env once p s c) {x : Except Exn (Reply c)}
    (h : World.exec env p c o s = some (x, s')) : s'.Ledger := by
  have heff := exec_effect hs.unsaved hs.tidy h
  obtain ⟨hnext, haudit⟩ := nextAuditId_exec h
  refine hs.of_effect heff hnext haudit (fun hmakes => ?_) (fun key member hm => ?_)
    (appended_exec h)
  · -- Only a failure that is filed is not in the log already.
    by_cases hfiles : ∃ n g m, c.May s.nextAuditId (.routing n g m)
    · obtain ⟨n, g, m, hfiles⟩ := hfiles
      cases c <;> try cases hfiles
      rename_i row
      simp only [World.exec] at h
      obtain ⟨⟨y, s₁⟩, hsql, hx⟩ := Option.map_eq_some_iff.1 h
      cases hx
      obtain ⟨⟨z, db⟩, hstmt, hy⟩ := Option.map_eq_some_iff.1 hsql
      cases hy
      rcases statement_makes hstmt hs.unsaved with ⟨e, rfl, rfl | hundone⟩ | ⟨a, rfl, hok⟩
      · exact hs.logged _
      · have hview : db.view (p, .main) = s.db.committed := by
          funext k
          rw [view, hundone.pending, hundone.committed]
          rfl
        show Logged (db.view (p, .main))
        rw [hview]
        exact hs.filed
      · exact logged_insertLog hs.tidy (hs.logged _) hok
    · exact logged_makes (fun n g m hmay => hfiles ⟨n, g, m, hmay⟩) hmakes (hs.logged _)
  · by_cases hc : c.sparesStreams = true
    · rw [(sameStreams_exec hc h).sets] at hm
      exact .inl (hs.processed key member hm)
    have hredis : ∀ {α : Type} {a y : Except Exn α} {s'' : World P},
        s.redis o.fault a s'' = some (y, s') → s''.sets = s.sets →
          s.Consumed key member ∨ s'.Consumed key member := by
      rintro α a y s'' hr hsets
      refine .inl (hs.processed key member ?_)
      rcases eq_or_eq_of_redis hr with rfl | rfl
      · exact hm
      · rwa [hsets] at hm
    cases c <;> try exact absurd rfl hc
    case xadd n f =>
      simp only [World.exec] at h
      split_ifs at h
      exact hredis h rfl
    case xdel n i =>
      simp only [World.exec] at h
      split at h <;> exact hredis h rfl
    case xack n g i => exact hredis h rfl
    case xreadgroup n g count =>
      simp only [World.exec] at h
      split at h <;> exact hredis h rfl
    case expire key' =>
      cases h
      refine .inl (hs.processed key member ?_)
      by_cases hkey : key = key'
      · subst hkey
        simp at hm
      · simpa [hkey] using hm
    case ackScript pk ck n member' g i =>
      rcases eq_or_eq_of_redis h with rfl | rfl
      · exact .inl (hs.processed key member hm)
      by_cases hkey : key = pk
      · subst hkey
        by_cases hmember : member = member'
        · subst hmember
          exact .inl hk.1
        · refine .inl (hs.processed key member ?_)
          simpa [hmember] using hm
      · refine .inl (hs.processed key member ?_)
        simpa [hkey] using hm

/-- The commands of the daemons leave alone all but the rows. -/
theorem exists_db_of_execPass {c : PassCmd} {o : PassChoice} {x : Except Exn (PassReply c)}
    (h : World.execPass p c o s = some (x, s')) : ∃ db, s' = { s with db := db } := by
  rcases c with _ | _ | fid | owner
  · simp only [World.execPass] at h
    split_ifs at h
    exact exists_db_of_sql h
  · simp only [World.execPass] at h
    split_ifs at h
    exact exists_db_of_sql h
  · exact exists_db_of_sql h
  · exact exists_db_of_sql h

theorem effect_execPass (hs : s.Ledger) {c : PassCmd} {o : PassChoice}
    {x : Except Exn (PassReply c)} (h : World.execPass p c o s = some (x, s')) :
    Effect (p, .main) (Writes c.May (p, .main)) s.db s'.db := by
  rcases execPass_db hs.unsaved h with h | ⟨-, h⟩
  · exact .makes h
  · exact .undone h

theorem ledger_execPass (hs : s.Ledger) {c : PassCmd} {o : PassChoice}
    {x : Except Exn (PassReply c)} (h : World.execPass p c o s = some (x, s')) : s'.Ledger := by
  have heff := effect_execPass hs h
  obtain ⟨db, rfl⟩ := exists_db_of_execPass h
  have hfiles : ∀ n g m, ¬c.May (.routing n g m) := by
    intro n g m hmay
    cases c <;> cases hmay
  have hrecords : ∀ n, ¬c.May (.audit n) := by
    intro n hmay
    cases c <;> cases hmay
  exact hs.of_effect heff le_rfl (fun n hn => absurd hn (hrecords n))
    (fun hmakes => logged_makes hfiles hmakes (hs.logged _))
    (fun key member hm => .inl (hs.processed key member hm)) fun n => List.Subset.refl _

theorem grown_execPass (hs : s.Ledger) {c : PassCmd} {o : PassChoice}
    {x : Except Exn (PassReply c)} (h : World.execPass p c o s = some (x, s')) : Grown s s' := by
  have hrises := (effect_execPass hs h).rises hs.ascending
  obtain ⟨db, rfl⟩ := exists_db_of_execPass h
  exact ⟨hrises, fun n => List.Subset.refl _⟩

/-- A session that is aborted keeps the ledger. -/
theorem ledger_abort (hs : s.Ledger) (p : P) (r : Role) : (s.abort p r).Ledger := by
  have heff : Effect (p, r) (Writes (fun _ => False) (p, r)) s.db (s.abort p r).db :=
    .undone undone_abort
  refine hs.of_effect heff le_rfl (fun n hn => hn.elim)
    (fun hmakes => logged_makes (fun _ _ _ hmay => hmay) hmakes (hs.logged _))
    (fun key member hm => ?_) fun n => List.Subset.refl _
  exact .inl (hs.processed key member hm)

theorem ledger_kill (hs : s.Ledger) (p : P) : (s.kill p).Ledger :=
  ledger_abort (ledger_abort (ledger_abort (ledger_abort hs p .main) p .recheck) p .early) p .lock

theorem grown_kill (s : World P) (p : P) : Grown s (s.kill p) :=
  ⟨.of_eq rfl, fun n => List.Subset.refl _⟩

theorem frame_kill {q : P} (hq : q ≠ p) (r : Role) : Frame (q, r) s.db (s.kill p).db := by
  have hne : ∀ r', (q, r) ≠ (p, r') := fun r' he => hq (congrArg Prod.fst he)
  exact (((frame_abort (hne _)).trans (frame_abort (hne _))).trans (frame_abort (hne _))).trans
    (frame_abort (hne _))

/-! ### Audit events -/

/-- A row that is routed in a transaction only is pending in it, so that no other has it. -/
theorem view_of_routed {db : Database (P × Role) Key RowOf} {t t' : P × Role} {fid : ℤ}
    {row : LogRow} {rid : StreamId} (ht : t' ≠ t) (hrow : db.view t' (.log fid) = some row)
    (hrid : row.redisMessageId = some rid)
    (hstuck : ∀ row, db.committed (.log fid) = some row → row.redisMessageId = none) :
    db.view t (.log fid) = db.committed (.log fid) := by
  refine view_eq_committed ?_
  rcases hp : db.pending t' (.log fid) with _ | w
  · rw [view, hp] at hrow
    cases (hstuck row hrow).symm.trans hrid
  · rw [db.owner_of_pending t' _ (Option.isSome_iff_exists.2 ⟨w, hp⟩)]
    simpa using ht

/-- What is recorded is kept by all that records nothing. -/
theorem World.Audited.of_effect {t : P × Role} {may : Key → Prop} (ha : s.Audited) (hs : s.Ledger)
    (h : Effect t (Writes may t) s.db s'.db) (hmay : ∀ n, ¬may (.audit n)) : s'.Audited := by
  have hrises := h.rises hs.ascending
  -- What is pending in a session was pending in it, and its rows of the log are later.
  have hpending : ∀ t' n e, s'.db.pending t' (.audit n) = some (some e) →
      s.db.pending t' (.audit n) = some (some e) ∧
        ∀ fid, rowOrder.le (.log fid) (s.db.view t' (.log fid)) (s'.db.view t' (.log fid)) := by
    intro t' n e he
    by_cases ht : t' = t
    · subst ht
      rcases h with h | h | ⟨st, hdb⟩
      · rw [h.pending_of_not fun db v hw => hmay n hw.may] at he
        exact ⟨he, fun fid => h.rises_view (fun _ _ _ hw => hw.later) _⟩
      · rw [h.pending] at he
        cases he
      · rw [hdb, pending_commitTx_self] at he
        cases he
    · rw [(h.frame ht).pending] at he
      exact ⟨he, fun fid => hrises.view (h.frame ht) _⟩
  have hlater : ∀ t' n e fid, s'.db.pending t' (.audit n) = some (some e) →
      IsAudit "stream.deadletter" fid e → ∃ row rid, s'.db.view t' (.log fid) = some row ∧
        row.redisMessageId = some rid ∧ RecordsRouting fid rid e := by
    intro t' n e fid he his
    obtain ⟨he', hle⟩ := hpending t' n e he
    obtain ⟨row, rid, hrow, hrid, hrec⟩ := ha.pending t' n e fid he' his
    obtain ⟨row', hrow', hkeeps⟩ := rowOrder_log (hle fid) hrow
    exact ⟨row', rid, hrow', hkeeps rid hrid, hrec⟩
  have hpendingOnce : ∀ t' n n' e e' fid, s'.db.pending t' (.audit n) = some (some e) →
      IsAudit "stream.deadletter" fid e → s'.db.pending t' (.audit n') = some (some e') →
        IsAudit "stream.deadletter" fid e' → n = n' :=
    fun t' n n' e e' fid he his he' his' => ha.pendingOnce t' n n' e e' fid (hpending t' n e he).1
      his (hpending t' n' e' he').1 his'
  have hsame : s'.db.committed = s.db.committed → s'.Audited := by
    intro hcom
    refine ⟨?_, hlater, fun t' n e fid he his => ?_, ?_, hpendingOnce⟩
    · rw [hcom]
      exact ha.committed
    · rw [hcom]
      exact ha.stuck t' n e fid (hpending t' n e he).1 his
    · rw [hcom]
      exact ha.once
  rcases h with h | h | ⟨st, hdb⟩
  · exact hsame h.committed
  · exact hsame h.committed
  -- The transaction is committed: its rows are those that it sees.
  have hcom : s'.db.committed = s.db.view t := by
    rw [hdb]
    rfl
  have hview : ∀ n e, s.db.view t (.audit n) = some e →
      s.db.pending t (.audit n) = some (some e) ∨ s.db.committed (.audit n) = some e := by
    intro n e he
    rcases hp : s.db.pending t (.audit n) with _ | w
    · rw [view, hp] at he
      exact .inr he
    · rw [view, hp] at he
      exact .inl (congrArg some he)
  refine ⟨fun n e fid he his => ?_, hlater, fun t' n e fid he his => ?_,
    fun n n' e e' fid he his he' his' => ?_, hpendingOnce⟩
  · rw [hcom] at he ⊢
    rcases hview n e he with he | he
    · exact ha.pending t n e fid he his
    · obtain ⟨row, rid, hrow, hrid, hrec⟩ := ha.committed n e fid he his
      obtain ⟨row', hrow', hkeeps⟩ := rowOrder_log (hs.ascending.le_view t _) hrow
      exact ⟨row', rid, hrow', hkeeps rid hrid, hrec⟩
  · have ht : t' ≠ t := by
      rintro rfl
      rw [hdb, pending_commitTx_self] at he
      cases he
    obtain ⟨he', -⟩ := hpending t' n e he
    obtain ⟨row, rid, hrow, hrid, -⟩ := ha.pending t' n e fid he' his
    have hstuck := ha.stuck t' n e fid he' his
    rw [hcom, view_of_routed ht hrow hrid hstuck]
    exact hstuck
  · rw [hcom] at he he'
    -- A failure that was recorded before is not recorded in the transaction.
    have hno : ∀ n n' e e', s.db.pending t (.audit n) = some (some e) →
        IsAudit "stream.deadletter" fid e → s.db.committed (.audit n') = some e' →
          IsAudit "stream.deadletter" fid e' → False := by
      intro n n' e e' he his he' his'
      obtain ⟨row, rid, hrow, hrid, -⟩ := ha.committed n' e' fid he' his'
      cases (ha.stuck t n e fid he his row hrow).symm.trans hrid
    rcases hview n e he with he | he <;> rcases hview n' e' he' with he' | he'
    · exact ha.pendingOnce t n n' e e' fid he his he' his'
    · exact (hno n n' e e' he his he' his').elim
    · exact (hno n' n e' e he' his' he his).elim
    · exact ha.once n n' e e' fid he his he' his'

/-- An audit event is recorded: it says of a failure that it is routed only if its transaction has
    routed it, and has not said so before. -/
theorem audited_put {t : P × Role} {k : ℕ} {e : AuditEvent} {hl : s.db.CanLock t (.audit k) false}
    (ha : s.Audited) (hdb : s'.db = s.db.put t (.audit k) (some e) false hl)
    (hk : ∀ fid, IsAudit "stream.deadletter" fid e →
      t = (p, .main) ∧ ∃ rid, Routes p fid rid s ∧ RecordsRouting fid rid e) : s'.Audited := by
  have hview : ∀ t' fid, s'.db.view t' (.log fid) = s.db.view t' (.log fid) := by
    intro t' fid
    by_cases ht : t' = t
    · subst ht
      rw [hdb, view_put_of_ne (by simp)]
    · rw [view, view, hdb, (frame_put ht).pending]
      rfl
  -- What is pending was pending, or is the event.
  have hpending : ∀ t' n e', s'.db.pending t' (.audit n) = some (some e') →
      s.db.pending t' (.audit n) = some (some e') ∨ t' = t ∧ n = k ∧ e' = e := by
    intro t' n e' he
    rw [hdb, pending_put] at he
    by_cases ht : t' = t
    · subst ht
      rw [Function.update_self] at he
      by_cases hn : n = k
      · subst hn
        rw [Function.update_self] at he
        exact .inr ⟨rfl, rfl, (Option.some.inj (Option.some.inj he)).symm⟩
      · rw [Function.update_of_ne (by simpa using hn)] at he
        exact .inl he
    · rw [Function.update_of_ne ht] at he
      exact .inl he
  have hcom : s'.db.committed = s.db.committed := by rw [hdb, committed_put]
  refine ⟨?_, fun t' n e' fid he his => ?_, fun t' n e' fid he his => ?_, ?_,
    fun t' n n' e₁ e₂ fid he₁ his₁ he₂ his₂ => ?_⟩
  · rw [hcom]
    exact ha.committed
  · rw [hview]
    rcases hpending t' n e' he with he | ⟨rfl, rfl, rfl⟩
    · exact ha.pending t' n e' fid he his
    · obtain ⟨rfl, rid, hroutes, hrec⟩ := hk fid his
      obtain ⟨row, hrow, hrid⟩ := hroutes.pending
      exact ⟨row, rid, by rw [view, hrow]; rfl, hrid, hrec⟩
  · rw [hcom]
    rcases hpending t' n e' he with he | ⟨rfl, rfl, rfl⟩
    · exact ha.stuck t' n e' fid he his
    · obtain ⟨rfl, rid, hroutes, -⟩ := hk fid his
      exact hroutes.stuck
  · rw [hcom]
    exact ha.once
  · rcases hpending t' n e₁ he₁ with he₁ | ⟨rfl, rfl, rfl⟩ <;>
      rcases hpending t' n' e₂ he₂ with he₂ | ⟨ht, hn, he⟩
    · exact ha.pendingOnce t' n n' e₁ e₂ fid he₁ his₁ he₂ his₂
    · obtain ⟨hp, rid, hroutes, -⟩ := hk fid (he ▸ his₂)
      exact absurd his₁ (hroutes.fresh n e₁ (by rw [← hp, ← ht]; exact he₁))
    · obtain ⟨hp, rid, hroutes, -⟩ := hk fid his₁
      exact absurd his₂ (hroutes.fresh n' e₂ (by rw [← hp]; exact he₂))
    · exact hn.symm

/-- The commands keep what is recorded. -/
theorem audited_exec (honce : once) (hs : s.Ledger) (ha : s.Audited) (hk : Knows env once p s c)
    {x : Except Exn (Reply c)} (h : World.exec env p c o s = some (x, s')) : s'.Audited := by
  by_cases hc : ∃ n, c.May s.nextAuditId (.audit n)
  swap
  · exact ha.of_effect hs (exec_effect hs.unsaved hs.tidy h) fun n hmay => hc ⟨n, hmay⟩
  obtain ⟨n, hn⟩ := hc
  cases c <;> try cases hn
  rename_i r e
  simp only [World.exec] at h
  obtain ⟨⟨y, s₁⟩, hsql, hx⟩ := Option.map_eq_some_iff.1 h
  cases hx
  obtain ⟨⟨z, db⟩, hstmt, hy⟩ := Option.map_eq_some_iff.1 hsql
  cases hy
  have hsame : ∀ h : Effect (p, r) (Writes (fun _ => False) (p, r)) s.db db,
      ({ s with db := db, nextAuditId := s.nextAuditId + 1 } : World P).Audited :=
    fun h => ha.of_effect hs h fun n hmay => hmay
  rcases statement_makes hstmt hs.unsaved with ⟨e', rfl, rfl | hundone⟩ | ⟨a, rfl, hok⟩
  · exact hsame (.refl _)
  · exact hsame (.undone hundone)
  obtain ⟨⟨b, db₁⟩, hinsert, hdb⟩ := Option.map_eq_some_iff.1 hok
  cases hdb
  rcases insertNew_cases hinsert with ⟨-, rfl, -⟩ | ⟨-, -, hl, rfl⟩
  · exact hsame (.refl _)
  · refine audited_put (p := p) ha rfl fun fid his => ?_
    obtain ⟨hr, hroutes⟩ := hk honce fid his
    exact ⟨by rw [hr], hroutes⟩

theorem audited_execPass (hs : s.Ledger) (ha : s.Audited) {c : PassCmd} {o : PassChoice}
    {x : Except Exn (PassReply c)} (h : World.execPass p c o s = some (x, s')) : s'.Audited := by
  refine ha.of_effect hs (effect_execPass hs h) fun n hmay => ?_
  cases c <;> cases hmay

theorem audited_abort (hs : s.Ledger) (ha : s.Audited) (p : P) (r : Role) :
    (s.abort p r).Audited := by
  have heff : Effect (p, r) (Writes (fun _ => False) (p, r)) s.db (s.abort p r).db :=
    .undone undone_abort
  exact ha.of_effect hs heff fun _ hmay => hmay

theorem audited_kill (hs : s.Ledger) (ha : s.Audited) (p : P) : (s.kill p).Audited := by
  have hs₁ := ledger_abort hs p .main
  have hs₂ := ledger_abort hs₁ p .recheck
  exact audited_abort (ledger_abort hs₂ p .early) (audited_abort hs₂ (audited_abort hs₁
    (audited_abort hs ha p .main) p .recheck) p .early) p .lock

end

end Deadletter

end AslanCore
