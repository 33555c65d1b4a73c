import AslanCore.Deadletter.Janitor
import AslanCore.Process.Alone

/-!
# What the routing leaves alone

The commands of a routing, and of a janitor, are about the dead letters: they leave alone what the
consumers have in Redis, the registry of the redactions and what is yielded (`sameConsumers_exec`).

* `issues_routeToDeadletter`, `issues_pass3` and `issues_pass4`: these programs issue no other
  commands;
* `issues_route`: what a consumer does with a failure is that, and an `XACK`.
-/

set_option linter.unusedSectionVars false

namespace AslanCore

namespace Deadletter

open Prog

/-- The command is one of the consumers, or of the registry: the others are about the dead
    letters. -/
def Cmd.ofConsumers : Cmd → Bool
  | .xack _ _ _ | .xautoclaim _ _ _ | .xreadgroup _ _ _ | .sismember _ _ | .setNx _ _ | .set _ _ |
    .get _ | .time | .del _ | .expire _ | .hincrby _ _ | .ackScript _ _ _ _ _ _ |
    .acquireEventLock _ _ | .selectRegistry _ _ | .redact _ _ | .yield _ => true
  | _ => false

/-- The command is about the dead letters. -/
def Cmd.OfDeadletters (c : Cmd) : Prop := c.ofConsumers = false

/-- The command neither claims nor caches nor redacts nor yields anything. -/
def Cmd.IsPlain : Cmd → Prop
  | .setNx _ _ | .set _ _ | .redact _ _ | .yield _ => False
  | _ => True

theorem Cmd.OfDeadletters.isPlain {c : Cmd} (h : c.OfDeadletters) : c.IsPlain := by
  rw [OfDeadletters] at h
  cases c <;> simp_all [ofConsumers, IsPlain]

namespace World

variable {P : Type} [DecidableEq P] {env : Env} {p : P} {c : Cmd} {o : Choice} {s s' s'' : World P}

/-- What the consumers have in Redis is the same, and so are the registry and what is yielded. -/
structure SameConsumers (s s' : World P) : Prop where
  groups : s'.groups = s.groups
  sets : s'.sets = s.sets
  values : s'.values = s.values
  counters : s'.counters = s.counters
  registry : s'.registry = s.registry
  yielded : s'.yielded = s.yielded

theorem SameConsumers.refl (s : World P) : SameConsumers s s := ⟨rfl, rfl, rfl, rfl, rfl, rfl⟩

theorem SameConsumers.trans (h : SameConsumers s s') (h' : SameConsumers s' s'') :
    SameConsumers s s'' :=
  ⟨h'.groups.trans h.groups, h'.sets.trans h.sets, h'.values.trans h.values,
    h'.counters.trans h.counters, h'.registry.trans h.registry, h'.yielded.trans h.yielded⟩

theorem sameConsumers_with (n m : ℕ) (streams : AslanCore.Streams RawFields)
    (db : Database (P × Role) Key RowOf) : SameConsumers s
      { s with nextFailureId := n, nextAuditId := m, streams := streams, db := db } :=
  ⟨rfl, rfl, rfl, rfl, rfl, rfl⟩

/-- A statement changes the rows only. -/
theorem exists_db_of_sql {α : Type} {t : P × Role} {f : Fault}
    {stmt : Option (Except Exn (α × Database (P × Role) Key RowOf))} {x : Except Exn α}
    (h : s.sql t f stmt = some (x, s')) : ∃ db, s' = { s with db := db } := by
  obtain ⟨⟨x', db⟩, -, hx⟩ := Option.map_eq_some_iff.1 h
  cases hx
  exact ⟨db, rfl⟩

theorem sameConsumers_sql {α : Type} {t : P × Role} {f : Fault}
    {stmt : Option (Except Exn (α × Database (P × Role) Key RowOf))} {x : Except Exn α}
    (h : s.sql t f stmt = some (x, s')) : SameConsumers s s' := by
  obtain ⟨db, rfl⟩ := exists_db_of_sql h
  exact sameConsumers_with _ _ _ _

/-- A command of Redis is carried out, or not. -/
theorem eq_or_eq_of_redis {α : Type} {f : Fault} {a x : Except Exn α}
    (h : s.redis f a s'' = some (x, s')) : s' = s ∨ s' = s'' := by
  unfold redis at h
  split at h <;> cases h
  · exact .inr rfl
  · exact .inl rfl
  · exact .inr rfl

theorem sameConsumers_redis {α : Type} {f : Fault} {a x : Except Exn α}
    (h : s.redis f a s'' = some (x, s')) (hs : SameConsumers s s'') : SameConsumers s s' := by
  rcases eq_or_eq_of_redis h with rfl | rfl
  · exact .refl _
  · exact hs

/-- What is about the dead letters leaves the consumers alone. -/
theorem sameConsumers_exec {x : Except Exn (Reply c)} (hc : c.OfDeadletters)
    (h : exec env p c o s = some (x, s')) : SameConsumers s s' := by
  cases c <;> try cases hc
  case xinfoStream n =>
    simp only [exec] at h
    split at h <;> exact sameConsumers_redis h (.refl s)
  case xrange n lo hi count => exact sameConsumers_redis h (.refl s)
  case xrevrange n count =>
    simp only [exec] at h
    split at h
    · exact sameConsumers_redis h (.refl s)
    · split_ifs at h <;> exact sameConsumers_redis h (.refl s)
  case xadd n f =>
    simp only [exec] at h
    split_ifs at h
    exact sameConsumers_redis h (sameConsumers_with _ _ _ _)
  case xdel n i =>
    simp only [exec] at h
    split at h <;> exact sameConsumers_redis h (sameConsumers_with _ _ _ _)
  case insertLog row =>
    simp only [exec] at h
    obtain ⟨⟨x', s₁⟩, hsql, hs⟩ := Option.map_eq_some_iff.1 h
    cases hs
    exact (sameConsumers_sql hsql).trans (sameConsumers_with _ _ _ _)
  case insertAudit r e =>
    simp only [exec] at h
    obtain ⟨⟨x', s₁⟩, hsql, hs⟩ := Option.map_eq_some_iff.1 h
    cases hs
    exact (sameConsumers_sql hsql).trans (sameConsumers_with _ _ _ _)
  case commit r =>
    cases h
    exact sameConsumers_with _ _ _ _
  case rollback r =>
    cases h
    exact sameConsumers_with _ _ _ _
  case close r =>
    cases h
    exact sameConsumers_with _ _ _ _
  all_goals exact sameConsumers_sql h

end World

/-! ### Programs about the dead letters -/

section

variable {ok : Cmd → Prop} (hok : ∀ c : Cmd, c.OfDeadletters → ok c) {α : Type} {env : Env}
  {ctx : Context}
include hok

theorem issues_withSession {r : Role} {body : Program α} (h : body.Issues ok) :
    (withSession r body).Issues ok :=
  .ensuring h (issues_perform (hok _ rfl))

theorem issues_auditRecord {r : Role} {record : AuditRecord} :
    (auditRecord ctx r record).Issues ok := by
  rw [auditRecord]
  split
  · trivial
  · exact issues_perform (hok _ rfl)

theorem issues_findInPages {stream : String} {upperBound : StreamId} {fid : ℤ} (fuel : ℕ)
    (cursor : StreamId) : (findInPages env stream upperBound fid fuel cursor).Issues ok := by
  induction fuel generalizing cursor with
  | zero => trivial
  | succ fuel ih =>
    refine .bind (issues_perform (hok _ rfl)) fun page => ?_
    split
    · trivial
    · split
      · trivial
      · trivial
      · dsimp only
        split_ifs
        · trivial
        · exact ih _

theorem issues_findOrphan {stream : String} {lowerBound : StreamId} {fid : ℤ} :
    (findOrphanInDeadletterStream env stream lowerBound fid).Issues ok := by
  refine .bind (.tryCatch (issues_perform (hok _ rfl)) fun e => ?_) fun lastEntry => ?_
  · split <;> trivial
  · split
    · trivial
    · split_ifs
      · trivial
      · exact issues_findInPages hok _ _

theorem issues_adoptStaleIntent {fid : ℤ} {owner : String} {lb : StreamId} {stream : String}
    {existing : IntentRow} : (adoptStaleIntent env ctx fid owner lb stream existing).Issues ok := by
  refine .bind (issues_findOrphan hok) fun orphan => ?_
  split
  · refine .bind (issues_perform (hok _ rfl)) fun _ =>
      .bind (issues_perform (hok _ rfl)) fun canonical => ?_
    split
    · trivial
    · exact .bind (issues_perform (hok _ rfl)) fun _ => .bind (issues_perform (hok _ rfl)) fun _ =>
        .bind (issues_auditRecord hok) fun _ => trivial
  · exact .bind (issues_perform (hok _ rfl)) fun _ => .bind (issues_auditRecord hok) fun _ =>
      trivial

theorem issues_tryAcquireIntent {fid : ℤ} {owner : String} {lb : StreamId} {stream : String} :
    (tryAcquireIntent env ctx fid owner lb stream).Issues ok := by
  refine .bind (issues_perform (hok _ rfl)) fun inserted => ?_
  split_ifs
  · trivial
  · refine .bind (issues_perform (hok _ rfl)) fun existing => ?_
    split
    · trivial
    · split_ifs
      · exact .bind (issues_perform (hok _ rfl)) fun _ => trivial
      · trivial
      · exact .bind (issues_adoptStaleIntent hok) fun _ => trivial

theorem issues_acquireOrAdoptIntent {fid : ℤ} {owner : String} {lb : StreamId} {stream : String}
    (attempts : ℕ) : (acquireOrAdoptIntent env ctx fid owner lb stream attempts).Issues ok := by
  induction attempts with
  | zero =>
    refine .bind (issues_tryAcquireIntent hok) fun adoption => ?_
    cases adoption <;> trivial
  | succ attempts ih =>
    refine .bind (issues_tryAcquireIntent hok) fun adoption => ?_
    cases adoption with
    | none => exact ih
    | some adoption => trivial

theorem issues_ignoringRedisError {body : Program Unit} (h : body.Issues ok) :
    (ignoringRedisError body).Issues ok :=
  .tryCatch h fun e => by cases e <;> trivial

theorem issues_step4 {r : Routing} {fid : ℤ} {rid : StreamId} {ourXadd : Bool} :
    (step4UpdateLogAndAudit env ctx r fid rid ourXadd).Issues ok := by
  refine issues_withSession hok (.bind (issues_perform (hok _ rfl)) fun updated => ?_)
  split_ifs
  · exact .bind (issues_auditRecord hok) fun _ => .bind (issues_perform (hok _ rfl)) fun _ =>
      trivial
  · refine .bind (issues_perform (hok _ rfl)) fun winner => ?_
    split
    · exact .bind (issues_perform (hok _ rfl)) fun _ => trivial
    · split_ifs
      · exact .bind (issues_perform (hok _ rfl)) fun _ =>
          .bind (issues_ignoringRedisError hok (issues_perform (hok _ rfl))) fun _ =>
            .bind (issues_perform (hok _ rfl)) fun _ => trivial
      · exact .bind (issues_perform (hok _ rfl)) fun _ => trivial

theorem issues_recheckWinner {r : Routing} {fid : ℤ} {rid : StreamId} {e : Exn} :
    (recheckWinner r fid rid e).Issues ok := by
  refine .bind (issues_perform (hok _ rfl)) fun _ =>
    .bind (issues_ignoringRedisError hok (issues_perform (hok _ rfl))) fun _ =>
      .bind (issues_withSession hok (issues_perform (hok _ rfl))) fun winner => ?_
  split <;> trivial

theorem issues_appendAndIndex {r : Routing} {fid : ℤ} :
    (appendAndIndex env ctx r fid).Issues ok := by
  refine .bind (issues_perform (hok _ rfl)) fun rid =>
    .bind (issues_withSession hok (.bind (.tryCatch ?_ fun e => ?_) fun winner => ?_)) fun lost => ?_
  · exact .bind (issues_perform (hok _ rfl)) fun _ => trivial
  · split
    · exact .bind (issues_recheckWinner hok) fun _ => trivial
    · trivial
  · split
    · exact .bind (issues_step4 hok) fun _ => trivial
    · exact .bind (issues_perform (hok _ rfl)) fun _ => .bind (issues_perform (hok _ rfl)) fun _ =>
        trivial
  · split
    · trivial
    · exact issues_step4 hok

theorem issues_routeUnindexed {r : Routing} {fid : ℤ} :
    (routeUnindexed env ctx r fid).Issues ok := by
  refine .bind (.bind (.tryCatch (issues_perform (hok _ rfl)) fun e => ?_) fun _ => trivial)
    fun lowerBound => .bind (issues_withSession hok ?_) fun adoption => ?_
  · split <;> trivial
  · exact .bind (issues_acquireOrAdoptIntent hok 3) fun _ =>
      .bind (issues_perform (hok _ rfl)) fun _ => trivial
  · split
    · trivial
    · trivial
    · exact issues_appendAndIndex hok

/-- A routing is about the dead letters. -/
theorem issues_routeToDeadletter {r : Routing} : (routeToDeadletter env ctx r).Issues ok := by
  refine .bind (issues_withSession hok ?_) fun row => ?_
  · split
    · trivial
    · exact .bind (issues_perform (hok _ rfl)) fun _ => .bind (issues_perform (hok _ rfl)) fun _ =>
        trivial
  · dsimp only
    split
    · trivial
    · refine .bind (issues_withSession hok (issues_perform (hok _ rfl))) fun indexed => ?_
      split
      · exact issues_step4 hok
      · exact issues_routeUnindexed hok

/-- What a consumer does with a failure is the routing, and an `XACK`. -/
theorem issues_route {c : Consumer} {mid : StreamId} {eventId : Streams.Uuid} {fields : Fields}
    {failureCount : ℤ} {lastError : String} (hack : ok (.xack c.stream c.group mid)) :
    (route env c mid eventId fields failureCount lastError).Issues ok := by
  refine .bind (issues_routeToDeadletter hok) fun result => ?_
  cases result with
  | complete rid => exact issues_ignoringRedisError hok (issues_perform hack)
  | reconciledByAdoption rid => exact issues_ignoringRedisError hok (issues_perform hack)
  | aborted => trivial

/-! ### The janitor -/

theorem issues_logged {body : Program Unit} (h : body.Issues ok) : (logged body).Issues ok :=
  .tryCatch h fun _ => issues_perform (hok _ rfl)

theorem issues_pass3 : pass3IndexToStreamVerification.Issues ok := by
  refine .bind (issues_withSession hok (issues_perform (hok _ rfl))) fun rows =>
    issues_forEach (fun row => issues_withSession hok (issues_logged hok ?_)) _
  refine .bind (issues_perform (hok _ rfl)) fun entries => ?_
  split
  · trivial
  · refine .bind (issues_perform (hok _ rfl)) fun audited => ?_
    split_ifs
    · trivial
    · exact .bind (issues_perform (hok _ rfl)) fun _ => issues_perform (hok _ rfl)

theorem issues_reconcileEntry {n : String} {rid : StreamId} {fid : ℤ} :
    (reconcileEntry n rid fid).Issues ok := by
  have htwo : ∀ c c', c.OfDeadletters → c'.OfDeadletters → ((do
      let _ ← request c
      let _ ← request c'
      request (.commit .main)) : Program Unit).Issues ok := fun c c' hc hc' =>
    .bind (issues_perform (hok _ hc)) fun _ => .bind (issues_perform (hok _ hc')) fun _ =>
      issues_perform (hok _ rfl)
  refine .bind (issues_perform (hok _ rfl)) fun existing => ?_
  split
  · split_ifs
    · trivial
    · exact htwo _ _ rfl rfl
  · refine .bind (issues_perform (hok _ rfl)) fun logExists => ?_
    dsimp only
    split_ifs
    · exact .bind (issues_perform (hok _ rfl)) fun _ => htwo _ _ rfl rfl
    · exact htwo _ _ rfl rfl

theorem issues_pass4 {window : ℕ} :
    (pass4StreamToIndexDefenseInDepth env window).Issues ok := by
  refine .bind (issues_withSession hok (issues_perform (hok _ rfl))) fun streams =>
    issues_forEach (fun n => .bind (.tryCatch ?_ fun e => ?_) fun entries => ?_) _
  · exact .bind (issues_perform (hok _ rfl)) fun _ => trivial
  · split <;> trivial
  · split
    · trivial
    · trivial
    · refine issues_forEach (fun e => ?_) _
      rw [reconcileFields]
      split
      · trivial
      · split
        · trivial
        · split
          · trivial
          · exact issues_withSession hok (issues_logged hok (issues_reconcileEntry hok))

end

end Deadletter

end AslanCore
