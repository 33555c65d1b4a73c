import AslanCore.Deadletter.Containment
import AslanCore.Deadletter.Redriving

/-!
# What is delivered is settled

What holds of every run of the consumers and the daemons, in any order, whatever goes wrong in the
stores, whoever is killed, and whenever a key expires.

* An entry that was delivered to a group, and is still there, is pending, or its failure is routed,
  or it is recorded that its event was consumed (`settled_of_reach`);
* an event in a set of processed events was recorded as consumed before (`consumed_of_reach`);
* a failure is recorded as routed once, and to the entry that the log has for it
  (`routed_once_of_reach`), in runs where a failure that the janitor locks is still not routed.
-/

namespace AslanCore

namespace Deadletter

open AslanCore.System Outline Prog World Database

namespace World

variable {P : Type} [DecidableEq P]

/-- The stores are not in use, and what they hold is in order. -/
structure Opens (s : World P) : Prop where
  fresh : s.db = .ofRows s.db.committed
  stuck : ∀ fid row, s.db.committed (.log fid) = some row →
    (row.isStuck = true ↔ row.redisMessageId = none)
  numbered : ∀ n, (s.db.committed (.audit n)).isSome → n < s.nextAuditId
  logged : Logged s.db.committed
  processed : ∀ key member, s.sets key member = true → s.Consumed key member
  delivered : ∀ n g group, s.groups n g = some group →
    group.lastDelivered ≤ (s.streams.get n).lastId

/-- What a group has been given since `s₀` is in the stream up to its last entry, and each entry is
    pending or settled. -/
structure Delivered (env : Env) (s s₀ : World P) : Prop where
  bound : ∀ n g group, s.groups n g = some group →
    group.lastDelivered ≤ (s.streams.get n).lastId
  settled : ∀ n g old group, s₀.groups n g = some old → s.groups n g = some group →
    ∀ e ∈ (s.streams.get n).entries, old.lastDelivered < e.1 → e.1 ≤ group.lastDelivered →
      e.1 ∈ group.pending ∨ s.Settled env n g e

end World

section

variable {P : Type} [DecidableEq P] {env : Env} {once : Prop} {p : P} {c : Cmd} {o : Choice}
  {s₀ s s' : World P}

omit [DecidableEq P] in
/-- What is read of stores that are not in use is committed. -/
theorem World.Opens.committed_of_version (h : s.Opens) {k : Key} {w : Option (RowOf k)}
    (hw : s.db.Version k w) : ∃ v, w = some v ∧ s.db.committed k = some v := by
  rw [h.fresh] at hw
  rcases hw with hw | hw | ⟨hw, -⟩
  · exact ⟨_, rfl, hw⟩
  · cases hw
  · cases hw

theorem World.Opens.ledger (h : s.Opens) : s.Ledger := by
  refine ⟨?_, ?_, ?_, ?_, fun t => ?_, h.logged, h.processed⟩
  · rw [h.fresh]
    exact fun _ => rfl
  · intro k w hw
    obtain ⟨v, rfl, hv⟩ := h.committed_of_version hw
    rcases k with fid | _ | _ | _ | _ | _
    · exact ⟨v, rfl, h.stuck fid v hv⟩
    · exact rfl
    · trivial
    · trivial
    · exact rfl
    · trivial
  · rw [h.fresh]
    exact ascending_ofRows _
  · intro k w hw
    obtain ⟨v, rfl, hv⟩ := h.committed_of_version hw
    rcases k with _ | _ | _ | _ | n | _
    · trivial
    · trivial
    · trivial
    · trivial
    · exact h.numbered n (Option.isSome_iff_exists.2 ⟨v, hv⟩)
    · trivial
  · rw [h.fresh]
    exact h.logged

omit [DecidableEq P] in
theorem World.Opens.delivered_self (h : s.Opens) : s.Delivered env s where
  bound := h.delivered
  settled n g old group hold hgroup e _ hlt hle := by
    cases hold.symm.trans hgroup
    exact absurd hle (not_le_of_gt hlt)

/-- A step keeps what was delivered, when each entry that is then delivered is pending or settled,
    or was delivered before and was not pending. -/
theorem World.Delivered.of_step (h : s.Delivered env s₀) (hg : Grown s s')
    (hstep : ∀ n g group', s'.groups n g = some group' → ∃ group, s.groups n g = some group ∧
      group'.lastDelivered ≤ (s'.streams.get n).lastId ∧
      ∀ e ∈ (s'.streams.get n).entries, e.1 ≤ group'.lastDelivered →
        e.1 ∈ group'.pending ∨ s'.Settled env n g e ∨
          (e ∈ (s.streams.get n).entries ∧ e.1 ≤ group.lastDelivered ∧ e.1 ∉ group.pending)) :
    s'.Delivered env s₀ where
  bound n g group' hgroup' := by
    obtain ⟨group, -, hbound, -⟩ := hstep n g group' hgroup'
    exact hbound
  settled n g old group' hold hgroup' e he hlt hle := by
    obtain ⟨group, hgroup, -, hentries⟩ := hstep n g group' hgroup'
    rcases hentries e he hle with hpending | hsettled | ⟨he, hle, hpending⟩
    · exact .inl hpending
    · exact .inr hsettled
    · rcases h.settled n g old group hold hgroup e he hlt hle with h | h
      · exact absurd h hpending
      · exact .inr (lasting_settled s s' hg h)

/-- A step that leaves the groups alone, and gives no entry an identifier that was drawn before,
    keeps what was delivered. -/
theorem World.Delivered.of_groups (h : s.Delivered env s₀) (hg : Grown s s')
    (hgroups : s'.groups = s.groups)
    (hentries : ∀ n, ∀ e ∈ (s'.streams.get n).entries, e.1 ≤ (s.streams.get n).lastId →
      e ∈ (s.streams.get n).entries) : s'.Delivered env s₀ := by
  refine h.of_step hg fun n g group hgroup => ⟨group, hgroups ▸ hgroup, ?_, fun e he hle => ?_⟩
  · exact (h.bound n g group (hgroups ▸ hgroup)).trans (Stream.lastId_le_of_subset (hg.streams n))
  · by_cases hpending : e.1 ∈ group.pending
    · exact .inl hpending
    · exact .inr (.inr ⟨hentries n e he (hle.trans (h.bound n g group (hgroups ▸ hgroup))), hle,
        hpending⟩)

/-- An entry that is settled may be acknowledged. -/
theorem World.Delivered.of_acknowledge (h : s.Delivered env s₀) (hg : Grown s s') {n g : String}
    {i : StreamId} (hsettled : ∀ f, s.Appended n (i, f) → s.Settled env n g (i, f))
    (hgroups : s'.groups = World.exec.acknowledge s n g i) (hstreams : s'.streams = s.streams) :
    s'.Delivered env s₀ := by
  refine h.of_step hg fun n' g' group' hgroup' => ?_
  rw [hgroups, exec.acknowledge] at hgroup'
  by_cases hkey : n' = n ∧ g' = g
  · obtain ⟨rfl, rfl⟩ := hkey
    simp only [Function.update_self] at hgroup'
    obtain ⟨group, hgroup, rfl⟩ := Option.map_eq_some_iff.1 hgroup'
    refine ⟨group, hgroup, ?_, fun e he hle => ?_⟩
    · rw [hstreams]
      exact h.bound _ _ group hgroup
    rw [hstreams] at he
    by_cases hi : e.1 = i
    · subst hi
      exact .inr (.inl (lasting_settled s s' hg (hsettled e.2 (Stream.mem_appended_of_mem he))))
    · by_cases hpending : e.1 ∈ group.pending
      · exact .inl (List.mem_filter.2 ⟨hpending, by simpa using hi⟩)
      · exact .inr (.inr ⟨he, hle, hpending⟩)
  · have hgroup : s.groups n' g' = some group' := by
      by_cases hn : n' = n
      · subst hn
        have hg' : g' ≠ g := fun hg' => hkey ⟨rfl, hg'⟩
        simpa [hg'] using hgroup'
      · simpa [hn] using hgroup'
    refine ⟨group', hgroup, ?_, fun e he hle => ?_⟩
    · rw [hstreams]
      exact h.bound _ _ group' hgroup
    rw [hstreams] at he
    by_cases hpending : e.1 ∈ group'.pending
    · exact .inl hpending
    · exact .inr (.inr ⟨he, hle, hpending⟩)

/-- A page of a sorted list has every element up to its last one. -/
theorem mem_take_of_le {φ : Type} {es : List (StreamId × φ)} (hsorted : es.Pairwise (·.1 < ·.1))
    {count : ℕ} {l e : StreamId × φ} (hl : l ∈ es.take count) (he : e ∈ es) (hle : e.1 ≤ l.1) :
    e ∈ es.take count := by
  rw [← List.take_append_drop count es] at he hsorted
  rcases List.mem_append.1 he with he | he
  · exact he
  · exact absurd ((List.pairwise_append.1 hsorted).2.2 l hl e he) (not_lt_of_ge hle)

/-- The entries that a group is given are pending. -/
theorem World.Delivered.of_read (h : s.Delivered env s₀) (hg : Grown s s') {n g : String}
    {group : Group} {count : ℕ} {fresh : List (StreamId × RawFields)}
    (hgroup : s.groups n g = some group)
    (hfresh : fresh = ((s.streams.get n).entries.filter (group.lastDelivered < ·.1)).take count)
    (hgroups : s'.groups = Function.update s.groups n (Function.update (s.groups n) g (some
      { lastDelivered := (fresh.getLast?.map (·.1)).getD group.lastDelivered
        pending := group.pending ++ fresh.map (·.1) })))
    (hstreams : s'.streams = s.streams) : s'.Delivered env s₀ := by
  have hsorted : ((s.streams.get n).entries.filter (group.lastDelivered < ·.1)).Pairwise
      (·.1 < ·.1) := ((s.streams.get n).sorted.sublist (s.streams.get n).sublist).filter _
  refine h.of_step hg fun n' g' group' hgroup' => ?_
  rw [hgroups] at hgroup'
  by_cases hkey : n' = n ∧ g' = g
  · obtain ⟨rfl, rfl⟩ := hkey
    simp only [Function.update_self] at hgroup'
    cases hgroup'
    refine ⟨group, hgroup, ?_, fun e he hle => ?_⟩
    · rw [hstreams]
      cases hlast : fresh.getLast? with
      | none => exact h.bound _ _ group hgroup
      | some l =>
        have hl := List.mem_of_getLast? hlast
        rw [hfresh] at hl
        exact Stream.le_lastId _
          (Stream.mem_appended_of_mem (List.mem_of_mem_filter (List.mem_of_mem_take hl)))
    rw [hstreams] at he
    by_cases hold : e.1 ≤ group.lastDelivered
    · by_cases hpending : e.1 ∈ group.pending
      · exact .inl (List.mem_append_left _ hpending)
      · exact .inr (.inr ⟨he, hold, hpending⟩)
    · -- The entry is a new one: it is among those that are read, up to the last of them.
      have hnew : e ∈ (s.streams.get n').entries.filter (group.lastDelivered < ·.1) :=
        List.mem_filter.2 ⟨he, decide_eq_true (lt_of_not_ge hold)⟩
      cases hlast : fresh.getLast? with
      | none =>
        rw [hlast] at hle
        exact absurd hle hold
      | some l =>
        rw [hlast] at hle
        have hl := List.mem_of_getLast? hlast
        rw [hfresh] at hl
        have hread := mem_take_of_le hsorted hl hnew hle
        rw [← hfresh] at hread
        exact .inl (List.mem_append_right _ (List.mem_map_of_mem hread))
  · have hgroup : s.groups n' g' = some group' := by
      by_cases hn : n' = n
      · subst hn
        have hg' : g' ≠ g := fun hg' => hkey ⟨rfl, hg'⟩
        simpa [hg'] using hgroup'
      · simpa [hn] using hgroup'
    refine ⟨group', hgroup, ?_, fun e he hle => ?_⟩
    · rw [hstreams]
      exact h.bound _ _ group' hgroup
    rw [hstreams] at he
    by_cases hpending : e.1 ∈ group'.pending
    · exact .inl hpending
    · exact .inr (.inr ⟨he, hle, hpending⟩)

/-- The commands keep what was delivered, when they are issued knowing what the outline says. -/
theorem delivered_exec (hs : s.Ledger) (hk : Knows env once p s c) {x : Except Exn (Reply c)}
    (h : World.exec env p c o s = some (x, s')) (hd : s.Delivered env s₀) :
    s'.Delivered env s₀ := by
  have hg := grown_exec hs h
  by_cases hc : c.sparesStreams = true
  · have hsame := sameStreams_exec hc h
    exact hd.of_groups hg hsame.groups fun n e he _ => hsame.streams ▸ he
  cases c <;> try exact absurd rfl hc
  case xadd n f =>
    simp only [World.exec] at h
    split_ifs at h with hid
    rcases eq_or_eq_of_redis h with rfl | rfl
    · exact hd
    refine hd.of_groups hg rfl fun n' e he hle => ?_
    by_cases hn : n' = n
    · subst hn
      rw [Streams.get_set_self] at he
      rcases Stream.mem_append.1 he with he | rfl
      · exact he
      · exact absurd hle (not_le_of_gt hid)
    · rwa [Streams.get_set_of_ne hn] at he
  case xdel n i =>
    simp only [World.exec] at h
    split at h
    · rcases eq_or_eq_of_redis h with rfl | rfl <;> exact hd
    · rename_i st hst
      rcases eq_or_eq_of_redis h with rfl | rfl
      · exact hd
      refine hd.of_groups hg rfl fun n' e he _ => ?_
      by_cases hn : n' = n
      · subst hn
        rw [Streams.get_set_self] at he
        rw [Streams.get, hst]
        exact (Stream.mem_delete.1 he).1
      · rwa [Streams.get_set_of_ne hn] at he
  case xack n g i =>
    rcases eq_or_eq_of_redis h with rfl | rfl
    · exact hd
    · exact hd.of_acknowledge hg hk rfl rfl
  case xreadgroup n g count =>
    simp only [World.exec] at h
    split at h
    · rcases eq_or_eq_of_redis h with rfl | rfl <;> exact hd
    · rename_i group hgroup
      rcases eq_or_eq_of_redis h with rfl | rfl
      · exact hd
      · exact hd.of_read hg hgroup rfl rfl rfl
  case expire key =>
    cases h
    exact hd.of_groups hg rfl fun _ _ he _ => he
  case ackScript pk ck n member g i =>
    rcases eq_or_eq_of_redis h with rfl | rfl
    · exact hd
    · exact hd.of_acknowledge hg hk.2 rfl rfl

theorem delivered_execPass (hs : s.Ledger) {c : PassCmd} {o : PassChoice}
    {x : Except Exn (PassReply c)} (h : World.execPass p c o s = some (x, s'))
    (hd : s.Delivered env s₀) : s'.Delivered env s₀ := by
  have hg := grown_execPass hs h
  obtain ⟨db, rfl⟩ := exists_db_of_execPass h
  exact hd.of_groups hg rfl fun _ _ he _ => he

theorem delivered_kill (hd : s.Delivered env s₀) : (s.kill p).Delivered env s₀ :=
  hd.of_groups (grown_kill s p) rfl fun _ _ he _ => he

/-! ### Runs -/

/-- It can be checked of a step whether a failure that is locked is still not routed. -/
instance decidableStillStuck (p : P) (c : Cmd ⊕ PassCmd) (o : PassChoice) (s : World P)
    [Decidable once] : Decidable ((stillStuck P once).step p c o s) :=
  match c with
  | .inl _ => .isTrue trivial
  | .inr .selectStaleIntents => .isTrue trivial
  | .inr .selectStuckRows => .isTrue trivial
  | .inr (.touchIntents _) => .isTrue trivial
  | .inr (.selectLogForUpdate fid) =>
    decidable_of_iff (once → ∀ row ∈ s.db.view (p, .main) (.log fid), row.isStuck = true) Iff.rfl

instance decidableStillStuckStart (p : P) (j : DaemonJob) (s : World P) :
    Decidable ((stillStuck P once).start p j s) := .isTrue trivial

instance decidableStillStuckKill (p : P) (s : World P) : Decidable ((stillStuck P once).kill p s) :=
  .isTrue trivial

/-- Nothing is asked of the runs when nothing is said of what is recorded once. -/
theorem stillStuck_of_not (honce : ¬once)
    (cfg : Config (Cmd ⊕ PassCmd) (Sum.elim Reply PassReply) Exn Unit P DaemonJob (World P))
    (e : Event P DaemonJob PassChoice) : (stillStuck P once).Holds cfg e := by
  refine (Guard.holds_trivial cfg e).mono (fun _ _ _ h => h) (fun p c o s _ => ?_) fun _ _ h => h
  rcases c with c | _ | _ | fid | owner
  · trivial
  · trivial
  · trivial
  · exact fun h => absurd h honce
  · trivial

/-- An entry that was delivered to a group, and is still in the stream, is pending, or its failure
    is routed, or it is recorded that its event was consumed. -/
theorem settled_of_reach (h₀ : s₀.Opens)
    {cfg : Config (Cmd ⊕ PassCmd) (Sum.elim Reply PassReply) Exn Unit P DaemonJob (World P)}
    (h : (daemons env P).Reach (fun _ _ => True) ((daemons env P).initial s₀) cfg)
    {n g : String} {old group : Group} (hold : s₀.groups n g = some old)
    (hgroup : cfg.shared.groups n g = some group) {e : StreamId × RawFields}
    (he : e ∈ (cfg.shared.streams.get n).entries) (hlt : old.lastDelivered < e.1)
    (hle : e.1 ≤ group.lastDelivered) :
    e.1 ∈ group.pending ∨ cfg.shared.Settled env n g e := by
  have hreach := h.mono fun cfg e _ => stillStuck_of_not not_false cfg e
  have hd : cfg.shared.Delivered env s₀ :=
    (valid_ledgerOutline env False).invariant (I := fun s => s.Delivered env s₀)
      ⟨h₀.ledger, False.elim⟩ (fun _ => trivial) h₀.delivered_self
      (by
        rintro p (c | c) o s x s' hs hk - hex - hd
        · exact delivered_exec hs.1 hk hex hd
        · exact delivered_execPass hs.1 hex hd)
      (fun _ _ _ hd => delivered_kill hd) hreach
  exact hd.settled n g old group hold hgroup e he hlt hle

/-- A consumer that reads an entry and handles it, in `k` steps. -/
def handlingEvents (k : ℕ) : List (Event Unit DaemonJob PassChoice) :=
  .start () (.base (.consume filingConsumer 1 1)) ::
    List.replicate k (.step () { id := .ofMs 5, action := .ack .next })

theorem opens_newEntryWorld {P : Type} [DecidableEq P] {fields : RawFields} :
    (newEntryWorld P fields).Opens where
  fresh := rfl
  stuck := by rintro fid row ⟨⟩
  numbered := by rintro m ⟨⟩
  logged := by rintro n g m fid ⟨⟩
  processed := by rintro key member ⟨⟩
  delivered n g group hgroup := by
    cases hgroup
    exact StreamId.zero_le _

/-- An entry without a payload. -/
def emptyEntry : StreamId × RawFields := (.ofMs 1, [])

/-- An entry without a payload is no longer pending: its failure is routed. -/
theorem settled_emptyEntry : ∃ cfg, (daemons plainEnv Unit).Reach (fun _ _ => True)
    ((daemons plainEnv Unit).initial (newEntryWorld Unit [])) cfg ∧
    cfg.shared.Settled plainEnv filingConsumer.stream filingConsumer.group emptyEntry := by
  obtain ⟨cfg, hreach, hgood⟩ := Reach.exists_of_run
    (show ((daemons plainEnv Unit).run (fun _ _ => True) (handlingEvents 21)
      ((daemons plainEnv Unit).initial (newEntryWorld Unit []))).any (fun cfg =>
        (cfg.shared.streams.get filingConsumer.stream).entries.any (· = emptyEntry) &&
        (cfg.shared.groups filingConsumer.stream filingConsumer.group).any fun group =>
          decide (emptyEntry.1 ≤ group.lastDelivered) && group.pending.isEmpty) = true by
      decide +kernel)
  obtain ⟨hentry, hgroup⟩ := Bool.and_eq_true_iff.1 hgood
  obtain ⟨group, hgroup, hrest⟩ := (Option.any_eq_true _ _).1 hgroup
  obtain ⟨hle, hpending⟩ := Bool.and_eq_true_iff.1 hrest
  have hold : (newEntryWorld Unit []).groups filingConsumer.stream filingConsumer.group =
      some ⟨.zero, []⟩ := rfl
  obtain ⟨e, he, heq⟩ := List.any_eq_true.1 hentry
  rw [of_decide_eq_true heq] at he
  have hsettled := settled_of_reach opens_newEntryWorld hreach hold hgroup he (by decide)
    (of_decide_eq_true hle)
  rw [List.isEmpty_iff.1 hpending] at hsettled
  exact ⟨cfg, hreach, hsettled.resolve_left List.not_mem_nil⟩

/-- An event in a set of processed events was recorded as consumed before. -/
theorem consumed_of_reach (h₀ : s₀.Opens)
    {cfg : Config (Cmd ⊕ PassCmd) (Sum.elim Reply PassReply) Exn Unit P DaemonJob (World P)}
    (h : (daemons env P).Reach (fun _ _ => True) ((daemons env P).initial s₀) cfg)
    {key member : String} (hmember : cfg.shared.sets key member = true) :
    cfg.shared.Consumed key member := by
  have hreach := h.mono fun cfg e _ => stillStuck_of_not not_false cfg e
  have hinv := (valid_ledgerOutline env False).safe ⟨h₀.ledger, False.elim⟩ (fun _ => trivial)
    hreach
  exact hinv.1.1.processed key member hmember

/-- It is recorded that the consumer has consumed an event. -/
def consumption (u : Streams.Uuid) : AuditEvent :=
  { ackRecord plainEnv filingConsumer (.ofMs 1) u false with actor := AuditEvent.systemUnknown }

/-- Stores with an entry without a payload, and an event that was consumed. -/
def consumedWorld : World Unit where
  __ := newEntryWorld Unit []
  nextAuditId := 1
  sets key member :=
    key = processedKey filingConsumer && member = plainEnv.parse.codec.uuidStr 0
  db := .ofRows fun
    | .audit 0 => some (consumption 0)
    | _ => none

theorem opens_consumedWorld : consumedWorld.Opens where
  fresh := rfl
  stuck := by rintro fid row ⟨⟩
  numbered m hm := by
    rcases m with _ | m
    · exact Nat.one_pos
    · cases hm
  logged := by rintro n g m fid ⟨⟩
  processed key member hmember := by
    obtain ⟨hkey, hmember⟩ := Bool.and_eq_true_iff.1 hmember
    obtain rfl := of_decide_eq_true hkey
    obtain rfl := of_decide_eq_true hmember
    refine ⟨0, consumption 0, filingConsumer.stream, filingConsumer.group, rfl, ⟨.inl rfl, rfl, ?_,
      ?_⟩, rfl⟩
    · simp [consumption, ackRecord]
    · simp [consumption, ackRecord]
  delivered n g group hgroup := by
    cases hgroup
    exact StreamId.zero_le _

/-- It is still so when a consumer has started, and has asked for entries. -/
theorem consumed_consumedWorld : ∃ cfg, (daemons plainEnv Unit).Reach (fun _ _ => True)
    ((daemons plainEnv Unit).initial consumedWorld) cfg ∧
    cfg.shared.Consumed (processedKey filingConsumer) (plainEnv.parse.codec.uuidStr 0) := by
  have hstart : (daemons plainEnv Unit).Reach (fun _ _ => True)
      ((daemons plainEnv Unit).initial consumedWorld) _ :=
    .step (.start () (.base (.consume filingConsumer 1 1))) .init trivial rfl
  have hasked : (daemons plainEnv Unit).Reach (fun _ _ => True)
      ((daemons plainEnv Unit).initial consumedWorld) _ := .step (.step () {}) hstart trivial rfl
  -- The sets are as they were, so that their texts are not computed.
  have hmember : consumedWorld.sets (processedKey filingConsumer)
      (plainEnv.parse.codec.uuidStr 0) = true := by
    simp only [consumedWorld, decide_true, Bool.and_self]
  exact ⟨_, hasked, consumed_of_reach opens_consumedWorld hasked hmember⟩

/-- A failure is recorded as routed once, and to the entry that the log has for it, when the rows
    that the janitor locks are still not routed. -/
theorem routed_once_of_reach (h₀ : s₀.Opens) (ha : s₀.Audited)
    {cfg : Config (Cmd ⊕ PassCmd) (Sum.elim Reply PassReply) Exn Unit P DaemonJob (World P)}
    (h : (daemons env P).Reach (stillStuck P True).Holds ((daemons env P).initial s₀) cfg)
    {m : ℕ} {e : AuditEvent} {fid : ℤ} (he : cfg.shared.db.committed (.audit m) = some e)
    (hfid : IsAudit "stream.deadletter" fid e) :
    (∃ row rid, cfg.shared.db.committed (.log fid) = some row ∧
      row.redisMessageId = some rid ∧ RecordsRouting fid rid e) ∧
    ∀ m' e', cfg.shared.db.committed (.audit m') = some e' →
      IsAudit "stream.deadletter" fid e' → m' = m := by
  have hinv := (valid_ledgerOutline env True).safe ⟨h₀.ledger, fun _ => ha⟩ (fun _ => trivial) h
  have haudited := hinv.1.2 trivial
  exact ⟨haudited.committed m e fid he hfid,
    fun m' e' he' hfid' => haudited.once m' m e' e fid he' hfid' he hfid⟩

/-- Stores with a failure that is not routed yet. -/
def stuckWorld : World Unit :=
  .ofRows 1 (fun _ => none) fun
    | .log fid => if fid = 0 then some ⟨filingConsumer.stream, none, none⟩ else none
    | _ => none

theorem opens_stuckWorld : stuckWorld.Opens where
  fresh := rfl
  stuck fid row hrow := by
    have hrow : (if fid = 0 then some (⟨filingConsumer.stream, none, none⟩ : LogRow) else none) =
        some row := hrow
    split_ifs at hrow
    cases hrow
    decide
  numbered := by rintro m ⟨⟩
  logged := by rintro n g m fid ⟨⟩
  processed := by rintro key member ⟨⟩
  delivered := by rintro n g group ⟨⟩

theorem audited_stuckWorld : stuckWorld.Audited where
  committed := by rintro n e fid ⟨⟩
  pending := by rintro t n e fid ⟨⟩
  stuck := by rintro t n e fid ⟨⟩
  once := by rintro n n' e e' fid ⟨⟩
  pendingOnce := by rintro t n n' e e' fid ⟨⟩

/-- A cycle of the janitor, that finds the failure, in `k` steps after that. -/
def redrivingEvents (k : ℕ) : List (Event Unit DaemonJob PassChoice) :=
  .start () (.janitor 10 "janitor") ::
    (List.replicate 2 (.step () {}) ++
      .step () { now := stuckAge + 1, rows := [(0, filingConsumer.stream)] } ::
        List.replicate k (.step () { id := .ofMs 5 }))

/-- The janitor routes it, and records this once. -/
theorem routed_stuckWorld : ∃ cfg, (daemons plainEnv Unit).Reach (stillStuck Unit True).Holds
    ((daemons plainEnv Unit).initial stuckWorld) cfg ∧
    ∃ m e, cfg.shared.db.committed (.audit m) = some e ∧ IsAudit "stream.deadletter" 0 e ∧
      ∀ m' e', cfg.shared.db.committed (.audit m') = some e' →
        IsAudit "stream.deadletter" 0 e' → m' = m := by
  obtain ⟨cfg, hreach, hgood⟩ := Reach.exists_of_run
    (show ((daemons plainEnv Unit).run (stillStuck Unit True).Holds (redrivingEvents 13)
      ((daemons plainEnv Unit).initial stuckWorld)).any (fun cfg =>
        (cfg.shared.db.committed (.audit 0)).any fun e => IsAudit "stream.deadletter" 0 e) = true by
      decide +kernel)
  obtain ⟨e, he, hfid⟩ := (Option.any_eq_true _ _).1 hgood
  exact ⟨cfg, hreach, 0, e, he, of_decide_eq_true hfid,
    (routed_once_of_reach opens_stuckWorld audited_stuckWorld hreach he
      (of_decide_eq_true hfid)).2⟩

end

end Deadletter

end AslanCore
