import AslanCore.Deadletter.Escalation
import AslanCore.Deadletter.SchemaGate

/-!
# A consumer keeps to the outline of the ledger

An entry is acknowledged when it is settled (`keepsTo_processEntry`): its failure is routed, or its
event was consumed, which is recorded before it is added to the processed ones
(`keepsTo_acknowledge`).
-/

set_option linter.unusedSectionVars false

namespace AslanCore

namespace Deadletter

open Outline Prog World Database
open Streams (Uuid KnownStreamEvent)

/-! ### Consumers -/

section

variable {P : Type} [DecidableEq P] {env : Env} {once : Prop} {p : P} {s s' : World P}
  {c : Consumer} {o : Choice} {mid : StreamId} {raw : RawFields} {u : Uuid} {fields : Fields}
  {event : KnownStreamEvent} {candidate : Option KnownStreamEvent}

/-- An entry whose event was consumed is settled. -/
theorem settled_of_consumed {n g member : String} (hap : s.Appended n (mid, raw))
    (hev : EventOf env n (mid, raw) member) (hc : s.Consumed (processedSet n g) member)
    (f : RawFields) (hf : s.Appended n (mid, f)) : s.Settled env n g (mid, f) := by
  rw [(s.streams.get n).appended_unique hf hap]
  exact .inr ⟨member, hev, hc⟩

/-- An audit event is given a number that no other one has. -/
theorem pending_insertAudit (hs : s.Ledger) {r : Role} {e : AuditEvent} {a : Unit}
    (h : World.exec env p (.insertAudit r e) o s = some (.ok a, s')) :
    s'.db.pending (p, r) (.audit s.nextAuditId) = some (some e) := by
  simp only [World.exec] at h
  obtain ⟨⟨y, s₁⟩, hsql, hx⟩ := Option.map_eq_some_iff.1 h
  cases hx
  obtain ⟨⟨x, db⟩, hstmt, hx⟩ := Option.map_eq_some_iff.1 hsql
  cases hx
  rcases statement_makes hstmt hs.unsaved with ⟨e, ⟨⟩, -⟩ | ⟨a, ⟨⟩, hok⟩
  obtain ⟨⟨b, db₁⟩, hinsert, hdb⟩ := Option.map_eq_some_iff.1 hok
  cases hdb
  rcases insertNew_cases hinsert with ⟨-, rfl, hsome⟩ | ⟨-, -, hl, rfl⟩
  · obtain ⟨v, hv⟩ := Option.isSome_iff_exists.1 hsome
    exact absurd (hs.numbered _ _ (version_of_view hv)) (lt_irrefl _)
  · simp

theorem free_releaseLock : releaseLock.Issues Cmd.IsFree :=
  .bind (issues_perform trivial) fun _ => issues_perform trivial

theorem free_ensureReleased {released : Bool} : (ensureReleased released).Issues Cmd.IsFree := by
  rw [ensureReleased]
  split_ifs
  · trivial
  · exact free_releaseLock

/-- An event is recorded as consumed, and the lock is released. -/
theorem keepsTo_recordAck {isRedacted : Bool} (s : World P) :
    KeepsTo env once p (do
      auditRecord c.ctx .lock (ackRecord env c mid u isRedacted)
      request (.commit .lock)
      request (.close .lock)
      pure true)
      (outcome (fun _ s => s.Consumed (processedKey c) (env.parse.codec.uuidStr u))
        fun _ _ => True) s := by
  -- The event is pending until the transaction is committed.
  have hpending : ∀ s s' : World P, Grown s s' → (∀ r, Frame (p, r) s.db s'.db) →
      (∃ k e, s.db.pending (p, .lock) (.audit k) = some (some e) ∧
        RecordsConsumption c.stream c.group (env.parse.codec.uuidStr u) e) →
      ∃ k e, s'.db.pending (p, .lock) (.audit k) = some (some e) ∧
        RecordsConsumption c.stream c.group (env.parse.codec.uuidStr u) e := by
    intro s s' _ hf h
    rwa [(hf .lock).pending]
  refine safe_bind.2 ((keepsTo_auditRecord (a := fun _ => True) (fun _ _ _ _ h => h) trivial
    (Q := fun s => ∃ k e, s.db.pending (p, .lock) (.audit k) = some (some e) ∧
      RecordsConsumption c.stream c.group (env.parse.codec.uuidStr u) e)
    fun e s₁ he hs₁ _ => ⟨?_, fun o s₂ hex => ⟨_, e, pending_insertAudit hs₁ hex, ?_⟩⟩).mono ?_)
  · -- It is not recorded that a failure is routed.
    refine knows_of_isFree ?_ p s₁
    show e.operation ≠ _
    rw [AuditEvent.toAuditRecord_of_record he]
    cases isRedacted <;> simp [ackRecord]
  · have hrecord := AuditEvent.toAuditRecord_of_record he
    rw [show e = { e.toAuditRecord with actor := e.actor } from rfl, hrecord]
    refine ⟨?_, rfl, by simp [ackRecord], by simp [ackRecord]⟩
    cases isRedacted
    · exact .inl rfl
    · exact .inr rfl
  rintro (e | _) s₂ h₂
  · trivial
  refine safe_bind.2 (keepsTo_request _ hpending h₂ fun s₃ hs₃ _ h₃ => ⟨trivial, ?_⟩)
  rintro o (e | ⟨⟩) s₄ hex₄ -
  · trivial
  have hconsumed : s₄.Consumed (processedKey c) (env.parse.codec.uuidStr u) := by
    obtain ⟨k, e, hk, hrec⟩ := h₃
    refine ⟨k, e, _, _, ?_, hrec, rfl⟩
    rw [committed_of_commit hex₄, view, hk]
    rfl
  have hclose : (Cmd.close .lock).IsFree := trivial
  refine safe_bind.2 ((keepsTo_free lasting_consumed hclose hconsumed).mono ?_)
  rintro (e | _) s₅ h₅
  · trivial
  · exact h₅

/-- An event is recorded as consumed before it is added to the processed ones. -/
theorem keepsTo_acknowledge {isRedacted : Bool} (hap : s.Appended c.stream (mid, raw))
    (hev : EventOf env c.stream (mid, raw) (env.parse.codec.uuidStr u)) :
    KeepsTo env once p (acknowledge env c mid u isRedacted) (fun _ _ => True) s := by
  have happended : Lasting (P := P) (Appended c.stream (mid, raw)) := lasting_appended
  have hboth : ∀ s s' : World P, Grown s s' → (∀ r, Frame (p, r) s.db s'.db) →
      (s.Appended c.stream (mid, raw) ∧ s.Consumed (processedKey c) (env.parse.codec.uuidStr u)) →
      s'.Appended c.stream (mid, raw) ∧ s'.Consumed (processedKey c) (env.parse.codec.uuidStr u) :=
    fun s s' hg _ => (happended.and lasting_consumed) s s' hg
  refine safe_bind.2 (safe_tryCatch.2 ((keepsTo_and happended hap (keepsTo_recordAck s)).mono ?_))
  rintro (e | _ | _) s₁ h₁
  · trivial
  · trivial
  refine safe_bind.2 (safe_tryCatch.2 (keepsTo_request _ hboth h₁ fun s₂ _ _ h₂ =>
    ⟨⟨h₂.2, settled_of_consumed h₂.1 hev h₂.2⟩, ?_⟩))
  rintro o (e | _) s₃ - - <;> trivial

/-- What follows a yield. -/
theorem keepsTo_resume {released : Bool} (r : Resume) (s : World P) :
    KeepsTo env once p (resume env c mid u fields released r) (fun _ _ => True) s := by
  cases r with
  | next => exact keepsTo_of_issues free_ensureReleased s
  | close =>
    refine keepsTo_of_issues (.bind free_ensureReleased fun _ => ?_) s
    trivial
  | throw traceback =>
    have hrelease : ∀ (e : Exn) (s : World P), KeepsTo env once p (do
        ensureReleased released
        throw e : Program Unit) (fun _ _ => True) s := by
      refine fun e s => keepsTo_of_issues (.bind free_ensureReleased fun _ => ?_) s
      trivial
    have hdel : (Cmd.del (claimKey env c u)).IsFree := trivial
    refine safe_bind.2 (Safe.mono (safe_tryCatch.2 (safe_bind.2 (Safe.mono (safe_bind.2 (Safe.mono
      (keepsTo_of_issues (free_ignoringRedisError (issues_perform hdel)) s) ?_))
        (Q := fun _ _ => True) ?_))) (Q := fun _ _ => True) ?_)
    · rintro (e | _) s₁ -
      · trivial
      have hincr : (Cmd.hincrby (failuresKey c) (ridStr mid)).IsFree := trivial
      refine safe_bind.2 ((keepsTo_of_issues (issues_perform hincr) s₁).mono ?_)
      rintro (e | failures) s₂ -
      · trivial
      simp only [outcome]
      split_ifs
      · exact keepsTo_route s₂
      · trivial
    · rintro (e | _) s₁ -
      · exact hrelease e s₁
      · refine (keepsTo_of_issues free_releaseLock s₁).mono ?_
        rintro (e | _) s₂ -
        · exact hrelease e s₂
        · trivial
    · rintro (e | _) s₁ - <;> trivial

/-- A row of the registry has an event of its own identifier. -/
theorem eventId_of_registry {stream : String} {row : RegistryRow} {e : KnownStreamEvent}
    (h : eventFromRegistry env stream u row.redactedPayload row.redactedPayloadHash = .ok e) :
    e.toStreamEvent.eventId = u :=
  (eventFromRegistry_eq_ok_iff.1 h).2.2

theorem free_fetchRegistryEntry {r : Role} : (fetchRegistryEntry r u).Issues Cmd.IsFree :=
  .bind (issues_perform trivial) fun _ => trivial

theorem free_fetchCached : (fetchCachedRegistryEntry env .early u).Issues Cmd.IsFree := by
  refine .bind (issues_perform trivial) fun raw => ?_
  split
  · split <;> trivial
  · refine .bind free_fetchRegistryEntry fun entry => ?_
    split
    · trivial
    · refine .bind ?_ fun _ => trivial
      rw [cacheRegistryEntry]
      split
      · trivial
      · exact issues_perform trivial

/-- The event that is yielded has the identifier of the one that was parsed. -/
theorem keepsTo_lockEvent (hc : ∀ e, candidate = some e →
      e.toStreamEvent.eventId = event.toStreamEvent.eventId) (s : World P) :
    KeepsTo env once p (lockEvent env c event candidate)
      (outcome (fun found _ => found.1.toStreamEvent.eventId = event.toStreamEvent.eventId)
        fun _ _ => True) s := by
  have hlock : (Cmd.acquireEventLock .lock event.toStreamEvent.eventId).IsFree := trivial
  refine safe_bind.2 ((keepsTo_of_issues (issues_perform hlock) s).mono ?_)
  rintro (e | _) s₁ -
  · trivial
  refine safe_bind.2 ((keepsTo_of_issues free_fetchRegistryEntry s₁).mono ?_)
  rintro (e | _ | entry) s₂ -
  · trivial
  · show (candidate.getD event).toStreamEvent.eventId = event.toStreamEvent.eventId
    cases candidate with
    | none => rfl
    | some e => exact hc e rfl
  · show KeepsTo env once p (do
      let event ← ofExcept (eventFromRegistry env c.stream event.toStreamEvent.eventId
        entry.redactedPayload entry.redactedPayloadHash)
      pure (event, true)) _ s₂
    cases he : eventFromRegistry env c.stream event.toStreamEvent.eventId entry.redactedPayload
      entry.redactedPayloadHash with
    | error e => trivial
    | ok e => exact eventId_of_registry he

section

variable (hap : s.Appended c.stream (mid, raw))
  (hev : EventOf env c.stream (mid, raw) (env.parse.codec.uuidStr event.toStreamEvent.eventId))
include hap hev

theorem keepsTo_yieldEvent (hc : ∀ e, candidate = some e →
      e.toStreamEvent.eventId = event.toStreamEvent.eventId) :
    KeepsTo env once p (yieldEvent env c mid fields event candidate) (fun _ _ => True) s := by
  have happended : Lasting (P := P) (Appended c.stream (mid, raw)) := lasting_appended
  refine safe_bind.2 (safe_tryCatch.2 ((keepsTo_and happended hap (keepsTo_lockEvent hc s)).mono ?_))
  rintro (e | ⟨found, isRedacted⟩) s₁ ⟨hap₁, hfound⟩
  · -- The claim is released, and the exception raised again.
    have hdel : (Cmd.del (claimKey env c event.toStreamEvent.eventId)).IsFree := trivial
    simp only [outcome]
    split_ifs
    · refine safe_bind.2 ((keepsTo_of_issues (issues_perform hdel) s₁).mono ?_)
      rintro (e' | _) s₂ -
      · trivial
      refine safe_bind.2 ((keepsTo_of_issues free_releaseLock s₂).mono ?_)
      rintro (e' | _) s₃ - <;> trivial
    · trivial
  · have hyield : (Cmd.yield found).IsFree := trivial
    have hev₁ : EventOf env c.stream (mid, raw)
        (env.parse.codec.uuidStr found.toStreamEvent.eventId) := by
      rw [show found.toStreamEvent.eventId = event.toStreamEvent.eventId from hfound]
      exact hev
    refine safe_bind.2 ((keepsTo_free happended hyield hap₁).mono ?_)
    rintro (e | r | r) s₂ hap₂
    · trivial
    · refine safe_bind.2 ((keepsTo_acknowledge hap₂ hev₁).mono ?_)
      rintro (e | released) s₃ -
      · trivial
      · exact keepsTo_resume r s₃
    · exact keepsTo_resume r s₂

/-- An entry whose event has been processed is acknowledged. -/
theorem keepsTo_xackProcessed (hc : s.Consumed (processedKey c)
      (env.parse.codec.uuidStr event.toStreamEvent.eventId)) :
    KeepsTo env once p (request (.xack c.stream c.group mid)) (fun _ _ => True) s := by
  have hboth : Lasting (P := P) fun s => s.Appended c.stream (mid, raw) ∧
      s.Consumed (processedKey c) (env.parse.codec.uuidStr event.toStreamEvent.eventId) :=
    lasting_appended.and lasting_consumed
  exact keepsTo_request _ (fun s s' hg _ => hboth s s' hg) ⟨hap, hc⟩ fun s₁ _ _ h₁ =>
    ⟨settled_of_consumed h₁.1 hev h₁.2, fun _ _ _ _ _ => trivial⟩

/-- An event that is in the set of those that are processed was consumed. -/
theorem keepsTo_sismember : KeepsTo env once p (request (.sismember (processedKey c)
      (env.parse.codec.uuidStr event.toStreamEvent.eventId)))
    (outcome (fun processed s => s.Appended c.stream (mid, raw) ∧ (processed = true →
      s.Consumed (processedKey c) (env.parse.codec.uuidStr event.toStreamEvent.eventId)))
      fun _ _ => True) s := by
  refine keepsTo_request _ (fun s s' hg _ => lasting_appended s s' hg) hap fun s₁ hs₁ _ h₁ =>
    ⟨trivial, ?_⟩
  rintro o (e | processed) s₂ hex -
  · trivial
  refine ⟨lasting_appended _ _ (grown_exec hs₁ hex) h₁, ?_⟩
  rintro rfl
  have hgrown := grown_exec hs₁ hex
  refine lasting_consumed _ _ hgrown (hs₁.processed _ _ ?_)
  simp only [World.exec, World.redis] at hex
  split at hex
  · exact (by simpa using hex : s₁.sets _ _ = true ∧ s₁ = s₂).1
  · cases hex
  · cases hex

theorem keepsTo_claimEvent (hc : ∀ e, candidate = some e →
      e.toStreamEvent.eventId = event.toStreamEvent.eventId) :
    KeepsTo env once p (claimEvent env c mid fields event candidate) (fun _ _ => True) s := by
  have happended : Lasting (P := P) (Appended c.stream (mid, raw)) := lasting_appended
  have htime : Cmd.time.IsFree := trivial
  have hset : ∀ now, (Cmd.setNx (claimKey env c event.toStreamEvent.eventId)
      (claimPayload env c mid now)).IsFree := fun _ => trivial
  have hget : (Cmd.get (claimKey env c event.toStreamEvent.eventId)).IsFree := trivial
  refine safe_bind.2 ((keepsTo_free happended htime hap).mono ?_)
  rintro (e | now) s₁ h₁
  · trivial
  refine safe_bind.2 ((keepsTo_free happended (hset now) h₁).mono ?_)
  rintro (e | _ | _) s₂ h₂
  · trivial
  swap
  · exact keepsTo_yieldEvent h₂ hev hc
  refine safe_bind.2 ((keepsTo_free happended hget h₂).mono ?_)
  rintro (e | _ | rawClaim) s₃ h₃
  · trivial
  · trivial
  simp only [outcome]
  split
  · trivial
  · trivial
  · rename_i existing _ _
    rcases ownsClaim env c existing with e | _ | _
    · trivial
    · -- Another consumer has the event, or has processed it.
      show KeepsTo env once p (do
        let processed ← request (.sismember (processedKey c)
          (env.parse.codec.uuidStr event.toStreamEvent.eventId))
        if processed then request (.xack c.stream c.group mid) else pure ()) _ s₃
      refine safe_bind.2 ((keepsTo_sismember h₃ hev).mono ?_)
      rintro (e | _ | _) s₄ h₄
      · trivial
      · trivial
      · exact keepsTo_xackProcessed h₄.1 hev (h₄.2 rfl)
    · exact keepsTo_yieldEvent h₃ hev hc

theorem keepsTo_processEvent :
    KeepsTo env once p (processEvent env c mid fields event) (fun _ _ => True) s := by
  have happended : Lasting (P := P) (Appended c.stream (mid, raw)) := lasting_appended
  -- The steps after the candidate is known.
  have hrest : ∀ candidate (s₁ : World P), s₁.Appended c.stream (mid, raw) →
      (∀ e, candidate = some e → e.toStreamEvent.eventId = event.toStreamEvent.eventId) →
      KeepsTo env once p (do
        let processed ← request (.sismember (processedKey c)
          (env.parse.codec.uuidStr event.toStreamEvent.eventId))
        if processed then request (.xack c.stream c.group mid)
        else claimEvent env c mid fields event candidate) (fun _ _ => True) s₁ := by
    intro candidate s₁ h₁ hc
    refine safe_bind.2 ((keepsTo_sismember h₁ hev).mono ?_)
    rintro (e | _ | _) s₂ h₂
    · trivial
    · exact keepsTo_claimEvent h₂.1 hev hc
    · exact keepsTo_xackProcessed h₂.1 hev (h₂.2 rfl)
  refine safe_bind.2 ((keepsTo_lasting happended (free_withSession free_fetchCached) hap).mono ?_)
  rintro (e | _ | entry) s₁ h₁
  · trivial
  · exact hrest none s₁ h₁ (by rintro e ⟨⟩)
  · show KeepsTo env once p ((ofExcept (eventFromRegistry env c.stream
      event.toStreamEvent.eventId entry.redactedPayload entry.redactedPayloadHash)).bind fun e => do
        let processed ← request (.sismember (processedKey c)
          (env.parse.codec.uuidStr event.toStreamEvent.eventId))
        if processed then request (.xack c.stream c.group mid)
        else claimEvent env c mid fields event (some e)) _ s₁
    cases he : eventFromRegistry env c.stream event.toStreamEvent.eventId entry.redactedPayload
      entry.redactedPayloadHash with
    | error e => trivial
    | ok e =>
      refine hrest (some e) s₁ h₁ ?_
      rintro e' ⟨⟩
      exact eventId_of_registry he

end

/-- An entry is acknowledged when it is settled. -/
theorem keepsTo_processEntry {entry : StreamId × RawFields} (hap : s.Appended c.stream entry) :
    KeepsTo env once p (processEntry env c entry) (fun _ _ => True) s := by
  rw [processEntry]
  cases hdecode : decodeFields entry.2 with
  | none => trivial
  | some fields =>
    dsimp only [processMessage]
    cases hgate : Streams.gate env.parse c.cfg c.stream (ridStr entry.1) fields with
    | error e => trivial
    | ok gated =>
      cases gated with
      | deadletter eventId error => exact keepsTo_route s
      | event event =>
        obtain ⟨hparse, -, -⟩ := Streams.gate_event hgate
        exact keepsTo_processEvent hap ⟨fields, event, hdecode, hparse, rfl⟩

/-- What a group reads was appended to the stream. -/
theorem appended_of_read {n g : String} {count : ℕ} {a : List (StreamId × RawFields)}
    (h : World.exec env p (.xautoclaim n g count) o s = some (.ok a, s') ∨
      World.exec env p (.xreadgroup n g count) o s = some (.ok a, s')) :
    ∀ e ∈ a, s'.Appended n e := by
  have hreply : ∀ {xs a : List (StreamId × RawFields)}, reply env xs = .ok a → a = xs := by
    intro xs a h
    rw [reply] at h
    split_ifs at h
    cases h
    rfl
  intro e he
  rcases h with h | h
  all_goals
    simp only [World.exec] at h
    split at h
    · simp only [World.redis] at h
      split at h <;> cases h
    · simp only [World.redis] at h
      split at h
      · obtain ⟨hok, rfl⟩ : _ = Except.ok a ∧ _ = s' := by simpa using h
        rw [hreply hok] at he
        exact Stream.mem_appended_of_mem (List.mem_of_mem_filter (List.mem_of_mem_take he))
      · cases h
      · cases h

/-- The entries that are read are acknowledged when they are settled. -/
theorem keepsTo_consume (count n : ℕ) (s : World P) :
    KeepsTo env once p (consume env c count n) (fun _ _ => True) s := by
  have hall : ∀ xs : List (StreamId × RawFields), Lasting (P := P) fun s =>
      ∀ e ∈ xs, s.Appended c.stream e := fun xs s s' hg h e he => lasting_appended s s' hg (h e he)
  have hloop : ∀ (entries : List (StreamId × RawFields)) (s : World P),
      (∀ e ∈ entries, s.Appended c.stream e) →
        KeepsTo env once p (forEach (processEntry env c) entries) (fun _ _ => True) s := by
    refine fun entries s h => safe_forEach (fun xs s => ∀ e ∈ xs, s.Appended c.stream e)
      (fun _ _ => trivial) (fun entry xs s₁ h₁ => ?_) h
    refine (keepsTo_and (hall xs) (fun e he => h₁ e (List.mem_cons_of_mem _ he))
      (keepsTo_processEntry (h₁ entry List.mem_cons_self))).mono ?_
    rintro (e | _) s₂ h₂
    · trivial
    · exact h₂.1
  induction n generalizing s with
  | zero => trivial
  | succ n ih =>
    refine safe_bind.2 (Safe.mono (Q := fun _ _ => True) ?_ ?_)
    · refine safe_bind.2 (safe_tryCatch.2 (keepsTo_request (fun _ => True) (fun _ _ _ _ h => h)
        trivial fun s₁ _ _ _ => ⟨trivial, ?_⟩))
      have hfresh : ∀ s : World P, KeepsTo env once p (do
          let fresh ← request (.xreadgroup c.stream c.group count)
          forEach (processEntry env c) fresh) (fun _ _ => True) s := by
        refine fun s => safe_bind.2 (keepsTo_request (fun _ => True) (fun _ _ _ _ h => h) trivial
          fun s₁ _ _ _ => ⟨trivial, ?_⟩)
        rintro o (e | fresh) s₂ hex -
        · trivial
        · exact hloop fresh s₂ (appended_of_read (.inr hex))
      have hclaimed : ∀ (claimed : List (StreamId × RawFields)) (s : World P),
          (∀ e ∈ claimed, s.Appended c.stream e) → KeepsTo env once p (do
            forEach (processEntry env c) claimed
            let fresh ← request (.xreadgroup c.stream c.group count)
            forEach (processEntry env c) fresh) (fun _ _ => True) s := by
        refine fun claimed s h => safe_bind.2 ((hloop claimed s h).mono ?_)
        rintro (e | _) s₁ -
        · trivial
        · exact hfresh s₁
      rintro o (e | claimed) s₂ hex -
      · simp only [outcome]
        cases e <;> first | trivial | exact hclaimed [] s₂ (by simp)
      · exact hclaimed claimed s₂ (appended_of_read (.inl hex))
    · rintro (e | _) s₁ -
      · trivial
      · exact ih s₁

end

end Deadletter

end AslanCore
