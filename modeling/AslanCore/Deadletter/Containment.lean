import AslanCore.Deadletter.Consuming
import AslanCore.Deadletter.Filing

/-!
# Entries that are contained

An entry should be yielded, dropped as a duplicate, or routed to the dead letters and acknowledged,
whatever its bytes are: nothing should be raised before a caller has seen it. That is so when the
gates come to a decision on the fields, and the database accepts what is recorded of a failure.

* `Handled`: what should become of an entry;
* `Containable`: what its fields, and the rows and the keys of the stores, should be;
* `contains_iff`: a consumer that is alone handles the entry if and only if they are.
-/

set_option linter.unusedSectionVars false

namespace AslanCore

namespace Deadletter

open AslanCore.System Outline Prog World
open Streams (Uuid KnownStreamEvent StreamError)

variable {P : Type} [DecidableEq P] {env : Env} {τ : Option ℕ} {p : P} {c : Consumer}
  {s s' : World P} {entry : StreamId × RawFields}

/-- The routing of an entry that does not pass the gates. -/
def failureRouting (env : Env) (c : Consumer) (mid : StreamId) (eventId : Option Uuid)
    (fields : Fields) (error : StreamError) : Routing where
  stream := c.stream
  group := c.group
  consumerName := c.consumerName
  messageId := ridStr mid
  eventId := eventId.getD 0
  failureCount := c.cfg.maxAttemptsBeforeDeadletter + 1
  lastError := error.lastError env.parse.codec
  payloadExcerpt := payloadExcerpt fields
  ownerId := c.cfg.ownerId

namespace World

/-- The entry is not pending. -/
def Acknowledged (s : World P) (c : Consumer) (mid : StreamId) : Prop :=
  ∀ group ∈ s.groups c.stream c.group, mid ∉ group.pending

/-- The event of the entry has been processed. -/
def Duplicate (env : Env) (c : Consumer) (s : World P) (entry : StreamId × RawFields) : Prop :=
  ∃ fields event, decodeFields entry.2 = some fields ∧
    Streams.parseOrRaise env.parse c.stream (ridStr entry.1) fields = .ok event ∧
    s.sets (processedKey c) (env.parse.codec.uuidStr event.toStreamEvent.eventId) = true

/-- The process yields the event of the entry, as it is or as it is redacted. -/
def Yields (env : Env) (p : P) (c : Consumer) (entry : StreamId × RawFields) (s s' : World P) :
    Prop :=
  ∃ fields event e, decodeFields entry.2 = some fields ∧
    Streams.parseOrRaise env.parse c.stream (ridStr entry.1) fields = .ok event ∧
    e.toStreamEvent.eventId = event.toStreamEvent.eventId ∧ s'.yielded = s.yielded ++ [(p, e)]

/-- The entry is yielded, dropped as a duplicate, or routed to the dead letters and acknowledged. -/
def Handled (env : Env) (p : P) (c : Consumer) (entry : StreamId × RawFields) (s s' : World P) :
    Prop :=
  Yields env p c entry s s' ∨ s'.Acknowledged c entry.1 ∧
    (Duplicate env c s entry ∨ s'.Routed c.stream c.group (ridStr entry.1))

/-- The consumer gets the event: what the registry or its cache has instead of it is an event, no
    other consumer has claimed it, or it is a duplicate. -/
def Available (env : Env) (c : Consumer) (s : World P) (event : KnownStreamEvent) : Prop :=
  ∃ candidate, s.early env c event.toStreamEvent.eventId = .ok candidate ∧
    (s.sets (processedKey c) (env.parse.codec.uuidStr event.toStreamEvent.eventId) = true ∨
      s.claims env c event.toStreamEvent.eventId = .ok true ∧
        ∃ e, s.late env c event candidate = .ok e)

/-- What the gates make of the entry can be carried out. -/
def Feasible (env : Env) (c : Consumer) (s : World P) (mid : StreamId) (fields : Fields) :
    Streams.Gated → Prop
  | .event event => Available env c s event
  | .deadletter eventId error =>
    Routable env c.ctx (failureRouting env c mid eventId fields error) s

/-- The fields of the entry are text, and the gates come to a decision that can be carried out. -/
def Containable (env : Env) (c : Consumer) (s : World P) (entry : StreamId × RawFields) : Prop :=
  ¬Unreadable env [entry] ∧ ∃ fields gated, decodeFields entry.2 = some fields ∧
    Streams.gate env.parse c.cfg c.stream (ridStr entry.1) fields = .ok gated ∧
    Feasible env c s entry.1 fields gated

/-- An iteration of the consumer raises nothing, and handles the entry. -/
def Contains (env : Env) (p : P) (c : Consumer) (count : ℕ) (entry : StreamId × RawFields)
    (s : World P) : Prop :=
  (system env P).Ends healthy p (consumeOnce env c count)
    (fun x s' => x = .ok () ∧ Handled env p c entry s s') s

end World

/-! ### Entries that are not handled -/

/-- An entry that is pending, and of which nothing has been yielded, is not handled. -/
theorem not_handled (hp : ∃ group, s'.groups c.stream c.group = some group ∧ entry.1 ∈ group.pending)
    (hy : s'.yielded = s.yielded) : ¬Handled env p c entry s s' := by
  obtain ⟨group, hgroup, hmem⟩ := hp
  rintro (⟨fields, event, e, -, -, -, h⟩ | ⟨h, -⟩)
  · rw [hy] at h
    exact List.cons_ne_nil _ _ (List.append_right_eq_self.1 h.symm)
  · exact h group hgroup hmem

/-- An entry that was the only one pending is acknowledged. -/
theorem acknowledged_of_groups {s₁ : World P} {mid : StreamId}
    (hgroup : s₁.groups c.stream c.group = some ⟨mid, [mid]⟩)
    (h : s'.groups = exec.acknowledge s₁ c.stream c.group mid) : s'.Acknowledged c mid := by
  intro group hmem
  simp only [h, exec.acknowledge, Function.update_self, hgroup, Option.map_some,
    Option.mem_some_iff] at hmem
  subst hmem
  simp

/-- An event has the identifier of the one that it replaces. -/
theorem eventId_of_eventFromRegistry {stream hash : String} {u : Uuid} {payload : JsonObject}
    {e : KnownStreamEvent} (h : eventFromRegistry env stream u payload hash = .ok e) :
    e.toStreamEvent.eventId = u := by
  rw [eventFromRegistry] at h
  split at h
  · cases h
  · split_ifs at h
    split at h
    · cases h
    · split_ifs at h with hu
      cases h
      exact not_not.1 hu

theorem eventId_of_late {event e : KnownStreamEvent} {candidate : Option KnownStreamEvent}
    (hearly : s.early env c event.toStreamEvent.eventId = .ok candidate)
    (h : s.late env c event candidate = .ok e) :
    e.toStreamEvent.eventId = event.toStreamEvent.eventId := by
  rw [late] at h
  split at h
  · obtain rfl := Except.ok.inj h
    cases candidate with
    | none => rfl
    | some e =>
      -- The candidate comes from the registry, or from its cache.
      rw [early] at hearly
      split at hearly
      · cases hearly
      · cases hearly
      · have hmap : ∀ x : Except Exn KnownStreamEvent, x.map some = .ok (some e) → x = .ok e := by
          rintro (e' | e') h <;> cases h
          rfl
        exact eventId_of_eventFromRegistry (hmap _ hearly)
  · exact eventId_of_eventFromRegistry h

/-! ### What becomes of an entry -/

/-- Whether the entry is handled is as said. -/
def Settles (env : Env) (p : P) (c : Consumer) (entry : StreamId × RawFields) (s : World P)
    (ok : Prop) (x : Except Exn Unit) (s' : World P) : Prop :=
  ok ∧ x = .ok () ∧ Handled env p c entry s s' ∨ ¬ok ∧ ¬(x = .ok () ∧ Handled env p c entry s s')

theorem settles_error {ok : Prop} (h : ¬ok) (e : Exn) (s' : World P) :
    Settles env p c entry s ok (.error e) s' :=
  .inr ⟨h, fun h => nomatch h.1⟩

variable {group : Group} {fields : Fields}

/-- A failure is routed and acknowledged, if it can be. -/
theorem ends_handlePermanentFailure (hs : s.Quiet) (hrefers : Refers s.db.committed)
    (eventId : Option Uuid) (error : StreamError)
    (hτ : Routable env c.ctx (failureRouting env c entry.1 eventId fields error) s ∨ ∀ fid,
      s.db.committed (.routing c.stream c.group (ridStr entry.1)) = some fid →
        ∀ i ∈ s.db.committed (.intent fid), τ = some i.ownerHeartbeatAt) :
    (system env P).Ends (healthyAt τ) p
      (handlePermanentFailure env c entry.1 eventId fields error)
      (Settles env p c entry s
        (Routable env c.ctx (failureRouting env c entry.1 eventId fields error) s))
      (s.deliver c entry) := by
  have hquiet : (s.deliver c entry).Quiet := hs.congr rfl rfl rfl
  have hroute : (system env P).Ends (healthyAt τ) p (routeToDeadletter env c.ctx
      (failureRouting env c entry.1 eventId fields error)) _ (s.deliver c entry) :=
    ends_routeToDeadletter hquiet hrefers hτ
  have hends := hroute.frame SameConsumers SameConsumers.refl (fun _ _ _ => SameConsumers.trans)
    (fun _ _ _ _ _ hc hex => sameConsumers_exec hc hex)
    (issues_routeToDeadletter fun _ h => h)
  refine ends_bind.2 (hends.mono ?_)
  rintro x s' ⟨h, hsame⟩
  -- The entry is pending before, and nothing is yielded of it.
  have hgroup : s'.groups c.stream c.group = some ⟨entry.1, [entry.1]⟩ := by
    rw [hsame.groups]
    simp [deliver]
  rcases h with ⟨hok, ⟨rid, rfl⟩, hrouted⟩ | ⟨hno, ⟨e, rfl⟩ | rfl⟩
  · refine ends_tryCatch.2 (ends_request fun o ho => ⟨_, _, xack ho _ _ _, .inl ⟨hok, rfl, ?_⟩⟩)
    exact .inr ⟨acknowledged_of_groups hgroup rfl, .inr hrouted⟩
  · exact settles_error hno e s'
  · exact .inr ⟨hno, fun h => not_handled ⟨_, hgroup, List.mem_singleton_self _⟩ hsame.yielded h.2⟩

/-- An event is yielded, or dropped as a duplicate, if the consumer gets it. -/
theorem ends_gatedEvent (hs : s.Quiet) {event : KnownStreamEvent}
    (hfields : decodeFields entry.2 = some fields)
    (hparse : Streams.parseOrRaise env.parse c.stream (ridStr entry.1) fields = .ok event) :
    (system env P).Ends (healthyAt τ) p (processEvent env c entry.1 fields event)
      (Settles env p c entry s (Available env c s event)) (s.deliver c entry) := by
  have hquiet : (s.deliver c entry).Quiet := hs.congr rfl rfl rfl
  refine (ends_processEvent hquiet event).mono fun x s' h => ?_
  have hgroup : (s.deliver c entry).groups c.stream c.group = some ⟨entry.1, [entry.1]⟩ := by
    simp [deliver]
  -- What is looked at is the same before the entry is delivered.
  have hfate : (s.deliver c entry).fate env c event = s.fate env c event := rfl
  rw [hfate] at h
  obtain ⟨rfl, hgroups, hyielded⟩ := h
  rw [fate] at hgroups hyielded ⊢
  cases hearly : s.early env c event.toStreamEvent.eventId with
  | error e =>
    refine settles_error ?_ e s'
    rintro ⟨candidate, h, -⟩
    cases hearly.symm.trans h
  | ok candidate =>
    simp only [hearly] at hgroups hyielded ⊢
    cases hset : s.sets (processedKey c) (env.parse.codec.uuidStr event.toStreamEvent.eventId) with
    | true =>
      simp only [hset, if_true] at hgroups
      refine .inl ⟨⟨candidate, hearly, .inl hset⟩, rfl, .inr ⟨acknowledged_of_groups hgroup hgroups,
        .inl ⟨fields, event, hfields, hparse, hset⟩⟩⟩
    | false =>
      simp only [hset, Bool.false_eq_true, if_false] at hgroups hyielded ⊢
      cases hclaims : s.claims env c event.toStreamEvent.eventId with
      | error e =>
        refine settles_error ?_ e s'
        rintro ⟨-, -, h | ⟨h, -⟩⟩
        · cases hset.symm.trans h
        · cases hclaims.symm.trans h
      | ok mine =>
        simp only [hclaims] at hgroups hyielded ⊢
        cases mine with
        | false =>
          -- The entry is left to the consumer that has claimed the event.
          have hsame : s'.groups = (s.deliver c entry).groups := hgroups
          refine .inr ⟨?_, fun h => not_handled ⟨_, by rw [hsame, hgroup], List.mem_singleton_self _⟩
            (hyielded.trans (List.append_nil _)) h.2⟩
          rintro ⟨-, -, h | ⟨h, -⟩⟩
          · cases hset.symm.trans h
          · cases hclaims.symm.trans h
        | true =>
          cases hlate : s.late env c event candidate with
          | error e =>
            refine settles_error ?_ e s'
            rintro ⟨candidate', h, h' | ⟨-, e', h'⟩⟩
            · cases hset.symm.trans h'
            · cases hearly.symm.trans h
              cases hlate.symm.trans h'
          | ok e =>
            simp only [hlate] at hyielded
            exact .inl ⟨⟨candidate, hearly, .inr ⟨hclaims, e, hlate⟩⟩, rfl, .inl ⟨fields, event, e,
              hfields, hparse, eventId_of_late hearly hlate, hyielded⟩⟩

/-- An iteration handles the entry if it is containable. -/
theorem ends_consumeOnce_settles (hs : s.Quiet) (hrefers : Refers s.db.committed)
    (hdel : s.Delivers c group entry) {count : ℕ} (hcount : 0 < count)
    (hτ : Containable env c s entry ∨ ∀ fid,
      s.db.committed (.routing c.stream c.group (ridStr entry.1)) = some fid →
        ∀ i ∈ s.db.committed (.intent fid), τ = some i.ownerHeartbeatAt) :
    (system env P).Ends (healthyAt τ) p (consumeOnce env c count)
      (Settles env p c entry s (Containable env c s entry)) s := by
  refine ends_consumeOnce hdel hcount ?_
  split_ifs with hread
  · exact settles_error (fun h => h.1 hread) .value _
  rw [processEntry]
  cases hfields : decodeFields entry.2 with
  | none =>
    refine settles_error ?_ .value _
    rintro ⟨-, fields, gated, h, -⟩
    cases hfields.symm.trans h
  | some fields =>
    show (system env P).Ends (healthyAt τ) p (processMessage env c entry.1 fields) _ _
    rw [processMessage]
    cases hgate : Streams.gate env.parse c.cfg c.stream (ridStr entry.1) fields with
    | error e =>
      refine settles_error ?_ (exnOfGate e) _
      rintro ⟨-, fields', gated, h, hgated, -⟩
      cases hfields.symm.trans h
      cases hgate.symm.trans hgated
    | ok gated =>
      -- The rest is as feasible as the decision is.
      have hiff : Containable env c s entry ↔ Feasible env c s entry.1 fields gated := by
        refine ⟨?_, fun h => ⟨hread, fields, gated, hfields, hgate, h⟩⟩
        rintro ⟨-, fields', gated', h, hgated, hfeasible⟩
        cases hfields.symm.trans h
        cases hgate.symm.trans hgated
        exact hfeasible
      rw [hiff] at hτ ⊢
      cases gated with
      | deadletter eventId error => exact ends_handlePermanentFailure hs hrefers eventId error hτ
      | event event => exact ends_gatedEvent hs hfields (Streams.gate_event hgate).1

/-- A consumer that is alone handles an entry, and raises nothing, if and only if its fields are
    text, the gates come to a decision, and that decision can be carried out. -/
theorem contains_iff (hs : s.Quiet) (hrefers : Refers s.db.committed)
    (hdel : s.Delivers c group entry) {count : ℕ} (hcount : 0 < count) :
    Contains env p c count entry s ↔ Containable env c s entry := by
  refine ⟨fun h => ?_, fun h => ?_⟩
  · by_contra hno
    -- If another worker has the intent to route it, this is so at the time of its heartbeat.
    let τ := (s.db.committed (.routing c.stream c.group (ridStr entry.1))).bind fun fid =>
      (s.db.committed (.intent fid)).map (·.ownerHeartbeatAt)
    have hτ : ∀ fid, s.db.committed (.routing c.stream c.group (ridStr entry.1)) = some fid →
        ∀ i ∈ s.db.committed (.intent fid), τ = some i.ownerHeartbeatAt := by
      intro fid hfid i hi
      simp only [τ, hfid, Option.bind_some, Option.mem_def.1 hi, Option.map_some]
    obtain ⟨x, s', hruns⟩ := (ends_consumeOnce_settles hs hrefers hdel hcount (.inr hτ)).exists_runs
    have hsettles := (ends_consumeOnce_settles hs hrefers hdel hcount (.inr hτ)).of_runs hruns
    refine hsettles.elim (fun h => hno h.1) fun hbad => hbad.2 ?_
    exact Ends.of_runs h (hruns.mono fun _ _ _ ho => ⟨ho.1, ho.2.1, nofun⟩)
  · refine (ends_consumeOnce_settles hs hrefers hdel hcount (.inl h)).mono fun x s' hx => ?_
    exact hx.elim (fun hx => hx.2) fun hbad => absurd h hbad.1

/-- Stores with an entry that is new to every group of consumers, and nothing else. -/
def newEntryWorld (P : Type) [DecidableEq P] (fields : RawFields) : World P where
  __ := World.ofRows 0 (fun _ => some (Stream.empty.append (.ofMs 1) fields lastId_empty_lt))
    fun _ => none
  groups _ _ := some ⟨.zero, []⟩

/-- A consumer of filings. -/
def filingConsumer : Consumer where
  cfg := { maxSupported := 1, ownerId := "consumer:1" }
  ctx := ⟨false, none⟩
  stream := "aslan.kap.filings.new"
  group := "loader"
  consumerName := "consumer:1"

theorem delivers_newEntryWorld {fields : RawFields} :
    (newEntryWorld P fields).Delivers filingConsumer ⟨.zero, []⟩ (.ofMs 1, fields) := by
  refine ⟨rfl, rfl, List.filter_eq_self.2 fun e he => ?_⟩
  rw [List.mem_singleton.1 he]
  exact decide_eq_true (show StreamId.zero < StreamId.ofMs 1 by decide)

theorem quiet_newEntryWorld {fields : RawFields} : (newEntryWorld P fields).Quiet :=
  ⟨Database.idle_ofRows _, Nat.zero_le _, nofun, nofun, nofun⟩

/-- The text of a filing. -/
def filingText : String :=
  String.ofList ((Json.obj ((Streams.newFiling 1).modelDump .lastDigit ++ [])).render {})

/-- A filing passes the gates, whatever its text is. -/
theorem gate_filing {payloadRaw : String}
    (hparse : Streams.parseOrRaise plainEnv.parse "aslan.kap.filings.new" (ridStr (.ofMs 1))
      [("payload", payloadRaw)] = .ok (Streams.newFiling 1)) :
    Streams.gate plainEnv.parse filingConsumer.cfg filingConsumer.stream (ridStr (.ofMs 1))
      [("payload", payloadRaw)] = .ok (.event (Streams.newFiling 1)) := by
  rw [Streams.gate, show Streams.parseOrRaise plainEnv.parse filingConsumer.stream _ _ = _ from hparse]
  rfl

theorem parse_filingText :
    Streams.parseOrRaise plainEnv.parse "aslan.kap.filings.new" (ridStr (.ofMs 1))
      [("payload", filingText)] = .ok (Streams.newFiling 1) := by
  have hload := Streams.loads_newFiling [] (Streams.nodupKeys_modelDump _ _) nofun rfl
  exact Streams.parseOrRaise_of_loads rfl hload
    (Streams.validatePython_modelDump Streams.Codec.lawful_lastDigit (Streams.newFiling 1))

/-- A filing is handled. -/
theorem contains_filing : Contains plainEnv () filingConsumer 1
    (.ofMs 1, encodeFields [("payload", filingText)])
    (newEntryWorld Unit (encodeFields [("payload", filingText)])) := by
  refine (contains_iff quiet_newEntryWorld ⟨nofun, nofun⟩ delivers_newEntryWorld Nat.one_pos).2 ?_
  -- The text is not computed: the gates have it from `parse_filingText`.
  exact ⟨not_unreadable_payload, _, .event (Streams.newFiling 1), decodeFields_payload,
    gate_filing parse_filingText, none, rfl, .inr ⟨rfl, _, rfl⟩⟩

/-- A payload that is not text. -/
def notText : RawFields := [("payload".toUTF8, ⟨#[0xff]⟩)]

/-- It is not handled: the consumer raises. -/
theorem not_contains_notText :
    ¬Contains plainEnv () filingConsumer 1 (.ofMs 1, notText) (newEntryWorld Unit notText) := by
  intro h
  have hdecode : decodeField ("payload".toUTF8, ⟨#[0xff]⟩) = none := by
    have hvalue : decode ⟨#[0xff]⟩ = none := by decide
    simp only [decodeField, decode_toUTF8, hvalue]
    rfl
  have hread : Unreadable plainEnv [(StreamId.ofMs 1, notText)] :=
    ⟨rfl, _, List.mem_singleton_self _, _, List.mem_singleton_self _, hdecode⟩
  have hends : (system plainEnv Unit).Ends healthy () (consumeOnce plainEnv filingConsumer 1)
      (fun x _ => x = .error .value) (newEntryWorld Unit notText) := by
    refine ends_consumeOnce delivers_newEntryWorld Nat.one_pos ?_
    rw [if_pos hread]
  obtain ⟨x, s', hruns⟩ := hends.exists_runs
  cases (hends.of_runs hruns).symm.trans (Ends.of_runs h hruns).1

end Deadletter

end AslanCore
