import AslanCore.Deadletter.Alone

/-!
# Consumers that are alone

What a consumer makes of an event when nothing goes wrong in the stores, and no other process uses
them: it is known before, from what the registry and the keys of Redis have of the event
(`World.fate`).

* `World.early` and `World.late`: what the registry has instead of the event, before it is claimed
  and after;
* `World.claims`: whether the consumer gets the event;
* `ends_processEvent`: an event that passes the gates ends as its fate says.
-/

set_option linter.unusedSectionVars false

namespace AslanCore

namespace Deadletter

open AslanCore.System Outline Prog World
open Streams (Uuid KnownStreamEvent)

/-! ### Keys -/

section

variable {env : Env} {c : Consumer} {u v : Uuid}

/-- The keys of the consumers are not those of the cache. -/
theorem stream_append_ne (s t : String) :
    "stream:" ++ s ≠ "streams:redaction_registry:" ++ t := by
  intro h
  have htake := congrArg (fun t => t.toList.take 7) h
  simp only [String.toList_append] at htake
  rw [List.take_append_of_le_length (by decide), List.take_append_of_le_length (by decide)]
    at htake
  exact absurd htake (by decide)

theorem claimKey_ne : claimKey env c u ≠ redactionCacheKey env v := by
  unfold claimKey redactionCacheKey
  simp only [String.append_assoc]
  exact stream_append_ne _ _

end

namespace World

variable {P : Type} [DecidableEq P] (env : Env) (c : Consumer) (s : World P)

/-- What the cache has of an event, or else the registry. -/
def look (u : Uuid) : Except Exn (Option RegistryEntry) :=
  match s.values (redactionCacheKey env u) with
  | some raw => (cachedEntry env raw).map some
  | none =>
    match s.registry u with
    | none => .ok none
    | some row =>
      match cacheText env { row with eventId := u } with
      | none => .error .value
      | some _ => .ok (some { row with eventId := u })

/-- The event that replaces a redacted one, before it is claimed. -/
def early (u : Uuid) : Except Exn (Option KnownStreamEvent) :=
  match s.look env u with
  | .error e => .error e
  | .ok none => .ok none
  | .ok (some entry) =>
    (eventFromRegistry env c.stream u entry.redactedPayload entry.redactedPayloadHash).map some

/-- Whether the consumer gets the event: nobody has claimed it, or the claim is one of its own. -/
def claims (u : Uuid) : Except Exn Bool :=
  match s.values (claimKey env c u) with
  | none => .ok true
  | some raw =>
    match decode raw with
    | none => .error .value
    | some "" => .ok false
    | some claim => ownsClaim env c claim

/-- What is yielded of an event, for the candidate found before. -/
def late (event : KnownStreamEvent) (candidate : Option KnownStreamEvent) :
    Except Exn KnownStreamEvent :=
  match s.registry event.toStreamEvent.eventId with
  | none => .ok (candidate.getD event)
  | some row =>
    eventFromRegistry env c.stream event.toStreamEvent.eventId row.redactedPayload
      row.redactedPayloadHash

end World

/-- What becomes of an event: an exception is raised, the entry is acknowledged as a duplicate, it
    is left to the consumer that has claimed the event, or an event is yielded. -/
inductive Fate
  | raises (e : Exn)
  | dropped
  | left
  | yields (event : KnownStreamEvent)

namespace Fate

/-- The event is yielded, unless it cannot be. -/
def ofEvent : Except Exn KnownStreamEvent → Fate
  | .ok e => yields e
  | .error e => raises e

/-- How the entry is left. -/
def outcome : Fate → Except Exn Unit
  | raises e => .error e
  | _ => .ok ()

/-- The entry is acknowledged. -/
def isDropped : Fate → Bool
  | dropped => true
  | _ => false

/-- What is yielded. -/
def events : Fate → List KnownStreamEvent
  | yields event => [event]
  | _ => []

end Fate

namespace World

variable {P : Type} [DecidableEq P] (env : Env) (c : Consumer) (s : World P)

/-- What becomes of an event that passes the gates. -/
def fate (event : KnownStreamEvent) : Fate :=
  let u := event.toStreamEvent.eventId
  match s.early env c u with
  | .error e => .raises e
  | .ok candidate =>
    if s.sets (processedKey c) (env.parse.codec.uuidStr u) then .dropped
    else
      match s.claims env c u with
      | .error e => .raises e
      | .ok false => .left
      | .ok true => .ofEvent (s.late env c event candidate)

/-- The state after an event, as its fate says. -/
structure Becomes (p : P) (mid : StreamId) (fate : Fate) (r : Except Exn Unit) (s' : World P) :
    Prop where
  outcome : r = fate.outcome
  groups : s'.groups =
    if fate.isDropped then exec.acknowledge s c.stream c.group mid else s.groups
  yielded : s'.yielded = s.yielded ++ fate.events.map fun e => (p, e)

end World

variable {P : Type} [DecidableEq P] {env : Env} {τ : Option ℕ} {p : P} {c : Consumer}
  {s : World P}

namespace World

section

variable {o : Choice} (ho : o.fault = .none)
include ho

theorem get (key : String) : exec env p (.get key) o s =
    some (if env.decodeResponses ∧ ∃ v ∈ s.values key, decode v = none then .error .value
      else .ok (s.values key), s) := by
  rw [exec]
  split_ifs <;> rw [ho] <;> rfl

theorem set (key value : String) : exec env p (.set key value) o s =
    some (.ok (), { s with values := Function.update s.values key (some value.toUTF8) }) := by
  rw [exec, ho]
  rfl

theorem setNx_of_none {key : String} (hk : s.values key = none) (value : String) :
    exec env p (.setNx key value) o s =
      some (.ok true, { s with values := Function.update s.values key (some value.toUTF8) }) := by
  rw [exec, ho, hk]
  rfl

theorem setNx_of_some {key : String} {v : ByteArray} (hk : s.values key = some v)
    (value : String) : exec env p (.setNx key value) o s = some (.ok false, s) := by
  rw [exec, ho, hk]
  rfl

theorem sismember (key member : String) :
    exec env p (.sismember key member) o s = some (.ok (s.sets key member), s) := by
  rw [exec, ho]
  rfl

theorem del (key : String) : exec env p (.del key) o s =
    some (.ok (), { s with values := Function.update s.values key none }) := by
  rw [exec, ho]
  rfl

theorem xack (n g : String) (i : StreamId) : exec env p (.xack n g i) o s =
    some (.ok (), { s with groups := exec.acknowledge s n g i }) := by
  rw [exec, ho]
  rfl

theorem Lone.selectRegistry {r : Role} {w : (k : Key) → Option (RowOf k)} (h : s.Lone (p, r) w)
    (u : Uuid) : exec env p (.selectRegistry r u) o s = some (.ok (s.registry u), s) := by
  rw [exec, ho]
  exact h.query _

/-- The lock of an event is taken. -/
theorem Lone.acquireEventLock {r : Role} {w : (k : Key) → Option (RowOf k)}
    (h : s.Lone (p, r) w) (env : Env) (u : Uuid) : ∃ db,
    exec env p (.acquireEventLock r u) o s = some (.ok (), { s with db := db }) ∧
    { s with db := db : World P }.Lone (p, r) w := by
  refine ⟨s.db.lockRow (p, r) (.lock u) true (h.solo.canLock _ _), ?_,
    h.update (h.solo.lockRow _) rfl h.seen⟩
  rw [exec, ho, dif_pos (h.solo.canLock _ _), h.sql_some]

end

end World

/-- An event is yielded: a caller asks for the next one. -/
theorem ends_yield {e : KnownStreamEvent} {Q : Except Exn CallerAction → World P → Prop}
    (h : Q (.ok (.resume .next)) { s with yielded := s.yielded ++ [(p, e)] }) :
    (system env P).Ends (healthyAt τ) p (request (.yield e)) Q s := by
  refine ends_perform.2 ⟨⟨{ now := τ.getD 0 }, _, _, ⟨rfl, rfl, fun t ht => ?_⟩, rfl⟩, ?_⟩
  · rw [ht]
    rfl
  · rintro o x s₁ ⟨-, ho, -⟩ hx
    cases hx
    rwa [ho]

theorem ends_ofExcept {α : Type} {x : Except Exn α} {Q : Except Exn α → World P → Prop}
    (h : Q x s) : (system env P).Ends (healthyAt τ) p (ofExcept x) Q s := by
  cases x <;> exact h

/-- The lock is released. -/
theorem ends_releaseLock {Q : Except Exn Unit → World P → Prop} (h : s.Used (p, .lock))
    (hQ : ∀ db, db.committed = s.db.committed → { s with db := db : World P }.Quiet →
      Q (.ok ()) { s with db := db }) :
    (system env P).Ends (healthyAt τ) p releaseLock Q s := by
  refine ends_bind.2 (ends_request fun o ho => ?_)
  obtain ⟨db, hex, hcom, hquiet⟩ := h.rollback ho env
  refine ⟨_, _, hex, ends_request fun o ho => ?_⟩
  obtain ⟨db', hex', hcom', hquiet'⟩ := (hquiet.lone (p, .lock)).used.close ho env
  exact ⟨_, _, hex', hQ db' (hcom'.trans hcom) hquiet'⟩

namespace World

/-- The consumers have the same in Redis, up to the cache of the registry. -/
structure SameButCache (env : Env) (s s' : World P) : Prop where
  groups : s'.groups = s.groups
  sets : s'.sets = s.sets
  registry : s'.registry = s.registry
  yielded : s'.yielded = s.yielded
  values : ∀ key, (∀ u, key ≠ redactionCacheKey env u) → s'.values key = s.values key

end World

/-- An event is looked up in the cache, and then in the registry. -/
theorem ends_fetchCached (hs : s.Quiet) (u : Uuid) :
    (system env P).Ends (healthyAt τ) p
      (withSession .early (fetchCachedRegistryEntry env .early u))
      (fun x s' => x = s.look env u ∧ s'.Quiet ∧ SameButCache env s s') s := by
  have hlone := hs.lone (p, .early)
  have hclose : ∀ x s₁, x = s.look env u → s₁.Used (p, .early) → SameButCache env s s₁ →
      s₁.Used (p, .early) ∧ ∀ db, db.committed = s₁.db.committed →
        { s₁ with db := db : World P }.Quiet →
        x = s.look env u ∧ { s₁ with db := db : World P }.Quiet ∧
          SameButCache env s { s₁ with db := db } := by
    rintro x s₁ rfl hused h
    exact ⟨hused, fun db _ hquiet => ⟨rfl, hquiet, h.groups, h.sets, h.registry, h.yielded,
      h.values⟩⟩
  have hsame : SameButCache env s s := ⟨rfl, rfl, rfl, rfl, fun _ _ => rfl⟩
  refine ends_withSession (ends_bind.2 (ends_request fun o ho => ⟨_, _, get ho _, ?_⟩))
  cases hraw : s.values (redactionCacheKey env u) with
  | some raw =>
    have hlook : s.look env u = (cachedEntry env raw).map some := by simp only [look, hraw]
    split_ifs with hdec
    · -- The client raises, as reading the text would.
      obtain ⟨-, v, hv, hdec⟩ := hdec
      cases hv
      refine hclose (.error .value) _ ?_ hlone.used hsame
      simp only [hlook, cachedEntry, hdec]
      rfl
    · simp only [outcome]
      cases hentry : cachedEntry env raw with
      | error e => exact hclose (.error e) _ (by rw [hlook, hentry]; rfl) hlone.used hsame
      | ok entry => exact hclose (.ok (some entry)) _ (by rw [hlook, hentry]; rfl) hlone.used hsame
  | none =>
    rw [if_neg (by simp)]
    refine ends_bind.2 (ends_bind.2 (ends_request fun o ho =>
      ⟨_, _, hlone.selectRegistry ho u, ?_⟩))
    cases hrow : s.registry u with
    | none => exact hclose (.ok none) _ (by simp only [look, hraw, hrow]) hlone.used hsame
    | some row =>
      show (system env P).Ends (healthyAt τ) p (do
        cacheRegistryEntry env { row with eventId := u }
        pure (some ({ row with eventId := u } : RegistryEntry))) _ _
      rw [cacheRegistryEntry]
      cases htext : cacheText env { row with eventId := u } with
      | none =>
        exact hclose (.error .value) _ (by simp only [look, hraw, hrow, htext]) hlone.used hsame
      | some text =>
        refine ends_bind.2 (ends_request fun o ho => ⟨_, _, set ho _ _, ?_⟩)
        exact hclose (.ok _) _ (by simp only [look, hraw, hrow, htext])
          ⟨hlone.solo.toOnlyUsedBy, hlone.bigint, hlone.committed⟩
          ⟨rfl, rfl, rfl, rfl, fun key hkey => Function.update_of_ne (hkey u) _ _⟩

variable {fields : Fields} {mid : StreamId}

/-- A claimed event is looked up again, and yielded. -/
theorem ends_yieldEvent (hs : s.Quiet) (event : KnownStreamEvent)
    (candidate : Option KnownStreamEvent) :
    (system env P).Ends (healthyAt τ) p (yieldEvent env c mid fields event candidate)
      (s.Becomes c p mid (.ofEvent (s.late env c event candidate))) s := by
  have hlone := hs.lone (p, .lock)
  refine ends_bind.2 (ends_tryCatch.2 (ends_bind.2 (ends_request fun o ho => ?_)))
  obtain ⟨db, hex, hlone⟩ := hlone.acquireEventLock ho env event.toStreamEvent.eventId
  refine ⟨_, _, hex, ends_bind.2 (ends_bind.2 (ends_request fun o ho =>
    ⟨_, _, hlone.selectRegistry ho _, ?_⟩))⟩
  -- What is yielded once the event is known.
  have hyield : ∀ (e : KnownStreamEvent) (next : Reply (.yield e) → Program Unit),
      next (.resume .next) = releaseLock → (system env P).Ends (healthyAt τ) p
        ((request (.yield e)).bind next) (s.Becomes c p mid (.yields e)) { s with db := db } := by
    refine fun e next hnext => ends_bind.2 (ends_yield ?_)
    rw [outcome, hnext]
    exact ends_releaseLock ⟨hlone.solo.toOnlyUsedBy, hlone.bigint, hlone.committed⟩
      fun db' _ _ => ⟨rfl, rfl, rfl⟩
  cases hrow : s.registry event.toStreamEvent.eventId with
  | none =>
    have hlate : s.late env c event candidate = .ok (candidate.getD event) := by
      simp only [late, hrow]
    rw [hlate]
    exact hyield _ _ rfl
  | some row =>
    have hlate : s.late env c event candidate = eventFromRegistry env c.stream
        event.toStreamEvent.eventId row.redactedPayload row.redactedPayloadHash := by
      simp only [late, hrow]
    rw [hlate]
    show (system env P).Ends (healthyAt τ) p (do
      let event ← ofExcept (eventFromRegistry env c.stream event.toStreamEvent.eventId
        row.redactedPayload row.redactedPayloadHash)
      pure (event, true)) _ _
    refine ends_bind.2 (ends_ofExcept ?_)
    cases eventFromRegistry env c.stream event.toStreamEvent.eventId row.redactedPayload
      row.redactedPayloadHash with
    | ok e => exact hyield e _ rfl
    | error e =>
      show (system env P).Ends (healthyAt τ) p (do
        if e.releasesClaim then do
          request (.del (claimKey env c event.toStreamEvent.eventId))
          releaseLock
        throw e) _ _
      split_ifs
      · refine ends_bind.2 (ends_request fun o ho => ⟨_, _, del ho _, ends_bind.2 ?_⟩)
        exact ends_releaseLock ⟨hlone.solo.toOnlyUsedBy, hlone.bigint, hlone.committed⟩
          fun db' _ _ => ⟨rfl, rfl, (List.append_nil _).symm⟩
      · exact ⟨rfl, rfl, (List.append_nil _).symm⟩

/-- An event is claimed, if nobody else has. -/
theorem ends_claimEvent (hs : s.Quiet) (event : KnownStreamEvent)
    (candidate : Option KnownStreamEvent)
    (hnew : s.sets (processedKey c) (env.parse.codec.uuidStr event.toStreamEvent.eventId) = false) :
    (system env P).Ends (healthyAt τ) p (claimEvent env c mid fields event candidate)
      (s.Becomes c p mid (match s.claims env c event.toStreamEvent.eventId with
        | .error e => .raises e
        | .ok false => .left
        | .ok true => .ofEvent (s.late env c event candidate))) s := by
  refine ends_bind.2 (ends_request fun o _ => ⟨.ok o.now, s, rfl, ends_bind.2 ?_⟩)
  generalize o.now = now
  refine ends_request fun o ho => ?_
  cases hraw : s.values (claimKey env c event.toStreamEvent.eventId) with
  | none =>
    have hclaims : s.claims env c event.toStreamEvent.eventId = .ok true := by
      simp only [claims, hraw]
    rw [hclaims]
    refine ⟨_, _, setNx_of_none ho hraw _, ?_⟩
    have hquiet : ({ s with
        values := Function.update s.values (claimKey env c event.toStreamEvent.eventId)
          (some (claimPayload env c mid now).toUTF8) } : World P).Quiet := hs.congr rfl rfl rfl
    exact (ends_yieldEvent hquiet event candidate).mono fun r s' h =>
      ⟨h.outcome, h.groups, h.yielded⟩
  | some raw =>
    refine ⟨_, _, setNx_of_some ho hraw _, ends_bind.2 (ends_request fun o ho =>
      ⟨_, _, get ho _, ?_⟩)⟩
    rw [hraw]
    split_ifs with hdec
    · -- The client raises, as decoding the claim would.
      obtain ⟨-, v, hv, hdec⟩ := hdec
      cases hv
      have hclaims : s.claims env c event.toStreamEvent.eventId = .error .value := by
        simp only [claims, hraw, hdec]
      rw [hclaims]
      exact ⟨rfl, rfl, (List.append_nil _).symm⟩
    · show (system env P).Ends (healthyAt τ) p (match decode raw with
        | none => throw .value
        | some "" => pure ()
        | some existing => do
          let mine ← ofExcept (ownsClaim env c existing)
          if mine then yieldEvent env c mid fields event candidate
          else do
            let processed ← request (.sismember (processedKey c)
              (env.parse.codec.uuidStr event.toStreamEvent.eventId))
            if processed then request (.xack c.stream c.group mid) else pure ()) _ _
      have hclaims : s.claims env c event.toStreamEvent.eventId = match decode raw with
          | none => .error .value
          | some "" => .ok false
          | some claim => ownsClaim env c claim := by
        simp only [claims, hraw]
      rw [hclaims]
      split
      · exact ⟨rfl, rfl, (List.append_nil _).symm⟩
      · exact ⟨rfl, rfl, (List.append_nil _).symm⟩
      · rename_i existing _ _
        refine ends_bind.2 (ends_ofExcept ?_)
        rcases ownsClaim env c existing with e | _ | _
        · exact ⟨rfl, rfl, (List.append_nil _).symm⟩
        · refine ends_bind.2 (ends_request fun o ho => ⟨_, _, sismember ho _ _, ?_⟩)
          rw [hnew]
          exact ⟨rfl, rfl, (List.append_nil _).symm⟩
        · exact ends_yieldEvent hs event candidate

/-- An event that passes the gates ends as its fate says. -/
theorem ends_processEvent (hs : s.Quiet) (event : KnownStreamEvent) :
    (system env P).Ends (healthyAt τ) p (processEvent env c mid fields event)
      (s.Becomes c p mid (s.fate env c event)) s := by
  refine ends_bind.2 ((ends_fetchCached hs _).mono ?_)
  rintro x s₁ ⟨rfl, hquiet, hsame⟩
  -- What the consumers have is the same as before, for the rest of the steps.
  have hbecomes : ∀ f r s', s₁.Becomes c p mid f r s' → s.Becomes c p mid f r s' := by
    rintro f r s' ⟨hr, hgroups, hyielded⟩
    refine ⟨hr, ?_, ?_⟩
    · simpa only [exec.acknowledge, hsame.groups] using hgroups
    · rwa [hsame.yielded] at hyielded
  have hclaims : s₁.claims env c event.toStreamEvent.eventId =
      s.claims env c event.toStreamEvent.eventId := by
    simp only [claims, hsame.values _ fun u => claimKey_ne]
  have hlate : ∀ candidate, s₁.late env c event candidate = s.late env c event candidate := by
    intro candidate
    simp only [late, hsame.registry]
  -- The steps after the candidate is known.
  have hrest : ∀ candidate, s.early env c event.toStreamEvent.eventId = .ok candidate →
      (system env P).Ends (healthyAt τ) p (do
        let processed ← request (.sismember (processedKey c)
          (env.parse.codec.uuidStr event.toStreamEvent.eventId))
        if processed then request (.xack c.stream c.group mid)
        else claimEvent env c mid fields event candidate)
        (s.Becomes c p mid (s.fate env c event)) s₁ := by
    intro candidate hcandidate
    refine ends_bind.2 (ends_request fun o ho => ⟨_, _, sismember ho _ _, ?_⟩)
    rw [fate, hcandidate, hsame.sets]
    cases hset : s.sets (processedKey c)
      (env.parse.codec.uuidStr event.toStreamEvent.eventId) with
    | true =>
      exact ends_request fun o ho => ⟨_, _, xack ho _ _ _, hbecomes .dropped _ _ ⟨rfl, rfl, (List.append_nil _).symm⟩⟩
    | false =>
      refine (ends_claimEvent hquiet event candidate (by rw [hsame.sets, hset])).mono ?_
      intro r s' h
      rw [hclaims, hlate] at h
      exact hbecomes _ _ _ h
  cases hlook : s.look env event.toStreamEvent.eventId with
  | error e =>
    have hearly : s.early env c event.toStreamEvent.eventId = .error e := by
      simp only [early, hlook]
    rw [fate, hearly]
    exact hbecomes (.raises e) _ _ ⟨rfl, rfl, (List.append_nil _).symm⟩
  | ok entry =>
    cases entry with
    | none => exact hrest none (by simp only [early, hlook])
    | some entry =>
      have hearly : s.early env c event.toStreamEvent.eventId =
          (eventFromRegistry env c.stream event.toStreamEvent.eventId entry.redactedPayload
            entry.redactedPayloadHash).map some := by
        simp only [early, hlook]
      refine ends_bind.2 (ends_ofExcept ?_)
      cases he : eventFromRegistry env c.stream event.toStreamEvent.eventId entry.redactedPayload
        entry.redactedPayloadHash with
      | ok e => exact hrest (some e) (by rw [hearly, he]; rfl)
      | error e =>
        rw [fate, hearly, he]
        exact hbecomes (.raises e) _ _ ⟨rfl, rfl, (List.append_nil _).symm⟩

/-! ### An iteration -/

/-- An entry with a payload only can be read. -/
theorem decodeFields_payload {payloadRaw : String} :
    decodeFields (encodeFields [("payload", payloadRaw)]) = some [("payload", payloadRaw)] := by
  simp only [decodeFields, encodeFields, List.map_cons, List.map_nil, dictOf, List.foldl_cons,
    List.foldl_nil, setItem, List.any_nil, Bool.false_eq_true, if_false, List.nil_append,
    List.mapM_cons, decodeField_toUTF8, List.mapM_nil]
  rfl

theorem not_unreadable_payload {mid : StreamId} {payloadRaw : String} :
    ¬Unreadable env [(mid, encodeFields [("payload", payloadRaw)])] := by
  rintro ⟨-, _, hmem, f, hf, hdec⟩
  rw [List.mem_singleton.1 hmem] at hf
  rw [List.mem_singleton.1 hf, decodeField_toUTF8] at hdec
  cases hdec

namespace World

/-- The group of the consumer, and the entry that it is given next: no other entry is new, or
    pending. -/
structure Delivers (s : World P) (c : Consumer) (group : Group) (entry : StreamId × RawFields) :
    Prop where
  group_eq : s.groups c.stream c.group = some group
  pending : group.pending = []
  fresh : (s.streams.get c.stream).entries.filter (group.lastDelivered < ·.1) = [entry]

/-- The state after the entry is delivered. -/
def deliver (s : World P) (c : Consumer) (entry : StreamId × RawFields) : World P :=
  { s with
    groups := Function.update s.groups c.stream <|
      Function.update (s.groups c.stream) c.group (some ⟨entry.1, [entry.1]⟩) }

end World

/-- An iteration in which a single entry is delivered is what is done with that entry. -/
theorem ends_consumeOnce {group : Group} {entry : StreamId × RawFields}
    (h : s.Delivers c group entry) {count : ℕ} (hcount : 0 < count)
    {Q : Except Exn Unit → World P → Prop}
    (hentry : if Unreadable env [entry] then Q (.error .value) (s.deliver c entry)
      else (system env P).Ends (healthyAt τ) p (processEntry env c entry) Q (s.deliver c entry)) :
    (system env P).Ends (healthyAt τ) p (consumeOnce env c count) Q s := by
  have htake : ([entry] : List (StreamId × RawFields)).take count = [entry] :=
    List.take_of_length_le hcount
  refine ends_bind.2 (ends_tryCatch.2 (ends_request fun o ho => ⟨.ok [], s, ?_, ?_⟩))
  · simp [World.exec, h.group_eq, h.pending, ho, World.redis, reply, Unreadable]
  show (system env P).Ends (healthyAt τ) p (do
    let fresh ← request (.xreadgroup c.stream c.group count)
    forEach (processEntry env c) fresh) Q s
  refine ends_bind.2 (ends_request fun o ho =>
    ⟨if Unreadable env [entry] then .error .value else .ok [entry], s.deliver c entry, ?_, ?_⟩)
  · simp only [World.exec, h.group_eq, h.fresh, htake, ho, h.pending, reply, World.redis]
    rfl
  · split_ifs at hentry ⊢ with hread
    · exact hentry
    · exact ends_bind.2 (hentry.mono fun r s' hr => by cases r <;> exact hr)

end Deadletter

end AslanCore
