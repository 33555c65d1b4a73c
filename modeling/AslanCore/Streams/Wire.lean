import AslanCore.Outbox.Drainer
import AslanCore.Streams.Gate
import AslanCore.Streams.Publish

/-!
# From the producer to the consumer

An event crosses three encodings: its payload is stored as JSONB, which keeps the fields of an
object but not their order, a drainer writes it as the text of a field of an entry
(`Outbox.xaddFields`), and a consumer parses it (`parseOrRaise`).

* `ends_publish`: what is inserted when an event is published;
* `publish_parse`: the event that is parsed is the one that was stamped, and the fields that are
  copied next to the payload agree with it.
-/

namespace AslanCore

namespace Streams

/-- A known event, stamped. -/
def stampKnown (ctx : Context) (e : KnownStreamEvent) : KnownStreamEvent :=
  e.setStreamEvent (e.toStreamEvent.stamp ctx)

/-- The columns of a row that a drainer selects, with the payload that is stored. -/
def selectedRow (c : Codec) (row : OutboxRow) (stored : JsonObject) : Outbox.Row Json where
  outboxId := row.outboxId
  streamName := row.streamName
  eventId := c.uuidStr row.eventId
  schemaVersion := row.schemaVersion
  payload := .obj stored
  createdAt := row.createdAt

/-- The truth of a value. -/
def truthy : Json → Bool
  | .null => false
  | .bool b => b
  | .int n => n ≠ 0
  | .float bits => Json.floatMagnitude bits ≠ 0
  | .str s => s ≠ ""
  | .notText => true
  | .arr js => !js.isEmpty
  | .obj fields => !fields.isEmpty

/-- `str(payload.get(key) or "")`, where `str` is that of the values that are no strings. -/
def getStr (str : Json → String) (payload : Json) (key : String) : String :=
  match payload with
  | .obj o =>
    match o.lookup key with
    | none => ""
    | some (.str s) => s
    | some j => if truthy j then str j else ""
  | _ => ""

/-- What a drainer computes. -/
def drainEnv (str : Json → String) (formatExc : Outbox.Exn → String) : Outbox.Env Json where
  dumps j := (j.dumps {}).getD ""
  getStr := getStr str
  formatExc := formatExc

/-- The fields next to the payload agree with it. -/
structure Agree (fields : EntryFields) (payload : JsonObject) : Prop where
  eventId : ∃ s, fields.lookup "event_id" = some s ∧ payload.lookup "event_id" = some (.str s)
  schemaVersion : ∃ n : ℤ, fields.lookup "schema_version" = some (toString n) ∧
    payload.lookup "schema_version" = some (.int n)
  kind : ∃ s, fields.lookup "kind" = some s ∧ payload.lookup "kind" = some (.str s)
  traceparent : ∃ t : Option String, fields.lookup "traceparent" = some (t.getD "") ∧
    payload.lookup "traceparent" = some (orNull .str t)

variable {W : Type} {c : Codec} {ctx : Context} {s s' : Tx W} {e : KnownStreamEvent}
  {explicit : Option String}

theorem stamp_toEvent : stamp ctx (e.toEvent c) = (stampKnown ctx e).toEvent c := by
  rcases e with e | e | e | e | e <;> rfl

theorem modelDump_toEvent : (e.toEvent c).modelDump c = e.modelDump c := rfl

theorem ends_ofExcept {α : Type} {x r : Except PublishError α} :
    Ends c ctx (ofExcept x) s r s' ↔ r = x ∧ s' = s := by
  cases x <;> exact Iff.rfl

/-- What is inserted when an event is published. -/
theorem ends_publish {event : Event} {id : ℕ}
    (h : Ends c ctx (publish c ctx event explicit) s (.ok id) s') :
    ∃ stream now audit, resolveStream event explicit = .ok stream ∧
      s'.pending = s.pending ++
        [.outbox { outboxRow c ctx (stamp ctx event) stream now with outboxId := id },
          .audit audit] := by
  obtain ⟨x, s₁, hres, h₁⟩ := System.Runs.bind h
  obtain ⟨rfl, rfl⟩ := ends_ofExcept.1 hres
  cases hstream : resolveStream event explicit with
  | error e =>
    rw [hstream] at h₁
    cases h₁.1
  | ok stream =>
    rw [hstream] at h₁
    obtain ⟨x, s₂, hactor, h₂⟩ := System.Runs.bind h₁
    obtain ⟨rfl, rfl⟩ := ends_ofExcept.1 hactor
    cases hstrict : assertActorOrStrictRaise ctx with
    | error e =>
      rw [hstrict] at h₂
      cases h₂.1
    | ok u =>
      rw [hstrict] at h₂
      obtain ⟨y, s₃, hins, h₃⟩ := System.Runs.bind h₂
      rcases ends_insertOutbox hins with ⟨-, rfl, now, rfl⟩ | ⟨-, -, rfl | rfl⟩ | rfl
      · obtain ⟨z, s₄, haudit, h₄⟩ := System.Runs.bind h₃
        rcases ends_auditRecord haudit with ⟨rfl, audit, -, hs⟩ | rfl | rfl
        · obtain ⟨hid, rfl⟩ := h₄
          cases hid
          exact ⟨stream, now, audit, rfl, by rw [hs, Tx.insert, List.append_assoc]; rfl⟩
        · cases h₄.1
        · cases h₄.1
      · cases h₃.1
      · cases h₃.1
      · cases h₃.1

theorem lookup_kind (e : KnownStreamEvent) :
    (e.modelDump c).lookup "kind" = some (.str e.kind) := by
  rcases e with e | e | e | e | e <;> rfl

/-- An event that is published is the one that is parsed, however its payload is ordered. -/
theorem publish_parse (hc : c.Lawful) {id : ℕ}
    (h : Ends c ctx (publish c ctx (e.toEvent c) explicit) s (.ok id) s') :
    ∃ row audit, s'.pending = s.pending ++ [.outbox row, .audit audit] ∧
      ∀ stored : JsonObject, stored.Perm row.payload → (Json.obj stored).dumps {} ≠ none →
        ∀ (str : Json → String) (formatExc : Outbox.Exn → String) (env : ParseEnv)
          (messageId : String), env.codec = c → 0 < env.depth →
          let fields := Outbox.xaddFields (drainEnv str formatExc) (selectedRow c row stored)
          parseOrRaise env row.streamName messageId fields = .ok (stampKnown ctx e) ∧
            Agree fields stored := by
  obtain ⟨stream, now, audit, -, hs⟩ := ends_publish h
  rw [stamp_toEvent] at hs
  refine ⟨_, audit, hs, ?_⟩
  intro stored hperm hdumps str formatExc env messageId hcodec hdepth fields
  obtain ⟨text, htext⟩ := Option.ne_none_iff_exists'.1 hdumps
  obtain ⟨d, hd⟩ := Nat.exists_eq_succ_of_ne_zero (Nat.ne_of_gt hdepth)
  -- The payload is that of the event, up to the order of its fields.
  have hperm : stored.Perm ((stampKnown ctx e).modelDump c) := hperm
  have hn : stored.NodupKeys := (hperm.map Prod.fst).nodup_iff.2 (nodupKeys_modelDump c _)
  obtain ⟨hload, hvalid⟩ := loads_modelDump hc hperm htext (d := d)
  have hlookup : ∀ k, stored.lookup k = ((stampKnown ctx e).modelDump c).lookup k :=
    fun k => JsonObject.lookup_perm hn hperm
  constructor
  · have hp : fields.lookup "payload" = some text := by
      simp [fields, Outbox.xaddFields, drainEnv, selectedRow, htext, List.lookup_cons]
    exact parseOrRaise_of_loads hp (by rw [hd]; exact hload) (by rw [hcodec]; exact hvalid)
  · refine ⟨⟨_, rfl, ?_⟩, ⟨_, rfl, ?_⟩, ⟨(stampKnown ctx e).kind, ?_, ?_⟩,
      ⟨(stampKnown ctx e).toStreamEvent.traceparent, ?_, ?_⟩⟩
    · rw [hlookup]
      rfl
    · rw [hlookup]
      rfl
    · simp [fields, Outbox.xaddFields, drainEnv, selectedRow, getStr, hlookup, lookup_kind,
        List.lookup_cons]
    · rw [hlookup, lookup_kind]
    · have htp : ((stampKnown ctx e).modelDump c).lookup "traceparent" =
          some (orNull .str (stampKnown ctx e).toStreamEvent.traceparent) := rfl
      cases ht : (stampKnown ctx e).toStreamEvent.traceparent <;>
        simp [fields, Outbox.xaddFields, drainEnv, selectedRow, getStr, hlookup, htp, ht, orNull,
          truthy, List.lookup_cons]
    · rw [hlookup]
      rfl

/-- A filing that is published after what the transaction has written is parsed. -/
theorem publish_parse_newFiling : ∃ row : OutboxRow,
    parseOrRaise plainEnv row.streamName "1-0"
      (Outbox.xaddFields (drainEnv (fun _ => "") (fun _ => ""))
        (selectedRow .lastDigit row row.payload)) =
      .ok (stampKnown backgroundContext (newFiling 1)) := by
  have hrun : Ends .lastDigit backgroundContext
      (publish .lastDigit backgroundContext ((newFiling 1).toEvent .lastDigit) none)
      (writtenTx []) (.ok 2) _ :=
    ⟨{}, .ok 0, _, trivial, rfl, {}, .ok 2, _, trivial, rfl, {}, .ok (), _, trivial, rfl, rfl,
      rfl⟩
  obtain ⟨row, audit, hs, hparse⟩ := publish_parse Codec.lawful_lastDigit hrun
  have hpayload : row.payload =
      (stampKnown backgroundContext (newFiling 1)).modelDump .lastDigit := by
    cases hs
    rfl
  refine ⟨row, (hparse row.payload (.refl _) ?_ _ _ plainEnv "1-0" rfl (by decide)).1⟩
  have hw : (Json.obj row.payload).writable = true := by
    rw [hpayload]
    rfl
  rw [Json.dumps, if_pos hw]
  exact Option.some_ne_none _

end Streams

end AslanCore
