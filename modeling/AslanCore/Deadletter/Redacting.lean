import AslanCore.Deadletter.Containment
import AslanCore.Deadletter.SchemaGate
import AslanCore.Json.Same
import AslanCore.Streams.Redact

/-!
# Redactions that are delivered

An event is redacted: its payload, with the marker in the fields that some paths name, is registered
with its hash. Does a consumer yield the redacted event then? The registry is read as any payload is,
and the marker is no value of a field that is not text.

* `Registered`: the row of a redaction;
* `CacheAgrees`: the cache has the same as the registry, or nothing;
* `deliversRedacted_iff`: the consumer yields the redacted event if and only if no path names a field
  that is not text, and raises an exception otherwise.
-/

set_option linter.unusedSectionVars false

namespace AslanCore

namespace Deadletter

open AslanCore.System Outline Prog World
open Streams (Uuid KnownStreamEvent redactFields)

variable {P : Type} [DecidableEq P] {env : Env} {p : P} {c : Consumer} {s : World P}
  {mid : StreamId} {fields : Fields} {paths : List String} {event : KnownStreamEvent}
  {row : RegistryRow}

/-- The row has the redacted payload of the event, with its hash. The registry does not keep the
    order of the fields. -/
def Registered (env : Env) (paths : List String) (event : KnownStreamEvent) (row : RegistryRow) :
    Prop :=
  ∃ payload, Streams.redactOutboxPayload (.obj (event.modelDump env.parse.codec)) paths =
    .obj payload ∧ row.redactedPayload.Perm payload ∧
    canonicalPayloadHash env payload = some row.redactedPayloadHash

namespace World

/-- The cache has nothing of the event, or an entry with the payload and the hash of the row. -/
def CacheAgrees (env : Env) (s : World P) (u : Uuid) (row : RegistryRow) : Prop :=
  ∀ raw ∈ s.values (redactionCacheKey env u), ∃ entry, cachedEntry env raw = .ok entry ∧
    entry.redactedPayload.Perm row.redactedPayload ∧
    entry.redactedPayloadHash = row.redactedPayloadHash

/-- The consumer raises nothing, and yields an event with the values of the given one, but for those
    of the fields that the paths name. -/
def DeliversRedacted (env : Env) (p : P) (c : Consumer) (mid : StreamId) (fields : Fields)
    (paths : List String) (event : KnownStreamEvent) (s : World P) : Prop :=
  (system env P).Ends healthy p (processMessage env c mid fields)
    (fun x s' => x = .ok () ∧ ∃ e, s'.yielded = s.yielded ++ [(p, e)] ∧ ∀ name ∉ paths,
      (e.modelDump env.parse.codec).lookup name = (event.modelDump env.parse.codec).lookup name) s

end World

/-- The hash does not depend on the order of the fields. -/
theorem canonicalPayloadHash_of_perm {payload payload' : JsonObject} (hn : payload.NodupKeys)
    (h : payload.Perm payload') :
    canonicalPayloadHash env payload = canonicalPayloadHash env payload' := by
  have hsort : (sortFields payload).Perm (sortFields payload') := by
    rw [sortFields_eq, sortFields_eq]
    exact h.map _
  rw [canonicalPayloadHash, canonicalPayloadHash, sortKeys_obj_of_perm hn hsort]

/-- A row with the redacted payload offers an event if and only if text fields only are redacted. -/
theorem Registered.offers_iff (hc : env.parse.codec.Lawful) (hm : env.parse.codec.RejectsMarker)
    (h : Registered env paths event row) {row' : RegistryRow}
    (hpayload : row'.redactedPayload.Perm row.redactedPayload)
    (hhash : row'.redactedPayloadHash = row.redactedPayloadHash) {e : KnownStreamEvent} :
    Offers env event.toStreamEvent.eventId row' e ↔
      (∀ name ∈ Streams.typedNames event.kind, name ∉ paths) ∧ event.redact paths = e := by
  obtain ⟨payload, hredact, hperm, hh⟩ := h
  rw [Streams.redactOutboxPayload_modelDump] at hredact
  cases hredact
  have hperm := hpayload.trans hperm
  have hn : (redactFields paths (event.modelDump env.parse.codec)).NodupKeys := by
    rw [JsonObject.NodupKeys, Streams.keys_redactFields]
    exact Streams.nodupKeys_modelDump _ _
  rw [Offers, canonicalPayloadHash_of_perm ((hperm.map Prod.fst).nodup_iff.2 hn) hperm, hh, hhash,
    ← Streams.validatePython_perm hn hperm.symm, Streams.validatePython_redactFields hc hm]
  refine ⟨fun h => h.2.1, fun h => ⟨rfl, h, ?_⟩⟩
  rw [← h.2, Streams.eventId_redact]

section

variable (hc : env.parse.codec.Lawful) (hm : env.parse.codec.RejectsMarker)
  (hreg : Registered env paths event row)
  (hrow : s.registry event.toStreamEvent.eventId = some row)
  (hcache : s.CacheAgrees env event.toStreamEvent.eventId row)
include hc hm hreg hrow hcache

/-- If text fields only are redacted, the redacted event is found. -/
theorem early_of_registered (h : ∀ name ∈ Streams.typedNames event.kind, name ∉ paths) :
    s.early env c event.toStreamEvent.eventId = .ok (some (event.redact paths)) := by
  have hfrom : ∀ row' : RegistryRow, row'.redactedPayload.Perm row.redactedPayload →
      row'.redactedPayloadHash = row.redactedPayloadHash →
      eventFromRegistry env c.stream event.toStreamEvent.eventId row'.redactedPayload
        row'.redactedPayloadHash = .ok (event.redact paths) := fun row' hp hh =>
    eventFromRegistry_eq_ok_iff.2 ((hreg.offers_iff hc hm hp hh).2 ⟨h, rfl⟩)
  have hoffers := (hreg.offers_iff hc hm (.refl _) rfl).2 ⟨h, rfl⟩
  rw [early, look]
  cases hraw : s.values (redactionCacheKey env event.toStreamEvent.eventId) with
  | some raw =>
    obtain ⟨entry, hentry, hp, hh⟩ := hcache raw hraw
    simp only [hentry, Except.map, hfrom entry.toRegistryRow hp hh]
  | none =>
    obtain ⟨text, htext⟩ := hoffers.cacheText
    simp only [hrow, htext, Except.map, hfrom row (.refl _) rfl]

/-- Otherwise, an exception is raised when it is looked up. -/
theorem early_of_not_text (h : ¬∀ name ∈ Streams.typedNames event.kind, name ∉ paths) :
    ∃ e, s.early env c event.toStreamEvent.eventId = .error e := by
  have hfrom : ∀ row' : RegistryRow, row'.redactedPayload.Perm row.redactedPayload →
      row'.redactedPayloadHash = row.redactedPayloadHash →
      ∃ e, eventFromRegistry env c.stream event.toStreamEvent.eventId row'.redactedPayload
        row'.redactedPayloadHash = .error e := by
    intro row' hp hh
    cases hev : eventFromRegistry env c.stream event.toStreamEvent.eventId row'.redactedPayload
      row'.redactedPayloadHash with
    | error e => exact ⟨e, rfl⟩
    | ok e =>
      exact absurd ((hreg.offers_iff hc hm hp hh).1 (eventFromRegistry_eq_ok_iff.1 hev)).1 h
  rw [early, look]
  cases hraw : s.values (redactionCacheKey env event.toStreamEvent.eventId) with
  | some raw =>
    obtain ⟨entry, hentry, hp, hh⟩ := hcache raw hraw
    obtain ⟨e, he⟩ := hfrom entry.toRegistryRow hp hh
    exact ⟨e, by simp only [hentry, Except.map, he]⟩
  | none =>
    obtain ⟨e, he⟩ := hfrom row (.refl _) rfl
    simp only [hrow]
    cases cacheText env { row with eventId := event.toStreamEvent.eventId } with
    | none => exact ⟨_, rfl⟩
    | some text => exact ⟨e, by simp only [he, Except.map]⟩

end

/-- The steps that follow the gates, if the event passes them. -/
theorem ends_processMessage (hs : s.Quiet)
    (hgate : Streams.gate env.parse c.cfg c.stream (ridStr mid) fields = .ok (.event event)) :
    (system env P).Ends healthy p (processMessage env c mid fields)
      (s.Becomes c p mid (s.fate env c event)) s := by
  rw [processMessage, hgate]
  exact ends_processEvent hs event

section

variable (hc : env.parse.codec.Lawful) (hm : env.parse.codec.RejectsMarker)
  (hreg : Registered env paths event row)
  (hrow : s.registry event.toStreamEvent.eventId = some row)
  (hcache : s.CacheAgrees env event.toStreamEvent.eventId row) (hs : s.Quiet)
  (hgate : Streams.gate env.parse c.cfg c.stream (ridStr mid) fields = .ok (.event event))
include hc hm hreg hrow hcache hs hgate

/-- A redaction of a field that is not text is not delivered: the consumer raises. -/
theorem not_deliversRedacted (hno : ¬∀ name ∈ Streams.typedNames event.kind, name ∉ paths) :
    ¬DeliversRedacted env p c mid fields paths event s := by
  intro h
  obtain ⟨e, he⟩ := early_of_not_text hc hm hreg hrow hcache hno (c := c)
  have hends := ends_processMessage (p := p) hs hgate
  obtain ⟨x, s', hruns⟩ := hends.exists_runs
  have hbecomes := hends.of_runs hruns
  rw [fate, he] at hbecomes
  cases hbecomes.outcome.symm.trans (Ends.of_runs h hruns).1

/-- A redaction of an event that is new to the consumer is delivered if and only if no path names a
    field that is not text. -/
theorem deliversRedacted_iff
    (hnew : s.sets (processedKey c) (env.parse.codec.uuidStr event.toStreamEvent.eventId) = false)
    (hclaims : s.claims env c event.toStreamEvent.eventId = .ok true) :
    DeliversRedacted env p c mid fields paths event s ↔
      ∀ name ∈ Streams.typedNames event.kind, name ∉ paths := by
  refine ⟨fun h => ?_, fun h => ?_⟩
  · by_contra hno
    exact not_deliversRedacted hc hm hreg hrow hcache hs hgate hno h
  · have hlate : s.late env c event (some (event.redact paths)) = .ok (event.redact paths) := by
      simp only [late, hrow]
      exact eventFromRegistry_eq_ok_iff.2 ((hreg.offers_iff hc hm (.refl _) rfl).2 ⟨h, rfl⟩)
    have hfate : s.fate env c event = .yields (event.redact paths) := by
      simp only [fate, early_of_registered hc hm hreg hrow hcache h, hnew, hclaims, hlate,
        Fate.ofEvent, Bool.false_eq_true, if_false]
    refine (ends_processMessage hs hgate).mono fun x s' hx => ?_
    rw [hfate] at hx
    refine ⟨hx.outcome, event.redact paths, hx.yielded, fun name hname => ?_⟩
    rw [Streams.modelDump_redact h, Streams.lookup_redactFields]
    simp only [hname, if_false, Option.map_id']

end

/-- The marker is no identifier, no number and no datetime. -/
theorem rejectsMarker_lastDigit : Streams.Codec.lastDigit.RejectsMarker where
  int := rfl
  bool := rfl
  uuid := by
    have hrest : Streams.stripPrefix "00000000-0000-0000-0000-00000000000" Streams.marker = "" := by
      decide
    have hnone : "".toNat? = none := by
      rw [String.toNat?_eq_none_iff, ← Bool.not_eq_true, String.isNat_iff]
      simp
    show ((Streams.stripPrefix _ Streams.marker).toNat?).bind _ = none
    rw [hrest, hnone]
    rfl
  datetime := by
    have hrest : Streams.stripPrefix "2026-01-01T00:00:0" Streams.marker = "" := by decide
    have hnone : "".toInt? = none := by
      rw [String.toInt?_eq_none_iff, ← Bool.not_eq_true, String.isInt_iff]
      simp [String.isNat_iff]
    rw [Streams.Codec.datetime_str, hrest, hnone]
    rfl

/-- The row of a redaction of a filing. -/
def filingRedaction (paths : List String) : RegistryRow where
  redactionReason := "Art.17"
  originalStream := "aslan.kap.filings.new"
  redactedPayload := redactFields paths ((Streams.newFiling 1).modelDump .lastDigit)
  redactedPayloadHash := (canonicalPayloadHash plainEnv
    (redactFields paths ((Streams.newFiling 1).modelDump .lastDigit))).getD ""
  originalPayloadHash := ""

theorem registered_filingRedaction
    (hw : fieldsWritable (redactFields paths ((Streams.newFiling 1).modelDump .lastDigit)) = true) :
    Registered plainEnv paths (Streams.newFiling 1) (filingRedaction paths) := by
  refine ⟨_, Streams.redactOutboxPayload_modelDump _ _ _, .refl _, ?_⟩
  exact canonicalPayloadHash_eq_getD
    (Streams.isFlat_redactFields (Streams.isFlat_modelDump _ _)) hw

/-- Stores with a filing that is redacted. -/
def redactedWorld (paths : List String) : World Unit where
  __ := newEntryWorld Unit []
  registry := Function.update (fun _ => none) 1 (some (filingRedaction paths))

theorem quiet_redactedWorld : (redactedWorld paths).Quiet :=
  (quiet_newEntryWorld : (newEntryWorld Unit []).Quiet).congr rfl rfl rfl

theorem registry_redactedWorld :
    (redactedWorld paths).registry (Streams.newFiling 1).toStreamEvent.eventId =
      some (filingRedaction paths) := by
  simp only [redactedWorld, Streams.newFiling, KnownStreamEvent.toStreamEvent, Function.update_self]

/-- A filing without its title is delivered. -/
theorem deliversRedacted_title : DeliversRedacted plainEnv () filingConsumer (.ofMs 1)
    [("payload", filingText)] ["title"] (Streams.newFiling 1) (redactedWorld ["title"]) := by
  have hreg : Registered plainEnv ["title"] (Streams.newFiling 1) (filingRedaction ["title"]) :=
    registered_filingRedaction rfl
  have hiff := deliversRedacted_iff (p := ()) Streams.Codec.lawful_lastDigit rejectsMarker_lastDigit
    hreg registry_redactedWorld nofun quiet_redactedWorld
    (gate_filing parse_filingText) rfl rfl
  -- The text is not parsed again.
  rw [hiff]
  decide +kernel

/-- A filing without its date is not. -/
theorem not_deliversRedacted_publishedAt : ¬DeliversRedacted plainEnv () filingConsumer (.ofMs 1)
    [("payload", filingText)] ["published_at"] (Streams.newFiling 1)
    (redactedWorld ["published_at"]) := by
  have hreg : Registered plainEnv ["published_at"] (Streams.newFiling 1)
      (filingRedaction ["published_at"]) :=
    registered_filingRedaction rfl
  have hno := not_deliversRedacted (p := ()) Streams.Codec.lawful_lastDigit rejectsMarker_lastDigit
    hreg registry_redactedWorld nofun quiet_redactedWorld
    (gate_filing parse_filingText)
  exact hno (by decide +kernel)

end Deadletter

end AslanCore
