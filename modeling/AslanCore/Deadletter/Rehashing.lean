import AslanCore.Deadletter.Alone
import AslanCore.Deadletter.Redaction
import AslanCore.Json.Jsonb

/-!
# Hashes that are taken again

The hash of a redacted payload is taken when it is registered, and again when a consumer has read
the payload: from a JSONB column, or from the text that an earlier reader of the column has left in
Redis. Is it the same hash?

* `ReadsAs`: what is read of a payload that is registered;
* `HashSurvives`: whatever is read has the hash of the payload, so that no consumer raises a
  `StreamRedactionIntegrityError`;
* `hashSurvives_iff`: the hash survives if and only if no float of the payload is -0.0, or 1e16 or
  more.
-/

namespace AslanCore

namespace Deadletter

open Streams (Uuid)

variable {env : Env} {payload payload' : JsonObject} {entry e : RegistryEntry} {text : String}

/-- The payload can be stored, and read again: `json.dumps` and `json.loads` raise nothing for it,
    and a JSONB column takes its numbers and its strings. -/
def Storable (env : Env) (payload : JsonObject) : Prop :=
  (Json.obj payload).Readable env.parse.depth

/-- What is read of a payload that is registered. -/
inductive ReadsAs (env : Env) (payload : JsonObject) : JsonObject → Prop
  /-- `fetch_registry_entry`: a JSONB column does not keep the order of the fields. -/
  | registry {payload' : JsonObject} (h : (Json.obj payload).readBack.Same (.obj payload')) :
    ReadsAs env payload payload'
  /-- `fetch_cached_registry_entry`: an entry of the registry was put into the cache. -/
  | cache {entry e : RegistryEntry} {text : String}
    (h : (Json.obj payload).readBack.Same (.obj entry.redactedPayload))
    (ht : cacheText env entry = some text) (he : cachedEntry env text.toUTF8 = .ok e) :
    ReadsAs env payload e.redactedPayload

/-- Whatever is read has the hash of the payload, and `_event_from_registry` does not reject it for
    its hash. -/
def HashSurvives (env : Env) (payload : JsonObject) : Prop :=
  ∀ payload', ReadsAs env payload payload' →
    canonicalPayloadHash env payload' = canonicalPayloadHash env payload ∧
    ∀ stream eventId hash, canonicalPayloadHash env payload = some hash →
      eventFromRegistry env stream eventId payload' hash ≠
        .error (.redactionIntegrity eventId stream)

/-- The text that is hashed. -/
def canonicalText (payload : JsonObject) : Option String :=
  (Json.obj payload).sortKeys.dumps { itemSeparator := [','], keySeparator := [':'] }

/-- The hash of the payload is not by chance that of what is read back. -/
def NoCollision (env : Env) (payload : JsonObject) : Prop :=
  canonicalPayloadHash env (readBackFields payload) = canonicalPayloadHash env payload →
    canonicalText (readBackFields payload) = canonicalText payload

/-! ### The hash -/

theorem canonicalPayloadHash_eq : canonicalPayloadHash env payload =
    (canonicalText payload).map env.sha256 := rfl

/-- The hash is that of the tree. -/
theorem canonicalPayloadHash_of_same (h : (Json.obj payload).Same (.obj payload'))
    (hd : (Json.obj payload).Distinct) :
    canonicalPayloadHash env payload' = canonicalPayloadHash env payload := by
  rw [canonicalPayloadHash, canonicalPayloadHash, sortKeys_of_same h hd]

theorem valid_canonical :
    DumpStyle.Valid { itemSeparator := [','], keySeparator := [':'] } where
  item := ⟨[], rfl, fun _ => rfl⟩
  key := ⟨[], rfl, fun _ => rfl⟩

/-- Payloads that are written in one way are the same tree. -/
theorem same_of_canonicalText {d : ℕ} (h : (Json.obj payload).Readable d)
    (h' : (Json.obj payload').Readable d) (heq : canonicalText payload = canonicalText payload') :
    (Json.obj payload).Same (.obj payload') := by
  refine same_of_render valid_canonical h h' ?_
  rw [canonicalText, canonicalText, Json.dumps, Json.dumps, if_pos h.sortKeys.writable,
    if_pos h'.sortKeys.writable] at heq
  exact String.ofList_injective (Option.some.inj heq)

/-- An event is rejected for its hash only if that is another. -/
theorem eventFromRegistry_ne {stream hash : String} {eventId : Uuid}
    (h : canonicalPayloadHash env payload = some hash) :
    eventFromRegistry env stream eventId payload hash ≠
      .error (.redactionIntegrity eventId stream) := by
  simp only [eventFromRegistry, h, ne_eq, not_true_eq_false, if_false]
  split
  · simp
  · split_ifs <;> simp

/-! ### The cache -/

/-- The payload of an entry is that of the text. -/
theorem exists_of_cachedEntry (he : cachedEntry env text.toUTF8 = .ok e) :
    ∃ data, loads env.parse.depth text = .ok (.obj data) ∧
      (getItem data "redacted_payload").bind (dictOfValue env) = .ok e.redactedPayload := by
  rw [cachedEntry, decode_toUTF8] at he
  simp only at he
  split at he
  · cases he
  · rename_i data hdata
    simp only [bind, except_bind_eq_ok] at he
    obtain ⟨eventId, -, reason, -, stream, -, o, ho, hash, -, original, -, he⟩ := he
    cases he
    exact ⟨data, hdata, except_bind_eq_ok.2 ho⟩
  · cases he

/-- A payload is read of the cache as it was put there, with its keys sorted. -/
theorem redactedPayload_of_cacheText
    (hp : (Json.obj entry.redactedPayload).Readable env.parse.depth)
    (ht : cacheText env entry = some text) (he : cachedEntry env text.toUTF8 = .ok e) :
    Json.obj e.redactedPayload = (Json.obj entry.redactedPayload).sortKeys := by
  obtain ⟨data, hdata, hpayload⟩ := exists_of_cachedEntry he
  rw [cacheText] at ht
  generalize hfields : [("event_id", Json.str (env.parse.codec.uuidStr entry.eventId)),
    ("redaction_reason", .str entry.redactionReason),
    ("original_stream", .str entry.originalStream),
    ("redacted_payload", .obj entry.redactedPayload),
    ("redacted_payload_hash", .str entry.redactedPayloadHash),
    ("original_payload_hash", .str entry.originalPayloadHash)] = fields at ht
  have hn : JsonObject.NodupKeys fields := by
    rw [JsonObject.NodupKeys, ← hfields]
    show List.Nodup ["event_id", "redaction_reason", "original_stream", "redacted_payload",
      "redacted_payload_hash", "original_payload_hash"]
    decide
  have hlookup : fields.lookup "redacted_payload" = some (.obj entry.redactedPayload) := by
    rw [← hfields]
    rfl
  -- The entry is one level deeper than its payload.
  have hread : (Json.obj fields).Readable (env.parse.depth + 1) := by
    refine .obj hn ?_
    rw [← hfields]
    simp only [List.forall_mem_cons, List.not_mem_nil, false_imp_iff, implies_true, and_true]
    exact ⟨.str _, .str _, .str _, hp, .str _, .str _⟩
  have hsorted := (loads_succ hdata).symm.trans
    (loads_dumps DumpStyle.valid_default hread.sortKeys ht)
  rw [Json.sortKeys, Except.ok.injEq, Json.obj.injEq] at hsorted
  simp only [getItem, hsorted, lookup_sortKeys hn, hlookup, Option.map_some, Except.bind,
    Json.sortKeys, dictOfValue, Except.ok.injEq] at hpayload
  rw [Json.sortKeys, hpayload]

/-! ### What is read -/

/-- What is read of a payload that keeps its floats is the same tree. -/
theorem ReadsAs.same (hs : Storable env payload) (hk : (Json.obj payload).KeepsFloats)
    (h : ReadsAs env payload payload') : (Json.obj payload).Same (.obj payload') := by
  rcases h with h | ⟨h, ht, he⟩
  · rwa [Json.readBack_of_keepsFloats hs hk] at h
  · rw [Json.readBack_of_keepsFloats hs hk] at h
    refine same_of_sortKeys ?_
    rw [redactedPayload_of_cacheText (h.readable hs) ht he, Json.sortKeys_sortKeys]
    exact sortKeys_of_same h hs.distinct

/-- The hash survives if and only if the payload keeps its floats. -/
theorem hashSurvives_iff (hs : Storable env payload) (hc : NoCollision env payload) :
    HashSurvives env payload ↔ (Json.obj payload).KeepsFloats := by
  constructor
  · intro h
    have hback : (Json.obj payload).readBack = .obj (readBackFields payload) := by
      rw [Json.readBack]
    have hread : (Json.obj (readBackFields payload)).Readable env.parse.depth := by
      rw [← hback]
      exact hs.readBack
    have hhash := (h (readBackFields payload) (.registry (hback ▸ Json.Same.refl _))).1
    rw [← Json.readBack_same_iff hs, hback]
    exact same_of_canonicalText hs hread (hc hhash).symm
  · intro hk payload' h
    have hhash : canonicalPayloadHash env payload' = canonicalPayloadHash env payload :=
      canonicalPayloadHash_of_same (h.same hs hk) hs.distinct
    exact ⟨hhash, fun stream eventId hash hp => eventFromRegistry_ne (hhash.trans hp)⟩

/-! ### Payloads of one field -/

/-- The digests of the texts of a payload of one field. -/
def digestEnv : Env where
  __ := plainEnv
  sha256 text :=
    if text = "\x7b\"x\":1\x7d" then
      "5041bf1f713df204784353e82f6a4a535931cb64f1f4b4a5aeaffcb720918b22"
    else if text = "\x7b\"x\":1e+16\x7d" then
      "21d6bea42b17fd31195fc9fc560ab7d0494ba833cdd094be2836c21506e84464"
    else if text = "\x7b\"x\":10000000000000000\x7d" then
      "d9ea702067d662ee3f58b5c6d52a45908d3759be54b49ff5689eabdae1b0a9d8"
    else text

theorem canonicalPayloadHash_singleton (k : String) (j : Json) :
    canonicalPayloadHash env [(k, j)] = ((Json.obj [(k, j.sortKeys)]).dumps
      { itemSeparator := [','], keySeparator := [':'] }).map env.sha256 := by
  rw [canonicalPayloadHash, Json.sortKeys, sortFields, sortFields, List.mergeSort_singleton]

/-- 1e16 is written as a float, and read back as an integer. -/
theorem not_hashSurvives_float : Storable digestEnv [("x", .float 0x4341C37937E08000)] ∧
    ¬HashSurvives digestEnv [("x", .float 0x4341C37937E08000)] := by
  refine ⟨.obj (List.nodup_singleton _) (List.forall_mem_singleton.2 (.float (by decide))), ?_⟩
  intro h
  have hread : ReadsAs digestEnv [("x", .float 0x4341C37937E08000)]
      [("x", .int 10000000000000000)] := by
    refine .registry ?_
    have hplain : (NumberText.repr (Json.floatNeg 0x4341C37937E08000)
        (Json.floatMagnitude 0x4341C37937E08000)).plain = .ofInt 10000000000000000 := by
      decide +kernel
    have hback : (Json.float 0x4341C37937E08000).readBack = .int 10000000000000000 := by
      rw [Json.readBack, hplain, NumberText.value, if_neg (NumberText.not_isFloat_ofInt _),
        NumberText.toInt_ofInt]
    rw [Json.readBack, readBackFields, readBackFields, hback]
    exact .refl _
  have hhash := (h _ hread).1
  rw [canonicalPayloadHash_singleton, canonicalPayloadHash_singleton] at hhash
  exact absurd hhash (by decide +kernel)

/-- An integer keeps its hash. -/
theorem hashSurvives_int : HashSurvives digestEnv [("x", .int 1)] := by
  refine (hashSurvives_iff ?_ fun _ => ?_).2 ?_
  · exact .obj (List.nodup_singleton _) (List.forall_mem_singleton.2 (.int (by decide)))
  · rw [readBackFields, readBackFields, readBack_int]
  · rw [Json.keepsFloats_obj_iff, List.forall_mem_singleton]
    exact Json.keepsFloats_of_isLeaf trivial (by rintro bits ⟨⟩)

end Deadletter

end AslanCore
