import AslanCore.Bytes
import AslanCore.Json.Same

/-!
# Payload hashes

The bytes that are hashed for an observation (`payloadBytes`): its value, its text, its flag and its
metadata, each after a letter, and the texts after their lengths. The strings of the metadata,
and the names of their fields, are put in a normal form of Unicode (NFC, a parameter); names with
one normal form become one field, and only one of their values is written.

* `payloadBytes_eq_iff`: the bytes of two observations are equal if and only if the values, the
  normal texts, the flags and the written metadata are;
* `sortKeys_normJson`: what is written of metadata is their normal form in order, if its names are
  distinct;
* `toldApart_iff`: the bytes of an observation tell it apart from every observation with distinct
  normal names, up to normal forms and the order of fields, if and only if its own normal names
  are distinct.
-/

namespace AslanCore.Timeseries

/-- The fields of an `ObservationIn` that `payload_hash` reads: the value is given by its 64 bits,
    and exactly one of value and text is there. -/
structure ObservationIn where
  value : Option (BitVec 64)
  valueText : Option String
  qualityFlag : ℤ
  metadata : JsonObject
  exactlyOneValue : value.isSome ≠ valueText.isSome

mutual

/-- `_validate_metadata_finite` passes. -/
def validateMetadataFinite : Json → Bool
  | .float bits => Json.floatMagnitude bits < Binary64.infinity
  | .arr js => validateItemsFinite js
  | .obj fields => validateFieldsFinite fields
  | _ => true

def validateItemsFinite : List Json → Bool
  | [] => true
  | j :: js => validateMetadataFinite j && validateItemsFinite js

def validateFieldsFinite : JsonObject → Bool
  | [] => true
  | (_, j) :: fields => validateMetadataFinite j && validateFieldsFinite fields

end

section

variable (nfc : String → String)

mutual

/-- `_norm`: the fields of an object are taken in the order of their names, and assigned one after
    the other to their normal names. -/
def normJson : Json → Json
  | .str s => .str (nfc s)
  | .arr js => .arr (normItems js)
  | .obj fields => .obj (JsonObject.ofFields
      (((normFields fields).mergeSort fun f g => f.1 ≤ g.1).map fun f => (nfc f.1, f.2)))
  | j => j

def normItems : List Json → List Json
  | [] => []
  | j :: js => normJson j :: normItems js

def normFields : JsonObject → JsonObject
  | [] => []
  | (k, j) :: fields => (k, normJson j) :: normFields fields

end

/-- `separators=(",", ":"), ensure_ascii=False`. -/
def canonicalStyle : DumpStyle where
  itemSeparator := [',']
  keySeparator := [':']
  ensureAscii := false

/-- `_canonical_json_bytes`, unless `json.dumps` or the encoding raises. -/
def canonicalJsonBytes (metadata : JsonObject) : Option (List UInt8) :=
  ((normJson nfc (.obj metadata)).sortKeys.dumps canonicalStyle).map utf8

/-- `_PAYLOAD_HASH_DOMAIN`. -/
def payloadHashDomain : List UInt8 := utf8 "aslan-core/observation/v1\x00"

/-- The bytes of the value. -/
def valueBytes : Option (BitVec 64) → List UInt8
  | some bits => 0x56 :: bigEndian 8 bits.toNat
  | none => [0x76]

/-- The bytes of the text. -/
def textBytes : Option String → Option (List UInt8)
  | some t => (lengthPrefixed (utf8 (nfc t))).map (0x54 :: ·)
  | none => some [0x74]

/-- The bytes that `payload_hash` hashes, unless it raises. -/
def payloadBytes (o : ObservationIn) : Option (List UInt8) :=
  if validateMetadataFinite (.obj o.metadata) then do
    let text ← textBytes nfc o.valueText
    let flag ← signed32 o.qualityFlag
    let metaBytes ← canonicalJsonBytes nfc o.metadata
    let body ← lengthPrefixed metaBytes
    some (payloadHashDomain ++ (valueBytes o.value ++ (text ++ (0x51 :: (flag ++ (0x4d :: body))))))
  else none

mutual

/-- The value with every string, and the name of every field, in its normal form. -/
def normalForm : Json → Json
  | .str s => .str (nfc s)
  | .arr js => .arr (itemsNormalForm js)
  | .obj fields => .obj (fieldsNormalForm fields)
  | j => j

def itemsNormalForm : List Json → List Json
  | [] => []
  | j :: js => normalForm j :: itemsNormalForm js

def fieldsNormalForm : JsonObject → JsonObject
  | [] => []
  | (k, j) :: fields => (nfc k, normalForm j) :: fieldsNormalForm fields

end

/-- Two observations have the same payload: the bits of the value, the normal text, the flag, and
    the metadata as trees of normal strings. -/
structure SamePayload (o o' : ObservationIn) : Prop where
  value : o.value = o'.value
  valueText : o.valueText.map nfc = o'.valueText.map nfc
  qualityFlag : o.qualityFlag = o'.qualityFlag
  metadata : (normalForm nfc (.obj o.metadata)).Same (normalForm nfc (.obj o'.metadata))

/-- No dictionary of the metadata has two names with one normal form. -/
def DistinctNames (o : ObservationIn) : Prop := (normalForm nfc (.obj o.metadata)).Distinct

/-- The bytes of the observation are those of another one, with distinct names, if and only if
    both have the same payload. -/
def ToldApart (o : ObservationIn) : Prop :=
  ∀ o' bytes bytes', DistinctNames nfc o' → payloadBytes nfc o = some bytes →
    payloadBytes nfc o' = some bytes' → (bytes = bytes' ↔ SamePayload nfc o o')

end

variable {nfc : String → String} {fields : JsonObject} {o o' : ObservationIn}
  {bytes bytes' : List UInt8}

/-! ### Normal forms -/

/-- A dictionary has no other fields than those that are assigned. -/
theorem mem_ofFields {f : String × Json} (h : f ∈ JsonObject.ofFields fields) : f ∈ fields := by
  suffices hfold : ∀ o : JsonObject, f ∈ fields.foldl (fun o f => o.setItem f.1 f.2) o →
      f ∈ o ∨ f ∈ fields by
    exact (hfold [] h).resolve_left List.not_mem_nil
  clear h
  induction fields with
  | nil => exact fun o h => .inl h
  | cons g fields ih =>
    intro o h
    rcases ih _ h with h | h
    · simp only [JsonObject.setItem] at h
      split_ifs at h
      · obtain ⟨f', hf', heq⟩ := List.mem_map.1 h
        split_ifs at heq
        · exact .inr (heq ▸ List.mem_cons_self)
        · exact .inl (heq ▸ hf')
      · rcases List.mem_append.1 h with h | h
        · exact .inl h
        · exact .inr (List.mem_singleton.1 h ▸ List.mem_cons_self)
    · exact .inr (List.mem_cons_of_mem _ h)

theorem normFields_eq (fields : JsonObject) :
    normFields nfc fields = fields.map fun f => (f.1, normJson nfc f.2) := by
  induction fields with
  | nil => rw [normFields, List.map_nil]
  | cons f fields ih => rw [normFields, ih, List.map_cons]

theorem fieldsNormalForm_eq (fields : JsonObject) :
    fieldsNormalForm nfc fields = fields.map fun f => (nfc f.1, normalForm nfc f.2) := by
  induction fields with
  | nil => rw [fieldsNormalForm, List.map_nil]
  | cons f fields ih => rw [fieldsNormalForm, ih, List.map_cons]

variable (nfc) in
/-- The fields that are assigned, in another order. -/
theorem assigned_perm (fields : JsonObject) :
    (((normFields nfc fields).mergeSort fun f g => f.1 ≤ g.1).map fun f => (nfc f.1, f.2)).Perm
      (fields.map fun f => (nfc f.1, normJson nfc f.2)) := by
  have hmap : (fields.map fun f => (nfc f.1, normJson nfc f.2)) =
      (normFields nfc fields).map fun f => (nfc f.1, f.2) := by
    rw [normFields_eq, List.map_map]
    rfl
  rw [hmap]
  exact (List.mergeSort_perm _ _).map _

/-- A field that is written is one of the metadata, in its normal form. -/
theorem exists_of_mem_normJson {f : String × Json}
    (h : f ∈ JsonObject.ofFields
      (((normFields nfc fields).mergeSort fun f g => f.1 ≤ g.1).map fun f => (nfc f.1, f.2))) :
    ∃ g ∈ fields, f = (nfc g.1, normJson nfc g.2) := by
  obtain ⟨g, hg, heq⟩ := List.mem_map.1 ((assigned_perm nfc fields).mem_iff.1 (mem_ofFields h))
  exact ⟨g, hg, heq.symm⟩

section

variable (nfc)

mutual

/-- What is written has distinct names. -/
theorem distinct_normJson : ∀ j : Json, (normJson nfc j).Distinct
  | .null | .bool _ | .int _ | .float _ | .str _ | .notText => by simp [normJson, Json.Distinct]
  | .arr js => by
    simp only [normJson, Json.Distinct]
    exact distinct_normItems js
  | .obj fields => by
    simp only [normJson, Json.Distinct]
    refine ⟨nodupKeys_ofFields _, fieldsDistinct_iff.2 fun f hf => ?_⟩
    obtain ⟨g, hg, rfl⟩ := exists_of_mem_normJson hf
    exact distinct_normFields fields g hg

theorem distinct_normItems : ∀ js : List Json, ItemsDistinct (normItems nfc js)
  | [] => by simp [normItems, ItemsDistinct]
  | j :: js => by
    rw [normItems, ItemsDistinct]
    exact ⟨distinct_normJson j, distinct_normItems js⟩

theorem distinct_normFields : ∀ fields : JsonObject, ∀ f ∈ fields, (normJson nfc f.2).Distinct
  | [], f, hf => absurd hf List.not_mem_nil
  | (k, j) :: fields, f, hf => by
    rcases List.mem_cons.1 hf with rfl | hf
    · exact distinct_normJson j
    · exact distinct_normFields fields f hf

end

end

mutual

/-- Metadata with distinct normal names are written in their normal form. -/
theorem sortKeys_normJson :
    ∀ {j : Json}, (normalForm nfc j).Distinct → (normJson nfc j).sortKeys = (normalForm nfc j).sortKeys
  | .null, _ | .bool _, _ | .int _, _ | .float _, _ | .str _, _ | .notText, _ => by
    simp [normJson, normalForm]
  | .arr js, h => by
    simp only [normalForm, Json.Distinct] at h
    rw [normJson, normalForm, Json.sortKeys, Json.sortKeys, sortItems_normItems h]
  | .obj fields, h => by
    simp only [normalForm, Json.Distinct] at h
    obtain ⟨hn, hfields⟩ := h
    -- The names are distinct: every field that is assigned is kept.
    have hassigned := assigned_perm nfc fields
    have hkeys : JsonObject.NodupKeys
        (((normFields nfc fields).mergeSort fun f g => f.1 ≤ g.1).map fun f => (nfc f.1, f.2)) := by
      refine (hassigned.map Prod.fst).nodup_iff.2 ?_
      rw [JsonObject.NodupKeys, fieldsNormalForm_eq, List.map_map] at hn
      rwa [List.map_map]
    rw [normJson, normalForm, ofFields_eq hkeys]
    refine sortKeys_obj_of_perm hkeys ?_
    rw [← sortFields_normFields hfields, sortFields_eq]
    have hsorted := hassigned.map fun f : String × Json => (f.1, f.2.sortKeys)
    rwa [List.map_map (l := fields)] at hsorted

theorem sortItems_normItems :
    ∀ {js : List Json}, ItemsDistinct (itemsNormalForm nfc js) →
      sortItems (normItems nfc js) = sortItems (itemsNormalForm nfc js)
  | [], _ => by rw [normItems, itemsNormalForm]
  | j :: js, h => by
    rw [itemsNormalForm, ItemsDistinct] at h
    rw [normItems, itemsNormalForm, sortItems, sortItems, sortKeys_normJson h.1,
      sortItems_normItems h.2]

theorem sortFields_normFields :
    ∀ {fields : JsonObject}, FieldsDistinct (fieldsNormalForm nfc fields) →
      (fields.map fun f => (nfc f.1, (normJson nfc f.2).sortKeys)) =
        sortFields (fieldsNormalForm nfc fields)
  | [], _ => by simp [fieldsNormalForm, sortFields]
  | (k, j) :: fields, h => by
    rw [fieldsNormalForm, FieldsDistinct] at h
    rw [List.map_cons, fieldsNormalForm, sortFields, sortKeys_normJson h.1, sortFields_normFields h.2]

end

mutual

/-- What is written is in its normal form. -/
theorem normalForm_normJson (hnfc : ∀ s, nfc (nfc s) = nfc s) :
    ∀ j : Json, normalForm nfc (normJson nfc j) = normJson nfc j
  | .null | .bool _ | .int _ | .float _ | .notText => by simp [normJson, normalForm]
  | .str s => by simp [normJson, normalForm, hnfc]
  | .arr js => by rw [normJson, normalForm, itemsNormalForm_normItems hnfc js]
  | .obj fields => by
    rw [normJson, normalForm, fieldsNormalForm_eq]
    refine congrArg Json.obj ((List.map_congr_left fun f hf => ?_).trans (List.map_id _))
    obtain ⟨g, hg, rfl⟩ := exists_of_mem_normJson hf
    simp only [hnfc, normalForm_normFields hnfc fields g hg, id]

theorem itemsNormalForm_normItems (hnfc : ∀ s, nfc (nfc s) = nfc s) :
    ∀ js : List Json, itemsNormalForm nfc (normItems nfc js) = normItems nfc js
  | [] => by rw [normItems, itemsNormalForm]
  | j :: js => by
    rw [normItems, itemsNormalForm, normalForm_normJson hnfc j, itemsNormalForm_normItems hnfc js]

theorem normalForm_normFields (hnfc : ∀ s, nfc (nfc s) = nfc s) :
    ∀ fields : JsonObject, ∀ f ∈ fields, normalForm nfc (normJson nfc f.2) = normJson nfc f.2
  | [], f, hf => absurd hf List.not_mem_nil
  | (k, j) :: fields, f, hf => by
    rcases List.mem_cons.1 hf with rfl | hf
    · exact normalForm_normJson hnfc j
    · exact normalForm_normFields hnfc fields f hf

end

/-! ### Bytes -/

theorem validateFieldsFinite_iff :
    validateFieldsFinite fields = true ↔ ∀ f ∈ fields, validateMetadataFinite f.2 = true := by
  induction fields with
  | nil => exact ⟨nofun, fun _ => rfl⟩
  | cons f fields ih => rw [validateFieldsFinite, Bool.and_eq_true, ih, List.forall_mem_cons]

mutual

/-- Metadata whose floats are finite are written with finite floats. -/
theorem finite_normJson :
    ∀ {j : Json}, validateMetadataFinite j = true → validateMetadataFinite (normJson nfc j) = true
  | .null, h | .bool _, h | .int _, h | .float _, h | .notText, h => by rwa [normJson] <;> simp
  | .str s, _ => by rw [normJson]; rfl
  | .arr js, h => by
    rw [validateMetadataFinite] at h
    rw [normJson, validateMetadataFinite]
    exact finite_normItems h
  | .obj fields, h => by
    rw [validateMetadataFinite] at h
    rw [normJson, validateMetadataFinite, validateFieldsFinite_iff]
    intro f hf
    obtain ⟨g, hg, rfl⟩ := exists_of_mem_normJson hf
    exact finite_normFields h g hg

theorem finite_normItems :
    ∀ {js : List Json}, validateItemsFinite js = true → validateItemsFinite (normItems nfc js) = true
  | [], _ => by rw [normItems]; rfl
  | j :: js, h => by
    rw [validateItemsFinite, Bool.and_eq_true] at h
    rw [normItems, validateItemsFinite, Bool.and_eq_true]
    exact ⟨finite_normJson h.1, finite_normItems h.2⟩

theorem finite_normFields :
    ∀ {fields : JsonObject}, validateFieldsFinite fields = true →
      ∀ f ∈ fields, validateMetadataFinite (normJson nfc f.2) = true
  | [], _, f, hf => absurd hf List.not_mem_nil
  | (k, j) :: fields, h, f, hf => by
    rw [validateFieldsFinite, Bool.and_eq_true] at h
    rcases List.mem_cons.1 hf with rfl | hf
    · exact finite_normJson h.1
    · exact finite_normFields h.2 f hf

end

mutual

/-- What is written can be read, if it is read deep enough. -/
theorem exists_readable :
    ∀ {j : Json}, validateMetadataFinite j = true → j.Distinct → j.sortKeys.writable = true →
      ∃ d, ∀ d' ≥ d, j.sortKeys.Readable d'
  | .null, _, _, _ => ⟨0, fun _ _ => .null⟩
  | .bool b, _, _, _ => ⟨0, fun _ _ => .bool b⟩
  | .int n, _, _, h => ⟨0, fun _ _ => .int (of_decide_eq_true h)⟩
  | .float bits, h, _, _ => ⟨0, fun _ _ => .float (of_decide_eq_true h)⟩
  | .str s, _, _, _ => ⟨0, fun _ _ => .str s⟩
  | .notText, _, _, h => nomatch h
  | .arr js, hfinite, hdistinct, hwritable => by
    obtain ⟨d, hd⟩ := exists_readable_items hfinite hdistinct hwritable
    refine ⟨d + 1, fun d' hle => ?_⟩
    obtain ⟨d', rfl⟩ := Nat.exists_eq_add_one_of_ne_zero (show d' ≠ 0 by omega)
    exact .arr (hd _ (by omega))
  | .obj fields, hfinite, hdistinct, hwritable => by
    obtain ⟨d, hd⟩ := exists_readable_fields hfinite hdistinct.2 (writable_sortKeys_obj.1 hwritable)
    refine ⟨d + 1, fun d' hle => ?_⟩
    obtain ⟨d', rfl⟩ := Nat.exists_eq_add_one_of_ne_zero (show d' ≠ 0 by omega)
    refine .obj ?_ fun f hf => ?_
    · refine ((List.mergeSort_perm _ _).map Prod.fst).nodup_iff.2 ?_
      rw [keys_sortFields]
      exact hdistinct.1
    · rw [List.mem_mergeSort, sortFields_eq] at hf
      obtain ⟨g, hg, rfl⟩ := List.mem_map.1 hf
      exact hd _ (by omega) g hg

theorem exists_readable_items :
    ∀ {js : List Json}, validateItemsFinite js = true → ItemsDistinct js →
      itemsWritable (sortItems js) = true → ∃ d, ∀ d' ≥ d, ∀ j ∈ sortItems js, j.Readable d'
  | [], _, _, _ => ⟨0, fun _ _ => nofun⟩
  | j :: js, hfinite, hdistinct, hwritable => by
    rw [validateItemsFinite, Bool.and_eq_true] at hfinite
    rw [sortItems, itemsWritable, Bool.and_eq_true] at hwritable
    obtain ⟨d, hd⟩ := exists_readable hfinite.1 hdistinct.1 hwritable.1
    obtain ⟨ds, hds⟩ := exists_readable_items hfinite.2 hdistinct.2 hwritable.2
    refine ⟨max d ds, fun d' hle => ?_⟩
    rw [sortItems]
    exact List.forall_mem_cons.2 ⟨hd d' (le_of_max_le_left hle), hds d' (le_of_max_le_right hle)⟩

theorem exists_readable_fields :
    ∀ {fields : JsonObject}, validateFieldsFinite fields = true → FieldsDistinct fields →
      (∀ f ∈ fields, f.2.sortKeys.writable = true) →
      ∃ d, ∀ d' ≥ d, ∀ f ∈ fields, f.2.sortKeys.Readable d'
  | [], _, _, _ => ⟨0, fun _ _ => nofun⟩
  | (k, j) :: fields, hfinite, hdistinct, hwritable => by
    rw [validateFieldsFinite, Bool.and_eq_true] at hfinite
    obtain ⟨hj, hfields⟩ := List.forall_mem_cons.1 hwritable
    obtain ⟨d, hd⟩ := exists_readable hfinite.1 hdistinct.1 hj
    obtain ⟨ds, hds⟩ := exists_readable_fields hfinite.2 hdistinct.2 hfields
    refine ⟨max d ds, fun d' hle => ?_⟩
    exact List.forall_mem_cons.2 ⟨hd d' (le_of_max_le_left hle), hds d' (le_of_max_le_right hle)⟩

end

/-- The style writes no blanks. -/
theorem canonicalStyle_valid : canonicalStyle.Valid where
  item := ⟨[], rfl, fun _ => rfl⟩
  key := ⟨[], rfl, fun _ => rfl⟩

/-- The bytes of metadata are equal if and only if what is written is. -/
theorem canonicalJsonBytes_eq_iff {metadata metadata' : JsonObject}
    (hfinite : validateMetadataFinite (.obj metadata) = true)
    (hfinite' : validateMetadataFinite (.obj metadata') = true)
    (h : canonicalJsonBytes nfc metadata = some bytes)
    (h' : canonicalJsonBytes nfc metadata' = some bytes') :
    bytes = bytes' ↔
      (normJson nfc (.obj metadata)).sortKeys = (normJson nfc (.obj metadata')).sortKeys := by
  obtain ⟨text, htext, rfl⟩ := Option.map_eq_some_iff.1 h
  obtain ⟨text', htext', rfl⟩ := Option.map_eq_some_iff.1 h'
  constructor
  · intro heq
    obtain rfl := utf8_inj heq
    have hwritable : ∀ {j : Json}, j.dumps canonicalStyle = some text → j.writable = true := by
      intro j hj
      rw [Json.dumps] at hj
      split_ifs at hj with hwritable
      exact hwritable
    obtain ⟨d, hd⟩ := exists_readable (finite_normJson hfinite) (distinct_normJson nfc _)
      (hwritable htext)
    obtain ⟨d', hd'⟩ := exists_readable (finite_normJson hfinite') (distinct_normJson nfc _)
      (hwritable htext')
    have hread := loads_dumps canonicalStyle_valid (hd _ (le_max_left d d')) htext
    have hread' := loads_dumps canonicalStyle_valid (hd' _ (le_max_right d d')) htext'
    exact Except.ok.inj (hread.symm.trans hread')
  · intro heq
    rw [heq] at htext
    exact congrArg utf8 (Option.some.inj (htext.symm.trans htext'))

/-- What `payload_hash` hashes, part by part. -/
theorem payloadBytes_eq_some (h : payloadBytes nfc o = some bytes) :
    validateMetadataFinite (.obj o.metadata) = true ∧
      ∃ text flag metaBytes body, textBytes nfc o.valueText = some text ∧
        signed32 o.qualityFlag = some flag ∧ canonicalJsonBytes nfc o.metadata = some metaBytes ∧
        lengthPrefixed metaBytes = some body ∧
        bytes = payloadHashDomain ++
          (valueBytes o.value ++ (text ++ (0x51 :: (flag ++ (0x4d :: body))))) := by
  unfold payloadBytes at h
  split_ifs at h with hfinite
  simp only [Option.bind_eq_bind, Option.bind_eq_some_iff, Option.some.injEq] at h
  obtain ⟨text, htext, flag, hflag, metaBytes, hmeta, body, hbody, hbytes⟩ := h
  exact ⟨hfinite, text, flag, metaBytes, body, htext, hflag, hmeta, hbody, hbytes.symm⟩

/-- The value in front of other bytes. -/
theorem valueBytes_append_inj {v v' : Option (BitVec 64)} {rest rest' : List UInt8}
    (h : valueBytes v ++ rest = valueBytes v' ++ rest') : v = v' ∧ rest = rest' := by
  rcases v with _ | bits <;> rcases v' with _ | bits'
  · exact ⟨rfl, (List.cons.inj h).2⟩
  · exact absurd (List.cons.inj h).1 (by decide)
  · exact absurd (List.cons.inj h).1 (by decide)
  · obtain ⟨hbits, hrest⟩ := bigEndian_append_inj bits.isLt bits'.isLt (List.cons.inj h).2
    exact ⟨congrArg some (BitVec.eq_of_toNat_eq hbits), hrest⟩

/-- The text in front of other bytes. -/
theorem textBytes_append_inj {t t' : Option String} {text text' rest rest' : List UInt8}
    (ht : textBytes nfc t = some text) (ht' : textBytes nfc t' = some text')
    (h : text ++ rest = text' ++ rest') : t.map nfc = t'.map nfc ∧ rest = rest' := by
  rcases t with _ | t <;> rcases t' with _ | t' <;>
    simp only [textBytes, Option.some.injEq, Option.map_eq_some_iff] at ht ht'
  · subst ht ht'
    exact ⟨rfl, (List.cons.inj h).2⟩
  · obtain ⟨code, -, rfl⟩ := ht'
    subst ht
    exact absurd (List.cons.inj h).1 (by decide)
  · obtain ⟨code, -, rfl⟩ := ht
    subst ht'
    exact absurd (List.cons.inj h).1 (by decide)
  · obtain ⟨code, hcode, rfl⟩ := ht
    obtain ⟨code', hcode', rfl⟩ := ht'
    obtain ⟨htext, hrest⟩ := lengthPrefixed_append_inj hcode hcode' (List.cons.inj h).2
    exact ⟨congrArg some (utf8_inj htext), hrest⟩

/-- The bytes of two observations are equal if and only if their parts are. -/
theorem payloadBytes_eq_iff (h : payloadBytes nfc o = some bytes)
    (h' : payloadBytes nfc o' = some bytes') :
    bytes = bytes' ↔ o.value = o'.value ∧ o.valueText.map nfc = o'.valueText.map nfc ∧
      o.qualityFlag = o'.qualityFlag ∧
      (normJson nfc (.obj o.metadata)).sortKeys = (normJson nfc (.obj o'.metadata)).sortKeys := by
  obtain ⟨hfinite, text, flag, metaBytes, body, htext, hflag, hmeta, hbody, rfl⟩ :=
    payloadBytes_eq_some h
  obtain ⟨hfinite', text', flag', metaBytes', body', htext', hflag', hmeta', hbody', rfl⟩ :=
    payloadBytes_eq_some h'
  rw [← canonicalJsonBytes_eq_iff hfinite hfinite' hmeta hmeta']
  constructor
  · intro heq
    obtain ⟨hvalue, heq⟩ := valueBytes_append_inj (List.append_cancel_left heq)
    obtain ⟨htexts, heq⟩ := textBytes_append_inj htext htext' heq
    obtain ⟨hflags, heq⟩ := signed32_append_inj hflag hflag' (List.cons.inj heq).2
    have hbodies : body ++ [] = body' ++ [] := by
      rw [List.append_nil, List.append_nil, (List.cons.inj heq).2]
    exact ⟨hvalue, htexts, hflags, (lengthPrefixed_append_inj hbody hbody' hbodies).1⟩
  · rintro ⟨hvalue, htexts, hflags, rfl⟩
    have htextBytes : ∀ t : Option String, textBytes nfc t =
        match t.map nfc with
        | some t => (lengthPrefixed (utf8 t)).map (0x54 :: ·)
        | none => some [0x74] := by
      intro t
      rcases t with _ | t <;> rfl
    rw [htextBytes, htexts, ← htextBytes, htext'] at htext
    rw [hflags, hflag'] at hflag
    rw [hbody'] at hbody
    cases htext
    cases hflag
    cases hbody
    rw [hvalue]

/-- Observations with distinct normal names have equal bytes if and only if they have the same
    payload. -/
theorem payloadBytes_eq_iff_samePayload (hn : DistinctNames nfc o) (hn' : DistinctNames nfc o')
    (h : payloadBytes nfc o = some bytes) (h' : payloadBytes nfc o' = some bytes') :
    bytes = bytes' ↔ SamePayload nfc o o' := by
  rw [payloadBytes_eq_iff h h', sortKeys_normJson hn, sortKeys_normJson hn']
  constructor
  · rintro ⟨hvalue, htext, hflag, hmetadata⟩
    exact ⟨hvalue, htext, hflag, same_of_sortKeys hmetadata⟩
  · rintro ⟨hvalue, htext, hflag, hmetadata⟩
    exact ⟨hvalue, htext, hflag, sortKeys_of_same hmetadata hn⟩

/-- An observation is told apart by its bytes if and only if its normal names are distinct. -/
theorem toldApart_iff (hnfc : ∀ s, nfc (nfc s) = nfc s) (h : payloadBytes nfc o = some bytes) :
    ToldApart nfc o ↔ DistinctNames nfc o := by
  refine ⟨fun happart => ?_, fun hn o' _ _ hn' h h' =>
    payloadBytes_eq_iff_samePayload hn hn' h h'⟩
  -- The observation with the metadata as they are written has the same bytes.
  obtain ⟨fields, hfields⟩ : ∃ fields, normJson nfc (.obj o.metadata) = .obj fields :=
    ⟨_, by rw [normJson]⟩
  have hnormal := normalForm_normJson hnfc (.obj o.metadata)
  have hdistinct := distinct_normJson nfc (.obj o.metadata)
  rw [hfields] at hnormal hdistinct
  have hn' : DistinctNames nfc { o with metadata := fields } := by
    show (normalForm nfc (.obj fields)).Distinct
    rw [hnormal]
    exact hdistinct
  have hwritten : (normJson nfc (.obj fields)).sortKeys = (normJson nfc (.obj o.metadata)).sortKeys := by
    rw [sortKeys_normJson hn', hnormal, hfields]
  obtain ⟨hfinite, text, flag, metaBytes, body, htext, hflag, hmeta, hbody, rfl⟩ :=
    payloadBytes_eq_some h
  have hfinite' : validateMetadataFinite (.obj fields) = true := by
    rw [← hfields]
    exact finite_normJson hfinite
  have h' : payloadBytes nfc { o with metadata := fields } = some (payloadHashDomain ++
      (valueBytes o.value ++ (text ++ (0x51 :: (flag ++ (0x4d :: body)))))) := by
    rw [canonicalJsonBytes, ← hwritten] at hmeta
    simp only [payloadBytes, hfinite', if_true, htext, hflag, canonicalJsonBytes, hmeta, hbody,
      Option.bind_eq_bind, Option.bind_some]
  have hsame := ((happart _ _ _ hn' h h').1 rfl).metadata
  exact hsame.distinct.2 hn'

/-! ### Two names with one normal form -/

/-- NFC, on the names of `mergingObservation`. -/
def acuteNfc (s : String) : String := if s = "e\u0301" then "\u00e9" else s

/-- An observation with two names that have one normal form. -/
def mergingObservation : ObservationIn where
  value := some 0
  valueText := none
  qualityFlag := 0
  metadata := [("e\u0301", .int 1), ("\u00e9", .int 2)]
  exactlyOneValue := by decide

/-- An observation with the second of the two fields. -/
def mergedObservation : ObservationIn where
  value := some 0
  valueText := none
  qualityFlag := 0
  metadata := [("\u00e9", .int 2)]
  exactlyOneValue := by decide

theorem acuteNfc_idem (s : String) : acuteNfc (acuteNfc s) = acuteNfc s := by
  unfold acuteNfc
  split_ifs with h
  · exact absurd ‹_› (by decide)
  · rfl
  · rfl

theorem normJson_merging :
    normJson acuteNfc (.obj mergingObservation.metadata) = .obj mergedObservation.metadata := by
  have hsorted : (normFields acuteNfc mergingObservation.metadata).Pairwise
      fun f g => decide (f.1 ≤ g.1) = true := by decide
  rw [normJson, List.mergeSort_of_pairwise hsorted]
  rfl

theorem normJson_merged :
    normJson acuteNfc (.obj mergedObservation.metadata) = .obj mergedObservation.metadata := by
  have hsorted : (normFields acuteNfc mergedObservation.metadata).Pairwise
      fun f g => decide (f.1 ≤ g.1) = true := by decide
  rw [normJson, List.mergeSort_of_pairwise hsorted]
  rfl

/-- What is hashed for the second observation. -/
theorem exists_payloadBytes_merged :
    ∃ bytes, payloadBytes acuteNfc mergedObservation = some bytes := by
  have hsorted : (normJson acuteNfc (.obj mergedObservation.metadata)).sortKeys =
      .obj mergedObservation.metadata := by
    rw [normJson_merged, Json.sortKeys, mergedObservation, sortFields, sortFields,
      List.mergeSort_singleton]
    rfl
  have hdumps : ∃ metaBytes body, canonicalJsonBytes acuteNfc mergedObservation.metadata =
      some metaBytes ∧ lengthPrefixed metaBytes = some body := by
    rw [canonicalJsonBytes, hsorted]
    exact ⟨_, _, rfl, rfl⟩
  obtain ⟨metaBytes, body, hmeta, hbody⟩ := hdumps
  have hfinite : validateMetadataFinite (.obj mergedObservation.metadata) = true := by decide
  have htext : textBytes acuteNfc mergedObservation.valueText = some [0x74] := rfl
  have hflag : signed32 mergedObservation.qualityFlag = some (bigEndian 4 0) := rfl
  exact ⟨_, by simp only [payloadBytes, hfinite, if_true, htext, hflag, hmeta, hbody,
    Option.bind_eq_bind, Option.bind_some]; rfl⟩

/-- The bytes of the two observations are equal, and one of the fields is lost. -/
theorem not_samePayload_merging : ∃ bytes, payloadBytes acuteNfc mergingObservation = some bytes ∧
    payloadBytes acuteNfc mergedObservation = some bytes ∧
    ¬SamePayload acuteNfc mergingObservation mergedObservation := by
  obtain ⟨bytes, hbytes⟩ := exists_payloadBytes_merged
  refine ⟨bytes, ?_, hbytes, fun h => ?_⟩
  · rw [← hbytes]
    unfold payloadBytes canonicalJsonBytes
    rw [normJson_merging, normJson_merged]
    rfl
  · exact absurd (perm_of_same h.metadata).length_eq (by decide)

/-- The second observation is told apart. -/
theorem toldApart_merged : ToldApart acuteNfc mergedObservation := by
  obtain ⟨bytes, hbytes⟩ := exists_payloadBytes_merged
  refine (toldApart_iff acuteNfc_idem hbytes).2 ?_
  exact ⟨List.nodup_singleton _, trivial, trivial⟩

end AslanCore.Timeseries
