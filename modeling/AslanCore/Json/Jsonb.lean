import AslanCore.Json.Locations
import AslanCore.Json.Plain
import AslanCore.Json.Same

/-!
# Values in JSONB columns

A JSONB column keeps numbers as decimals: they are printed with all their digits, and zero without a
sign (`NumberText.plain`). The text of a value that is put there is thus another one when it is read
again (`Json.readBack`), and its fields may be in another order.

* `scanNumberValue_plain`: what is read of the number that is printed;
* `readBack_same_iff`: a value is read back as it was if and only if none of its floats is -0.0, or
  1e16 or more (`Json.KeepsFloats`).
-/

namespace AslanCore

open Binary64 (e16 infinity)

/-- The value that a number is read as. -/
def NumberText.value (t : NumberText) : Json :=
  if t.IsFloat then .float (Json.floatBits t.neg t.magnitude) else .int t.toInt

mutual

/-- The value that is read of a JSONB column. -/
def Json.readBack : Json → Json
  | .int n => (NumberText.ofInt n).plain.value
  | .float bits => (NumberText.repr (Json.floatNeg bits) (Json.floatMagnitude bits)).plain.value
  | .arr js => .arr (readBackItems js)
  | .obj fields => .obj (readBackFields fields)
  | j => j

def readBackItems : List Json → List Json
  | [] => []
  | j :: js => j.readBack :: readBackItems js

def readBackFields : JsonObject → JsonObject
  | [] => []
  | (k, j) :: fields => (k, j.readBack) :: readBackFields fields

end

/-- The bits of -0.0. -/
def Json.negZero : BitVec 64 := 0x8000000000000000

/-- No float of the value is -0.0, or 1e16 or more. -/
def Json.KeepsFloats (j : Json) : Prop :=
  ∀ bits p, At (.float bits) j p → bits ≠ negZero ∧ floatMagnitude bits < e16

variable {bits : BitVec 64} {j j' : Json} {d : ℕ} {fields : JsonObject} {js : List Json}

theorem readBackItems_eq (js : List Json) : readBackItems js = js.map Json.readBack := by
  induction js with
  | nil => rfl
  | cons j js ih => rw [readBackItems, ih, List.map_cons]

theorem readBackFields_eq (fields : JsonObject) :
    readBackFields fields = fields.map fun f => (f.1, f.2.readBack) := by
  induction fields with
  | nil => rfl
  | cons f fields ih => rw [readBackFields, ih, List.map_cons]

/-! ### Numbers -/

/-- What is read of a number, if it has not too many digits. -/
theorem numberValue_eq {t : NumberText} (h : t.int.length ≤ maxStrDigits) :
    numberValue t = .ok t.value := by
  rw [numberValue, NumberText.value]
  split_ifs <;> rfl

/-- What is read of the float that is printed. -/
theorem numberValue_plain_repr (h : Json.floatMagnitude bits < infinity) :
    numberValue (NumberText.repr (Json.floatNeg bits) (Json.floatMagnitude bits)).plain =
      .ok (Json.float bits).readBack :=
  numberValue_eq ((NumberText.length_int_plain_repr_le h).trans (by decide))

theorem readBack_int (n : ℤ) : (Json.int n).readBack = .int n := by
  rw [Json.readBack, NumberText.plain_ofInt, NumberText.value,
    if_neg (NumberText.not_isFloat_ofInt n), NumberText.toInt_ofInt]

theorem floatMagnitude_eq_zero_iff :
    Json.floatMagnitude bits = 0 ↔ bits = 0 ∨ bits = Json.negZero := by
  have hlt := bits.isLt
  constructor
  · intro h
    rw [Json.floatMagnitude] at h
    by_cases hneg : 2 ^ 63 ≤ bits.toNat
    · exact .inr (BitVec.eq_of_toNat_eq (show bits.toNat = 2 ^ 63 by omega))
    · exact .inl (BitVec.eq_of_toNat_eq (show bits.toNat = 0 by omega))
  · rintro (rfl | rfl) <;> rfl

theorem floatMagnitude_floatBits {neg : Bool} {n : ℕ} (h : n < 2 ^ 63) :
    Json.floatMagnitude (Json.floatBits neg n) = n := by
  rw [Json.floatMagnitude, Json.floatBits, BitVec.toNat_ofNat]
  cases neg <;> simp only [if_true, if_false, Bool.false_eq_true] <;> omega

/-- A float is read back as it was unless it is -0.0, or 1e16 or more. -/
theorem readBack_float_iff (h : Json.floatMagnitude bits < infinity) :
    (Json.float bits).readBack = .float bits ↔
      bits ≠ Json.negZero ∧ Json.floatMagnitude bits < e16 := by
  rw [Json.readBack, NumberText.value]
  by_cases hlt : Json.floatMagnitude bits < e16
  · rw [if_pos ((NumberText.isFloat_plain_repr_iff h).2 hlt), NumberText.magnitude_plain,
      NumberText.magnitude_repr h, Json.float.injEq, and_iff_left hlt]
    rcases Nat.eq_zero_or_pos (Json.floatMagnitude bits) with hzero | hpos
    · -- The sign of zero is not printed.
      rcases floatMagnitude_eq_zero_iff.1 hzero with rfl | rfl <;> decide
    · rw [NumberText.neg_plain_repr hpos h, floatBits_eta]
      refine iff_of_true rfl ?_
      rintro rfl
      exact absurd hpos (by decide)
  · rw [if_neg fun hf => hlt ((NumberText.isFloat_plain_repr_iff h).1 hf)]
    exact iff_of_false nofun fun hk => hlt hk.2

/-! ### Values -/

/-- What can be read can be read after it was in a JSONB column. -/
theorem Json.Readable.readBack (h : j.Readable d) : j.readBack.Readable d := by
  induction h with
  | null => exact .null
  | bool b => exact .bool b
  | @int d n h =>
    rw [readBack_int]
    exact .int h
  | @float d bits h =>
    rw [Json.readBack, NumberText.value]
    split_ifs
    · refine .float ?_
      rwa [NumberText.magnitude_plain, NumberText.magnitude_repr h, floatMagnitude_floatBits]
      exact h.trans (by decide)
    · refine .int ?_
      rw [FewDigits, Nat.length_toDigits_le_iff (by decide) (by decide)]
      exact NumberText.natAbs_toInt_plain_repr_lt h (by decide)
  | str s => exact .str s
  | arr _ ih =>
    rw [Json.readBack, readBackItems_eq]
    exact .arr (List.forall_mem_map.2 ih)
  | @obj d fields hn _ ih =>
    rw [Json.readBack, readBackFields_eq]
    refine .obj ?_ (List.forall_mem_map.2 ih)
    rwa [JsonObject.NodupKeys, List.map_map]

namespace Json

theorem keepsFloats_of_isLeaf (hj : j.IsLeaf) (hne : ∀ bits, j ≠ .float bits) : j.KeepsFloats :=
  fun bits _ h => absurd (h.of_isLeaf hj).1.symm (hne bits)

theorem keepsFloats_float_iff :
    (float bits).KeepsFloats ↔ bits ≠ negZero ∧ floatMagnitude bits < e16 := by
  refine ⟨fun h => h bits [] .here, fun h bits' p hat => ?_⟩
  cases (hat.of_isLeaf (j := float bits) trivial).1
  exact h

theorem keepsFloats_arr_iff : (arr js).KeepsFloats ↔ ∀ j ∈ js, j.KeepsFloats := by
  constructor
  · intro h j hj bits p hat
    obtain ⟨i, hi⟩ := List.getElem?_of_mem hj
    exact h bits _ (.item hi hat)
  · intro h bits p hat
    rcases hat with _ | ⟨hj, hat⟩
    exact h _ (List.mem_of_getElem? hj) bits _ hat

theorem keepsFloats_obj_iff : (obj fields).KeepsFloats ↔ ∀ f ∈ fields, f.2.KeepsFloats := by
  constructor
  · exact fun h f hf bits p hat => h bits _ (.key hf hat)
  · intro h bits p hat
    rcases hat with _ | _ | ⟨hj, hat⟩
    exact h _ hj bits _ hat

theorem Same.refl (j : Json) : j.Same j := same_of_sortKeys rfl

theorem same_arr_iff {js' : List Json} :
    (arr js).Same (arr js') ↔ List.Forall₂ Same js js' := by
  constructor
  · intro h
    induction js generalizing js' with
    | nil =>
      cases h
      exact .nil
    | cons j js ih =>
      rcases h with _ | _ | _ | _ | _ | _ | _ | ⟨h, hs⟩
      exact .cons h (ih hs)
  · intro h
    induction h with
    | nil => exact .nil
    | cons h _ ih => exact .cons h ih

theorem readBack_of_keepsFloats (h : j.Readable d) (hk : j.KeepsFloats) : j.readBack = j := by
  induction h with
  | null | bool | str => rfl
  | int => exact readBack_int _
  | float h => exact (readBack_float_iff h).2 (keepsFloats_float_iff.1 hk)
  | @arr d js _ ih =>
    rw [readBack, readBackItems_eq]
    refine congrArg arr ((List.map_congr_left (g := id) fun j hj => ?_).trans (List.map_id _))
    exact ih j hj (keepsFloats_arr_iff.1 hk j hj)
  | @obj d fields hn _ ih =>
    rw [readBack, readBackFields_eq]
    refine congrArg obj ((List.map_congr_left (g := id) fun f hf => ?_).trans (List.map_id _))
    exact Prod.ext rfl (ih f hf (keepsFloats_obj_iff.1 hk f hf))

/-- A value is read back as it was exactly if it keeps its floats. -/
theorem readBack_same_iff (h : j.Readable d) : j.Same j.readBack ↔ j.KeepsFloats := by
  refine ⟨fun hs => ?_, fun hk => ?_⟩
  · induction h with
    | null | bool | str | int => exact keepsFloats_of_isLeaf trivial nofun
    | float h =>
      rw [keepsFloats_float_iff, ← readBack_float_iff h]
      generalize readBack _ = j at hs ⊢
      cases hs
      rfl
    | @arr d js _ ih =>
      rw [readBack, readBackItems_eq, same_arr_iff, List.forall₂_map_right_iff,
        List.forall₂_same] at hs
      exact keepsFloats_arr_iff.2 fun j hj => ih j hj (hs j hj)
    | @obj d fields hn _ ih =>
      refine keepsFloats_obj_iff.2 fun f hf => ih f hf ?_
      have hlookup := (JsonObject.lookup_eq_some_iff hn).2 hf
      rw [readBack, readBackFields_eq] at hs
      obtain ⟨j', hj', hsame⟩ := hs.lookup hn hlookup
      rw [lookup_map, hlookup] at hj'
      cases hj'
      exact hsame
  · rw [readBack_of_keepsFloats h hk]
    exact .refl j

end Json

end AslanCore
