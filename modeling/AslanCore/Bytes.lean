import Mathlib.Algebra.Group.Int.Defs
import Mathlib.Algebra.Group.Nat.Defs
import Mathlib.Data.Int.Notation
import Mathlib.Data.Nat.Notation
import Mathlib.Tactic.Common

/-!
# Encodings of bytes

Numbers of a fixed width, most significant byte first, and strings of bytes with their length
before them. Each of them says where it ends, so that what follows it can be told apart
(`append_inj` lemmas): an encoding made of such parts is injective if its parts are.
-/

namespace AslanCore

/-- A number as `width` bytes: `int.to_bytes(width, "big")`. -/
def bigEndian : ℕ → ℕ → List UInt8
  | 0, _ => []
  | width + 1, n => bigEndian width (n / 256) ++ [UInt8.ofNat n]

/-- A signed number of 32 bits, unless `int.to_bytes` raises an `OverflowError`. -/
def signed32 (n : ℤ) : Option (List UInt8) :=
  if -2 ^ 31 ≤ n ∧ n < 2 ^ 31 then some (bigEndian 4 (n % 2 ^ 32).toNat) else none

/-- A string of bytes after its length, unless the length has more than 32 bits. -/
def lengthPrefixed (bytes : List UInt8) : Option (List UInt8) :=
  if bytes.length < 2 ^ 32 then some (bigEndian 4 bytes.length ++ bytes) else none

/-- The UTF-8 encoding of a text. -/
def utf8 (s : String) : List UInt8 := s.toUTF8.data.toList

/-- The text of bytes in UTF-8: `decode("utf-8")`, unless it raises a `UnicodeDecodeError`. -/
def decodeUtf8 (bytes : List UInt8) : Option String := String.fromUTF8? ⟨bytes.toArray⟩

variable {width n m : ℕ} {bytes bytes' code code' rest rest' : List UInt8}

@[simp]
theorem length_bigEndian (width n : ℕ) : (bigEndian width n).length = width := by
  induction width generalizing n with
  | zero => rfl
  | succ width ih => rw [bigEndian, List.length_append, ih, List.length_singleton]

theorem bigEndian_inj (hn : n < 256 ^ width) (hm : m < 256 ^ width)
    (h : bigEndian width n = bigEndian width m) : n = m := by
  induction width generalizing n m with
  | zero => omega
  | succ width ih =>
    rw [bigEndian, bigEndian] at h
    obtain ⟨hhigh, hlow⟩ := List.append_inj' h rfl
    have hlow : n % 256 = m % 256 := congrArg UInt8.toNat (List.singleton_inj.1 hlow)
    have hhigh := ih (by rw [Nat.pow_succ] at hn; omega) (by rw [Nat.pow_succ] at hm; omega) hhigh
    omega

/-- Two numbers of one width in front of other bytes. -/
theorem bigEndian_append_inj (hn : n < 256 ^ width) (hm : m < 256 ^ width)
    (h : bigEndian width n ++ rest = bigEndian width m ++ rest') : n = m ∧ rest = rest' := by
  obtain ⟨hnumber, hrest⟩ := List.append_inj h (by simp)
  exact ⟨bigEndian_inj hn hm hnumber, hrest⟩

theorem signed32_append_inj {i k : ℤ} (hi : signed32 i = some code) (hk : signed32 k = some code')
    (h : code ++ rest = code' ++ rest') : i = k ∧ rest = rest' := by
  unfold signed32 at hi hk
  split_ifs at hi hk with hi' hk'
  cases hi
  cases hk
  obtain ⟨hnumber, hrest⟩ := bigEndian_append_inj (by omega) (by omega) h
  exact ⟨by omega, hrest⟩

theorem lengthPrefixed_append_inj (hcode : lengthPrefixed bytes = some code)
    (hcode' : lengthPrefixed bytes' = some code') (h : code ++ rest = code' ++ rest') :
    bytes = bytes' ∧ rest = rest' := by
  unfold lengthPrefixed at hcode hcode'
  split_ifs at hcode hcode' with hlt hlt'
  cases hcode
  cases hcode'
  rw [List.append_assoc, List.append_assoc] at h
  obtain ⟨hlength, hbytes⟩ := bigEndian_append_inj hlt hlt' h
  exact List.append_inj hbytes hlength

theorem utf8_inj {s t : String} (h : utf8 s = utf8 t) : s = t := by
  refine String.toByteArray_inj.1 (ByteArray.ext (Array.toList_inj.1 ?_))
  simpa only [utf8, String.toUTF8_eq_toByteArray] using h

/-- A text is read back from its encoding. -/
theorem decodeUtf8_utf8 (s : String) : decodeUtf8 (utf8 s) = some s := by
  have hbytes : (⟨(utf8 s).toArray⟩ : ByteArray) = s.toByteArray := by
    rw [utf8, String.toUTF8_eq_toByteArray]
  rw [decodeUtf8, hbytes, String.fromUTF8?, dif_pos s.isValidUTF8]
  rfl

end AslanCore
