import AslanCore.Bytes
import Mathlib.Data.List.DropRight

/-!
# Base 64

Bytes as characters that are safe in URLs, three bytes as four characters, filled up at the end. What
is read may be more than what is written: characters of no value are passed over.

* `encode`, `decode`: `base64.urlsafe_b64encode`, and `urlsafe_b64decode`;
* `decode_encode`: what is written is read back;
* `repad_strip`: what fills it up at the end can be left out.
-/

namespace AslanCore.Base64

/-! ### Writing -/

/-- The characters, by their values. -/
def alphabet : List Char := "ABCDEFGHIJKLMNOPQRSTUVWXYZabcdefghijklmnopqrstuvwxyz0123456789-_".toList

/-- The character of six bits. -/
def charOf (n : ℕ) : Char := alphabet.getD n 'A'

/-- `urlsafe_b64encode`. -/
def encode : List UInt8 → List Char
  | [] => []
  | [a] => [charOf (a.toNat / 4), charOf (a.toNat % 4 * 16), '=', '=']
  | [a, b] => [charOf (a.toNat / 4), charOf (a.toNat % 4 * 16 + b.toNat / 16),
      charOf (b.toNat % 16 * 4), '=']
  | a :: b :: c :: bytes => charOf (a.toNat / 4) :: charOf (a.toNat % 4 * 16 + b.toNat / 16) ::
      charOf (b.toNat % 16 * 4 + c.toNat / 64) :: charOf (c.toNat % 64) :: encode bytes

/-! ### Reading -/

/-- The six bits of a character. Those of the standard alphabet are read as well. -/
def valueOf (c : Char) : Option ℕ :=
  if c = '+' then some 62 else if c = '/' then some 63 else alphabet.idxOf? c

/-- `binascii.a2b_base64`, from the place in a group of four characters on, with the bits that are left
    of the last one and the number of the `=` since then. -/
def decodeFrom (quadPos leftchar pads : ℕ) : List Char → Option (List UInt8)
  | [] => if quadPos = 0 then some [] else none
  | c :: cs =>
    if c = '=' then
      if 2 ≤ quadPos ∧ 4 ≤ quadPos + (pads + 1) then some []
      else decodeFrom quadPos leftchar (if 2 ≤ quadPos then pads + 1 else pads) cs
    else
      match valueOf c with
      | none => decodeFrom quadPos leftchar pads cs
      | some value =>
        match quadPos with
        | 0 => decodeFrom 1 value 0 cs
        | 1 => (decodeFrom 2 (value % 16) 0 cs).map (UInt8.ofNat (leftchar * 4 + value / 16) :: ·)
        | 2 => (decodeFrom 3 (value % 4) 0 cs).map (UInt8.ofNat (leftchar * 16 + value / 4) :: ·)
        | _ => (decodeFrom 0 0 0 cs).map (UInt8.ofNat (leftchar * 64 + value) :: ·)

/-- `urlsafe_b64decode`, unless it raises a `ValueError`. -/
def decode (cs : List Char) : Option (List UInt8) :=
  if cs.all fun c => c.toNat < 128 then decodeFrom 0 0 0 cs else none

example : decode "Z-_ v*Yg==".toList = some [103, 239, 239, 98] := by decide +kernel

/-! ### What is written is read back -/

theorem valueOf_charOf {n : ℕ} (h : n < 64) : valueOf (charOf n) = some n := by
  have hall : ∀ i : Fin 64, valueOf (charOf i) = some i.val := by decide +kernel
  exact hall ⟨n, h⟩

theorem charOf_ne {n : ℕ} (h : n < 64) : charOf n ≠ '=' ∧ (charOf n).toNat < 128 := by
  have hall : ∀ i : Fin 64, charOf i ≠ '=' ∧ (charOf i).toNat < 128 := by decide +kernel
  exact hall ⟨n, h⟩

variable {n leftchar pads quadPos : ℕ} {cs : List Char} {bytes : List UInt8}

/-- The first character of a group. -/
theorem decodeFrom_zero (h : n < 64) :
    decodeFrom 0 leftchar pads (charOf n :: cs) = decodeFrom 1 n 0 cs := by
  rw [decodeFrom, if_neg (charOf_ne h).1, valueOf_charOf h]
  rfl

/-- The second one ends a byte. -/
theorem decodeFrom_one {a : UInt8} (h : n < 64) (ha : leftchar * 4 + n / 16 = a.toNat) :
    decodeFrom 1 leftchar pads (charOf n :: cs) = (decodeFrom 2 (n % 16) 0 cs).map (a :: ·) := by
  rw [decodeFrom, if_neg (charOf_ne h).1, valueOf_charOf h]
  dsimp only
  rw [ha, UInt8.ofNat_toNat]
  rfl

/-- And so does the third one. -/
theorem decodeFrom_two {a : UInt8} (h : n < 64) (ha : leftchar * 16 + n / 4 = a.toNat) :
    decodeFrom 2 leftchar pads (charOf n :: cs) = (decodeFrom 3 (n % 4) 0 cs).map (a :: ·) := by
  rw [decodeFrom, if_neg (charOf_ne h).1, valueOf_charOf h]
  dsimp only
  rw [ha, UInt8.ofNat_toNat]
  rfl

/-- The last one ends the group. -/
theorem decodeFrom_three {a : UInt8} (h : n < 64) (ha : leftchar * 64 + n = a.toNat) :
    decodeFrom 3 leftchar pads (charOf n :: cs) = (decodeFrom 0 0 0 cs).map (a :: ·) := by
  rw [decodeFrom, if_neg (charOf_ne h).1, valueOf_charOf h]
  dsimp only
  rw [ha, UInt8.ofNat_toNat]
  rfl

theorem decodeFrom_encode : ∀ bytes : List UInt8, decodeFrom 0 0 0 (encode bytes) = some bytes
  | [] => rfl
  | [a] => by
    have ha := a.toNat_lt
    rw [encode, decodeFrom_zero (by omega), decodeFrom_one (a := a) (by omega) (by omega)]
    rfl
  | [a, b] => by
    have ha := a.toNat_lt
    have hb := b.toNat_lt
    rw [encode, decodeFrom_zero (by omega), decodeFrom_one (a := a) (by omega) (by omega),
      decodeFrom_two (a := b) (by omega) (by omega)]
    rfl
  | a :: b :: c :: bytes => by
    have ha := a.toNat_lt
    have hb := b.toNat_lt
    have hc := c.toNat_lt
    rw [encode, decodeFrom_zero (by omega), decodeFrom_one (a := a) (by omega) (by omega),
      decodeFrom_two (a := b) (by omega) (by omega), decodeFrom_three (a := c) (by omega) (by omega),
      decodeFrom_encode bytes]
    rfl

/-- What is written is in ASCII, and ends with at most two `=` that fill up the last group. -/
theorem exists_strip : ∀ bytes : List UInt8, ∃ body k, encode bytes = body ++ List.replicate k '=' ∧
    '=' ∉ body ∧ (∀ c ∈ body, c.toNat < 128) ∧ k < 4 ∧ 4 ∣ body.length + k
  | [] => ⟨[], 0, rfl, List.not_mem_nil, nofun, by omega, by simp⟩
  | [a] => by
    have ha := a.toNat_lt
    have h₁ := charOf_ne (n := a.toNat / 4) (by omega)
    have h₂ := charOf_ne (n := a.toNat % 4 * 16) (by omega)
    refine ⟨[charOf (a.toNat / 4), charOf (a.toNat % 4 * 16)], 2, rfl, ?_, ?_, by omega, by simp⟩
    · simp only [List.mem_cons, List.not_mem_nil, or_false, not_or]
      exact ⟨h₁.1.symm, h₂.1.symm⟩
    · simp only [List.forall_mem_cons]
      exact ⟨h₁.2, h₂.2, nofun⟩
  | [a, b] => by
    have ha := a.toNat_lt
    have hb := b.toNat_lt
    have h₁ := charOf_ne (n := a.toNat / 4) (by omega)
    have h₂ := charOf_ne (n := a.toNat % 4 * 16 + b.toNat / 16) (by omega)
    have h₃ := charOf_ne (n := b.toNat % 16 * 4) (by omega)
    refine ⟨[charOf (a.toNat / 4), charOf (a.toNat % 4 * 16 + b.toNat / 16),
      charOf (b.toNat % 16 * 4)], 1, rfl, ?_, ?_, by omega, by simp⟩
    · simp only [List.mem_cons, List.not_mem_nil, or_false, not_or]
      exact ⟨h₁.1.symm, h₂.1.symm, h₃.1.symm⟩
    · simp only [List.forall_mem_cons]
      exact ⟨h₁.2, h₂.2, h₃.2, nofun⟩
  | a :: b :: c :: bytes => by
    have ha := a.toNat_lt
    have hb := b.toNat_lt
    have hc := c.toNat_lt
    have h₁ := charOf_ne (n := a.toNat / 4) (by omega)
    have h₂ := charOf_ne (n := a.toNat % 4 * 16 + b.toNat / 16) (by omega)
    have h₃ := charOf_ne (n := b.toNat % 16 * 4 + c.toNat / 64) (by omega)
    have h₄ := charOf_ne (n := c.toNat % 64) (by omega)
    obtain ⟨body, k, hencode, hbody, hascii, hk, hdvd⟩ := exists_strip bytes
    refine ⟨charOf (a.toNat / 4) :: charOf (a.toNat % 4 * 16 + b.toNat / 16) ::
      charOf (b.toNat % 16 * 4 + c.toNat / 64) :: charOf (c.toNat % 64) :: body, k, ?_, ?_, ?_, hk, ?_⟩
    · rw [encode, hencode]
      rfl
    · simp only [List.mem_cons, not_or]
      exact ⟨h₁.1.symm, h₂.1.symm, h₃.1.symm, h₄.1.symm, hbody⟩
    · simp only [List.forall_mem_cons]
      exact ⟨h₁.2, h₂.2, h₃.2, h₄.2, hascii⟩
    · simp only [List.length_cons]
      omega

/-- `cs.rstrip("=")`. -/
def strip (cs : List Char) : List Char := cs.rdropWhile (· = '=')

/-- `cs + "=" * (-len(cs) % 4)`. -/
def repad (cs : List Char) : List Char := cs ++ List.replicate ((4 - cs.length % 4) % 4) '='

/-- What fills up the last group can be left out. -/
theorem repad_strip (bytes : List UInt8) : repad (strip (encode bytes)) = encode bytes := by
  obtain ⟨body, k, hencode, hbody, -, hk, hdvd⟩ := exists_strip bytes
  have hstrip : strip (encode bytes) = body := by
    rw [hencode, strip, List.rdropWhile, List.reverse_append, List.reverse_replicate,
      List.dropWhile_append_of_pos fun c hc => decide_eq_true (List.eq_of_mem_replicate hc)]
    rw [List.dropWhile_eq_self_iff.2, List.reverse_reverse]
    intro hlt hpad
    exact hbody (List.mem_reverse.1 (of_decide_eq_true hpad ▸ List.get_mem _ ⟨0, hlt⟩))
  rw [hstrip, repad, hencode]
  congr 2
  omega

/-- What is written is read back. -/
theorem decode_encode (bytes : List UInt8) : decode (encode bytes) = some bytes := by
  obtain ⟨body, k, hencode, -, hascii, -, -⟩ := exists_strip bytes
  rw [decode, if_pos, decodeFrom_encode]
  rw [hencode, List.all_append, Bool.and_eq_true, List.all_eq_true, List.all_eq_true]
  refine ⟨fun c hc => decide_eq_true (hascii c hc), fun c hc => decide_eq_true ?_⟩
  rw [List.eq_of_mem_replicate hc]
  decide

end AslanCore.Base64
