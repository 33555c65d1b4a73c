import Mathlib.Algebra.Order.Ring.Nat
import Mathlib.Data.Nat.Log
import Mathlib.Order.Monotone.Basic
import Mathlib.Tactic.Linarith
import Mathlib.Tactic.Positivity
import Mathlib.Tactic.Ring

/-!
# Floating-point numbers

The magnitudes of the numbers of the format binary64, and the decimals that stand for them. A
finite magnitude is given by its 63 bits, in the order of what they stand for
(`Binary64.magnitude`).

* `Binary64.round`: the bits of the magnitude nearest to a fraction, with even bits if there
  are two;
* `Binary64.shortest`: the decimal with the fewest digits that is rounded to a magnitude, and of
  these the nearest to it.

What is rounded is the value of a fraction (`Binary64.round_congr`), and a magnitude is rounded
to itself (`Binary64.round_magnitude`), so its shortest decimal is too
(`Binary64.ofDecimal_shortest`). That decimal has a number of digits, or is what the magnitude
stands for (`Binary64.shortest_cases`).
-/

namespace AslanCore

namespace Binary64

/-- The number of units in one: the unit is the least magnitude that is not zero. -/
def one : ℕ := 2 ^ 1074

theorem one_pos : 0 < one := by
  rw [one]
  positivity

/-- What the bits stand for, in units. -/
def magnitude (n : ℕ) : ℕ :=
  if n < 2 ^ 52 then n else (2 ^ 52 + n % 2 ^ 52) * 2 ^ (n / 2 ^ 52 - 1)

/-- The bits that stand for infinity. -/
def infinity : ℕ := 2047 * 2 ^ 52

theorem magnitude_lt_succ (n : ℕ) : magnitude n < magnitude (n + 1) := by
  simp only [magnitude]
  by_cases h : n + 1 < 2 ^ 52
  · rw [if_pos h, if_pos (by omega)]
    omega
  · rw [if_neg h]
    by_cases h' : n < 2 ^ 52
    · have hn : n + 1 = 2 ^ 52 := by omega
      rw [if_pos h', hn]
      norm_num
      omega
    · rw [if_neg h']
      by_cases hm : n % 2 ^ 52 + 1 = 2 ^ 52
      · -- The next exponent.
        have hd : (n + 1) / 2 ^ 52 = n / 2 ^ 52 - 1 + 1 + 1 := by omega
        have hr : (n + 1) % 2 ^ 52 = 0 := by omega
        rw [hd, hr, Nat.add_sub_cancel]
        have hpos : 0 < 2 ^ (n / 2 ^ 52 - 1) := by positivity
        calc (2 ^ 52 + n % 2 ^ 52) * 2 ^ (n / 2 ^ 52 - 1)
            < (2 ^ 52 * 2) * 2 ^ (n / 2 ^ 52 - 1) := Nat.mul_lt_mul_of_pos_right (by omega) hpos
          _ = (2 ^ 52 + 0) * 2 ^ (n / 2 ^ 52 - 1 + 1) := by ring
      · have hd : (n + 1) / 2 ^ 52 = n / 2 ^ 52 := by omega
        have hr : (n + 1) % 2 ^ 52 = n % 2 ^ 52 + 1 := by omega
        rw [hd, hr]
        exact Nat.mul_lt_mul_of_pos_right (by omega) (by positivity)

theorem magnitude_strictMono : StrictMono magnitude := strictMono_nat_of_lt_succ magnitude_lt_succ

/-! ### Rounding -/

/-- The greatest number below `n + 2 ^ k` that satisfies `P`, if the numbers that do are those
    up to a bound, and `n` is one of them. -/
def greatest (P : ℕ → Bool) : ℕ → ℕ → ℕ
  | 0, n => n
  | k + 1, n => if P (n + 2 ^ k) then greatest P k (n + 2 ^ k) else greatest P k n

theorem greatest_eq {P : ℕ → Bool} {m : ℕ} (hP : ∀ j, P j = true ↔ j ≤ m) :
    ∀ {k n : ℕ}, n ≤ m → m < n + 2 ^ k → greatest P k n = m
  | 0, n, h, h' => by
    rw [greatest]
    omega
  | k + 1, n, h, h' => by
    rw [pow_succ] at h'
    rw [greatest]
    split_ifs with hp
    · exact greatest_eq hP ((hP _).1 hp) (by omega)
    · rw [hP] at hp
      exact greatest_eq hP h (by omega)

/-- The magnitude nearest to `num / den`. -/
def round (num den : ℕ) : ℕ :=
  let x := num * one
  let lo := greatest (fun j => magnitude j * den ≤ x) 63 0
  let mid := (magnitude lo + magnitude (lo + 1)) * den
  let n := if 2 * x < mid then lo else if mid < 2 * x then lo + 1 else lo + lo % 2
  min n infinity

/-- Rounding depends on the value of the fraction. -/
theorem round_congr {num den num' den' : ℕ} (hd : 0 < den) (hd' : 0 < den')
    (h : num * den' = num' * den) : round num den = round num' den' := by
  have hscale : num * one * den' = num' * one * den := by
    rw [Nat.mul_right_comm, h, Nat.mul_right_comm]
  -- A comparison with a multiple of `den` is one with the same multiple of `den'`.
  have hle : ∀ a b, a * den ≤ b * (num * one) ↔ a * den' ≤ b * (num' * one) := by
    intro a b
    calc a * den ≤ b * (num * one)
        ↔ a * den * den' ≤ b * (num * one) * den' := (Nat.mul_le_mul_right_iff hd').symm
      _ ↔ a * den' * den ≤ b * (num' * one) * den := by
        rw [Nat.mul_right_comm a, Nat.mul_assoc b, hscale, Nat.mul_assoc b]
      _ ↔ a * den' ≤ b * (num' * one) := Nat.mul_le_mul_right_iff hd
  have hge : ∀ a b, b * (num * one) ≤ a * den ↔ b * (num' * one) ≤ a * den' := by
    intro a b
    calc b * (num * one) ≤ a * den
        ↔ b * (num * one) * den' ≤ a * den * den' := (Nat.mul_le_mul_right_iff hd').symm
      _ ↔ b * (num' * one) * den ≤ a * den' * den := by
        rw [Nat.mul_right_comm a, Nat.mul_assoc b, hscale, Nat.mul_assoc b]
      _ ↔ b * (num' * one) ≤ a * den' := Nat.mul_le_mul_right_iff hd
  have hlo : (fun j => decide (magnitude j * den ≤ num * one)) =
      fun j => decide (magnitude j * den' ≤ num' * one) := by
    funext j
    have := hle (magnitude j) 1
    rw [one_mul, one_mul] at this
    exact decide_eq_decide.2 this
  simp only [round, hlo, ← not_le, hle, hge]

theorem round_magnitude {n c : ℕ} (hn : n < infinity) (hc : 0 < c) :
    round (magnitude n * c) (c * one) = n := by
  have hlo : greatest (fun j => magnitude j * (c * one) ≤ magnitude n * c * one) 63 0 =
      n := by
    refine greatest_eq (fun j => ?_) (Nat.zero_le n) ?_
    · rw [decide_eq_true_iff, Nat.mul_assoc, Nat.mul_le_mul_right_iff (Nat.mul_pos hc one_pos)]
      exact magnitude_strictMono.le_iff_le
    · rw [infinity] at hn
      omega
  have hlt : 2 * (magnitude n * c * one) <
      (magnitude n + magnitude (n + 1)) * (c * one) := by
    have := magnitude_lt_succ n
    calc 2 * (magnitude n * c * one) = 2 * magnitude n * (c * one) := by ring
      _ < (magnitude n + magnitude (n + 1)) * (c * one) :=
        Nat.mul_lt_mul_of_pos_right (by omega) (Nat.mul_pos hc one_pos)
  simp only [round, hlo, if_pos hlt]
  omega

/-! ### Decimals -/

/-- The magnitude nearest to `d * 10 ^ e`. -/
def ofDecimal (d : ℕ) (e : ℤ) : ℕ := round (d * 10 ^ e.toNat) (10 ^ (-e).toNat)

/-- Zeros at the end of a decimal do not matter. -/
theorem ofDecimal_shift (d k : ℕ) (e : ℤ) : ofDecimal (d * 10 ^ k) (e - k) = ofDecimal d e := by
  refine round_congr (by positivity) (by positivity) ?_
  have hpow : k + (e - k).toNat + (-e).toNat = e.toNat + (-(e - k)).toNat := by omega
  calc d * 10 ^ k * 10 ^ (e - k).toNat * 10 ^ (-e).toNat
      = d * 10 ^ (k + (e - k).toNat + (-e).toNat) := by ring
    _ = d * 10 ^ e.toNat * 10 ^ (-(e - k)).toNat := by rw [hpow]; ring

theorem ofDecimal_zero (e : ℤ) : ofDecimal 0 e = 0 := by
  have h := @round_magnitude 0 1 (by decide) Nat.one_pos
  have hzero : magnitude 0 = 0 := rfl
  rw [hzero, Nat.zero_mul, Nat.one_mul] at h
  rw [ofDecimal, Nat.zero_mul]
  exact (round_congr (by positivity) one_pos (by rw [Nat.zero_mul, Nat.zero_mul])).trans h

/-- The number of digits before the decimal point of a magnitude that is not zero, which is
    negative if zeros follow the point. -/
def pointOf (n : ℕ) : ℤ := (Nat.log 10 (magnitude n * 10 ^ 400 / one) : ℤ) - 399

/-- The decimal of `k` digits that is rounded to the magnitude, the nearest if there are
    several, the even one if there are two. -/
def withDigits (n k : ℕ) : Option (ℕ × ℤ) :=
  let e := pointOf n - k
  let num := magnitude n * 10 ^ (-e).toNat
  let den := one * 10 ^ e.toNat
  let q := num / den
  if ofDecimal q e = n then
    if ofDecimal (q + 1) e = n ∧ ((2 * q + 1) * den < 2 * num ∨
        (2 * q + 1) * den = 2 * num ∧ q % 2 = 1) then some (q + 1, e)
    else some (q, e)
  else if ofDecimal (q + 1) e = n then some (q + 1, e)
  else none

/-- The shortest decimal that is rounded to the magnitude. -/
def shortest (n : ℕ) : ℕ × ℤ :=
  -- No magnitude takes more than 17 digits. What it stands for is a decimal too.
  ((List.range' 1 17).findSome? (withDigits n)).getD (magnitude n * 5 ^ 1074, -1074)

theorem ofDecimal_withDigits {n k d : ℕ} {e : ℤ} (h : withDigits n k = some (d, e)) :
    ofDecimal d e = n := by
  rw [withDigits] at h
  split_ifs at h with h₁ h₂ h₃ <;> cases h
  · exact h₂.1
  · exact h₁
  · exact h₃

theorem ofDecimal_exact {n : ℕ} (hn : n < infinity) :
    ofDecimal (magnitude n * 5 ^ 1074) (-1074) = n := by
  have hden : (10 : ℕ) ^ 1074 = 5 ^ 1074 * one := by rw [one, ← Nat.mul_pow]
  have h := round_magnitude hn (c := 5 ^ 1074) (by positivity)
  rw [← hden] at h
  rw [ofDecimal, show (-1074 : ℤ).toNat = 0 from rfl, show (- -1074 : ℤ).toNat = 1074 from rfl,
    pow_zero, Nat.mul_one, h]

/-- The shortest decimal of a magnitude is rounded to it. -/
theorem ofDecimal_shortest {n : ℕ} (hn : n < infinity) :
    ofDecimal (shortest n).1 (shortest n).2 = n := by
  rw [shortest]
  cases h : (List.range' 1 17).findSome? (withDigits n) with
  | none => exact ofDecimal_exact hn
  | some de =>
    obtain ⟨k, -, hk⟩ := List.exists_of_findSome?_eq_some h
    exact ofDecimal_withDigits hk

/-! ### Powers of ten -/

/-- The bits of the magnitude 1e16. -/
def e16 : ℕ := 0x4341C37937E08000

variable {n k : ℕ}

theorem magnitude_e16 : magnitude e16 = 10 ^ 16 * one := by decide +kernel

theorem magnitude_infinity : magnitude infinity = 2 ^ 1024 * one := by decide +kernel

theorem lt_e16_iff : n < e16 ↔ magnitude n < 10 ^ 16 * one := by
  rw [← magnitude_e16, magnitude_strictMono.lt_iff_lt]

theorem one_lt : one < 10 ^ 400 := by decide +kernel

theorem magnitude_pos (hn : 0 < n) : 0 < magnitude n :=
  Nat.zero_lt_of_lt (magnitude_strictMono hn)

/-- The powers of ten between which a magnitude lies. -/
theorem pointOf_bounds (hn : 0 < n) : ∃ l : ℕ, pointOf n = l - 399 ∧
    10 ^ l * one ≤ magnitude n * 10 ^ 400 ∧ magnitude n * 10 ^ 400 < 10 ^ (l + 1) * one := by
  have hpos : magnitude n * 10 ^ 400 / one ≠ 0 := by
    have hle : one ≤ magnitude n * 10 ^ 400 :=
      one_lt.le.trans (Nat.le_mul_of_pos_left _ (magnitude_pos hn))
    exact (Nat.div_pos hle one_pos).ne'
  refine ⟨_, rfl, ?_, ?_⟩
  · exact (Nat.le_div_iff_mul_le one_pos).1 (Nat.pow_log_le_self 10 hpos)
  · exact (Nat.div_lt_iff_lt_mul one_pos).1 (Nat.lt_pow_succ_log_self (by norm_num) _)

theorem pointOf_le_iff {p : ℕ} (hn : 0 < n) :
    pointOf n ≤ p ↔ magnitude n < 10 ^ p * one := by
  obtain ⟨l, hl, hle, hlt⟩ := pointOf_bounds hn
  rw [hl]
  constructor
  · intro h
    have hpow : 10 ^ (l + 1) * one ≤ 10 ^ p * one * 10 ^ 400 := by
      rw [Nat.mul_right_comm, ← pow_add]
      exact Nat.mul_le_mul_right _ (Nat.pow_le_pow_right (by norm_num) (by omega))
    exact Nat.lt_of_mul_lt_mul_right (hlt.trans_le hpow)
  · intro h
    have hpow : 10 ^ l * one < 10 ^ (p + 400) * one := by
      rw [pow_add, Nat.mul_right_comm]
      exact hle.trans_lt (Nat.mul_lt_mul_of_pos_right h (by positivity))
    have := (Nat.pow_lt_pow_iff_right (by norm_num : 1 < 10)).1 (Nat.lt_of_mul_lt_mul_right hpow)
    omega

/-- The bounds of `m` are those of a quotient of `k` digits. -/
theorem quotient_bounds {m o l u v c : ℕ} (ho : 0 < o) (hk : 0 < k) (hle : 10 ^ l * o ≤ m * 10 ^ c)
    (hlt : m * 10 ^ c < 10 ^ (l + 1) * o) (h : l + 1 + v = k + u + c) :
    10 ^ (k - 1) ≤ m * 10 ^ v / (o * 10 ^ u) ∧ m * 10 ^ v / (o * 10 ^ u) < 10 ^ k := by
  have hden : 0 < o * 10 ^ u := Nat.mul_pos ho (by positivity)
  rw [Nat.le_div_iff_mul_le hden, Nat.div_lt_iff_lt_mul hden]
  -- Both sides are compared after they are multiplied by the same power of ten.
  constructor
  · refine Nat.le_of_mul_le_mul_right (c := 10 ^ c) ?_ (by positivity)
    calc 10 ^ (k - 1) * (o * 10 ^ u) * 10 ^ c
        = 10 ^ (k - 1 + u + c) * o := by ring
      _ = 10 ^ (l + v) * o := by
        congr 2
        omega
      _ = 10 ^ l * o * 10 ^ v := by ring
      _ ≤ m * 10 ^ c * 10 ^ v := Nat.mul_le_mul_right _ hle
      _ = m * 10 ^ v * 10 ^ c := Nat.mul_right_comm _ _ _
  · refine Nat.lt_of_mul_lt_mul_right (a := 10 ^ c) ?_
    calc m * 10 ^ v * 10 ^ c
        = m * 10 ^ c * 10 ^ v := Nat.mul_right_comm _ _ _
      _ < 10 ^ (l + 1) * o * 10 ^ v := Nat.mul_lt_mul_of_pos_right hlt (by positivity)
      _ = 10 ^ (l + 1 + v) * o := by ring
      _ = 10 ^ k * (o * 10 ^ u) * 10 ^ c := by
        rw [h]
        ring

/-- A decimal of `k` digits, or the next power of ten. -/
theorem withDigits_bounds {x : ℕ × ℤ} (hn : 0 < n) (hk : 0 < k) (h : withDigits n k = some x) :
    x.2 = pointOf n - k ∧ 10 ^ (k - 1) ≤ x.1 ∧ x.1 ≤ 10 ^ k := by
  obtain ⟨l, hl, hle, hlt⟩ := pointOf_bounds hn
  obtain ⟨hlo, hhi⟩ := quotient_bounds (u := (pointOf n - k).toNat)
    (v := (-(pointOf n - k)).toNat) one_pos hk hle hlt (by omega)
  rw [withDigits] at h
  split_ifs at h <;> cases h
  · exact ⟨rfl, Nat.le_succ_of_le hlo, hhi⟩
  · exact ⟨rfl, hlo, hhi.le⟩
  · exact ⟨rfl, Nat.le_succ_of_le hlo, hhi⟩

/-- The shortest decimal has a number of digits, or is what the magnitude stands for. -/
theorem shortest_cases (n : ℕ) :
    (∃ k, 0 < k ∧ k ≤ 17 ∧ withDigits n k = some (shortest n)) ∨
      ∃ c : ℕ, one = 2 ^ c ∧ shortest n = (magnitude n * 5 ^ c, -(c : ℤ)) := by
  rw [shortest]
  rcases h : (List.range' 1 17).findSome? (withDigits n) with _ | de
  · exact .inr ⟨1074, rfl, rfl⟩
  · obtain ⟨k, hk, heq⟩ := List.exists_of_findSome?_eq_some h
    have := List.mem_range'_1.1 hk
    exact .inl ⟨k, by omega, by omega, heq⟩

theorem ofDecimal_one_sixteen : ofDecimal 1 16 = e16 := by
  have h := @round_magnitude e16 1 (by decide) Nat.one_pos
  rw [magnitude_e16] at h
  rw [ofDecimal]
  refine Eq.trans (round_congr (by decide) (Nat.mul_pos Nat.one_pos one_pos) ?_) h
  rw [show (16 : ℤ).toNat = 16 from rfl, show (-16 : ℤ).toNat = 0 from rfl]
  ring

/-- What the magnitudes from 1e16 on stand for is whole. -/
theorem one_dvd_magnitude (hn : e16 ≤ n) : one ∣ magnitude n := by
  rw [e16] at hn
  rw [magnitude, if_neg (by omega), one]
  exact Dvd.dvd.mul_left (pow_dvd_pow 2 (by omega)) _

end Binary64

end AslanCore
