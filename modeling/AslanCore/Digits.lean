import Mathlib.Data.List.TakeWhile
import Mathlib.Data.Nat.Digits.Defs
import Mathlib.Tactic.Common

/-!
# Decimal digits

Numbers that are written with digits in front of other characters, filled up with zeros. Where the
digits end can be told, if no digit follows them.

* `zeroPad`: the digits;
* `zeroPad_append_inj`: the number and what follows it are determined by the text;
* `append_cons_inj_of_not_mem`: a separator that does not occur before it splits a text in one way.
-/

namespace AslanCore

/-- The digits of a number, after zeros that fill up the width. -/
def zeroPad (width n : ℕ) : List Char := (Nat.toDigits 10 n).leftpad width '0'

theorem isDigit_of_mem_zeroPad {width n : ℕ} {c : Char} (h : c ∈ zeroPad width n) : c.isDigit := by
  rw [zeroPad, List.leftpad, List.mem_append, List.mem_replicate] at h
  rcases h with ⟨-, rfl⟩ | h
  · rfl
  · exact Nat.isDigit_of_mem_toDigits (by omega) (le_refl 10) h

@[simp] theorem ofDigitChars_zeroPad (width n : ℕ) :
    Nat.ofDigitChars 10 (zeroPad width n) 0 = n := by
  rw [zeroPad, List.leftpad, Nat.ofDigitChars_append, Nat.ofDigitChars_replicate_zero,
    Nat.mul_zero, Nat.ofDigitChars_ten_toDigits]

/-- The first occurrence of a character splits a text in one way. -/
theorem append_cons_inj_of_not_mem {c : Char} {x x' z z' : List Char} (hx : c ∉ x) (hx' : c ∉ x') :
    x ++ c :: z = x' ++ c :: z' ↔ x = x' ∧ z = z' := by
  refine ⟨fun h => ?_, fun ⟨hx, hz⟩ => hx ▸ hz ▸ rfl⟩
  rcases List.append_eq_append_iff.1 h with ⟨y, rfl, hy⟩ | ⟨y, rfl, hy⟩
  · rcases List.cons_eq_append_iff.1 hy with ⟨rfl, hz⟩ | ⟨y, rfl, -⟩
    · exact ⟨(List.append_nil x).symm, (List.cons.inj hz).2.symm⟩
    · exact absurd (List.mem_append_right _ List.mem_cons_self) hx'
  · rcases List.cons_eq_append_iff.1 hy with ⟨rfl, hz⟩ | ⟨y, rfl, -⟩
    · exact ⟨List.append_nil x', (List.cons.inj hz).2⟩
    · exact absurd (List.mem_append_right _ List.mem_cons_self) hx

/-- It is found where the texts before it and after it meet. -/
theorem takeWhile_ne_append_cons {c : Char} {x z : List Char} (hx : c ∉ x) :
    (x ++ c :: z).takeWhile (· ≠ c) = x ∧ (x ++ c :: z).dropWhile (· ≠ c) = c :: z := by
  have hne : ∀ d ∈ x, decide (d ≠ c) = true := fun d hd => decide_eq_true (by rintro rfl; exact hx hd)
  have hstop : ¬decide (c ≠ c) = true := by simp
  rw [List.takeWhile_append_of_pos hne, List.dropWhile_append_of_pos hne,
    List.takeWhile_cons_of_neg (p := fun d => decide (d ≠ c)) hstop,
    List.dropWhile_cons_of_neg (p := fun d => decide (d ≠ c)) hstop]
  exact ⟨List.append_nil x, rfl⟩

/-- Digits in front of texts that do not begin with one. -/
theorem zeroPad_append_inj {width n n' : ℕ} {z z' : List Char}
    (hz : ∀ c ∈ z.head?, ¬c.isDigit) (hz' : ∀ c ∈ z'.head?, ¬c.isDigit)
    (h : zeroPad width n ++ z = zeroPad width n' ++ z') : n = n' ∧ z = z' := by
  have hsplit : ∀ {x x' z z' : List Char}, (∀ c ∈ x, c.isDigit) → (∀ c ∈ z'.head?, ¬c.isDigit) →
      ∀ y, x = x' ++ y → y ++ z = z' → y = [] := by
    rintro x x' z z' hx hz' (_ | ⟨c, y⟩) rfl rfl
    · rfl
    · exact absurd (hx c (by simp)) (hz' c rfl)
  have hdigits : zeroPad width n = zeroPad width n' ∧ z = z' := by
    rcases List.append_eq_append_iff.1 h with ⟨y, hx, hy⟩ | ⟨y, hx, hy⟩
    · have hnil := hsplit (fun c => isDigit_of_mem_zeroPad) hz y hx hy.symm
      subst hnil
      exact ⟨by simpa using hx.symm, hy⟩
    · have hnil := hsplit (fun c => isDigit_of_mem_zeroPad) hz' y hx hy.symm
      subst hnil
      exact ⟨by simpa using hx, hy.symm⟩
  refine ⟨?_, hdigits.2⟩
  rw [← ofDigitChars_zeroPad width n, hdigits.1, ofDigitChars_zeroPad]

end AslanCore
