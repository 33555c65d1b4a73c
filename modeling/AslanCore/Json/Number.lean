import AslanCore.Binary64
import Mathlib.Data.List.DropRight
import Mathlib.Data.List.TakeDrop
import Mathlib.Tactic.IntervalCases

/-!
# The text of numbers

The numbers of JSON texts: their parts (`NumberText`), how they are found at the start of a
text (`scanNumber`), and the texts that Python writes for integers and floats
(`NumberText.ofInt`, `NumberText.repr`).

* `scanNumber_chars`: the text of a number is found where it is written, up to a character that
  ends it;
* `NumberText.magnitude_repr`: the text of a float stands for it.
-/

namespace AslanCore

/-- The text of a number: the digits before the point, those after it, if there is a point, and
    the digits of the exponent, if there is one, with its sign. -/
structure NumberText where
  neg : Bool
  int : List Char
  frac : List Char
  exp : Option (Bool × List Char)
  deriving DecidableEq

namespace NumberText

/-- The characters of the exponent. -/
def expChars : Option (Bool × List Char) → List Char
  | none => []
  | some (neg, ds) => 'e' :: (if neg then '-' else '+') :: ds

/-- The characters of the digits after the point. -/
def fracChars : List Char → List Char
  | [] => []
  | ds => '.' :: ds

/-- The characters of a number. -/
def chars (t : NumberText) : List Char :=
  (if t.neg then ['-'] else []) ++ t.int ++ fracChars t.frac ++ expChars t.exp

/-- The text is that of a float. -/
def IsFloat (t : NumberText) : Prop := t.frac ≠ [] ∨ t.exp ≠ none

instance : DecidablePred IsFloat := fun _ => inferInstanceAs (Decidable (_ ∨ _))

/-- The integer that the text stands for, if it is not that of a float. -/
def toInt (t : NumberText) : ℤ :=
  let n := Nat.ofDigitChars 10 t.int 0
  if t.neg then -n else n

/-- The exponent of the text. -/
def expValue : Option (Bool × List Char) → ℤ
  | none => 0
  | some (neg, ds) =>
    let n := Nat.ofDigitChars 10 ds 0
    if neg then -n else n

/-- The magnitude nearest to what the text stands for. -/
def magnitude (t : NumberText) : ℕ :=
  Binary64.ofDecimal (Nat.ofDigitChars 10 (t.int ++ t.frac) 0)
    (expValue t.exp - t.frac.length)

/-- The parts are those of a number: digits, without a zero in front. -/
structure WellFormed (t : NumberText) : Prop where
  int_ne : t.int ≠ []
  int_digit : ∀ c ∈ t.int, c.isDigit
  int_zero : t.int.head? = some '0' → t.int = ['0']
  frac_digit : ∀ c ∈ t.frac, c.isDigit
  exp_digit : ∀ e ∈ t.exp, e.2 ≠ [] ∧ ∀ c ∈ e.2, c.isDigit

end NumberText

/-! ### Scanning -/

/-- The digits at the start of a text, and what follows them. -/
def spanDigits (cs : List Char) : List Char × List Char := cs.span Char.isDigit

/-- The digits before the point. -/
def scanInt : List Char → Option (List Char × List Char)
  | '0' :: cs => some (['0'], cs)
  | cs =>
    match spanDigits cs with
    | ([], _) => none
    | (ds, rest) => some (ds, rest)

/-- The digits after the point, if there are any. -/
def scanFrac : List Char → List Char × List Char
  | '.' :: cs =>
    match spanDigits cs with
    | ([], _) => ([], '.' :: cs)
    | (ds, rest) => (ds, rest)
  | cs => ([], cs)

/-- The sign of an exponent. -/
def scanSign : List Char → Bool × List Char
  | '-' :: cs => (true, cs)
  | '+' :: cs => (false, cs)
  | cs => (false, cs)

/-- The exponent, if there is one. -/
def scanExp : List Char → Option (Bool × List Char) × List Char
  | [] => (none, [])
  | c :: cs =>
    if c = 'e' ∨ c = 'E' then
      match spanDigits (scanSign cs).2 with
      | ([], _) => (none, c :: cs)
      | (ds, rest) => (some ((scanSign cs).1, ds), rest)
    else (none, c :: cs)

/-- The number after its sign. -/
def scanUnsigned (neg : Bool) (cs : List Char) : Option (NumberText × List Char) := do
  let (int, cs) ← scanInt cs
  let (frac, cs) := scanFrac cs
  let (exp, cs) := scanExp cs
  some ({ neg, int, frac, exp }, cs)

/-- The number at the start of a text, and what follows it. -/
def scanNumber : List Char → Option (NumberText × List Char)
  | '-' :: cs => scanUnsigned true cs
  | cs => scanUnsigned false cs

/-- Nothing follows that would belong to a number. -/
def EndsNumber (rest : List Char) : Prop :=
  ∀ c ∈ rest.head?, c.isDigit = false ∧ c ≠ '.' ∧ c ≠ 'e' ∧ c ≠ 'E'

variable {t : NumberText} {ds rest : List Char}

theorem spanDigits_append (hd : ∀ c ∈ ds, c.isDigit) (hr : ∀ c ∈ rest.head?, c.isDigit = false) :
    spanDigits (ds ++ rest) = (ds, rest) := by
  have hrest : rest.takeWhile Char.isDigit = [] ∧ rest.dropWhile Char.isDigit = rest := by
    cases rest with
    | nil => exact ⟨rfl, rfl⟩
    | cons c rest =>
      have hc := hr c rfl
      exact ⟨by simp [hc], by simp [hc]⟩
  rw [spanDigits, List.span_eq_takeWhile_dropWhile, List.takeWhile_append_of_pos hd,
    List.dropWhile_append_of_pos hd, hrest.1, hrest.2, List.append_nil]

theorem scanExp_append {e : Option (Bool × List Char)}
    (he : ∀ x ∈ e, x.2 ≠ [] ∧ ∀ c ∈ x.2, c.isDigit) (hr : EndsNumber rest) :
    scanExp (NumberText.expChars e ++ rest) = (e, rest) := by
  cases e with
  | none =>
    cases rest with
    | nil => rfl
    | cons c rest =>
      obtain ⟨-, -, h₁, h₂⟩ := hr c rfl
      simp [NumberText.expChars, scanExp, h₁, h₂]
  | some x =>
    obtain ⟨neg, ds⟩ := x
    obtain ⟨hne, hd⟩ := he _ rfl
    have hspan := spanDigits_append hd fun c hc => (hr c hc).1
    obtain ⟨d, ds, rfl⟩ := List.exists_cons_of_ne_nil hne
    cases neg <;>
      simp only [NumberText.expChars, scanExp, scanSign, List.cons_append, true_or, if_true,
        Bool.false_eq_true, if_false] <;>
      rw [← List.cons_append, hspan]

theorem scanFrac_append {frac : List Char} (hd : ∀ c ∈ frac, c.isDigit)
    (hr : ∀ c ∈ rest.head?, c.isDigit = false ∧ c ≠ '.') :
    scanFrac (NumberText.fracChars frac ++ rest) = (frac, rest) := by
  cases frac with
  | nil =>
    cases rest with
    | nil => rfl
    | cons c rest =>
      have hc := (hr c rfl).2
      rw [NumberText.fracChars, List.nil_append, scanFrac.eq_def]
      split
      · rename_i h
        cases h
        exact absurd rfl hc
      · rfl
  | cons d ds =>
    have hspan := spanDigits_append hd fun c hc => (hr c hc).1
    simp only [NumberText.fracChars, List.cons_append, scanFrac]
    rw [← List.cons_append, hspan]

theorem scanInt_append {int : List Char} (hne : int ≠ []) (hd : ∀ c ∈ int, c.isDigit)
    (hz : int.head? = some '0' → int = ['0']) (hr : ∀ c ∈ rest.head?, c.isDigit = false) :
    scanInt (int ++ rest) = some (int, rest) := by
  obtain ⟨d, ds, rfl⟩ := List.exists_cons_of_ne_nil hne
  have hspan := spanDigits_append hd hr
  rw [List.cons_append, scanInt.eq_def]
  split
  · rename_i h
    cases h
    cases hz rfl
    rfl
  · rw [← List.cons_append, hspan]

/-- The text of a number is found where it is written. -/
theorem scanNumber_chars (ht : t.WellFormed) (hr : EndsNumber rest) :
    scanNumber (t.chars ++ rest) = some (t, rest) := by
  obtain ⟨neg, int, frac, exp⟩ := t
  obtain ⟨hne, hi, hz, hf, he⟩ := ht
  -- What comes after each part does not belong to it.
  have hexp : ∀ c ∈ (NumberText.expChars exp ++ rest).head?, c.isDigit = false ∧ c ≠ '.' := by
    intro c hc
    cases exp with
    | none => exact ⟨(hr c hc).1, (hr c hc).2.1⟩
    | some x =>
      cases hc
      exact ⟨rfl, by decide⟩
  have hfrac : ∀ c ∈ (NumberText.fracChars frac ++ (NumberText.expChars exp ++ rest)).head?,
      c.isDigit = false := by
    intro c hc
    cases frac with
    | nil => exact (hexp c hc).1
    | cons d ds =>
      cases hc
      rfl
  have hunsigned : ∀ neg, scanUnsigned neg
      (int ++ (NumberText.fracChars frac ++ (NumberText.expChars exp ++ rest))) =
      some (⟨neg, int, frac, exp⟩, rest) := by
    intro neg
    simp [scanUnsigned, scanInt_append hne hi hz hfrac, scanFrac_append hf hexp,
      scanExp_append he hr]
  simp only [NumberText.chars, List.append_assoc]
  cases neg with
  | true => exact hunsigned true
  | false =>
    rw [if_neg Bool.false_ne_true, List.nil_append, scanNumber.eq_def]
    split
    · -- A digit is not a sign.
      rename_i h
      obtain ⟨d, ds, rfl⟩ := List.exists_cons_of_ne_nil hne
      cases h
      exact absurd (hi '-' List.mem_cons_self) (by decide)
    · exact hunsigned false

/-! ### Writing -/

theorem head?_toDigits_ne {n : ℕ} (hn : 0 < n) : (Nat.toDigits 10 n).head? ≠ some '0' := by
  induction n using Nat.strong_induction_on with
  | _ n ih =>
    by_cases h : n < 10
    · rw [Nat.toDigits_of_lt_base h]
      interval_cases n <;> decide
    · rw [Nat.toDigits_of_base_le (by omega) (by omega)]
      obtain ⟨d, ds, hds⟩ :=
        List.exists_cons_of_ne_nil (@Nat.toDigits_ne_nil (n / 10) 10)
      have := ih (n / 10) (by omega) (by omega)
      rw [hds] at this ⊢
      exact this

namespace NumberText

/-- The text of an integer. -/
def ofInt (n : ℤ) : NumberText where
  neg := n < 0
  int := Nat.toDigits 10 n.natAbs
  frac := []
  exp := none

/-- The digits of an exponent, of which there are at least two. -/
def expDigits (n : ℕ) : List Char := if n < 10 then '0' :: Nat.toDigits 10 n else Nat.toDigits 10 n

/-- The text of the number with the digits `ds`, `point` of them before the point. -/
def place (neg : Bool) (ds : List Char) (point : ℤ) : NumberText :=
  if -4 < point ∧ point ≤ 16 then
    if point ≤ 0 then ⟨neg, ['0'], List.replicate (-point).toNat '0' ++ ds, none⟩
    else if point < ds.length then ⟨neg, ds.take point.toNat, ds.drop point.toNat, none⟩
    else ⟨neg, ds ++ List.replicate (point.toNat - ds.length) '0', ['0'], none⟩
  else
    ⟨neg, ds.take 1, ds.drop 1, some (point - 1 < 0, expDigits (point - 1).natAbs)⟩

/-- The digits of the shortest decimal of a magnitude. -/
def shortestDigits (n : ℕ) : List Char := Nat.toDigits 10 (Binary64.shortest n).1

/-- `float.__repr__` of the number with a sign and a finite magnitude. -/
def repr (neg : Bool) (n : ℕ) : NumberText :=
  if n = 0 then ⟨neg, ['0'], ['0'], none⟩
  else
    place neg ((shortestDigits n).rdropWhile (· = '0'))
      ((shortestDigits n).length + (Binary64.shortest n).2)

theorem wellFormed_toDigits (neg : Bool) (n : ℕ) :
    WellFormed ⟨neg, Nat.toDigits 10 n, [], none⟩ where
  int_ne := Nat.toDigits_ne_nil
  int_digit _ hc := Nat.isDigit_of_mem_toDigits (by omega) (by omega) hc
  int_zero h := by
    rcases Nat.eq_zero_or_pos n with rfl | hn
    · rfl
    · exact absurd h (head?_toDigits_ne hn)
  frac_digit _ hc := absurd hc List.not_mem_nil
  exp_digit _ he := by cases he

theorem wellFormed_ofInt (n : ℤ) : (ofInt n).WellFormed := wellFormed_toDigits _ _

theorem not_isFloat_ofInt (n : ℤ) : ¬(ofInt n).IsFloat := by simp [IsFloat, ofInt]

/-- The text of an integer stands for it. -/
theorem toInt_ofInt (n : ℤ) : (ofInt n).toInt = n := by
  simp only [toInt, ofInt, Nat.ofDigitChars_ten_toDigits, decide_eq_true_eq]
  split_ifs <;> omega

theorem isDigit_expDigits {n : ℕ} : expDigits n ≠ [] ∧ ∀ c ∈ expDigits n, c.isDigit := by
  have hd : ∀ c ∈ Nat.toDigits 10 n, c.isDigit := fun c hc =>
    Nat.isDigit_of_mem_toDigits (by omega) (by omega) hc
  rw [expDigits]
  split_ifs
  · refine ⟨by simp, List.forall_mem_cons.2 ⟨rfl, hd⟩⟩
  · exact ⟨Nat.toDigits_ne_nil, hd⟩

theorem ofDigitChars_expDigits (n : ℕ) : Nat.ofDigitChars 10 (expDigits n) 0 = n := by
  rw [expDigits]
  split_ifs <;> simp [Nat.ofDigitChars_cons]

variable {neg : Bool} {ds : List Char} {point : ℤ}

theorem wellFormed_place (hne : ds ≠ []) (hd : ∀ c ∈ ds, c.isDigit) (hz : ds.head? ≠ some '0') :
    (place neg ds point).WellFormed := by
  have hrep : ∀ k, ∀ c ∈ List.replicate k '0', c.isDigit := fun k c hc => by
    rw [List.eq_of_mem_replicate hc]
    rfl
  obtain ⟨d, ds, rfl⟩ := List.exists_cons_of_ne_nil hne
  rw [place]
  split_ifs with h₁ h₂ h₃
  · refine ⟨by simp, by simp, fun _ => rfl, ?_, by simp⟩
    exact List.forall_mem_append.2 ⟨hrep _, hd⟩
  · obtain ⟨k, hk⟩ : ∃ k, point.toNat = k + 1 := ⟨point.toNat - 1, by omega⟩
    rw [hk]
    exact ⟨by simp, fun c hc => hd c (List.mem_of_mem_take hc), fun h => absurd h hz,
      fun c hc => hd c (List.mem_of_mem_drop hc), by simp⟩
  · exact ⟨by simp, List.forall_mem_append.2 ⟨hd, hrep _⟩, fun h => absurd h hz, by simp,
      by simp⟩
  · refine ⟨by simp, fun c hc => hd c (List.mem_of_mem_take hc), fun h => absurd h hz,
      fun c hc => hd c (List.mem_of_mem_drop hc), fun e he => ?_⟩
    cases he
    exact isDigit_expDigits

theorem isFloat_place (hne : ds ≠ []) : (place neg ds point).IsFloat := by
  rw [place]
  split_ifs with h₁ h₂ h₃
  · exact .inl (by simp [hne])
  · refine .inl fun h => ?_
    have := congrArg List.length h
    rw [List.length_drop, List.length_nil] at this
    omega
  · exact .inl (by simp)
  · exact .inr (by simp)

theorem neg_place : (place neg ds point).neg = neg := by
  rw [place]
  split_ifs <;> rfl

/-- Where the point stands decides the exponent. -/
theorem magnitude_place (hne : ds ≠ []) : (place neg ds point).magnitude =
    Binary64.ofDecimal (Nat.ofDigitChars 10 ds 0) (point - ds.length) := by
  have hlen : 0 < ds.length := List.length_pos_iff.2 hne
  rw [place]
  split_ifs with h₁ h₂ h₃ <;> simp only [magnitude, expValue]
  · rw [List.singleton_append, Nat.ofDigitChars_cons, Nat.ofDigitChars_append,
      Nat.ofDigitChars_replicate_zero]
    congr 1
    rw [List.length_append, List.length_replicate]
    omega
  · rw [List.take_append_drop, List.length_drop]
    congr 1
    omega
  · rw [List.append_assoc, ← List.replicate_succ', Nat.ofDigitChars_append,
      Nat.ofDigitChars_replicate_zero, Nat.mul_comm]
    refine Eq.trans ?_ (Binary64.ofDecimal_shift _ (point.toNat - ds.length + 1) _)
    have hone : ((['0'] : List Char).length : ℤ) = 1 := rfl
    rw [hone]
    congr 1
    omega
  · rw [List.take_append_drop, List.length_drop, ofDigitChars_expDigits]
    congr 1
    split_ifs with h
    · have := of_decide_eq_true h
      omega
    · have := of_decide_eq_false (Bool.eq_false_iff.2 h)
      omega

variable {n : ℕ}

/-- What is left of the digits of the shortest decimal without the zeros at their end. -/
theorem exists_shortest (hn : 0 < n) (hfin : n < Binary64.infinity) :
    let ds := (shortestDigits n).rdropWhile (· = '0')
    ds ≠ [] ∧ (∀ c ∈ ds, c.isDigit) ∧ ds.head? ≠ some '0' ∧
      Binary64.ofDecimal (Nat.ofDigitChars 10 ds 0)
        ((shortestDigits n).length + (Binary64.shortest n).2 - ds.length) = n := by
  intro ds'
  set ds := shortestDigits n
  have hof := Binary64.ofDecimal_shortest hfin
  have hpos : 0 < (Binary64.shortest n).1 := by
    by_contra h
    rw [show (Binary64.shortest n).1 = 0 by omega, Binary64.ofDecimal_zero] at hof
    omega
  have hhead : ds.head? ≠ some '0' := head?_toDigits_ne hpos
  have hzeros : ds.rtakeWhile (· = '0') = List.replicate (ds.rtakeWhile (· = '0')).length '0' :=
    List.eq_replicate_of_mem fun c hc => by simpa using List.mem_rtakeWhile_imp hc
  have hds : ds' ++ List.replicate (ds.rtakeWhile (· = '0')).length '0' = ds := by
    rw [← hzeros]
    exact List.rdropWhile_append_rtakeWhile
  have hne : ds' ≠ [] := by
    intro h
    rw [h, List.nil_append] at hds
    cases hk : (ds.rtakeWhile (· = '0')).length with
    | zero =>
      rw [hk] at hds
      exact Nat.toDigits_ne_nil hds.symm
    | succ k =>
      rw [hk] at hds
      exact hhead (by rw [← hds]; rfl)
  refine ⟨hne, fun c hc => ?_, ?_, ?_⟩
  · have hmem : c ∈ ds := List.IsPrefix.subset (List.rdropWhile_prefix _ _) hc
    exact Nat.isDigit_of_mem_toDigits (by omega) (by omega) hmem
  · obtain ⟨d, ds'', hds''⟩ := List.exists_cons_of_ne_nil hne
    rw [← hds, hds''] at hhead
    rwa [hds'']
  · refine Eq.trans ?_ hof
    refine Eq.trans (Binary64.ofDecimal_shift _ (ds.rtakeWhile (· = '0')).length _).symm ?_
    have hval : Nat.ofDigitChars 10 ds' 0 * 10 ^ (ds.rtakeWhile (· = '0')).length =
        (Binary64.shortest n).1 := by
      rw [Nat.mul_comm, ← Nat.ofDigitChars_replicate_zero, ← Nat.ofDigitChars_append, hds]
      exact Nat.ofDigitChars_ten_toDigits
    have hlen := congrArg List.length hds
    rw [List.length_append, List.length_replicate] at hlen
    have hexp : (ds.length : ℤ) + (Binary64.shortest n).2 - ds'.length -
        (ds.rtakeWhile (· = '0')).length = (Binary64.shortest n).2 := by
      omega
    rw [hval, hexp]

theorem wellFormed_repr (hfin : n < Binary64.infinity) : (repr neg n).WellFormed := by
  rw [repr]
  split_ifs with h
  · exact ⟨by simp, by simp, fun _ => rfl, by simp, by simp⟩
  · obtain ⟨hne, hd, hz, -⟩ := exists_shortest (by omega) hfin
    exact wellFormed_place hne hd hz

theorem isFloat_repr (hfin : n < Binary64.infinity) : (repr neg n).IsFloat := by
  rw [repr]
  split_ifs with h
  · exact .inl (by simp)
  · exact isFloat_place (exists_shortest (by omega) hfin).1

theorem neg_repr : (repr neg n).neg = neg := by
  rw [repr]
  split_ifs
  · rfl
  · rw [neg_place]

/-- The text of a float stands for it. -/
theorem magnitude_repr (hfin : n < Binary64.infinity) : (repr neg n).magnitude = n := by
  rw [repr]
  split_ifs with h
  · have hzero : Nat.ofDigitChars 10 (['0'] ++ ['0']) 0 = 0 := rfl
    rw [magnitude, hzero, Binary64.ofDecimal_zero, h]
  · obtain ⟨hne, -, -, hof⟩ := exists_shortest (by omega) hfin
    rw [magnitude_place hne, hof]

end NumberText

end AslanCore
