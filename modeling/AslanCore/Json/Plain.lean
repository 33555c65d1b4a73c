import AslanCore.Json.Number

/-!
# Numbers without exponents

A number may be written with all its digits, without an exponent, and zero without a sign
(`NumberText.plain`). It stands for the same magnitude (`magnitude_plain`), but the text of a float
becomes that of an integer if it had no digit after the point: for those that Python writes, from
1e16 on (`isFloat_plain_repr_iff`).
-/

namespace AslanCore

theorem toDigits_mul_pow {v : ℕ} (hv : 0 < v) (c : ℕ) :
    Nat.toDigits 10 (v * 10 ^ c) = Nat.toDigits 10 v ++ List.replicate c '0' := by
  induction c with
  | zero => simp
  | succ c ih =>
    have h := Nat.toDigits_append_toDigits (b := 10) (d := 0) (by decide)
      (Nat.mul_pos hv (show 0 < 10 ^ c by positivity)) (by decide)
    rw [pow_succ, ← Nat.mul_assoc, Nat.mul_comm _ 10, ← Nat.add_zero (10 * _), ← h, ih,
      Nat.toDigits_zero, List.append_assoc, ← List.replicate_succ']

theorem length_rdropWhile_append_zeros (ds : List Char) (c : ℕ) :
    ((ds ++ List.replicate c '0').rdropWhile (· = '0')).length ≤ ds.length := by
  induction c with
  | zero =>
    rw [List.replicate_zero, List.append_nil]
    exact (List.rdropWhile_prefix _ _).length_le
  | succ c ih =>
    rw [List.replicate_succ', ← List.append_assoc, List.rdropWhile_concat_pos _ _ _ (by decide)]
    exact ih

theorem ofDigitChars_lt {ds : List Char} (h : ∀ c ∈ ds, c.isDigit) (n : ℕ) :
    Nat.ofDigitChars 10 ds n < (n + 1) * 10 ^ ds.length := by
  induction ds generalizing n with
  | nil => rw [Nat.ofDigitChars_nil, List.length_nil, pow_zero]; omega
  | cons c ds ih =>
    obtain ⟨hc, hds⟩ := List.forall_mem_cons.1 h
    have hlt : c.toNat - '0'.toNat < 10 := by
      have hnine := (Char.isDigit_iff_toNat.1 hc).2
      rw [show '9'.toNat = 57 from rfl] at hnine
      rw [show '0'.toNat = 48 from rfl]
      omega
    rw [Nat.ofDigitChars_cons, List.length_cons, pow_succ']
    refine (ih hds _).trans_le ?_
    rw [← Nat.mul_assoc]
    exact Nat.mul_le_mul_right _ (by omega)

namespace NumberText

/-- The digits without the zeros in front of them, but for one if there is nothing else. -/
def stripZeros (ds : List Char) : List Char :=
  if ds.dropWhile (· = '0') = [] then ['0'] else ds.dropWhile (· = '0')

/-- The number with all its digits, without an exponent. Zero has no sign. -/
def plain (t : NumberText) : NumberText :=
  let ds := t.int ++ t.frac
  let point : ℤ := t.int.length + expValue t.exp
  { neg := t.neg && ds.any (· ≠ '0')
    int := stripZeros ((ds ++ List.replicate (point - ds.length).toNat '0').take point.toNat)
    frac := List.replicate (-point).toNat '0' ++ ds.drop point.toNat
    exp := none }

variable {t : NumberText} {ds : List Char}

theorem ofDigitChars_stripZeros (ds : List Char) :
    Nat.ofDigitChars 10 (stripZeros ds) 0 = Nat.ofDigitChars 10 ds 0 := by
  have hdrop : Nat.ofDigitChars 10 (ds.dropWhile (· = '0')) 0 = Nat.ofDigitChars 10 ds 0 := by
    induction ds with
    | nil => rfl
    | cons c ds ih =>
      by_cases hc : c = '0'
      · rw [List.dropWhile_cons_of_pos (by simpa using hc), ih, hc, Nat.ofDigitChars_cons]
        rfl
      · rw [List.dropWhile_cons_of_neg (by simpa using hc)]
  rw [stripZeros]
  split_ifs with h
  · rw [← hdrop, h]
    rfl
  · exact hdrop

/-- The number stands for the same magnitude. -/
theorem magnitude_plain (t : NumberText) : t.plain.magnitude = t.magnitude := by
  set ds := t.int ++ t.frac with hds
  set point : ℤ := t.int.length + expValue t.exp with hpoint
  set zeros := (point - ds.length).toNat with hzeros
  have hlen : (ds.length : ℤ) = t.int.length + t.frac.length := by
    rw [hds, List.length_append, Nat.cast_add]
  have hval : Nat.ofDigitChars 10 (stripZeros ((ds ++ List.replicate zeros '0').take point.toNat) ++
      (List.replicate (-point).toNat '0' ++ ds.drop point.toNat)) 0 =
        Nat.ofDigitChars 10 ds 0 * 10 ^ zeros := by
    rw [Nat.ofDigitChars_append, ofDigitChars_stripZeros, ← Nat.ofDigitChars_append]
    rcases le_or_gt point 0 with hle | hlt
    · -- All the digits come after the point.
      have hzero : zeros = 0 := by omega
      rw [Int.toNat_of_nonpos hle, List.take_zero, List.nil_append, List.drop_zero,
        Nat.ofDigitChars_append, Nat.ofDigitChars_replicate_zero, hzero, Nat.mul_zero, pow_zero,
        Nat.mul_one]
    · rw [Int.toNat_of_nonpos (show -point ≤ 0 by omega), List.replicate_zero, List.nil_append]
      have hdrop : ds.drop point.toNat = (ds ++ List.replicate zeros '0').drop point.toNat := by
        by_cases h : point.toNat ≤ ds.length
        · have hzero : zeros = 0 := by omega
          rw [hzero, List.replicate_zero, List.append_nil]
        · rw [List.drop_eq_nil_of_le (by omega), List.drop_eq_nil_of_le]
          rw [List.length_append, List.length_replicate]
          omega
      rw [hdrop, List.take_append_drop, Nat.ofDigitChars_append, Nat.ofDigitChars_replicate_zero,
        Nat.mul_comm]
  have hexp : (0 : ℤ) - ((List.replicate (-point).toNat '0' ++ ds.drop point.toNat).length : ℕ) =
      expValue t.exp - t.frac.length - zeros := by
    rw [List.length_append, List.length_replicate, List.length_drop]
    omega
  rw [magnitude, plain]
  exact (congrArg₂ Binary64.ofDecimal hval hexp).trans (Binary64.ofDecimal_shift _ _ _)

/-- It is the text of a float if there is a digit after the point. -/
theorem isFloat_plain_iff (hne : t.int ≠ []) :
    t.plain.IsFloat ↔ expValue t.exp < t.frac.length := by
  have hlen : 0 < t.int.length := List.length_pos_iff.2 hne
  rw [IsFloat, plain]
  simp only [ne_eq, not_true_eq_false, or_false, ← List.length_eq_zero_iff, List.length_append,
    List.length_replicate, List.length_drop]
  omega

/-- A number that is not zero keeps its sign. -/
theorem neg_plain (h : Nat.ofDigitChars 10 (t.int ++ t.frac) 0 ≠ 0) : t.plain.neg = t.neg := by
  have hany : (t.int ++ t.frac).any (· ≠ '0') = true := by
    by_contra hall
    have hzeros : t.int ++ t.frac = List.replicate (t.int ++ t.frac).length '0' := by
      refine List.eq_replicate_of_mem fun c hc => ?_
      by_contra hne
      exact hall (List.any_eq_true.2 ⟨c, hc, by simpa using hne⟩)
    rw [hzeros, Nat.ofDigitChars_replicate_zero, Nat.mul_zero] at h
    exact h rfl
  rw [plain]
  simp only [hany, Bool.and_true]

/-! ### Integers -/

theorem stripZeros_eq (hne : ds ≠ []) (hz : ds.head? = some '0' → ds = ['0']) :
    stripZeros ds = ds := by
  obtain ⟨d, ds, rfl⟩ := List.exists_cons_of_ne_nil hne
  by_cases hd : d = '0'
  · rw [hz (by rw [hd]; rfl)]
    rfl
  · rw [stripZeros, List.dropWhile_cons_of_neg (by simpa using hd), if_neg (by simp)]

/-- An integer is written like that. -/
theorem plain_ofInt (n : ℤ) : (ofInt n).plain = ofInt n := by
  have hwf := wellFormed_ofInt n
  have hzeros : stripZeros (Nat.toDigits 10 n.natAbs) = Nat.toDigits 10 n.natAbs :=
    stripZeros_eq hwf.int_ne hwf.int_zero
  have hneg : (ofInt n).plain.neg = (ofInt n).neg := by
    by_cases h : n = 0
    · rw [h]
      rfl
    · refine neg_plain ?_
      rw [ofInt, List.append_nil, Nat.ofDigitChars_ten_toDigits]
      omega
  rw [plain] at hneg ⊢
  simp only [ofInt, expValue, List.append_nil, add_zero, sub_self, Int.toNat_zero,
    List.replicate_zero, Int.toNat_natCast, List.take_length, List.drop_length] at hneg ⊢
  rw [hneg, hzeros,
    Int.toNat_of_nonpos (show -((Nat.toDigits 10 n.natAbs).length : ℤ) ≤ 0 by omega),
    List.replicate_zero]

/-! ### Floats -/

open Binary64 (shortest_cases e16 lt_e16_iff infinity ofDecimal_shortest ofDecimal_shift
  ofDecimal_one_sixteen withDigits_bounds pointOf_le_iff pointOf magnitude_e16 magnitude_strictMono
  one_dvd_magnitude one shortest magnitude_infinity)

variable {n : ℕ} {neg : Bool} {p : ℤ}

/-- How many digits of the shortest decimal of a magnitude stand before the point. -/
def point (n : ℕ) : ℤ := (shortestDigits n).length + (shortest n).2

theorem length_shortestDigits_le_iff {k : ℕ} (hk : 0 < k) :
    (shortestDigits n).length ≤ k ↔ (shortest n).1 < 10 ^ k :=
  Nat.length_toDigits_le_iff (by decide) hk

/-- The shortest decimal is not above a power of ten that the magnitude is below. -/
theorem point_le {p : ℕ} (hn : 0 < n) (hp : 0 < p)
    (h : Binary64.magnitude n < 10 ^ p * one) :
    point n ≤ p ∨ ∃ k : ℕ, shortest n = (10 ^ k, (p : ℤ) - k) := by
  rw [point]
  rcases shortest_cases n with ⟨k, hk, -, hw⟩ | ⟨c, hc, heq⟩
  · obtain ⟨he, -, hd⟩ := withDigits_bounds hn hk hw
    have hp := (pointOf_le_iff hn).2 h
    rcases hd.lt_or_eq with hlt | hd
    · have := (length_shortestDigits_le_iff hk).2 hlt
      exact .inl (by omega)
    · have hlen : (shortestDigits n).length ≤ k + 1 := by
        rw [length_shortestDigits_le_iff (by omega), hd]
        exact Nat.pow_lt_pow_right (by decide) (by omega)
      by_cases hlast : pointOf n = p
      · exact .inr ⟨k, Prod.ext hd (by rw [he, hlast])⟩
      · exact .inl (by omega)
  · have hlt : (shortest n).1 < 10 ^ (p + c) := by
      calc (shortest n).1 = Binary64.magnitude n * 5 ^ c := by rw [heq]
        _ < 10 ^ p * one * 5 ^ c := Nat.mul_lt_mul_of_pos_right h (by positivity)
        _ = 10 ^ (p + c) := by rw [hc, Nat.mul_assoc, ← Nat.mul_pow, pow_add]
    have hlen := (length_shortestDigits_le_iff (Nat.add_pos_left hp c)).2 hlt
    rw [heq]
    clear hc h
    exact .inl (by omega)

theorem point_le_sixteen (hn : 0 < n) (h : n < e16) : point n ≤ 16 := by
  rcases point_le hn (by decide) (lt_e16_iff.1 h) with hle | ⟨k, heq⟩
  · exact hle
  · -- The decimal is 1e16.
    have hfin : n < infinity := h.trans (by decide)
    have hof := ofDecimal_shortest hfin
    have hshift := ofDecimal_shift 1 k 16
    rw [heq] at hof
    rw [Nat.one_mul, ofDecimal_one_sixteen] at hshift
    exact absurd (hof.symm.trans hshift) h.ne

/-- From 1e16 on, the point stands after all the digits, and those are more than 16. -/
theorem point_of_le (h : e16 ≤ n) : 16 < point n ∧
    ((shortestDigits n).rdropWhile (· = '0')).length ≤ point n := by
  have hn : 0 < n := Nat.lt_of_lt_of_le (show 0 < e16 by decide) h
  have hmag : 10 ^ 16 * one ≤ Binary64.magnitude n := by
    rw [← magnitude_e16]
    exact magnitude_strictMono.monotone h
  have hdrop : ((shortestDigits n).rdropWhile (· = '0')).length ≤ (shortestDigits n).length :=
    (List.rdropWhile_prefix _ _).length_le
  rcases shortest_cases n with ⟨k, hk, hk', hw⟩ | ⟨c, hc, heq⟩
  · obtain ⟨he, hd, -⟩ := withDigits_bounds hn hk hw
    have hp : ¬pointOf n ≤ (16 : ℕ) := fun hp =>
      absurd ((pointOf_le_iff hn).1 hp) hmag.not_gt
    have hlen : k ≤ (shortestDigits n).length := by
      by_contra hlt
      by_cases hone : k = 1
      · have : 0 < (shortestDigits n).length := Nat.length_toDigits_pos
        omega
      · have hle : (shortestDigits n).length ≤ k - 1 := by omega
        rw [length_shortestDigits_le_iff (by omega)] at hle
        omega
    rw [point]
    omega
  · -- The digits are those of a whole number, and zeros.
    obtain ⟨v, hv⟩ := one_dvd_magnitude h
    have hval : (shortest n).1 = v * 10 ^ c := by
      rw [heq, hv, Nat.mul_right_comm, hc, ← Nat.mul_pow, Nat.mul_comm]
    have hv16 : 10 ^ 16 ≤ v := by
      refine Nat.le_of_mul_le_mul_right (c := one) ?_ Binary64.one_pos
      rwa [hv, Nat.mul_comm one] at hmag
    have hdigits : shortestDigits n = Nat.toDigits 10 v ++ List.replicate c '0' := by
      rw [shortestDigits, hval, toDigits_mul_pow (Nat.lt_of_lt_of_le (by positivity) hv16)]
    have hlen : ¬(Nat.toDigits 10 v).length ≤ 16 := by
      rw [Nat.length_toDigits_le_iff (by decide) (by decide)]
      exact hv16.not_gt
    have hpoint : point n = (Nat.toDigits 10 v).length := by
      rw [point, hdigits, List.length_append, List.length_replicate, heq]
      omega
    rw [hpoint, hdigits]
    exact ⟨Nat.cast_lt.2 (Nat.lt_of_not_le hlen),
      Nat.cast_le.2 (length_rdropWhile_append_zeros _ _)⟩

theorem point_le_three_hundred_ten (hn : 0 < n) (hfin : n < infinity) : point n ≤ 310 := by
  have hmag : Binary64.magnitude n < 10 ^ 309 * one := by
    refine (magnitude_strictMono hfin).trans ?_
    rw [magnitude_infinity]
    exact Nat.mul_lt_mul_of_pos_right (by decide +kernel) Binary64.one_pos
  rcases point_le hn (by decide) hmag with hle | ⟨k, heq⟩
  · omega
  · have hlen : (shortestDigits n).length ≤ k + 1 := by
      rw [length_shortestDigits_le_iff (by omega), heq]
      exact Nat.pow_lt_pow_right (by decide) (by omega)
    rw [point, heq]
    omega

theorem isFloat_plain_place (hne : ds ≠ []) :
    (place neg ds p).plain.IsFloat ↔ p ≤ 16 ∨ p < ds.length := by
  have hlen : 0 < ds.length := List.length_pos_iff.2 hne
  rw [place]
  split_ifs with h₁ h₂ h₃
  · rw [isFloat_plain_iff (by simp)]
    simp only [expValue, List.length_append]
    omega
  · rw [isFloat_plain_iff (by simp [hne]; omega)]
    simp only [expValue, List.length_drop]
    omega
  · rw [isFloat_plain_iff (by simp [hne])]
    simp only [expValue, List.length_singleton]
    omega
  · rw [isFloat_plain_iff (by simp [hne])]
    simp only [expValue, ofDigitChars_expDigits, List.length_drop, decide_eq_true_eq]
    split_ifs <;> omega

/-- A float is written with a digit after the point if it is below 1e16. -/
theorem isFloat_plain_repr_iff (hfin : n < infinity) :
    (repr neg n).plain.IsFloat ↔ n < e16 := by
  rw [repr]
  split_ifs with hn
  · rw [hn]
    exact iff_of_true (.inl (List.cons_ne_nil _ _)) (by decide)
  · have hpos : 0 < n := Nat.pos_of_ne_zero hn
    rw [isFloat_plain_place (exists_shortest hpos hfin).1]
    change point n ≤ 16 ∨ point n < _ ↔ _
    constructor
    · intro h
      by_contra hle
      obtain ⟨h₁, h₂⟩ := point_of_le (Nat.le_of_not_lt hle)
      omega
    · exact fun h => .inl (point_le_sixteen hpos h)

/-- A float that is not zero keeps its sign. -/
theorem neg_plain_repr (hn : 0 < n) (hfin : n < infinity) : (repr neg n).plain.neg = neg := by
  rw [neg_plain, neg_repr]
  intro h
  have hmag : (repr neg n).magnitude = n := magnitude_repr hfin
  rw [magnitude, h, Binary64.ofDecimal_zero] at hmag
  omega

theorem length_stripZeros_le (ds : List Char) : (stripZeros ds).length ≤ max 1 ds.length := by
  rw [stripZeros]
  split_ifs
  · exact le_max_left _ _
  · exact le_max_of_le_right (List.dropWhile_suffix _).length_le

theorem isDigit_stripZeros (h : ∀ c ∈ ds, c.isDigit) : ∀ c ∈ stripZeros ds, c.isDigit := by
  rw [stripZeros]
  split_ifs
  · exact List.forall_mem_singleton.2 rfl
  · exact fun c hc => h c ((List.dropWhile_suffix _).subset hc)

theorem isDigit_plain (ht : t.WellFormed) : ∀ c ∈ t.plain.int, c.isDigit := by
  refine isDigit_stripZeros fun c hc => ?_
  rcases List.mem_append.1 (List.mem_of_mem_take hc) with hc | hc
  · exact List.forall_mem_append.2 ⟨ht.int_digit, ht.frac_digit⟩ c hc
  · rw [List.eq_of_mem_replicate hc]
    rfl

/-- The number of its digits before the point. -/
theorem length_int_plain_repr_le (hfin : n < infinity) :
    (repr neg n).plain.int.length ≤ 310 := by
  rw [repr]
  split_ifs with hn
  · exact show 1 ≤ 310 by decide
  · have hpoint := point_le_three_hundred_ten (Nat.pos_of_ne_zero hn) hfin
    obtain ⟨hne, -⟩ := exists_shortest (Nat.pos_of_ne_zero hn) hfin
    change (place neg _ (point n)).plain.int.length ≤ 310
    generalize point n = p at hpoint
    generalize (shortestDigits n).rdropWhile (· = '0') = ds at hne
    have hlen : 0 < ds.length := List.length_pos_iff.2 hne
    refine (length_stripZeros_le _).trans (max_le (by decide) ?_)
    refine (List.length_take_le _ _).trans ?_
    rw [place]
    split_ifs with h₁ h₂ h₃ <;>
      simp only [expValue, ofDigitChars_expDigits, List.length_take, List.length_append,
        List.length_singleton, List.length_replicate, decide_eq_true_eq]
    · omega
    · omega
    · omega
    · split_ifs <;> omega

theorem natAbs_toInt (t : NumberText) : t.toInt.natAbs = Nat.ofDigitChars 10 t.int 0 := by
  rw [toInt]
  split_ifs <;> simp

/-- What is read of a float that is printed with all its digits has few of them. -/
theorem natAbs_toInt_plain_repr_lt {k : ℕ} (hfin : n < infinity) (hk : 310 ≤ k) :
    (repr neg n).plain.toInt.natAbs < 10 ^ k := by
  rw [natAbs_toInt]
  refine (ofDigitChars_lt (isDigit_plain (wellFormed_repr hfin)) 0).trans_le ?_
  rw [Nat.zero_add, Nat.one_mul]
  exact Nat.pow_le_pow_right (by decide) ((length_int_plain_repr_le hfin).trans hk)

end NumberText

end AslanCore
