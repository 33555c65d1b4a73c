import Mathlib.Algebra.BigOperators.Intervals
import Mathlib.Tactic.Common

/-!
# Splicing

Some spans of a list are replaced, each by a list of its own, one after another from the last to the
first, so that the positions of those that are left stay the same (`Patch.applyAll`). What should
become of the list is that the elements in the spans are gone, and the new ones are where the spans
start (`replaced`).

* `applyAll_eq_replaced_iff`: this is so if and only if the spans are disjoint;
* `applyAll_eq_assemble`: where spans overlap, the start of what replaces the later one is cut off, and
  what comes next if this is too short;
* `exists_piece`: what occurs in the result is left between two spans.
-/

namespace AslanCore

/-- A span, and what replaces it. -/
structure Patch (α : Type) where
  start : ℕ
  stop : ℕ
  text : List α

variable {α : Type}

namespace Patch

/-- The span is one of a list of the given length, and neither it nor what replaces it is empty. -/
structure Fits (n : ℕ) (p : Patch α) : Prop where
  start_lt : p.start < p.stop
  stop_le : p.stop ≤ n
  text_ne : p.text ≠ []

/-- `s[:start] + text + s[stop:]`. -/
def apply (p : Patch α) (s : List α) : List α := s.take p.start ++ p.text ++ s.drop p.stop

/-- The patches are applied from the last one to the first one. -/
def applyAll (ps : List (Patch α)) (s : List α) : List α := ps.foldr apply s

/-- The position is in a span. -/
def Covers (ps : List (Patch α)) (i : ℕ) : Prop := ∃ p ∈ ps, p.start ≤ i ∧ i < p.stop

instance (ps : List (Patch α)) : DecidablePred (Covers ps) :=
  fun _ => inferInstanceAs (Decidable (∃ p ∈ ps, _))

/-- What replaces the spans that start at the position. -/
def textsAt (ps : List (Patch α)) (i : ℕ) : List α :=
  (ps.filter fun p => p.start = i).flatMap Patch.text

/-- The list at the position `i`, with what replaces the spans where they start, and without the
    elements in them. -/
def replaced (ps : List (Patch α)) : ℕ → List α → List α
  | _, [] => []
  | i, x :: s => textsAt ps i ++ ((if Covers ps i then [] else [x]) ++ replaced ps (i + 1) s)

variable {ps : List (Patch α)} {p : Patch α} {s t : List α} {i n : ℕ}

/-! ### Disjoint spans -/

theorem replaced_append :
    replaced ps i (s ++ t) = replaced ps i s ++ replaced ps (i + s.length) t := by
  induction s generalizing i with
  | nil => rfl
  | cons x s ih =>
    rw [List.cons_append, replaced, ih, replaced, List.length_cons, Nat.add_assoc i,
      Nat.add_comm 1]
    simp only [List.append_assoc]

theorem replaced_congr {qs : List (Patch α)}
    (h : ∀ j, i ≤ j → j < i + s.length →
      textsAt ps j = textsAt qs j ∧ (Covers ps j ↔ Covers qs j)) :
    replaced ps i s = replaced qs i s := by
  induction s generalizing i with
  | nil => rfl
  | cons x s ih =>
    rw [List.length_cons] at h
    obtain ⟨htexts, hcovers⟩ := h i (Nat.le_refl _) (by omega)
    rw [replaced, replaced, ih fun j hj hj' => h j (by omega) (by omega), htexts]
    simp only [hcovers]

theorem textsAt_eq_nil (h : ∀ p ∈ ps, p.start ≠ i) : textsAt ps i = [] := by
  rw [textsAt, List.filter_eq_nil_iff.2 fun p hp => by simpa using h p hp, List.flatMap_nil]

theorem textsAt_cons : textsAt (p :: ps) i = (if p.start = i then p.text else []) ++ textsAt ps i := by
  rw [textsAt, List.filter_cons]
  split_ifs with h h' h' <;> simp_all [textsAt]

theorem covers_cons : Covers (p :: ps) i ↔ p.start ≤ i ∧ i < p.stop ∨ Covers ps i := by
  simp only [Covers, List.mem_cons, exists_eq_or_imp]

/-- Nothing is replaced outside the spans. -/
theorem replaced_of_outside (h : ∀ p ∈ ps, i + s.length ≤ p.start) : replaced ps i s = s := by
  have hnil : replaced [] i s = s := by
    clear h
    induction s generalizing i with
    | nil => rfl
    | cons x s ih =>
      rw [replaced, ih]
      rfl
  refine (replaced_congr fun j hj hj' => ⟨?_, ?_⟩).trans hnil
  · rw [textsAt_eq_nil fun p hp => by have := h p hp; omega]
    rfl
  · refine iff_of_false ?_ nofun
    rintro ⟨p, hp, hle, -⟩
    have := h p hp
    omega

/-- The elements of a span are gone, and what replaces them is where it starts. -/
theorem replaced_of_covered (h : ∀ j, i ≤ j → j < i + s.length → Covers ps j)
    (hstart : ∀ p ∈ ps, i < p.start → i + s.length ≤ p.start) (hs : s ≠ []) :
    replaced ps i s = textsAt ps i := by
  obtain ⟨x, s, rfl⟩ := List.exists_cons_of_ne_nil hs
  rw [List.length_cons] at h hstart
  have hnil : ∀ k (u : List α), i < k → k + u.length ≤ i + (s.length + 1) →
      replaced ps k u = [] := by
    intro k u hk hu
    induction u generalizing k with
    | nil => rfl
    | cons y u ih =>
      rw [List.length_cons] at hu
      rw [replaced, if_pos (h k (by omega) (by omega)), ih (k + 1) (by omega) (by omega),
        textsAt_eq_nil]
      · rfl
      · rintro p hp rfl
        have := hstart p hp hk
        omega
  rw [replaced, if_pos (h i (Nat.le_refl _) (by omega)),
    hnil (i + 1) s (Nat.lt_succ_self _) (by omega), List.nil_append, List.append_nil]

/-- A list in three parts. -/
theorem exists_parts {a b : ℕ} (hab : a ≤ b) (hb : b ≤ s.length) :
    ∃ u w v, s = u ++ (w ++ v) ∧ u.length = a ∧ u.length + w.length = b := by
  refine ⟨s.take a, (s.drop a).take (b - a), s.drop b, ?_, ?_, ?_⟩
  · conv_lhs => rw [← List.take_append_drop a s, ← List.take_append_drop (b - a) (s.drop a),
      List.drop_drop, Nat.add_sub_cancel' hab]
  · rw [List.length_take_of_le (by omega)]
  · rw [List.length_take_of_le (by omega), List.length_take_of_le (by rw [List.length_drop]; omega)]
    omega

/-- A span that stops before the others start. -/
theorem replaced_cons (hp : p.Fits s.length) (h : ∀ q ∈ ps, p.stop ≤ q.start) :
    replaced (p :: ps) 0 s = p.apply (replaced ps 0 s) := by
  obtain ⟨u, w, v, rfl, hu, hw⟩ := exists_parts (Nat.le_of_lt hp.start_lt) hp.stop_le
  have hlt := hp.start_lt
  have hne : w ≠ [] := by
    rintro rfl
    simp only [List.length_nil] at hw
    omega
  have hfirst : replaced (p :: ps) 0 u = u := by
    refine replaced_of_outside (List.forall_mem_cons.2 ⟨by omega, fun q hq => ?_⟩)
    have := h q hq
    omega
  have hsecond : replaced (p :: ps) u.length w = p.text := by
    rw [replaced_of_covered (fun j hj hj' => covers_cons.2 (.inl ⟨by omega, by omega⟩)) _ hne,
      textsAt_cons, if_pos hu.symm, textsAt_eq_nil fun q hq => _, List.append_nil]
    · intro q hq
      have := h q hq
      omega
    · refine List.forall_mem_cons.2 ⟨fun _ => by omega, fun q hq _ => ?_⟩
      have := h q hq
      omega
  have hthird : replaced (p :: ps) (u.length + w.length) v =
      replaced ps (u.length + w.length) v := by
    refine replaced_congr fun j hj _ => ⟨?_, ?_⟩
    · rw [textsAt_cons, if_neg (by omega), List.nil_append]
    · rw [covers_cons]
      exact or_iff_right fun hp => by omega
  have hall : replaced ps 0 (u ++ (w ++ v)) = u ++ (w ++ replaced ps (u.length + w.length) v) := by
    rw [← List.append_assoc, replaced_append, replaced_of_outside, List.length_append,
      Nat.zero_add, List.append_assoc]
    intro q hq
    have := h q hq
    rw [List.length_append]
    omega
  rw [replaced_append, replaced_append, Nat.zero_add, hfirst, hsecond, hthird, apply, hall, ← hu,
    ← hw, List.take_left, ← List.append_assoc u w, ← List.length_append, List.drop_left,
    List.append_assoc]

/-- Spans that are disjoint are replaced as they should be. -/
theorem applyAll_of_pairwise (hfits : ∀ p ∈ ps, p.Fits s.length)
    (h : ps.Pairwise fun p q => p.stop ≤ q.start) : applyAll ps s = replaced ps 0 s := by
  induction ps with
  | nil => exact (replaced_of_outside (List.forall_mem_nil _)).symm
  | cons p ps ih =>
    obtain ⟨hp, hfits⟩ := List.forall_mem_cons.1 hfits
    obtain ⟨hlt, h⟩ := List.pairwise_cons.1 h
    rw [replaced_cons hp hlt, applyAll, List.foldr_cons, ← applyAll, ih hfits h]

/-! ### Overlaps -/

theorem length_replaced : (replaced ps i s).length =
    (∑ j ∈ Finset.Ico i (i + s.length), (textsAt ps j).length) +
      ((Finset.Ico i (i + s.length)).filter fun j => ¬Covers ps j).card := by
  induction s generalizing i with
  | nil => simp [replaced]
  | cons x s ih =>
    have hsplit : Finset.Ico i (i + (x :: s).length) =
        insert i (Finset.Ico (i + 1) (i + 1 + s.length)) := by
      ext j
      simp only [Finset.mem_Ico, Finset.mem_insert, List.length_cons]
      omega
    have hnot : i ∉ Finset.Ico (i + 1) (i + 1 + s.length) := by simp
    rw [replaced, List.length_append, List.length_append, ih, hsplit, Finset.sum_insert hnot,
      Finset.filter_insert]
    split_ifs with hc
    · rw [List.length_nil]
      omega
    · rw [Finset.card_insert_of_notMem fun hmem => hnot (Finset.mem_of_mem_filter _ hmem),
        List.length_singleton]
      omega

/-- The length of what replaces the spans. -/
theorem sum_textsAt_cons (hp : p.start < n) : ∑ j ∈ Finset.Ico 0 n, (textsAt (p :: ps) j).length =
    p.text.length + ∑ j ∈ Finset.Ico 0 n, (textsAt ps j).length := by
  have hlen : ∀ j, (textsAt (p :: ps) j).length =
      (if p.start = j then p.text.length else 0) + (textsAt ps j).length := by
    intro j
    rw [textsAt_cons, List.length_append]
    split_ifs <;> rfl
  simp only [hlen, Finset.sum_add_distrib, Finset.sum_ite_eq, Finset.mem_Ico, Nat.zero_le, hp,
    and_self, if_true]

variable (ps n) in
/-- The positions that are not in a span. -/
def kept : Finset ℕ := (Finset.Ico 0 n).filter fun j => ¬Covers ps j

/-- A span takes no more positions than it has, and fewer if another one starts in it. -/
theorem card_kept_le :
    (kept ps n).card ≤ (kept (p :: ps) n).card + (p.stop - p.start) ∧
      ((∃ q ∈ ps, p.start ≤ q.start ∧ q.start < p.stop ∧ q.start < q.stop) →
        (kept ps n).card < (kept (p :: ps) n).card + (p.stop - p.start)) := by
  have hsub : kept ps n ⊆ kept (p :: ps) n ∪
      (Finset.Ico p.start p.stop).filter fun j => ¬Covers ps j := by
    intro j hj
    obtain ⟨hn, hj⟩ := Finset.mem_filter.1 hj
    by_cases hjp : p.start ≤ j ∧ j < p.stop
    · exact Finset.mem_union_right _ (Finset.mem_filter.2 ⟨Finset.mem_Ico.2 hjp, hj⟩)
    · refine Finset.mem_union_left _ (Finset.mem_filter.2 ⟨hn, ?_⟩)
      rw [covers_cons, not_or]
      exact ⟨hjp, hj⟩
  have hcard := (Finset.card_le_card hsub).trans (Finset.card_union_le _ _)
  have hIco : (Finset.Ico p.start p.stop).card = p.stop - p.start := Nat.card_Ico _ _
  refine ⟨?_, ?_⟩
  · have := Finset.card_filter_le (Finset.Ico p.start p.stop) fun j => ¬Covers ps j
    omega
  · rintro ⟨q, hq, hle, hqlt, hqq⟩
    have : ((Finset.Ico p.start p.stop).filter fun j => ¬Covers ps j).card <
        (Finset.Ico p.start p.stop).card := by
      refine Finset.card_lt_card (Finset.filter_ssubset.2 ⟨q.start, ?_, ?_⟩)
      · exact Finset.mem_Ico.2 ⟨hle, hqlt⟩
      · exact not_not.2 ⟨q, hq, Nat.le_refl _, hqq⟩
    omega

/-- The positions before the first span are not in a span. -/
theorem le_card_kept {a : ℕ} (ha : a ≤ n) (h : ∀ p ∈ ps, a ≤ p.start) : a ≤ (kept ps n).card := by
  have hsub : Finset.Ico 0 a ⊆ kept ps n := by
    intro j hj
    have hj := (Finset.mem_Ico.1 hj).2
    refine Finset.mem_filter.2 ⟨Finset.mem_Ico.2 ⟨Nat.zero_le _, by omega⟩, ?_⟩
    rintro ⟨p, hp, hle, -⟩
    have := h p hp
    omega
  simpa using Finset.card_le_card hsub

/-- What comes before the spans is still there. -/
theorem take_applyAll {a : ℕ} (ha : a ≤ s.length) (hfits : ∀ p ∈ ps, p.Fits s.length)
    (h : ∀ p ∈ ps, a ≤ p.start) (hsorted : ps.Pairwise fun p q => p.start ≤ q.start) :
    (applyAll ps s).take a = s.take a := by
  induction ps generalizing a with
  | nil => rfl
  | cons p ps ih =>
    obtain ⟨hp, hfits⟩ := List.forall_mem_cons.1 hfits
    obtain ⟨hfirst, hsorted⟩ := List.pairwise_cons.1 hsorted
    have hap := h p List.mem_cons_self
    have hps : p.start ≤ s.length := (Nat.le_of_lt hp.start_lt).trans hp.stop_le
    rw [applyAll, List.foldr_cons, ← applyAll, apply, ih hps hfits hfirst hsorted,
      List.append_assoc, List.take_append_of_le_length (by rwa [List.length_take_of_le hps]),
      List.take_take, min_eq_left hap]

theorem le_length_applyAll {a : ℕ} (ha : a ≤ s.length) (hfits : ∀ p ∈ ps, p.Fits s.length)
    (h : ∀ p ∈ ps, a ≤ p.start) (hsorted : ps.Pairwise fun p q => p.start ≤ q.start) :
    a ≤ (applyAll ps s).length := by
  have hlen := congrArg List.length (take_applyAll ha hfits h hsorted)
  rw [List.length_take_of_le ha, List.length_take] at hlen
  omega

/-- The result is no longer than it should be, and shorter if two spans overlap. -/
theorem length_applyAll (hfits : ∀ p ∈ ps, p.Fits s.length)
    (hsorted : ps.Pairwise fun p q => p.start ≤ q.start) :
    (applyAll ps s).length ≤ (replaced ps 0 s).length ∧
      ((applyAll ps s).length = (replaced ps 0 s).length →
        ps.Pairwise fun p q => p.stop ≤ q.start) := by
  induction ps with
  | nil => exact ⟨by simp [applyAll, replaced_of_outside], fun _ => .nil⟩
  | cons p ps ih =>
    obtain ⟨hp, hfits⟩ := List.forall_mem_cons.1 hfits
    obtain ⟨hfirst, hsorted⟩ := List.pairwise_cons.1 hsorted
    obtain ⟨hle, heq⟩ := ih hfits hsorted
    have hlt := hp.start_lt
    have hstop := hp.stop_le
    have hstart := le_length_applyAll (a := p.start) (by omega) hfits hfirst hsorted
    have htext := List.length_pos_iff.2 hp.text_ne
    have hkept := le_card_kept (n := s.length) (a := p.start) (by omega)
      (List.forall_mem_cons.2 ⟨Nat.le_refl _, hfirst⟩)
    obtain ⟨hcard, hcard'⟩ : (kept ps s.length).card ≤
        (kept (p :: ps) s.length).card + (p.stop - p.start) ∧ _ := card_kept_le
    have hlen : (applyAll (p :: ps) s).length =
        p.start + p.text.length + ((applyAll ps s).length - p.stop) := by
      rw [applyAll, List.foldr_cons, ← applyAll, apply, List.length_append, List.length_append,
        List.length_take_of_le hstart, List.length_drop]
    have hps : (replaced ps 0 s).length = _ := length_replaced
    have hpps : (replaced (p :: ps) 0 s).length = _ := length_replaced
    rw [Nat.zero_add, ← kept] at hps hpps
    rw [sum_textsAt_cons (by omega)] at hpps
    by_cases hcut : p.stop ≤ (applyAll ps s).length
    · refine ⟨by omega, fun hall => List.pairwise_cons.2 ⟨fun q hq => ?_, heq (by omega)⟩⟩
      by_contra hov
      have := hcard' ⟨q, hq, hfirst q hq, by omega, (hfits q hq).start_lt⟩
      omega
    · -- The cut goes beyond the end: there is another span, and what replaces it is missing.
      obtain ⟨q, qs, rfl⟩ := List.exists_cons_of_ne_nil (l := ps) fun hnil => by
        rw [hnil] at hcut
        exact hcut hstop
      have hq := hfits q List.mem_cons_self
      have hqlt := hq.start_lt
      have hqstop := hq.stop_le
      have hqtext := List.length_pos_iff.2 hq.text_ne
      rw [sum_textsAt_cons (by omega)] at hpps
      refine ⟨by omega, fun hall => by omega⟩

/-- The spans are replaced as they should be if and only if they are disjoint. -/
theorem applyAll_eq_replaced_iff (hfits : ∀ p ∈ ps, p.Fits s.length)
    (hsorted : ps.Pairwise fun p q => p.start ≤ q.start) :
    applyAll ps s = replaced ps 0 s ↔ ps.Pairwise fun p q => p.stop ≤ q.start :=
  ⟨fun h => (length_applyAll hfits hsorted).2 (congrArg List.length h), applyAll_of_pairwise hfits⟩

/-- The spans do not overlap. -/
def Apart (p q : Patch α) : Prop := p.stop ≤ q.start ∨ q.stop ≤ p.start

instance (p q : Patch α) : Decidable (p.Apart q) := inferInstanceAs (Decidable (_ ∨ _))

theorem Apart.symm {q : Patch α} (h : p.Apart q) : q.Apart p := Or.symm h

theorem covers_perm {qs : List (Patch α)} (h : ps.Perm qs) : Covers ps i ↔ Covers qs i := by
  simp only [Covers, h.mem_iff]

theorem length_replaced_perm {qs : List (Patch α)} (h : ps.Perm qs) :
    (replaced ps i s).length = (replaced qs i s).length := by
  have htexts : ∀ j, (textsAt ps j).length = (textsAt qs j).length := fun j =>
    ((h.filter _).flatMap_right _).length_eq
  rw [length_replaced, length_replaced]
  simp only [htexts, covers_perm h]

/-- If no two spans start at one position, their order does not matter. -/
theorem replaced_perm {qs : List (Patch α)} (h : ps.Perm qs)
    (hne : ps.Pairwise fun p q => p.start ≠ q.start) : replaced ps i s = replaced qs i s := by
  refine replaced_congr fun j _ _ => ⟨?_, covers_perm h⟩
  have hfilter : ∀ p ∈ ps.filter fun p => p.start = j, p.start = j := fun p hp => by
    simpa using (List.mem_filter.1 hp).2
  have hpair := hne.sublist (List.filter_sublist (p := fun p => decide (p.start = j)))
  have hperm := h.filter fun p => decide (p.start = j)
  rw [textsAt, textsAt]
  -- There is at most one.
  rcases hps : ps.filter fun p => decide (p.start = j) with _ | ⟨p, _ | ⟨q, rest⟩⟩
  · rw [hps] at hperm
    rw [hps, ← hperm.nil_eq]
  · rw [hps] at hperm
    rw [hps, ← List.singleton_perm.1 hperm]
  · rw [hps] at hfilter hpair
    have hpq := (List.pairwise_cons.1 hpair).1 q List.mem_cons_self
    exact absurd ((hfilter p List.mem_cons_self).trans (hfilter q (by simp)).symm) hpq

/-- Spans in any order are replaced as they should be, if those that are applied are in theirs, if
    and only if no two of them overlap. -/
theorem applyAll_eq_replaced_perm_iff {qs : List (Patch α)} (h : ps.Perm qs)
    (hfits : ∀ p ∈ ps, p.Fits s.length) (hsorted : ps.Pairwise fun p q => p.start ≤ q.start) :
    applyAll ps s = replaced qs 0 s ↔ qs.Pairwise Apart := by
  have hiff : ps.Pairwise (fun p q => p.stop ≤ q.start) ↔ qs.Pairwise Apart := by
    rw [← h.pairwise_iff Apart.symm]
    constructor
    · exact fun hps => hps.imp Or.inl
    · refine fun hps => (hsorted.and hps).imp_of_mem fun {p q} hp hq => ?_
      rintro ⟨hle, hpq | hqp⟩
      · exact hpq
      · have := (hfits q hq).start_lt
        omega
  rw [← hiff]
  constructor
  · intro heq
    refine (length_applyAll hfits hsorted).2 ?_
    rw [heq, length_replaced_perm h]
  · intro hps
    rw [applyAll_of_pairwise hfits hps]
    refine replaced_perm h (hps.imp_of_mem fun {p q} hp _ hpq => ?_)
    have := (hfits p hp).start_lt
    omega

/-! ### Where the list goes on -/

/-- Where the list goes on after a span, if what comes before the position `i` is cut off: this may
    take more than what replaces the span. -/
def next (p : Patch α) (i : ℕ) : ℕ := p.stop + (i - p.start - p.text.length)

/-- The list from the position `i` on, with what replaces each span cut off where the one before it
    overlaps with it. -/
def assemble : List (Patch α) → ℕ → List α → List α
  | [], i, s => s.drop i
  | p :: ps, i, s =>
    (s.drop i).take (p.start - i) ++ p.text.drop (i - p.start) ++ assemble ps (p.next i) s

/-- An overlap cuts off the start of what replaces the later span, and what comes next if this is too
    short. -/
theorem drop_applyAll (hfits : ∀ p ∈ ps, p.Fits s.length)
    (hsorted : ps.Pairwise fun p q => p.start ≤ q.start) :
    (applyAll ps s).drop i = assemble ps i s := by
  induction ps generalizing i with
  | nil => rfl
  | cons p ps ih =>
    obtain ⟨hp, hfits⟩ := List.forall_mem_cons.1 hfits
    obtain ⟨hfirst, hsorted⟩ := List.pairwise_cons.1 hsorted
    have hps : p.start ≤ s.length := (Nat.le_of_lt hp.start_lt).trans hp.stop_le
    rw [applyAll, List.foldr_cons, ← applyAll, apply, take_applyAll hps hfits hfirst hsorted,
      assemble, List.drop_append, List.drop_append, List.length_append, List.length_take_of_le hps,
      List.drop_take, List.drop_drop, ih hfits hsorted, next]
    congr 2
    omega

theorem applyAll_eq_assemble (hfits : ∀ p ∈ ps, p.Fits s.length)
    (hsorted : ps.Pairwise fun p q => p.start ≤ q.start) : applyAll ps s = assemble ps 0 s := by
  rw [← drop_applyAll hfits hsorted, List.drop_zero]

/-! ### What is left of the list -/

/-- The positions between two spans, or before the first one, which `i` stands for, or after the
    last one, in a list of length `n`. -/
def Piece : List (Patch α) → ℕ → ℕ → ℕ → ℕ → Prop
  | [], i, n, lo, hi => lo = i ∧ hi = n
  | p :: ps, i, n, lo, hi => lo = i ∧ hi = p.start ∨ Piece ps (p.next i) n lo hi

/-- What replaces a span is not mistaken for what is left: a list `w` that has neither its first nor
    its last element, and is not part of it. By `g`, its ends are told apart from other elements. -/
structure Guards (g : Option α → Bool) (w text : List α) : Prop where
  head : g text.head? = false
  last : g text.getLast? = false
  head_notMem : ∀ a ∈ text.head?, a ∉ w
  last_notMem : ∀ a ∈ text.getLast?, a ∉ w
  not_subset : ∃ a ∈ w, a ∉ text

/-- The list `w` is left between the positions `lo` and `hi`. What is next to it in the result, where
    `before` and `after` are, is what was next to it, unless it is at one of these positions. -/
structure Left (g : Option α → Bool) (s w : List α) (lo hi : ℕ) (before after : Option α) : Prop where
  exists_eq : ∃ u v, s = u ++ (w ++ v) ∧ lo ≤ u.length ∧ u.length + w.length ≤ hi ∧
    g before = (decide (u.length ≠ lo) && g u.getLast?) ∧
    g after = (decide (u.length + w.length ≠ hi) && g v.head?)

variable {g : Option α → Bool} {w x y : List α} {b : Option α} {lo hi : ℕ}

/-- A list that is left at the start of what follows the position `i`, up to the position `j`. -/
theorem left_of_eq {v : List α} (hb : g b = false) (hw : w ≠ [])
    (h : s.drop i = x ++ (w ++ v)) {j : ℕ} (hj : i + x.length + w.length ≤ j) {after : Option α}
    (hafter : g after = (decide (i + x.length + w.length ≠ j) && g v.head?)) :
    Left g s w i j (x.getLast?.or b) after := by
  have hi : i ≤ s.length := by
    have hlen := congrArg List.length h
    have hpos := List.length_pos_iff.2 hw
    simp only [List.length_drop, List.length_append] at hlen
    omega
  have hu : (s.take i ++ x).length = i + x.length := by
    rw [List.length_append, List.length_take_of_le hi]
  refine ⟨s.take i ++ x, v, ?_, by omega, by omega, ?_, by rwa [hu]⟩
  · rw [List.append_assoc, ← h, List.take_append_drop]
  · rw [hu]
    rcases List.eq_nil_or_concat x with rfl | ⟨x, a, rfl⟩
    · simp [hb]
    · simp

/-- What follows a list that ends before the position `j`, or at it. -/
theorem head?_append_drop {j : ℕ} {next : List α} (hnext : g next.head? = false) :
    g (y ++ next).head? = (decide (y ≠ []) && g (y ++ s.drop j).head?) := by
  cases y with
  | nil => simpa using hnext
  | cons a y => simp

/-- A list that occurs in three others, and neither in the middle one nor across its ends, is in the
    first one or in the last one. -/
theorem eq_or_eq_of_append_eq {gap cut rest : List α} (hw : w ≠ [])
    (hfirst : gap = [] ∨ ∃ a ∈ cut.head?, a ∉ w) (hlast : ∀ a ∈ cut.getLast?, a ∉ w)
    (hcut : ∃ a ∈ w, a ∉ cut) (h : gap ++ (cut ++ rest) = x ++ (w ++ y)) :
    (∃ y', gap = x ++ (w ++ y') ∧ y = y' ++ (cut ++ rest)) ∨
      ∃ x', x = gap ++ (cut ++ x') ∧ rest = x' ++ (w ++ y) := by
  -- The list does not start in the middle one.
  have hmiddle : ∀ a', x = gap ++ a' → cut ++ rest = a' ++ (w ++ y) →
      ∃ x', x = gap ++ (cut ++ x') ∧ rest = x' ++ (w ++ y) := by
    intro a' hx hrest
    rcases List.append_eq_append_iff.1 hrest with ⟨e, rfl, heq⟩ | ⟨e, rfl, heq⟩
    · exact ⟨e, hx, heq⟩
    · rcases List.append_eq_append_iff.1 heq with ⟨f, rfl, -⟩ | ⟨f, rfl, hy⟩
      · obtain ⟨a, ha, hcut⟩ := hcut
        exact absurd (List.mem_append_right _ (List.mem_append_left _ ha)) hcut
      · rcases List.eq_nil_or_concat e with rfl | ⟨e, a, rfl⟩
        · exact ⟨[], by simpa using hx, hy⟩
        · refine absurd ?_ (hlast a (by simp))
          simp
  rcases List.append_eq_append_iff.1 h with ⟨a', hx, hrest⟩ | ⟨c, rfl, hrest⟩
  · exact .inr (hmiddle a' hx hrest)
  · rcases List.append_eq_append_iff.1 hrest with ⟨d, rfl, hy⟩ | ⟨d, rfl, hy⟩
    · exact .inl ⟨d, rfl, hy⟩
    · rcases c with _ | ⟨a, c⟩
      · exact .inr (hmiddle [] (by simp) (by simpa using hy))
      · rcases d with _ | ⟨a', d⟩
        · exact .inl ⟨[], by simp, by simpa using hy.symm⟩
        · -- The list goes on to the first element of the middle one.
          rcases hfirst with hnil | ⟨a'', hmem, hnot⟩
          · simp at hnil
          · obtain ⟨cut', rfl⟩ := List.head?_eq_some_iff.1 hmem
            have heq : a'' = a' := (List.cons.inj hy).1
            exact absurd (by simp [heq]) hnot

/-- What comes before the rest of the result. -/
theorem last_before_rest (hb : g b = false) (hguard : Guards g w p.text) (hne : p.text ≠ []) :
    g (((s.drop i).take (p.start - i) ++ p.text.drop (i - p.start)).getLast?.or b) = false := by
  by_cases hlen : p.text.length ≤ i - p.start
  · -- What replaces the span is gone, so that there is nothing before it.
    have hpos := List.length_pos_iff.2 hne
    rw [List.drop_eq_nil_of_le hlen, Nat.sub_eq_zero_of_le (by omega), List.take_zero]
    exact hb
  · have hlast : (p.text.drop (i - p.start)).getLast? = p.text.getLast? := by
      rw [List.getLast?_drop, if_neg hlen]
    have hsome := hguard.last
    rw [List.getLast?_eq_some_getLast hne] at hlast hsome
    rwa [List.getLast?_append, hlast, Option.some_or, Option.some_or]

/-- A list that occurs in the result, and is not part of what replaces the spans, is left between
    two of them. -/
theorem exists_piece (hg : g none = false) (hb : g b = false)
    (hfits : ∀ p ∈ ps, p.Fits s.length) (hguards : ∀ p ∈ ps, Guards g w p.text)
    (hw : w ≠ []) (h : assemble ps i s = x ++ (w ++ y)) :
    ∃ lo hi, Piece ps i s.length lo hi ∧ Left g s w lo hi (x.getLast?.or b) y.head? := by
  induction ps generalizing i b x with
  | nil =>
    have hlen := congrArg List.length h
    have hpos := List.length_pos_iff.2 hw
    simp only [assemble, List.length_drop, List.length_append] at hlen
    refine ⟨i, s.length, ⟨rfl, rfl⟩, left_of_eq hb hw h (by omega) ?_⟩
    cases y with
    | nil => simp [hg]
    | cons a y =>
      rw [List.length_cons] at hlen
      rw [decide_eq_true (by omega), Bool.true_and]
  | cons p ps ih =>
    obtain ⟨hp, hfits⟩ := List.forall_mem_cons.1 hfits
    obtain ⟨hguard, hguards⟩ := List.forall_mem_cons.1 hguards
    have hstop := hp.stop_le
    have hstart := hp.start_lt
    rw [assemble, List.append_assoc] at h
    -- What replaces the span is cut only if it follows another one.
    have hgap : i < p.start ∨ (s.drop i).take (p.start - i) = [] := by
      by_cases hlt : i < p.start
      · exact .inl hlt
      · rw [Nat.sub_eq_zero_of_le (not_lt.1 hlt), List.take_zero]
        exact .inr rfl
    have hfirst : (s.drop i).take (p.start - i) = [] ∨
        ∃ a ∈ (p.text.drop (i - p.start)).head?, a ∉ w := by
      refine hgap.symm.imp_right fun hlt => ?_
      rw [Nat.sub_eq_zero_of_le hlt.le, List.drop_zero]
      obtain ⟨a, ha⟩ := Option.isSome_iff_exists.1 (List.isSome_head?.2 hp.text_ne)
      exact ⟨a, ha, hguard.head_notMem a ha⟩
    have hlast : ∀ a ∈ (p.text.drop (i - p.start)).getLast?, a ∉ w := by
      intro a ha
      rw [List.getLast?_drop] at ha
      split_ifs at ha
      · cases ha
      · exact hguard.last_notMem a ha
    have hsub : ∃ a ∈ w, a ∉ p.text.drop (i - p.start) := by
      obtain ⟨a, ha, hnot⟩ := hguard.not_subset
      exact ⟨a, ha, fun hmem => hnot (List.mem_of_mem_drop hmem)⟩
    rcases eq_or_eq_of_append_eq hw hfirst hlast hsub h with ⟨y', hy', rfl⟩ | ⟨x', rfl, hrest⟩
    · -- It is before the span.
      have hlen := congrArg List.length hy'
      simp only [List.length_take, List.length_drop, List.length_append] at hlen
      have hpos := List.length_pos_iff.2 hw
      have hdrop : s.drop i = x ++ (w ++ (y' ++ s.drop p.start)) := by
        rw [← List.take_append_drop (p.start - i) (s.drop i), hy', List.drop_drop,
          Nat.add_sub_cancel' (by omega)]
        simp only [List.append_assoc]
      refine ⟨i, p.start, .inl ⟨rfl, rfl⟩, left_of_eq hb hw hdrop (by omega) ?_⟩
      have hnext : g (p.text.drop (i - p.start) ++ assemble ps (p.next i) s).head? = false := by
        rw [Nat.sub_eq_zero_of_le (by omega), List.drop_zero, List.head?_append_of_ne_nil _ hp.text_ne]
        exact hguard.head
      have hiff : y' ≠ [] ↔ i + x.length + w.length ≠ p.start := by
        rw [ne_eq, ← List.length_eq_zero_iff]
        omega
      rw [head?_append_drop hnext, decide_eq_decide.2 hiff]
    · -- It is after the span.
      obtain ⟨lo, hi', hpiece, hleft⟩ := ih (last_before_rest hb hguard hp.text_ne) hfits hguards
        hrest
      refine ⟨lo, hi', .inr hpiece, ?_⟩
      simpa only [List.getLast?_append, Option.or_assoc] using hleft

/-- What is next to the start of a list that is left. -/
theorem last_of_drop {u : List α} (hb : g b = false) (hiu : i ≤ u.length) :
    g ((u.drop i).getLast?.or b) = (decide (u.length ≠ i) && g u.getLast?) := by
  rw [List.getLast?_drop]
  split_ifs with h
  · rw [decide_eq_false (by omega), Bool.false_and]
    exact hb
  · have hne : u ≠ [] := by
      rintro rfl
      simp at h
    rw [decide_eq_true (by omega), Bool.true_and, List.getLast?_eq_some_getLast hne, Option.some_or]

/-- A list between two spans occurs in the result, next to what was next to it. -/
theorem exists_occurrence {u v : List α} (hg : g none = false) (hb : g b = false)
    (hfits : ∀ p ∈ ps, p.Fits s.length) (hguards : ∀ p ∈ ps, Guards g w p.text) (hw : w ≠ [])
    (hpiece : Piece ps i s.length lo hi) (hs : s = u ++ (w ++ v)) (hlo : lo ≤ u.length)
    (hhi : u.length + w.length ≤ hi) : ∃ x y, assemble ps i s = x ++ (w ++ y) ∧
      g (x.getLast?.or b) = (decide (u.length ≠ lo) && g u.getLast?) ∧
      g y.head? = (decide (u.length + w.length ≠ hi) && g v.head?) := by
  have hlen := congrArg List.length hs
  simp only [List.length_append] at hlen
  have hpos := List.length_pos_iff.2 hw
  induction ps generalizing i b with
  | nil =>
    obtain ⟨rfl, rfl⟩ := hpiece
    refine ⟨u.drop lo, v, ?_, last_of_drop hb hlo, ?_⟩
    · rw [assemble, hs, List.drop_append_of_le_length hlo]
    · cases v with
      | nil => simp [hg]
      | cons a v =>
        rw [List.length_cons] at hlen
        rw [decide_eq_true (by omega), Bool.true_and]
  | cons p ps ih =>
    obtain ⟨hp, hfits⟩ := List.forall_mem_cons.1 hfits
    obtain ⟨hguard, hguards⟩ := List.forall_mem_cons.1 hguards
    rw [assemble, List.append_assoc]
    rcases hpiece with ⟨rfl, rfl⟩ | hpiece
    · have htake : (s.drop lo).take (p.start - lo) =
          u.drop lo ++ (w ++ v.take (p.start - u.length - w.length)) := by
        rw [hs, List.drop_append_of_le_length hlo, List.take_append, List.take_append,
          List.take_of_length_le (by rw [List.length_drop]; omega), List.length_drop,
          List.take_of_length_le (by omega)]
        congr 3
        omega
      refine ⟨u.drop lo, v.take (p.start - u.length - w.length) ++
        (p.text.drop (lo - p.start) ++ assemble ps (p.next lo) s), ?_, last_of_drop hb hlo, ?_⟩
      · rw [htake]
        simp only [List.append_assoc]
      · have hcut : lo - p.start = 0 := by omega
        have hstop := hp.stop_le
        have hstart := hp.start_lt
        rw [hcut, List.drop_zero]
        rcases Nat.eq_or_lt_of_le hhi with heq | hlt
        · rw [decide_eq_false (not_not.2 heq), Bool.false_and, Nat.sub_sub, heq, Nat.sub_self,
            List.take_zero, List.nil_append, List.head?_append_of_ne_nil _ hp.text_ne]
          exact hguard.head
        · obtain ⟨a, v, rfl⟩ := List.exists_cons_of_ne_nil (l := v) fun hnil => by
            rw [hnil, List.length_nil] at hlen
            omega
          obtain ⟨k, hk⟩ := Nat.exists_eq_add_one_of_ne_zero
            (show p.start - u.length - w.length ≠ 0 by omega)
          rw [decide_eq_true (Nat.ne_of_lt hlt), Bool.true_and, hk]
          rfl
    · obtain ⟨x, y, heq, hx, hy⟩ := ih (last_before_rest hb hguard hp.text_ne) hfits hguards hpiece
      refine ⟨(s.drop i).take (p.start - i) ++ (p.text.drop (i - p.start) ++ x), y, ?_, ?_, hy⟩
      · rw [heq]
        simp only [List.append_assoc]
      · simpa only [List.getLast?_append, Option.or_assoc] using hx

theorem le_of_piece {a : ℕ} (ha : a ≤ i) (hstops : ∀ p ∈ ps, a ≤ p.stop)
    (h : Piece ps i n lo hi) : a ≤ lo := by
  induction ps generalizing i with
  | nil => exact h.1 ▸ ha
  | cons p ps ih =>
    obtain ⟨hp, hstops⟩ := List.forall_mem_cons.1 hstops
    rcases h with ⟨rfl, -⟩ | h
    · exact ha
    · exact ih (hp.trans (Nat.le_add_right _ _)) hstops h

/-- What is left between two spans is in no span, if none of them is inside another one. -/
theorem not_covers_of_piece (hsorted : ps.Pairwise fun p q => p.start ≤ q.start)
    (hstops : ps.Pairwise fun p q => p.stop ≤ q.stop) (h : Piece ps i n lo hi) {j : ℕ}
    (hlo : lo ≤ j) (hhi : j < hi) : ¬Covers ps j := by
  induction ps generalizing i with
  | nil => exact nofun
  | cons p ps ih =>
    obtain ⟨hfirst, hsorted⟩ := List.pairwise_cons.1 hsorted
    obtain ⟨hstop, hstops⟩ := List.pairwise_cons.1 hstops
    rw [covers_cons]
    rcases h with ⟨rfl, rfl⟩ | h
    · rintro (⟨hle, -⟩ | ⟨q, hq, hle, -⟩)
      · omega
      · have := hfirst q hq
        omega
    · have hle : p.stop ≤ lo := le_of_piece (Nat.le_add_right _ _) hstop h
      rintro (⟨-, hlt⟩ | hcovers)
      · omega
      · exact ih hsorted hstops h hcovers

end Patch

end AslanCore
