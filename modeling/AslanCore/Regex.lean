import Mathlib.Data.List.Basic
import Mathlib.Data.Nat.Notation
import Mathlib.Tactic.Common

/-!
# Regular expressions

The regular expressions of `re`, as far as they are sequences of classes of characters, repeated or
not: `Regex.lengths` are the matches at the start of a text, in the order in which the backtracking
search tries them, and `Regex.finditer` are the spans of the successive matches in a text.

* `Regex.Matches`: what is a match, whatever the order of the search is;
* `mem_lengths_iff`: the search tries all of them, and no others;
* `mem_finditer`: a span is the one of a match, and `pairwise_finditer`: the spans do not overlap;
* `exists_mem_finditer`: where a match starts, there is a span;
* `finditer_eq_nil_iff`: there are no spans if and only if there is no match.
-/

namespace AslanCore

/-- A regular expression. -/
inductive Regex
  /-- A character of a class. -/
  | one (p : Char → Bool)
  /-- `+`, of a class: the longest repetition is tried first. -/
  | many (p : Char → Bool)
  /-- `?`, tried with the expression first. -/
  | maybe (r : Regex)
  | seq (r s : Regex)
  /-- `\b`. -/
  | boundary

/-- The last character of a text, or else the one before the text. -/
def lastOr (b : Option Char) (cs : List Char) : Option Char := cs.getLast?.or b

section

variable {b : Option Char} {c : Char} {cs ds : List Char}

@[simp] theorem lastOr_nil : lastOr b [] = b := rfl

@[simp] theorem lastOr_append : lastOr b (cs ++ ds) = lastOr (lastOr b cs) ds := by
  simp only [lastOr, List.getLast?_append]
  cases ds.getLast? <;> rfl

@[simp] theorem lastOr_cons : lastOr b (c :: cs) = lastOr (some c) cs := by
  rw [← List.singleton_append, lastOr_append]
  rfl

end

namespace Regex

variable (isWord : Char → Bool)

/-- There is a character, and it is one of a word. -/
def wordAt (c : Option Char) : Bool := c.any isWord

/-- The lengths of the repetitions at the start of a text, the longest one first. -/
def manyLengths (p : Char → Bool) : List Char → List ℕ
  | [] => []
  | c :: cs => if p c then (manyLengths p cs).map (· + 1) ++ [1] else []

/-- The lengths of the matches at the start of a text that follows the character `b`, in the order
    in which they are tried. -/
def lengths : Regex → Option Char → List Char → List ℕ
  | one p, _, cs => if cs.head?.any p then [1] else []
  | many p, _, cs => manyLengths p cs
  | maybe r, b, cs => r.lengths b cs ++ [0]
  | seq r s, b, cs =>
    (r.lengths b cs).flatMap fun n =>
      (s.lengths (lastOr b (cs.take n)) (cs.drop n)).map (n + ·)
  | boundary, b, cs => if wordAt isWord b ≠ wordAt isWord cs.head? then [0] else []

/-- The text `w` is a match, between the character `b` and the text `rest`. -/
def Matches : Regex → Option Char → List Char → List Char → Prop
  | one p, _, w, _ => ∃ c, w = [c] ∧ p c
  | many p, _, w, _ => w ≠ [] ∧ ∀ c ∈ w, p c
  | maybe r, b, w, rest => w = [] ∨ r.Matches b w rest
  | seq r s, b, w, rest =>
    ∃ u v, w = u ++ v ∧ r.Matches b u (v ++ rest) ∧ s.Matches (lastOr b u) v rest
  | boundary, b, w, rest => w = [] ∧ wordAt isWord b ≠ wordAt isWord rest.head?

variable {isWord} {r s : Regex} {b : Option Char} {cs w rest : List Char} {n : ℕ}

theorem mem_manyLengths_iff {p : Char → Bool} :
    n ∈ manyLengths p cs ↔ 0 < n ∧ n ≤ cs.length ∧ ∀ c ∈ cs.take n, p c := by
  induction cs generalizing n with
  | nil => simp only [manyLengths, List.not_mem_nil, List.length_nil, false_iff]; omega
  | cons c cs ih =>
    rw [manyLengths]
    split_ifs with hc
    · rcases n with _ | _ | n
      · simp
      · simp [hc]
      · simp [ih, hc]
    · rcases n with _ | n
      · simp
      · simp [hc]

/-- The search tries all matches. -/
theorem mem_lengths_iff :
    n ∈ r.lengths isWord b cs ↔
      n ≤ cs.length ∧ r.Matches isWord b (cs.take n) (cs.drop n) := by
  induction r generalizing b cs n with
  | one p =>
    cases cs with
    | nil => simp [lengths, Matches]
    | cons c cs =>
      rcases n with _ | _ | n <;> by_cases hc : p c <;> simp [lengths, Matches, hc]
      exact fun hn hcs => by simp [hcs] at hn
  | many p =>
    rw [lengths, mem_manyLengths_iff, Matches]
    constructor
    · rintro ⟨hpos, hn, h⟩
      refine ⟨hn, fun hnil => ?_, h⟩
      have := congrArg List.length hnil
      simp only [List.length_take, List.length_nil] at this
      omega
    · rintro ⟨hn, hne, h⟩
      refine ⟨Nat.pos_of_ne_zero fun h0 => hne ?_, hn, h⟩
      rw [h0, List.take_zero]
  | maybe r ih =>
    rw [lengths, List.mem_append, ih, List.mem_singleton, Matches, and_or_left, or_comm]
    refine or_congr ?_ Iff.rfl
    constructor
    · rintro rfl
      exact ⟨Nat.zero_le _, List.take_zero⟩
    · rintro ⟨hn, h⟩
      have := congrArg List.length h
      simp only [List.length_take, List.length_nil] at this
      omega
  | seq r s ihr ihs =>
    simp only [lengths, List.mem_flatMap, List.mem_map, Matches, ihr, ihs]
    constructor
    · rintro ⟨k, ⟨hk, hr⟩, m, ⟨hm, hs⟩, rfl⟩
      rw [List.length_drop] at hm
      rw [List.drop_drop] at hs
      refine ⟨by omega, cs.take k, (cs.drop k).take m, List.take_add, ?_, hs⟩
      rwa [← List.drop_drop, List.take_append_drop]
    · rintro ⟨hn, u, v, huv, hr, hs⟩
      have hlen := congrArg List.length huv
      rw [List.length_take_of_le hn, List.length_append] at hlen
      have hu : cs.take u.length = u := by
        have := congrArg (List.take u.length) huv
        rwa [List.take_take, Nat.min_eq_left (by omega), List.take_left] at this
      have hcs : cs = u ++ (v ++ cs.drop n) := by
        rw [← List.append_assoc, ← huv, List.take_append_drop]
      have hdrop : cs.drop u.length = v ++ cs.drop n := by
        conv_lhs => rw [hcs]
        exact List.drop_left
      refine ⟨u.length, ⟨by omega, ?_⟩, v.length, ⟨?_, ?_⟩, hlen.symm⟩
      · rwa [hu, hdrop]
      · rw [hdrop, List.length_append]
        omega
      · rwa [hu, hdrop, List.take_left, List.drop_left]
  | boundary =>
    rw [lengths, Matches]
    split_ifs with h
    · rw [List.mem_singleton]
      constructor
      · rintro rfl
        exact ⟨Nat.zero_le _, List.take_zero, by rwa [List.drop_zero]⟩
      · rintro ⟨hn, hnil, -⟩
        have := congrArg List.length hnil
        simp only [List.length_take, List.length_nil] at this
        omega
    · refine iff_of_false List.not_mem_nil ?_
      rintro ⟨hn, hnil, hb⟩
      rcases List.take_eq_nil_iff.1 hnil with rfl | rfl
      · exact h (by rwa [List.drop_zero] at hb)
      · exact h (by rwa [List.drop_nil] at hb)

/-- The characters that may be part of a match. -/
def accepts : Regex → Char → Bool
  | one p, c => p c
  | many p, c => p c
  | maybe r, c => r.accepts c
  | seq r s, c => r.accepts c || s.accepts c
  | boundary, _ => false

theorem accepts_of_matches (h : r.Matches isWord b w rest) : ∀ c ∈ w, r.accepts c := by
  induction r generalizing b w rest with
  | one p =>
    obtain ⟨c, rfl, hc⟩ := h
    exact List.forall_mem_singleton.2 hc
  | many p => exact h.2
  | maybe r ih =>
    rcases h with rfl | h
    · exact List.forall_mem_nil _
    · exact ih h
  | seq r s ihr ihs =>
    obtain ⟨u, v, rfl, hu, hv⟩ := h
    intro c hc
    rcases List.mem_append.1 hc with hc | hc
    · exact Bool.or_eq_true_iff.2 (.inl (ihr hu c hc))
    · exact Bool.or_eq_true_iff.2 (.inr (ihs hv c hc))
  | boundary =>
    obtain ⟨rfl, -⟩ := h
    exact List.forall_mem_nil _

/-- There are no boundaries in the expression. -/
def bare : Regex → Bool
  | one _ => true
  | many _ => true
  | maybe r => r.bare
  | seq r s => r.bare && s.bare
  | boundary => false

/-- Without boundaries, what is around a match does not matter. -/
theorem matches_of_bare {b' : Option Char} {rest' : List Char} (hr : r.bare)
    (h : r.Matches isWord b w rest) : r.Matches isWord b' w rest' := by
  induction r generalizing b b' w rest rest' with
  | one p => exact h
  | many p => exact h
  | maybe r ih => exact h.imp_right (ih hr)
  | seq r s ihr ihs =>
    obtain ⟨hr, hs⟩ := Bool.and_eq_true_iff.1 hr
    obtain ⟨u, v, rfl, hu, hv⟩ := h
    exact ⟨u, v, rfl, ihr hr hu, ihs hs hv⟩
  | boundary => cases hr

/-! ### Successive matches -/

variable (isWord r)

/-- The spans of the successive matches, none of which is empty, in a text at the position `i` that
    follows the character `b`; the first characters, that are part of a match, are skipped. -/
def spans : ℕ → ℕ → Option Char → List Char → List (ℕ × ℕ)
  | _, _, _, [] => []
  | skip + 1, i, _, c :: cs => spans skip (i + 1) (some c) cs
  | 0, i, b, c :: cs =>
    match (r.lengths isWord b (c :: cs)).head? with
    | some (n + 1) => (i, i + (n + 1)) :: spans n (i + 1) (some c) cs
    | _ => spans 0 (i + 1) (some c) cs

/-- `re.finditer`: the spans of the matches. -/
def finditer (s : List Char) : List (ℕ × ℕ) := spans isWord r 0 0 none s

variable {isWord r}

/-- The search finds a match if and only if it is one. -/
theorem length_mem_lengths : w.length ∈ r.lengths isWord b (w ++ rest) ↔
    r.Matches isWord b w rest := by
  rw [mem_lengths_iff, List.take_left, List.drop_left, List.length_append]
  exact and_iff_right (Nat.le_add_right _ _)

variable {skip i : ℕ} {p q : ℕ × ℕ} {u : List Char}

/-- A span is the one of a match that is not empty. -/
theorem mem_spans (h : p ∈ r.spans isWord skip i b cs) : ∃ u w rest, cs = u ++ (w ++ rest) ∧
    skip ≤ u.length ∧ p = (i + u.length, i + u.length + w.length) ∧ w ≠ [] ∧
    r.Matches isWord (lastOr b u) w rest := by
  induction cs generalizing skip i b with
  | nil => cases skip <;> cases h
  | cons c cs ih =>
    -- A span in the rest of the text.
    have hrest : ∀ k, skip ≤ k + 1 → p ∈ r.spans isWord k (i + 1) (some c) cs →
        ∃ u w rest, c :: cs = u ++ (w ++ rest) ∧ skip ≤ u.length ∧
          p = (i + u.length, i + u.length + w.length) ∧ w ≠ [] ∧
          r.Matches isWord (lastOr b u) w rest := by
      intro k hk hp
      obtain ⟨u, w, rest, rfl, hu, rfl, hne, hm⟩ := ih hp
      refine ⟨c :: u, w, rest, rfl, by simp only [List.length_cons]; omega, ?_, hne, ?_⟩
      · simp only [List.length_cons, Prod.mk.injEq]
        omega
      · rwa [lastOr_cons]
    cases skip with
    | succ skip => exact hrest skip (Nat.le_refl _) h
    | zero =>
      rw [spans] at h
      split at h
      · rename_i n hn
        rcases List.mem_cons.1 h with rfl | h
        · obtain ⟨hle, hm⟩ := mem_lengths_iff.1 (List.mem_of_head? hn)
          refine ⟨[], (c :: cs).take (n + 1), (c :: cs).drop (n + 1),
            (List.take_append_drop _ _).symm, Nat.zero_le _, ?_, by simp, hm⟩
          rw [List.length_take_of_le hle]
          rfl
        · exact hrest n (Nat.zero_le _) h
      · exact hrest 0 (Nat.zero_le _) h

/-- The spans do not overlap. -/
theorem pairwise_spans : (r.spans isWord skip i b cs).Pairwise fun p q => p.2 ≤ q.1 := by
  induction cs generalizing skip i b with
  | nil => cases skip <;> exact .nil
  | cons c cs ih =>
    cases skip with
    | succ skip => exact ih
    | zero =>
      rw [spans]
      split
      · refine List.pairwise_cons.2 ⟨fun q hq => ?_, ih⟩
        obtain ⟨u, w, rest, -, hu, rfl, -⟩ := mem_spans hq
        show i + (_ + 1) ≤ i + 1 + u.length
        omega
      · exact ih

/-- No match is empty. -/
def consumes : Regex → Bool
  | one _ => true
  | many _ => true
  | maybe _ => false
  | seq r s => r.consumes || s.consumes
  | boundary => false

theorem ne_nil_of_matches (hr : r.consumes) (h : r.Matches isWord b w rest) : w ≠ [] := by
  induction r generalizing b w rest with
  | one p =>
    obtain ⟨c, rfl, -⟩ := h
    exact List.cons_ne_nil _ _
  | many p => exact h.1
  | maybe r => cases hr
  | seq r s ihr ihs =>
    obtain ⟨u, v, rfl, hu, hv⟩ := h
    rcases Bool.or_eq_true_iff.1 hr with hr | hr
    · exact List.append_ne_nil_of_left_ne_nil (ihr hr hu) _
    · exact List.append_ne_nil_of_right_ne_nil _ (ihs hr hv)
  | boundary => cases hr

/-- Where a match starts that is not skipped, there is a span. -/
theorem exists_mem_spans (hr : r.consumes) (hcs : cs = u ++ (w ++ rest)) (hskip : skip ≤ u.length)
    (hm : r.Matches isWord (lastOr b u) w rest) :
    ∃ p ∈ r.spans isWord skip i b cs, p.1 ≤ i + u.length ∧ i + u.length < p.2 := by
  induction cs generalizing skip i b u with
  | nil =>
    obtain ⟨-, hw⟩ := List.append_eq_nil_iff.1 hcs.symm
    exact absurd (List.append_eq_nil_iff.1 hw).1 (ne_nil_of_matches hr hm)
  | cons c cs ih =>
    -- A span in the rest of the text.
    have hrest : ∀ k u', u = c :: u' → k ≤ u'.length →
        ∃ p ∈ r.spans isWord k (i + 1) (some c) cs, p.1 ≤ i + u.length ∧ i + u.length < p.2 := by
      rintro k u' rfl hk
      obtain ⟨p, hp, hle, hlt⟩ := ih (List.cons.inj hcs).2 hk (by rwa [lastOr_cons] at hm)
      refine ⟨p, hp, ?_⟩
      rw [List.length_cons]
      omega
    rcases u with _ | ⟨c', u'⟩
    · -- The first match that is tried is not empty.
      obtain rfl := Nat.eq_zero_of_le_zero hskip
      have hlen := length_mem_lengths.2 hm
      rw [← show c :: cs = w ++ rest from hcs] at hlen
      obtain ⟨n, hn⟩ := Option.isSome_iff_exists.1
        (List.isSome_head?.2 (List.ne_nil_of_mem hlen))
      obtain ⟨hle, hmn⟩ := mem_lengths_iff.1 (List.mem_of_head? hn)
      rcases n with _ | n
      · exact absurd List.take_zero (ne_nil_of_matches hr hmn)
      · simp only [spans, show (r.lengths isWord b (c :: cs)).head? = _ from hn]
        exact ⟨_, List.mem_cons_self, by simp⟩
    · obtain rfl : c = c' := (List.cons.inj hcs).1
      cases skip with
      | succ skip => exact hrest skip u' rfl (by simpa using hskip)
      | zero =>
        rw [spans]
        split
        · rename_i n hn
          by_cases hlt : n ≤ u'.length
          · obtain ⟨p, hp, h⟩ := hrest n u' rfl hlt
            exact ⟨p, List.mem_cons_of_mem _ hp, h⟩
          · refine ⟨_, List.mem_cons_self, ?_⟩
            simp only [List.length_cons]
            omega
        · exact hrest 0 u' rfl (Nat.zero_le _)

/-! ### Successive matches in a text -/

variable {s : List Char}

/-- A span is the one of a match. -/
theorem mem_finditer (h : p ∈ r.finditer isWord s) : ∃ u w rest, s = u ++ (w ++ rest) ∧
    p = (u.length, u.length + w.length) ∧ w ≠ [] ∧ r.Matches isWord u.getLast? w rest := by
  obtain ⟨u, w, rest, hs, -, rfl, hne, hm⟩ := mem_spans h
  rw [lastOr, Option.or_none] at hm
  exact ⟨u, w, rest, hs, by rw [Nat.zero_add], hne, hm⟩

/-- A span is not empty, and one of the text. -/
theorem lt_of_mem_finditer (h : p ∈ r.finditer isWord s) : p.1 < p.2 ∧ p.2 ≤ s.length := by
  obtain ⟨u, w, rest, rfl, rfl, hne, -⟩ := mem_finditer h
  have := List.length_pos_iff.2 hne
  simp only [List.length_append]
  omega

/-- The spans of a text do not overlap. -/
theorem pairwise_finditer : (r.finditer isWord s).Pairwise fun p q => p.2 ≤ q.1 := pairwise_spans

/-- Two spans are the same, or do not overlap. -/
theorem eq_or_le_of_mem_finditer (hp : p ∈ r.finditer isWord s) (hq : q ∈ r.finditer isWord s) :
    p = q ∨ p.2 ≤ q.1 ∨ q.2 ≤ p.1 := by
  have hpair : (r.finditer isWord s).Pairwise fun p q => p = q ∨ p.2 ≤ q.1 ∨ q.2 ≤ p.1 :=
    pairwise_finditer.imp fun h => .inr (.inl h)
  exact hpair.forall_of_forall_of_flip (fun _ _ => .inl rfl)
    (hpair.imp fun h => h.imp Eq.symm Or.symm) hp hq

/-- The characters in a span are those of a match. -/
theorem exists_matches_of_mem_finditer (h : p ∈ r.finditer isWord s) :
    ∃ b w rest, r.Matches isWord b w rest ∧
      ∀ c, c ∈ w ↔ ∃ i, p.1 ≤ i ∧ i < p.2 ∧ s[i]? = some c := by
  obtain ⟨u, w, rest, rfl, rfl, -, hm⟩ := mem_finditer h
  refine ⟨_, w, rest, hm, fun c => ?_⟩
  rw [List.mem_iff_getElem?]
  constructor
  · rintro ⟨j, hj⟩
    have hlt := (List.getElem?_eq_some_iff.1 hj).1
    refine ⟨u.length + j, Nat.le_add_right _ _, Nat.add_lt_add_left hlt _, ?_⟩
    rw [List.getElem?_append_right (Nat.le_add_right _ _), Nat.add_sub_cancel_left,
      List.getElem?_append_left hlt, hj]
  · rintro ⟨i, hle, hlt, hi⟩
    rw [List.getElem?_append_right hle, List.getElem?_append_left (by simp only at hlt; omega)] at hi
    exact ⟨_, hi⟩

/-- Where a match starts, there is a span. -/
theorem exists_mem_finditer (hr : r.consumes) (hs : s = u ++ (w ++ rest))
    (hm : r.Matches isWord u.getLast? w rest) :
    ∃ p ∈ r.finditer isWord s, p.1 ≤ u.length ∧ u.length < p.2 := by
  have h : ∃ p ∈ r.spans isWord 0 0 none s, p.1 ≤ 0 + u.length ∧ 0 + u.length < p.2 :=
    exists_mem_spans hr hs (Nat.zero_le _) (by rwa [lastOr, Option.or_none])
  rwa [Nat.zero_add] at h

/-- There are no spans if and only if there is no match. -/
theorem finditer_eq_nil_iff (hr : r.consumes) : r.finditer isWord s = [] ↔
    ∀ u w rest, s = u ++ (w ++ rest) → ¬r.Matches isWord u.getLast? w rest := by
  constructor
  · intro hnil u w rest hs hm
    obtain ⟨p, hp, -⟩ := exists_mem_finditer hr hs hm
    rw [hnil] at hp
    cases hp
  · intro h
    refine List.eq_nil_iff_forall_not_mem.2 fun p hp => ?_
    obtain ⟨u, w, rest, hs, -, -, hm⟩ := mem_finditer hp
    exact h u w rest hs hm

end Regex

end AslanCore
