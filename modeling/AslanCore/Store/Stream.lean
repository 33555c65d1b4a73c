import Mathlib.Algebra.Group.Nat.Defs
import Mathlib.Data.List.Nodup
import Mathlib.Data.Nat.Basic
import Mathlib.Order.Lattice
import Mathlib.Tactic.Common

/-!
# Append-only streams

A stream is a log of entries under strictly increasing identifiers
`<ms>-<seq>`. Entries are appended under an identifier the store draws, greater
than any it has drawn before, and may be deleted, one by one or from the oldest
on, without their identifiers ever being drawn again.

What is read back is `Stream.entries`; `Stream.appended`, everything ever
appended, is the history of the stream: no command reads it but to draw the next
identifier, and every present entry comes from it (`Stream.sublist`).

Identifiers are ordered by `StreamId.toNat`, which enumerates them without gaps:
`StreamId.succ` is the next one.
-/

namespace AslanCore

/-- The identifier `<ms>-<seq>` of a stream entry. -/
@[ext]
structure StreamId where
  ms : ℕ
  seq : ℕ
  seq_lt : seq < 2 ^ 64
  deriving DecidableEq

namespace StreamId

/-- The position of an identifier among all. -/
def toNat (i : StreamId) : ℕ := i.ms * 2 ^ 64 + i.seq

theorem toNat_injective : Function.Injective toNat := by
  intro i j h
  have hi := i.seq_lt
  have hj := j.seq_lt
  simp only [toNat] at h
  ext <;> omega

instance : LinearOrder StreamId := LinearOrder.lift' toNat toNat_injective

theorem zero_lt : 0 < 2 ^ 64 := by decide

theorem le_iff {i j : StreamId} : i ≤ j ↔ i.toNat ≤ j.toNat := Iff.rfl

theorem lt_iff {i j : StreamId} : i < j ↔ i.toNat < j.toNat := Iff.rfl

/-- The identifier `0-0`, under which nothing is appended. -/
def zero : StreamId := ⟨0, 0, zero_lt⟩

/-- The identifier `<ms>-0`. -/
def ofMs (ms : ℕ) : StreamId := ⟨ms, 0, zero_lt⟩

/-- The next identifier. -/
def succ (i : StreamId) : StreamId :=
  if h : i.seq + 1 < 2 ^ 64 then ⟨i.ms, i.seq + 1, h⟩ else ofMs (i.ms + 1)

theorem toNat_succ (i : StreamId) : i.succ.toNat = i.toNat + 1 := by
  have hi := i.seq_lt
  rw [succ]
  split_ifs with h <;> simp only [toNat, ofMs] <;> omega

/-- No identifier is skipped by `succ`. -/
theorem lt_iff_succ_le {i j : StreamId} : i < j ↔ i.succ ≤ j := by
  rw [lt_iff, le_iff, toNat_succ, Nat.succ_le_iff]

theorem zero_le (i : StreamId) : zero ≤ i := by
  rw [le_iff]
  exact Nat.zero_le _

end StreamId

/-- A stream of entries in `φ`, oldest first, with everything ever appended to it. -/
structure Stream (φ : Type) where
  entries : List (StreamId × φ)
  appended : List (StreamId × φ)
  sublist : entries.Sublist appended
  sorted : appended.Pairwise (·.1 < ·.1)

namespace Stream

variable {φ : Type} (st : Stream φ)

/-- The empty stream. -/
def empty : Stream φ := ⟨[], [], .slnil, .nil⟩

/-- The greatest identifier ever drawn, or `0-0`. -/
def lastId : StreamId := (st.appended.getLast?.map (·.1)).getD .zero

theorem le_lastId {e : StreamId × φ} (he : e ∈ st.appended) : e.1 ≤ st.lastId := by
  have hsorted : st.appended.Pairwise (·.1 ≤ ·.1) := st.sorted.imp le_of_lt
  obtain ⟨es, e', hes⟩ := (List.eq_nil_or_concat _).resolve_left (List.ne_nil_of_mem he)
  rw [List.concat_eq_append] at hes
  rw [hes] at he hsorted
  rw [lastId, hes, List.getLast?_concat, Option.map_some, Option.getD_some]
  rcases List.mem_append.1 he with he | he
  · exact (List.pairwise_append.1 hsorted).2.2 e he e' (List.mem_singleton_self e')
  · rw [List.mem_singleton.1 he]

/-- The stream after `f` is appended under the identifier `i`, drawn by the store. -/
def append (i : StreamId) (f : φ) (hi : st.lastId < i) : Stream φ where
  entries := st.entries ++ [(i, f)]
  appended := st.appended ++ [(i, f)]
  sublist := st.sublist.append (.refl _)
  sorted := by
    refine List.pairwise_append.2 ⟨st.sorted, List.pairwise_singleton _ _, fun e he e' he' => ?_⟩
    rw [List.mem_singleton.1 he']
    exact (st.le_lastId he).trans_lt hi

/-- The stream after the entry `i` is deleted, if it is present. -/
def delete (i : StreamId) : Stream φ where
  entries := st.entries.filter (·.1 ≠ i)
  appended := st.appended
  sublist := List.filter_sublist.trans st.sublist
  sorted := st.sorted

/-- The stream after its `n` oldest entries are evicted. -/
def trim (n : ℕ) : Stream φ where
  entries := st.entries.drop n
  appended := st.appended
  sublist := (List.drop_sublist n _).trans st.sublist
  sorted := st.sorted

/-- The present entries with an identifier in `[lo, hi]`, oldest first, at most `count`. -/
def range (lo hi : StreamId) (count : ℕ) : List (StreamId × φ) :=
  (st.entries.filter fun e => lo ≤ e.1 ∧ e.1 ≤ hi).take count

/-- The present entries with an identifier from `lo` on, oldest first. -/
def since (lo : StreamId) : List (StreamId × φ) := st.entries.filter fun e => lo ≤ e.1

/-- The `count` newest present entries, newest first. -/
def revRange (count : ℕ) : List (StreamId × φ) := st.entries.reverse.take count

/-- An entry is present under the identifier `i`. -/
def Has (i : StreamId) : Prop := ∃ f, (i, f) ∈ st.entries

instance (i : StreamId) : Decidable (st.Has i) :=
  decidable_of_iff (∃ e ∈ st.entries, e.1 = i)
    ⟨fun ⟨e, he, hi⟩ => ⟨e.2, hi ▸ he⟩, fun ⟨f, hf⟩ => ⟨(i, f), hf, rfl⟩⟩

variable {st}

theorem mem_appended_of_mem {e : StreamId × φ} (he : e ∈ st.entries) : e ∈ st.appended :=
  st.sublist.subset he

/-- An identifier is drawn once. -/
theorem appended_unique {i : StreamId} {f f' : φ} (h : (i, f) ∈ st.appended)
    (h' : (i, f') ∈ st.appended) : f = f' := by
  have hnodup : (st.appended.map Prod.fst).Nodup :=
    List.pairwise_map.2 (st.sorted.imp fun hlt => hlt.ne)
  exact congrArg Prod.snd (List.inj_on_of_nodup_map hnodup h h' rfl)

theorem mem_append {i : StreamId} {f : φ} {hi : st.lastId < i} {e : StreamId × φ} :
    e ∈ (st.append i f hi).entries ↔ e ∈ st.entries ∨ e = (i, f) := by
  simp [append]

theorem mem_appended_append {i : StreamId} {f : φ} {hi : st.lastId < i} {e : StreamId × φ} :
    e ∈ (st.append i f hi).appended ↔ e ∈ st.appended ∨ e = (i, f) := by
  simp [append]

theorem mem_delete {i : StreamId} {e : StreamId × φ} :
    e ∈ (st.delete i).entries ↔ e ∈ st.entries ∧ e.1 ≠ i := by
  simp [delete]

theorem mem_range {lo hi : StreamId} {count : ℕ} {e : StreamId × φ}
    (he : e ∈ st.range lo hi count) : e ∈ st.entries ∧ lo ≤ e.1 ∧ e.1 ≤ hi := by
  simpa using List.mem_filter.1 (List.mem_of_mem_take he)

/-- A page that is not full has every entry in its bounds: one that it lacks comes after
    its last entry. -/
theorem mem_range_or_lt {lo hi : StreamId} {count : ℕ} (hcount : 0 < count) {e : StreamId × φ}
    (he : e ∈ st.entries) (hlo : lo ≤ e.1) (hhi : e.1 ≤ hi) :
    e ∈ st.range lo hi count ∨ ∃ l, (st.range lo hi count).getLast? = some l ∧ l.1 < e.1 := by
  have hmem : e ∈ st.entries.filter fun e => lo ≤ e.1 ∧ e.1 ≤ hi := by simp [he, hlo, hhi]
  have hsort : (st.entries.filter fun e => lo ≤ e.1 ∧ e.1 ≤ hi).Pairwise (·.1 < ·.1) :=
    (st.sorted.sublist st.sublist).sublist List.filter_sublist
  rw [range]
  generalize (st.entries.filter fun e => lo ≤ e.1 ∧ e.1 ≤ hi) = xs at hmem hsort
  rw [← List.take_append_drop count xs] at hmem hsort
  rcases List.mem_append.1 hmem with h | h
  · exact .inl h
  · have hne : xs.take count ≠ [] := by
      rintro hnil
      rcases List.take_eq_nil_iff.1 hnil with h0 | h0
      · omega
      · simp [h0] at h
    refine .inr ⟨_, List.getLast?_eq_some_getLast hne, ?_⟩
    exact (List.pairwise_append.1 hsort).2.2 _ (List.getLast_mem hne) e h

/-- The last entry has the greatest identifier. -/
theorem le_of_getLast? {l e : StreamId × φ} (hl : st.entries.getLast? = some l)
    (he : e ∈ st.entries) : e.1 ≤ l.1 := by
  obtain ⟨es, hes⟩ := List.getLast?_eq_some_iff.1 hl
  have hsort := st.sorted.sublist st.sublist
  rw [hes] at he hsort
  rcases List.mem_append.1 he with h | h
  · exact ((List.pairwise_append.1 hsort).2.2 e h l (List.mem_singleton_self l)).le
  · rw [List.mem_singleton.1 h]

theorem mem_since {lo : StreamId} {e : StreamId × φ} : e ∈ st.since lo ↔ e ∈ st.entries ∧ lo ≤ e.1 := by
  simp [since]

theorem sorted_since (lo : StreamId) : (st.since lo).Pairwise (·.1 < ·.1) :=
  (st.sorted.sublist st.sublist).filter _

/-- What is appended comes after what is there. -/
theorem lt_of_append {st' : Stream φ} {tail : List (StreamId × φ)} {e l : StreamId × φ}
    (h : st'.entries = st.entries ++ tail) (he : e ∈ tail) (hl : l ∈ st.entries) : l.1 < e.1 := by
  have hsorted := st'.sorted.sublist st'.sublist
  rw [h] at hsorted
  exact (List.pairwise_append.1 hsorted).2.2 l hl e he

/-- Up to the last entry of a stream, what is appended to it is not read. -/
theorem range_eq_since {st' : Stream φ} {tail : List (StreamId × φ)} {last : StreamId × φ}
    (h : st'.entries = st.entries ++ tail) (hlast : st.entries.getLast? = some last) (lo : StreamId)
    (count : ℕ) : st'.range lo last.1 count = (st.since lo).take count := by
  have hnone : (tail.filter fun e => lo ≤ e.1 ∧ e.1 ≤ last.1) = [] :=
    List.filter_eq_nil_iff.2 fun e he hbounds =>
      ((of_decide_eq_true hbounds).2.trans_lt (lt_of_append h he (List.mem_of_getLast? hlast))).false
  rw [range, h, List.filter_append, hnone, List.append_nil, since]
  refine congrArg (List.take count) (List.filter_congr fun e he => ?_)
  have hle := le_of_getLast? hlast he
  simp only [hle, and_true]

/-- After a page come the entries after its last one. -/
theorem since_succ {lo : StreamId} {count : ℕ} {l : StreamId × φ}
    (h : ((st.since lo).take count).getLast? = some l) :
    st.since l.1.succ = (st.since lo).drop count := by
  have hlo : lo ≤ l.1 := (mem_since.1 (List.mem_of_mem_take (List.mem_of_getLast? h))).2
  have hfilter : st.since l.1.succ = (st.since lo).filter fun e => l.1.succ ≤ e.1 := by
    rw [since, since, List.filter_filter]
    refine List.filter_congr fun e _ => ?_
    by_cases hlt : l.1.succ ≤ e.1
    · have hle : lo ≤ e.1 := hlo.trans (StreamId.lt_iff_succ_le.2 hlt).le
      simp [hlt, hle]
    · simp [hlt]
  have hsorted := st.sorted_since lo
  obtain ⟨es, hes⟩ := List.getLast?_eq_some_iff.1 h
  rw [hfilter]
  generalize st.since lo = R at h hes hsorted
  rw [← List.take_append_drop count R] at hsorted
  obtain ⟨htake, -, hlt⟩ := List.pairwise_append.1 hsorted
  have hnone : ((R.take count).filter fun e => l.1.succ ≤ e.1) = [] := by
    refine List.filter_eq_nil_iff.2 fun e he hle => ?_
    rw [hes] at he htake
    rw [decide_eq_true_iff, ← StreamId.lt_iff_succ_le] at hle
    rcases List.mem_append.1 he with he | he
    · exact (hle.trans ((List.pairwise_append.1 htake).2.2 e he l (List.mem_singleton_self l))).false
    · rw [List.mem_singleton.1 he] at hle
      exact hle.false
  have hall : ((R.drop count).filter fun e => l.1.succ ≤ e.1) = R.drop count := by
    refine List.filter_eq_self.2 fun e he => ?_
    rw [decide_eq_true_iff, ← StreamId.lt_iff_succ_le]
    exact hlt l (List.mem_of_getLast? h) e he
  calc (R.filter fun e => l.1.succ ≤ e.1)
      = (R.take count ++ R.drop count).filter fun e => l.1.succ ≤ e.1 := by
        rw [List.take_append_drop]
    _ = R.drop count := by rw [List.filter_append, hnone, hall, List.nil_append]

theorem mem_revRange {count : ℕ} {e : StreamId × φ} (he : e ∈ st.revRange count) :
    e ∈ st.entries :=
  List.mem_reverse.1 (List.mem_of_mem_take he)

theorem lastId_le_of_subset {st' : Stream φ} (h : st.appended ⊆ st'.appended) :
    st.lastId ≤ st'.lastId := by
  rcases List.eq_nil_or_concat st.appended with hnil | ⟨es, e, hes⟩
  · rw [lastId, hnil]
    exact StreamId.zero_le _
  · rw [List.concat_eq_append] at hes
    rw [lastId, hes, List.getLast?_concat, Option.map_some, Option.getD_some]
    exact st'.le_lastId (h (by simp [hes]))

theorem mem_trim {n : ℕ} {e : StreamId × φ} (he : e ∈ (st.trim n).entries) : e ∈ st.entries :=
  List.mem_of_mem_drop he

end Stream

/-- The streams of a store, by name. A stream that does not exist is not empty: it is
    no stream at all. -/
abbrev Streams (φ : Type) := String → Option (Stream φ)

namespace Streams

variable {φ : Type} (ss : Streams φ)

/-- The stream of a name, empty if it does not exist. -/
def get (n : String) : Stream φ := (ss n).getD .empty

/-- The streams after one is changed. -/
def set (n : String) (st : Stream φ) : Streams φ := Function.update ss n (some st)

variable {ss}

@[simp] theorem get_set_self {n : String} {st : Stream φ} : (ss.set n st).get n = st := by
  simp [get, set]

theorem get_set_of_ne {n m : String} {st : Stream φ} (h : m ≠ n) :
    (ss.set n st).get m = ss.get m := by
  simp [get, set, h]

end Streams

end AslanCore
