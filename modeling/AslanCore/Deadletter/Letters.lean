import AslanCore.Deadletter.Janitor

/-!
# The dead letters and their index

What the dead letters are, as a whole: which failures are in the log, whether they are routed,
which entry is indexed for each, and the entries that are left of every stream. Reconciling an
entry is a step on them (`Letters.reconcile`).

* the entry that is indexed for a failure in the end is the one that was, or else the first one
  that is reconciled (`index_foldl`), and the failure is then routed (`routed_foldl`);
* an entry of the failure is left in the end if it is that one, or if it is not reconciled
  (`mem_entries_foldl`).
-/

namespace AslanCore

namespace Deadletter

/-- An entry to be reconciled: its stream, its identifier, and its failure. -/
structure Step where
  streamName : String
  rid : StreamId
  failureId : ℤ
  deriving DecidableEq

/-- The dead letters: the streams of the failures in the log, those that are routed, the entries
    that are indexed, and the entries that are left. -/
@[ext]
structure Letters where
  stream : ℤ → Option String
  routed : ℤ → Bool
  index : ℤ → Option StreamId
  entries : String → List (StreamId × RawFields)

namespace Letters

/-- An entry is deleted. -/
def delete (l : Letters) (n : String) (rid : StreamId) : Letters :=
  { l with entries := Function.update l.entries n ((l.entries n).filter (·.1 ≠ rid)) }

/-- An entry is indexed, and its failure routed. -/
def adopt (l : Letters) (fid : ℤ) (rid : StreamId) : Letters :=
  { l with
    routed := Function.update l.routed fid true
    index := Function.update l.index fid (some rid) }

/-- An entry is reconciled with the index. -/
def reconcile (l : Letters) (q : Step) : Letters :=
  if IsBigint q.failureId then
    match l.index q.failureId with
    | some canonical => if canonical = q.rid then l else l.delete q.streamName q.rid
    | none =>
      if (l.stream q.failureId).isSome then l.adopt q.failureId q.rid
      else l.delete q.streamName q.rid
  else l

/-- The entry that is indexed for a failure after some entries are reconciled. -/
def canonical (l : Letters) (qs : List Step) (fid : ℤ) : Option StreamId :=
  l.index fid <|> (qs.find? (·.failureId = fid)).map (·.rid)

variable (l : Letters) (q : Step) {fid : ℤ}

/-- What reconciling an entry may do: nothing, if it is the one that is indexed, or else it is
    deleted, unless it is the first one of a failure of the log. -/
theorem reconcile_cases :
    l.reconcile q = l ∧ (IsBigint q.failureId → l.index q.failureId = some q.rid) ∨
    l.reconcile q = l.delete q.streamName q.rid ∧ l.index q.failureId ≠ some q.rid ∧
      (l.index q.failureId = none → l.stream q.failureId = none) ∨
    l.reconcile q = l.adopt q.failureId q.rid ∧ l.index q.failureId = none := by
  rw [reconcile]
  by_cases hbig : IsBigint q.failureId
  · rw [if_pos hbig]
    cases hi : l.index q.failureId with
    | some r =>
      by_cases hr : r = q.rid
      · exact .inl ⟨if_pos hr, fun _ => congrArg some hr⟩
      · exact .inr (.inl ⟨if_neg hr, fun h => hr (Option.some.inj h), nofun⟩)
    | none =>
      by_cases hs : (l.stream q.failureId).isSome = true
      · exact .inr (.inr ⟨if_pos hs, rfl⟩)
      · exact .inr (.inl ⟨if_neg hs, nofun, fun _ => by simpa using hs⟩)
  · exact .inl ⟨if_neg hbig, fun h => absurd h hbig⟩

@[simp] theorem stream_reconcile : (l.reconcile q).stream = l.stream := by
  rcases l.reconcile_cases q with ⟨h, -⟩ | ⟨h, -⟩ | ⟨h, -⟩ <;> rw [h] <;> rfl

/-- Other streams are left alone. -/
theorem entries_reconcile_of_ne {n : String} (h : n ≠ q.streamName) :
    (l.reconcile q).entries n = l.entries n := by
  rcases l.reconcile_cases q with ⟨hq, -⟩ | ⟨hq, -⟩ | ⟨hq, -⟩ <;> rw [hq]
  · exact Function.update_of_ne h _ _
  · rfl

theorem entries_foldl_of_ne {n : String} {qs : List Step} (h : ∀ q ∈ qs, n ≠ q.streamName) :
    (qs.foldl reconcile l).entries n = l.entries n := by
  induction qs generalizing l with
  | nil => rfl
  | cons q qs ih =>
    rw [List.foldl_cons, ih _ fun q' hq' => h q' (List.mem_cons_of_mem _ hq'),
      entries_reconcile_of_ne l q (h q List.mem_cons_self)]

/-- Entries are only deleted. -/
theorem entries_foldl_subset (n : String) (qs : List Step) :
    (qs.foldl reconcile l).entries n ⊆ l.entries n := by
  induction qs generalizing l with
  | nil => exact List.Subset.refl _
  | cons q qs ih =>
    refine List.Subset.trans (ih _) ?_
    by_cases hn : n = q.streamName
    · subst hn
      rcases l.reconcile_cases q with ⟨hq, -⟩ | ⟨hq, -⟩ | ⟨hq, -⟩ <;> rw [hq]
      · exact List.Subset.refl _
      · simp [delete]
      · exact List.Subset.refl _
    · rw [entries_reconcile_of_ne l q hn]
      exact List.Subset.refl _

/-- Other entries are left alone. -/
theorem mem_entries_reconcile_of_ne {n : String} {e : StreamId × RawFields}
    (h : ¬(q.streamName = n ∧ q.rid = e.1)) :
    e ∈ (l.reconcile q).entries n ↔ e ∈ l.entries n := by
  by_cases hn : n = q.streamName
  · subst hn
    rcases l.reconcile_cases q with ⟨hq, -⟩ | ⟨hq, -⟩ | ⟨hq, -⟩ <;> rw [hq]
    · have hne : e.1 ≠ q.rid := fun he => h ⟨rfl, he.symm⟩
      simp [delete, hne]
    · rfl
  · rw [entries_reconcile_of_ne l q hn]

variable (hfid : IsBigint fid) (hstream : (l.stream fid).isSome)
include hfid hstream

/-- The first entry of a failure is indexed. -/
theorem index_reconcile : (l.reconcile q).index fid =
    (l.index fid <|> if q.failureId = fid then some q.rid else none) := by
  by_cases hq : q.failureId = fid
  · subst hq
    rw [if_pos rfl]
    rcases l.reconcile_cases q with ⟨h, hi⟩ | ⟨h, -, hi⟩ | ⟨h, hi⟩ <;> rw [h]
    · rw [hi hfid]
      rfl
    · cases hindex : l.index q.failureId with
      | some r => exact hindex
      | none =>
        rw [hi hindex] at hstream
        cases hstream
    · rw [hi]
      exact Function.update_self _ _ _
  · rw [if_neg hq]
    have hkeep : (l.reconcile q).index fid = l.index fid := by
      rcases l.reconcile_cases q with ⟨h, -⟩ | ⟨h, -⟩ | ⟨h, -⟩ <;> rw [h]
      · rfl
      · exact Function.update_of_ne (Ne.symm hq) _ _
    rw [hkeep]
    cases l.index fid <;> rfl

theorem routed_reconcile : (l.reconcile q).routed fid =
    (l.routed fid || (decide (l.index fid = none) && decide (q.failureId = fid))) := by
  by_cases hq : q.failureId = fid
  · subst hq
    rcases l.reconcile_cases q with ⟨h, hi⟩ | ⟨h, -, hi⟩ | ⟨h, hi⟩ <;> rw [h]
    · simp [hi hfid]
    · cases hindex : l.index q.failureId with
      | some r => simp [delete]
      | none =>
        rw [hi hindex] at hstream
        cases hstream
    · simp [hi, adopt]
  · simp only [hq, decide_false, Bool.and_false, Bool.or_false]
    rcases l.reconcile_cases q with ⟨h, -⟩ | ⟨h, -⟩ | ⟨h, -⟩ <;> rw [h]
    · rfl
    · exact Function.update_of_ne (Ne.symm hq) _ _

/-- What is indexed for a failure in the end. -/
theorem index_foldl (qs : List Step) :
    (qs.foldl reconcile l).index fid = l.canonical qs fid := by
  induction qs generalizing l with
  | nil => simp [canonical]
  | cons q qs ih =>
    rw [List.foldl_cons, ih _ (by simpa using hstream), canonical, canonical,
      index_reconcile l q hfid hstream, List.find?_cons]
    cases l.index fid with
    | some r => simp
    | none => by_cases hq : q.failureId = fid <;> simp [hq]

/-- A failure is routed in the end if it was, or if an entry has been indexed. -/
theorem routed_foldl (qs : List Step) : (qs.foldl reconcile l).routed fid =
    (l.routed fid || (decide (l.index fid = none) && (l.canonical qs fid).isSome)) := by
  induction qs generalizing l with
  | nil =>
    cases hi : l.index fid <;> simp [canonical, hi]
  | cons q qs ih =>
    rw [List.foldl_cons, ih _ (by simpa using hstream), canonical, canonical,
      routed_reconcile l q hfid hstream, index_reconcile l q hfid hstream, List.find?_cons]
    cases l.index fid with
    | some r => simp
    | none => by_cases hq : q.failureId = fid <;> simp [hq]

/-- An entry of a failure is left in the end if it is the one that is indexed, or if it is not
    reconciled. -/
theorem mem_entries_foldl {n : String} {rid : StreamId} {f : RawFields} {qs : List Step}
    (hone : ∀ q ∈ qs, q.streamName = n → q.rid = rid → q.failureId = fid) :
    (rid, f) ∈ (qs.foldl reconcile l).entries n ↔ (rid, f) ∈ l.entries n ∧
      (⟨n, rid, fid⟩ ∈ qs → l.canonical qs fid = some rid) := by
  induction qs generalizing l with
  | nil => simp
  | cons q qs ih =>
    have hcan : (l.reconcile q).canonical qs fid = l.canonical (q :: qs) fid := by
      rw [← index_foldl _ hfid (by simpa using hstream), ← index_foldl _ hfid hstream,
        List.foldl_cons]
    rw [List.foldl_cons, ih _ (by simpa using hstream) fun q' hq' =>
      hone q' (List.mem_cons_of_mem _ hq'), hcan, List.mem_cons]
    by_cases hq : q.streamName = n ∧ q.rid = rid
    · obtain ⟨rfl, rfl⟩ := hq
      obtain rfl : q.failureId = fid := hone q List.mem_cons_self rfl rfl
      -- What is indexed now is indexed in the end.
      have hkeep : ∀ r, l.index q.failureId = some r →
          l.canonical (q :: qs) q.failureId = some r := fun r hr => by simp [canonical, hr]
      rcases l.reconcile_cases q with ⟨h, hi⟩ | ⟨h, hne, hi⟩ | ⟨h, hi⟩ <;> rw [h]
      · simp [hkeep _ (hi hfid)]
      · cases hindex : l.index q.failureId with
        | none =>
          rw [hi hindex] at hstream
          cases hstream
        | some r =>
          have hr : r ≠ q.rid := fun hr => hne (hindex.trans (congrArg some hr))
          simp [hkeep r hindex, delete, hr]
      · have hc : l.canonical (q :: qs) q.failureId = some q.rid := by simp [canonical, hi]
        simp [hc, adopt]
    · rw [mem_entries_reconcile_of_ne l q hq]
      have hne : (⟨n, rid, fid⟩ : Step) ≠ q := fun h => hq (h ▸ ⟨rfl, rfl⟩)
      simp [hne]

end Letters

end Deadletter

end AslanCore
