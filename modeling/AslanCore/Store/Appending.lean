import AslanCore.Store.Ascending

/-!
# Rows that are inserted and stay

Where the sessions of a database only insert rows that they do not see (`Inserts`), every row that
is pending is a new one (`Database.Fresh`), and every row that is committed stays
(`Database.Keeps`).

* `Effect.fresh`, `Effect.keeps`: what the requests of a session keep;
* `Keeps.committed_eq`: a row that a session sees is committed as it was, or not, after others have
  used the database;
* `Keeps.view_eq`, `Frame.view_eq_committed`: the session sees it as it did, and of the rows that it
  has not written those that are committed.
-/

set_option linter.unusedSectionVars false

namespace AslanCore

namespace Database

variable {T K : Type} {V : K → Type} [DecidableEq T] [DecidableEq K] {db db' db'' : Database T K V}
  {t t' : T} {k : K}

/-- A row is inserted that the session does not see. -/
def Inserts (t : T) (db : Database T K V) (k : K) (v : Option (V k)) : Prop :=
  db.view t k = none ∧ v.isSome

/-- The rows that are pending are not deletions, and are not committed yet. -/
def Fresh (db : Database T K V) : Prop :=
  ∀ t k w, db.pending t k = some w → w.isSome ∧ db.committed k = none

/-- Every row that is committed stays. -/
def Keeps (db db' : Database T K V) : Prop :=
  ∀ k v, db.committed k = some v → db'.committed k = some v

theorem Keeps.refl (db : Database T K V) : Keeps db db := fun _ _ h => h

theorem Keeps.trans (h : Keeps db db') (h' : Keeps db' db'') : Keeps db db'' :=
  fun k v hv => h' k v (h k v hv)

theorem Keeps.of_eq (h : db'.committed = db.committed) : Keeps db db' := fun k v hv => by
  rwa [h]

theorem fresh_ofRows (rows : (k : K) → Option (V k)) : (ofRows rows : Database T K V).Fresh := by
  rintro t k w ⟨⟩

/-- What a session does not see is neither committed nor pending for it. -/
theorem Fresh.of_view_eq_none (h : db.Fresh) (hk : db.view t k = none) :
    db.pending t k = none ∧ db.committed k = none := by
  rcases hp : db.pending t k with _ | w
  · exact ⟨rfl, by rwa [view, hp, Option.getD_none] at hk⟩
  · rw [view, hp, Option.getD_some] at hk
    have hw := (h t k w hp).1
    simp [hk] at hw

/-- What a session has written is what it sees. -/
theorem view_of_pending {w : Option (V k)} (h : db.pending t k = some w) : db.view t k = w := by
  rw [view, h, Option.getD_some]

theorem Fresh.view_of_committed {v : V k} (h : db.Fresh) (hk : db.committed k = some v) :
    db.view t k = some v := by
  rcases hp : db.pending t k with _ | w
  · rw [view, hp, Option.getD_none, hk]
  · cases hk.symm.trans (h t k w hp).2

/-- What is seen, and not committed, is pending. -/
theorem pending_of_view {v : V k} (h : db.view t k = some v) (hk : db.committed k = none) :
    db.pending t k = some (some v) := by
  rcases hp : db.pending t k with _ | w
  · rw [view, hp, Option.getD_none, hk] at h
    cases h
  · rw [← h, view_of_pending hp]

theorem Makes.fresh (h : Makes t (Inserts t) db db') (hs : db.Fresh) : db'.Fresh := by
  induction h with
  | @stay db db' h =>
    intro t' k w hw
    rw [h.committed]
    refine hs t' k w ?_
    by_cases ht : t' = t
    · subst ht
      rwa [h.pending] at hw
    · rwa [(h.frame ht).pending] at hw
  | @put db k v fu hl hv =>
    intro t' k' w hw
    rw [pending_put] at hw
    by_cases ht : t' = t
    · subst ht
      rw [Function.update_self] at hw
      by_cases hk : k' = k
      · subst hk
        rw [Function.update_self] at hw
        cases hw
        exact ⟨hv.2, (hs.of_view_eq_none hv.1).2⟩
      · rw [Function.update_of_ne hk] at hw
        exact hs _ _ _ hw
    · rw [Function.update_of_ne ht] at hw
      exact hs _ _ _ hw
  | trans _ _ ih ih' => exact ih' (ih hs)

/-- Every request keeps it that pending rows are new. -/
theorem Effect.fresh (h : Effect t (Inserts t) db db') (hs : db.Fresh) : db'.Fresh := by
  rcases h with h | h | ⟨st, rfl⟩
  · exact h.fresh hs
  · intro t' k w hw
    rw [h.committed]
    by_cases ht : t' = t
    · subst ht
      rw [h.pending] at hw
      cases hw
    · rw [(h.frame ht).pending] at hw
      exact hs _ _ _ hw
  · intro t' k w hw
    by_cases ht : t' = t
    · subst ht
      rw [pending_commitTx_self] at hw
      cases hw
    · rw [(frame_commitTx ht).pending] at hw
      have howner : db.owner k ≠ some t := by
        rw [db.owner_of_pending t' k (by simp [hw])]
        simpa using ht
      rw [committed_commitTx, Database.view_eq_committed howner]
      exact hs _ _ _ hw

/-- Every request leaves the rows that are committed. -/
theorem Effect.keeps (h : Effect t (Inserts t) db db') (hs : db.Fresh) : Keeps db db' := by
  rcases h with h | h | ⟨st, rfl⟩
  · exact .of_eq h.committed
  · exact .of_eq h.committed
  · exact fun k v hv => hs.view_of_committed hv

namespace Keeps

/-- A row that a session sees is committed as it was, or not, after others have used the
    database. -/
theorem committed_eq (h : Keeps db db') (hf : Frame t db db') (hk : (db.view t k).isSome) :
    db'.committed k = db.committed k := by
  rcases hc : db.committed k with _ | v
  · obtain ⟨v, hv⟩ := Option.isSome_iff_exists.1 hk
    have howner := db.owner_of_pending t k (by rw [pending_of_view hv hc]; rfl)
    rw [hf.committed k howner, hc]
  · exact h k v hc

/-- It sees the row as it did. -/
theorem view_eq (h : Keeps db db') (hf : Frame t db db') (hk : (db.view t k).isSome) :
    db'.view t k = db.view t k := by
  rw [view, view, hf.pending, h.committed_eq hf hk]

end Keeps

/-- Of the rows that it has not written, it sees those that are committed. -/
theorem Frame.view_eq_committed (hf : Frame t db db') (hk : db.view t k = db.committed k) :
    db'.view t k = db'.committed k := by
  rcases hp : db.pending t k with _ | w
  · rw [Database.view, hf.pending, hp, Option.getD_none]
  · rw [Database.view, hf.pending, hp, Option.getD_some, ← view_of_pending hp, hk,
      hf.committed k (db.owner_of_pending t k (by simp [hp]))]

end Database

end AslanCore
