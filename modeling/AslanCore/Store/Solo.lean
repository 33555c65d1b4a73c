import AslanCore.Store.Database

/-!
# Databases in use by a single session

What the statements of a session do when no other session is in use: none of them waits,
and together they are a change of the rows that the session sees.

* `Idle`: no session is in use;
* `Solo`: no session is in use but one, who sees the rows `w`;
* a statement that is executed leads to the new view (`Solo.insertNew`, `Solo.updateRow`, …);
* the rows that are committed in the end are those seen (`Solo.commit`).
-/

set_option linter.unusedSectionVars false

namespace AslanCore

namespace Database

variable {T K : Type} {V : K → Type} [DecidableEq T] [DecidableEq K]

/-- No session is in use. -/
structure Idle (db : Database T K V) : Prop where
  pending : ∀ t k, db.pending t k = none
  owner : ∀ k, db.owner k = none
  refs : ∀ k, db.refs k = []
  saved : ∀ t, db.saved t = none
  status : ∀ t, db.status t = .ready

/-- No session is in use but `t`. -/
structure OnlyUsedBy (t : T) (db : Database T K V) : Prop where
  pending : ∀ t' ≠ t, ∀ k, db.pending t' k = none
  owner : ∀ k, ∀ t' ∈ db.owner k, t' = t
  refs : ∀ k, ∀ t' ∈ db.refs k, t' = t
  saved : ∀ t' ≠ t, db.saved t' = none
  status : ∀ t' ≠ t, db.status t' = .ready

/-- No session is in use but `t`, in a transaction that has not failed, and that sees the
    rows `w`. -/
structure Solo (t : T) (db : Database T K V) (w : (k : K) → Option (V k)) : Prop
    extends OnlyUsedBy t db where
  saved_self : db.saved t = none
  status_self : db.status t = .ready
  view_eq : db.view t = w

theorem idle_ofRows (rows : (k : K) → Option (V k)) :
    (ofRows rows : Database T K V).Idle where
  pending _ _ := rfl
  owner _ := rfl
  refs _ := rfl
  saved _ := rfl
  status _ := rfl

variable {db : Database T K V} {t : T} {w : (k : K) → Option (V k)} {k : K}

theorem Idle.view (h : db.Idle) (t : T) : db.view t = db.committed := by
  funext k
  rw [Database.view, h.pending, Option.getD_none]

/-- A session starts to be used. -/
theorem Idle.solo (h : db.Idle) (t : T) : db.Solo t db.committed where
  pending _ _ k := h.pending _ k
  owner k t' ht' := by simp [h.owner] at ht'
  refs k t' ht' := by simp [h.refs] at ht'
  saved t' _ := h.saved t'
  status t' _ := h.status t'
  saved_self := h.saved t
  status_self := h.status t
  view_eq := h.view t

namespace Solo

theorem canLock (h : db.Solo t w) (k : K) (fu : Bool) : db.CanLock t k fu :=
  ⟨h.owner k, fun _ => h.refs k⟩

theorem canRefer (h : db.Solo t w) (k : K) : db.CanRefer t k :=
  fun t' ht' => .inl (h.owner k t' ht')

theorem not_contended (h : db.Solo t w) (k : K) : ¬db.Contended t k := by
  rintro ⟨t', ht', hne, -⟩
  exact hne (h.owner k t' ht')

/-- A row is locked. -/
theorem lockRow (h : db.Solo t w) {fu : Bool} (hl : db.CanLock t k fu) :
    (db.lockRow t k fu hl).Solo t w where
  pending := h.pending
  owner k' t' ht' := by
    by_cases hk : k' = k
    · subst hk
      simpa [Database.lockRow, eq_comm] using ht'
    · exact h.owner k' t' (by simpa [Database.lockRow, hk] using ht')
  refs := h.refs
  saved := h.saved
  status := h.status
  saved_self := h.saved_self
  status_self := h.status_self
  view_eq := h.view_eq

/-- A row is locked and written. -/
theorem put (h : db.Solo t w) {v : Option (V k)} {fu : Bool} (hl : db.CanLock t k fu) :
    (db.put t k v fu hl).Solo t (Function.update w k v) where
  pending t' ht' k' := by
    simp [Database.put, Database.write, Database.lockRow, Function.update_of_ne ht', h.pending t' ht']
  owner := (h.lockRow hl).owner
  refs := h.refs
  saved := h.saved
  status := h.status
  saved_self := h.saved_self
  status_self := h.status_self
  view_eq := by
    funext k'
    rw [← h.view_eq]
    by_cases hk : k' = k
    · subst hk
      simp [Database.view, Database.put, Database.write]
    · simp [Database.view, Database.put, Database.write, Database.lockRow, hk]

theorem addRef (h : db.Solo t w) (k : K) : (db.addRef t k).Solo t w where
  pending := h.pending
  owner := h.owner
  refs k' t' ht' := by
    by_cases hk : k' = k
    · subst hk
      simp only [Database.addRef, Function.update_self] at ht'
      rcases List.mem_cons.1 ht' with rfl | ht'
      · rfl
      · exact h.refs _ t' ht'
    · exact h.refs k' t' (by simpa [Database.addRef, hk] using ht')
  saved := h.saved
  status := h.status
  saved_self := h.saved_self
  status_self := h.status_self
  view_eq := h.view_eq

/-! ### Statements -/

theorem insertNew (h : db.Solo t w) {v : V k} (hk : w k = none) :
    ∃ db', db.insertNew t k v = some (true, db') ∧ db'.Solo t (Function.update w k (some v)) ∧
      db'.committed = db.committed := by
  refine ⟨db.put t k (some v) false (h.canLock k false), ?_, h.put _, rfl⟩
  rw [Database.insertNew, if_neg (h.not_contended k), h.view_eq, hk, if_neg (by simp),
    dif_pos (h.canLock k false)]

theorem insertNew_conflict (h : db.Solo t w) {v : V k} (hk : (w k).isSome) :
    db.insertNew t k v = some (false, db) := by
  rw [Database.insertNew, if_neg (h.not_contended k), h.view_eq, if_pos hk]

theorem updateRow (h : db.Solo t w) {c : V k → Bool} {f : V k → V k} {v : V k}
    (hk : w k = some v) (hw : c v = true) :
    ∃ db', db.updateRow t k c f = some (true, db') ∧
      db'.Solo t (Function.update w k (some (f v))) ∧ db'.committed = db.committed := by
  refine ⟨db.put t k (some (f v)) false (h.canLock k false), ?_, h.put _, rfl⟩
  simp only [Database.updateRow, h.view_eq, hk, hw, if_true, dif_pos (h.canLock k false)]

theorem updateRow_none (h : db.Solo t w) {c : V k → Bool} {f : V k → V k}
    (hk : ∀ v ∈ w k, c v = false) : db.updateRow t k c f = some (false, db) := by
  cases hv : w k with
  | none => simp only [Database.updateRow, h.view_eq, hv]
  | some v =>
    simp only [Database.updateRow, h.view_eq, hv, hk v hv]
    rfl

theorem deleteRow (h : db.Solo t w) {c : V k → Bool} {v : V k} (hk : w k = some v)
    (hw : c v = true) : ∃ db', db.deleteRow t k c = some (true, db') ∧
      db'.Solo t (Function.update w k none) ∧ db'.committed = db.committed := by
  refine ⟨db.put t k none true (h.canLock k true), ?_, h.put _, rfl⟩
  simp only [Database.deleteRow, h.view_eq, hk, hw, if_true, dif_pos (h.canLock k true)]

theorem selectForUpdate (h : db.Solo t w) {v : V k} (hk : w k = some v) :
    ∃ db', db.selectForUpdate t k = some (some v, db') ∧ db'.Solo t w ∧
      db'.committed = db.committed := by
  refine ⟨db.lockRow t k true (h.canLock k true), ?_, h.lockRow _, rfl⟩
  simp only [Database.selectForUpdate, h.view_eq, hk, dif_pos (h.canLock k true)]

end Solo

/-! ### The end of a transaction -/

namespace OnlyUsedBy

theorem finish (h : db.OnlyUsedBy t) (rows : (k : K) → Option (V k)) :
    (db.finish t rows .ready).Idle where
  pending t' k := by
    by_cases ht : t' = t
    · subst ht
      simp [Database.finish]
    · simp [Database.finish, ht, h.pending t' ht]
  owner k := by
    cases ho : db.owner k with
    | none => simp [Database.finish, ho]
    | some t' => simp [Database.finish, ho, h.owner k t' ho]
  refs k := by
    simp only [Database.finish, List.filter_eq_nil_iff]
    intro t' ht'
    simp [h.refs k t' ht']
  saved t' := by
    by_cases ht : t' = t
    · subst ht
      simp [Database.finish]
    · simp [Database.finish, ht, h.saved t' ht]
  status t' := by
    by_cases ht : t' = t
    · subst ht
      simp [Database.finish]
    · simp [Database.finish, ht, h.status t' ht]

theorem abort (h : db.OnlyUsedBy t) : (db.abort t .ready).Idle := h.finish _

end OnlyUsedBy

namespace Solo

variable {ε : Type} {e : ε}

theorem commit (h : db.Solo t w) : ∃ db', db.commit t .none e = (.ok (), db') ∧ db'.Idle ∧
    db'.committed = w := by
  refine ⟨db.commitTx t .ready, ?_, h.finish _, h.view_eq⟩
  simp only [Database.commit, h.status_self, if_true]

/-- A transaction fails. -/
theorem fail (h : db.Solo t w) : (db.fail t).OnlyUsedBy t ∧ (db.fail t).committed = db.committed := by
  have hfail : db.fail t = db.abort t .failed := by
    rw [Database.fail]
    split
    · rename_i sp hsp
      rw [h.saved_self] at hsp
      cases hsp
    · rfl
  have hidle := h.abort
  rw [hfail]
  refine ⟨⟨fun t' _ => hidle.pending t', fun k t' ht' => ?_, fun k t' ht' => ?_,
    fun t' _ => hidle.saved t', fun t' ht => ?_⟩, rfl⟩
  · rw [show (db.abort t .failed).owner k = none from hidle.owner k] at ht'
    cases ht'
  · rw [show (db.abort t .failed).refs k = [] from hidle.refs k] at ht'
    cases ht'
  · rw [show (db.abort t .failed).status t' = db.status t' from Function.update_of_ne ht _ _]
    exact h.status t' ht

end Solo

end Database

end AslanCore
