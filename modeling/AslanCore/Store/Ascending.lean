import AslanCore.Store.Isolation

/-!
# Rows that only grow

What a request of a session does to a database without savepoints (`Effect`): it makes some writes
(`Makes`), or its transaction is undone, or committed. A property of the rows is kept by all of them
if what is written has it (`Effect.all`).

Where every write of a row leads from what its session sees to something later, in an order of the
versions of the row, what is committed only grows, and so does what a session sees.

* `Ascending`: what is pending is later than what is committed;
* `Effect.ascending`, `Effect.rises`: what the requests keep of it;
* `Makes.rises_view`: a session sees something later after its own writes;
* `Rises.view`: and so it does after others have used the database.
-/

set_option linter.unusedSectionVars false

namespace AslanCore

namespace Database

variable {T K : Type} {V : K → Type} [DecidableEq T] [DecidableEq K]

/-! ### Effects -/

/-- No session has set a savepoint. -/
def Unsaved (db : Database T K V) : Prop := ∀ t, db.saved t = none

/-- The session `t` writes nothing. -/
structure Stays (t : T) (db db' : Database T K V) : Prop where
  committed : db'.committed = db.committed
  frame : ∀ {t'}, t' ≠ t → Frame t' db db'
  pending : db'.pending t = db.pending t
  saved : db'.saved t = db.saved t
  owner : ∀ k, db.owner k = some t → db'.owner k = some t

/-- The transaction of the session `t` is undone. -/
structure Undone (t : T) (db db' : Database T K V) : Prop where
  committed : db'.committed = db.committed
  frame : ∀ {t'}, t' ≠ t → Frame t' db db'
  pending : db'.pending t = fun _ => none
  saved : db'.saved t = none

/-- The session `t` makes writes that `W` allows of the database before each. -/
inductive Makes (t : T) (W : Database T K V → (k : K) → Option (V k) → Prop) :
    Database T K V → Database T K V → Prop
  | stay {db db' : Database T K V} : Stays t db db' → Makes t W db db'
  | put {db : Database T K V} {k : K} {v : Option (V k)} {fu : Bool} (h : db.CanLock t k fu) :
    W db k v → Makes t W db (db.put t k v fu h)
  | trans {db db' db'' : Database T K V} : Makes t W db db' → Makes t W db' db'' →
    Makes t W db db''

/-- What a request of the session `t` does. -/
inductive Effect (t : T) (W : Database T K V → (k : K) → Option (V k) → Prop)
    (db db' : Database T K V) : Prop
  | makes (h : Makes t W db db')
  | undone (h : Undone t db db')
  | committed (st : Status) (h : db' = db.commitTx t st)

variable {db db' db'' : Database T K V} {t t' : T} {k k' : K} {fu : Bool} {st : Status}
  {W W' : Database T K V → (k : K) → Option (V k) → Prop}

theorem Stays.refl (t : T) (db : Database T K V) : Stays t db db :=
  ⟨rfl, fun _ => .refl _ _, rfl, rfl, fun _ h => h⟩

theorem owner_update_self {owner : K → Option T} (h : owner k' = some t) :
    Function.update owner k (some t) k' = some t := by
  by_cases hk : k' = k
  · subst hk
    rw [Function.update_self]
  · rwa [Function.update_of_ne hk]

theorem stays_lockRow {hl : db.CanLock t k fu} : Stays t db (db.lockRow t k fu hl) :=
  ⟨rfl, frame_lockRow, rfl, rfl, fun _ => owner_update_self⟩

theorem stays_addRef : Stays t db (db.addRef t k) :=
  ⟨rfl, frame_addRef, rfl, rfl, fun _ h => h⟩

theorem undone_abort : Undone t db (db.abort t st) :=
  ⟨rfl, frame_abort, pending_abort_self, saved_abort_self⟩

theorem undone_fail (h : db.saved t = none) : Undone t db (db.fail t) := by
  rw [fail]
  split
  · rename_i sp hsp
    cases h.symm.trans hsp
  · exact undone_abort

theorem Makes.refl (db : Database T K V) : Makes t W db db := .stay (.refl t db)

theorem Effect.refl (db : Database T K V) : Effect t W db db := .makes (.refl db)

theorem Makes.mono (h : Makes t W db db') (hW : ∀ db k v, W db k v → W' db k v) :
    Makes t W' db db' := by
  induction h with
  | stay h => exact .stay h
  | put h hv => exact .put h (hW _ _ _ hv)
  | trans _ _ ih ih' => exact .trans ih ih'

theorem Makes.committed (h : Makes t W db db') : db'.committed = db.committed := by
  induction h with
  | stay h => exact h.committed
  | put h hv => rfl
  | trans _ _ ih ih' => exact ih'.trans ih

theorem Makes.frame (h : Makes t W db db') (ht : t' ≠ t) : Frame t' db db' := by
  induction h with
  | stay h => exact h.frame ht
  | put h hv => exact frame_put ht
  | trans _ _ ih ih' => exact ih.trans ih'

theorem Makes.saved (h : Makes t W db db') : db'.saved t = db.saved t := by
  induction h with
  | stay h => exact h.saved
  | put h hv => rfl
  | trans _ _ ih ih' => exact ih'.trans ih

/-- A session keeps its locks while it makes writes. -/
theorem Makes.owner (h : Makes t W db db') (hk : db.owner k' = some t) : db'.owner k' = some t := by
  induction h with
  | stay h => exact h.owner _ hk
  | put h hv => exact owner_update_self hk
  | trans _ _ ih ih' => exact ih' (ih hk)

/-- A row that is not written is pending as it was. -/
theorem Makes.pending_of_not (h : Makes t W db db') (hk : ∀ db v, ¬W db k' v) :
    db'.pending t k' = db.pending t k' := by
  induction h with
  | stay h => rw [h.pending]
  | @put db k v fu h hv =>
    have hne : k' ≠ k := by
      rintro rfl
      exact hk _ _ hv
    rw [pending_put, Function.update_self, Function.update_of_ne hne]
  | trans _ _ ih ih' => exact ih'.trans ih

/-- The other sessions find their transactions as they were. -/
theorem Effect.frame (h : Effect t W db db') (ht : t' ≠ t) : Frame t' db db' := by
  rcases h with h | h | ⟨st, rfl⟩
  · exact h.frame ht
  · exact h.frame ht
  · exact frame_commitTx ht

theorem Effect.unsaved (h : Effect t W db db') (hu : db.Unsaved) : db'.Unsaved := by
  intro t'
  by_cases ht : t' = t
  · subst ht
    rcases h with h | h | ⟨st, rfl⟩
    · exact h.saved.trans (hu t')
    · exact h.saved
    · exact saved_commitTx_self
  · exact (h.frame ht).saved.trans (hu t')

section

variable {G : (k : K) → Option (V k) → Prop}

/-- A property of the rows is kept by what adds no version. -/
theorem all_of_pending (hG : db.All G) (hu : db'.Unsaved) (hcom : db'.committed = db.committed)
    (hpending : ∀ t k w, db'.pending t k = some w → db.pending t k = some w) : db'.All G := by
  rintro k w (hw | hw | ⟨hw, -⟩)
  · exact hG k _ (.committed (hcom ▸ hw))
  · exact hG k _ (.pending (hpending _ k _ hw))
  · cases (hu _).symm.trans hw

/-- A property of the rows is kept by writes of rows that have it. -/
theorem Makes.all (h : Makes t W db db') (hu : db.Unsaved) (hG : db.All G)
    (hW : ∀ db k v, W db k v → G k v) : db'.All G := by
  induction h with
  | @stay db db' h =>
    refine all_of_pending hG ((Effect.makes (W := W) (.stay h)).unsaved hu) h.committed
      fun t' k w hw => ?_
    by_cases ht : t' = t
    · subst ht
      rwa [h.pending] at hw
    · rwa [(h.frame ht).pending] at hw
  | put h hv => exact hG.put (hW _ _ _ hv)
  | trans h _ ih ih' => exact ih' ((Effect.makes h).unsaved hu) (ih hu hG)

/-- A property of the rows is kept by all that a session does, if what it writes has it. -/
theorem Effect.all (h : Effect t W db db') (hu : db.Unsaved) (hG : db.All G)
    (hW : ∀ db k v, W db k v → G k v) : db'.All G := by
  rcases h with h | h | ⟨st, rfl⟩
  · exact h.all hu hG hW
  · refine all_of_pending hG ((Effect.undone (W := W) h).unsaved hu) h.committed fun t' k w hw => ?_
    by_cases ht : t' = t
    · subst ht
      rw [h.pending] at hw
      cases hw
    · rwa [(h.frame ht).pending] at hw
  · exact hG.commitTx

end

section

variable {ε α : Type} {fault : Fault} {e : ε} {r : Except ε α} {r' : Except ε Unit}

/-- A statement fails, and its transaction is undone, or it does what it is executed for. -/
theorem statement_makes {stmt : Option (Except ε (α × Database T K V))}
    (h : db.statement t fault e stmt = some (r, db')) (hu : db.Unsaved) :
    (∃ e', r = .error e' ∧ (db' = db ∨ Undone t db db')) ∨
      ∃ a, r = .ok a ∧ stmt = some (.ok (a, db')) := by
  rcases statement_cases h with ⟨e', rfl, ⟨-, rfl⟩ | ⟨-, -, rfl | rfl⟩⟩ | ⟨a, rfl, -, -, ha⟩
  · exact .inl ⟨e', rfl, .inl rfl⟩
  · exact .inl ⟨e', rfl, .inr (undone_fail (hu t))⟩
  · exact .inl ⟨e', rfl, .inr undone_abort⟩
  · exact .inr ⟨a, rfl, ha⟩

theorem commit_effect (h : db.commit t fault e = (r', db')) : Effect t W db db' := by
  rcases commit_cases h with ⟨rfl, ⟨rfl, -⟩ | ⟨rfl, -⟩ | ⟨rfl, -⟩⟩ | ⟨-, rfl, -⟩
  · exact .refl _
  · exact .undone undone_abort
  · exact .committed _ rfl
  · exact .committed _ rfl

theorem rollback_effect (h : db.rollback t fault e = (r', db')) : Effect t W db db' := by
  rcases rollback_cases h with ⟨-, rfl⟩ | ⟨-, -, rfl⟩ <;> exact .undone undone_abort

theorem close_effect (h : db.close t fault e = (r', db')) : Effect t W db db' := by
  obtain ⟨rfl, -⟩ := close_cases h
  exact .undone undone_abort

theorem insertNew_makes {v : V k} {b : Bool} (h : db.insertNew t k v = some (b, db'))
    (hW : db.view t k = none → W db k (some v)) : Makes t W db db' := by
  rcases insertNew_cases h with ⟨-, rfl, -⟩ | ⟨-, hnone, hl, rfl⟩
  · exact .refl _
  · exact .put hl (hW hnone)

theorem updateRow_makes {where_ : V k → Bool} {f : V k → V k} {b : Bool}
    (h : db.updateRow t k where_ f = some (b, db'))
    (hW : ∀ v, db.view t k = some v → where_ v = true → W db k (some (f v))) :
    Makes t W db db' := by
  rcases updateRow_cases h with ⟨-, rfl, -⟩ | ⟨-, v, hv, hw, hl, rfl⟩
  · exact .refl _
  · exact .put hl (hW v hv hw)

theorem deleteRow_makes {where_ : V k → Bool} {b : Bool}
    (h : db.deleteRow t k where_ = some (b, db')) (hW : W db k none) : Makes t W db db' := by
  rcases deleteRow_cases h with ⟨-, rfl, -⟩ | ⟨-, v, -, -, hl, rfl⟩
  · exact .refl _
  · exact .put hl hW

theorem selectForUpdate_makes {v : Option (V k)} (h : db.selectForUpdate t k = some (v, db')) :
    Makes t W db db' := by
  rcases selectForUpdate_cases h with ⟨-, rfl, -⟩ | ⟨w, -, -, hl, rfl⟩
  · exact .refl _
  · exact .stay stays_lockRow

end

/-! ### Orders -/

/-- An order of the versions of each row. -/
structure Order (V : K → Type) where
  le : (k : K) → Option (V k) → Option (V k) → Prop
  refl : ∀ k v, le k v v
  trans : ∀ {k v v' v''}, le k v v' → le k v' v'' → le k v v''

variable (ord : Order V)

/-- What is committed has become later. -/
def Rises (db db' : Database T K V) : Prop := ∀ k, ord.le k (db.committed k) (db'.committed k)

/-- What is pending is later than what is committed. -/
def Ascending (db : Database T K V) : Prop :=
  ∀ t k w, db.pending t k = some w → ord.le k (db.committed k) w

variable {ord}

theorem Rises.refl (db : Database T K V) : Rises ord db db := fun k => ord.refl k _

theorem Rises.trans (h : Rises ord db db') (h' : Rises ord db' db'') : Rises ord db db'' :=
  fun k => ord.trans (h k) (h' k)

theorem Rises.of_eq (h : db'.committed = db.committed) : Rises ord db db' := fun k => by
  rw [h]
  exact ord.refl k _

/-- What a session sees after others have used the database is later than before. -/
theorem Rises.view (h : Rises ord db db') (hf : Frame t db db') (k : K) :
    ord.le k (db.view t k) (db'.view t k) := by
  rw [Database.view, Database.view, hf.pending]
  rcases db.pending t k with _ | w
  · exact h k
  · exact ord.refl k _

theorem ascending_ofRows (rows : (k : K) → Option (V k)) :
    Ascending ord (.ofRows rows : Database T K V) := by
  rintro t k w hw
  cases hw

/-- A session sees something later than what is committed. -/
theorem Ascending.le_view (h : Ascending ord db) (t : T) (k : K) :
    ord.le k (db.committed k) (db.view t k) := by
  rcases hp : db.pending t k with _ | w
  · rw [view, hp]
    exact ord.refl k _
  · rw [view, hp]
    exact h t k w hp

/-- What is pending stays later than what is committed, when a session writes nothing. -/
theorem Stays.ascending (h : Stays t db db') (ha : Ascending ord db) : Ascending ord db' := by
  intro t' k w hw
  rw [h.committed]
  by_cases ht : t' = t
  · subst ht
    exact ha t' k w (h.pending ▸ hw)
  · exact ha t' k w ((h.frame ht).pending ▸ hw)

theorem Undone.ascending (h : Undone t db db') (ha : Ascending ord db) : Ascending ord db' := by
  intro t' k w hw
  rw [h.committed]
  by_cases ht : t' = t
  · subst ht
    rw [h.pending] at hw
    cases hw
  · exact ha t' k w ((h.frame ht).pending ▸ hw)

/-- A transaction is committed. The rows that others have written are as they were. -/
theorem Ascending.commitTx (ha : Ascending ord db) : Ascending ord (db.commitTx t st) := by
  intro t' k w hw
  by_cases ht : t' = t
  · subst ht
    rw [pending_commitTx_self] at hw
    cases hw
  · have hframe : Frame t' db (db.commitTx t st) := frame_commitTx ht
    have hpending : db.pending t' k = some w := hframe.pending ▸ hw
    have howner : db.owner k ≠ some t := by
      rw [db.owner_of_pending t' k (Option.isSome_iff_exists.2 ⟨w, hpending⟩)]
      simpa using ht
    rw [committed_commitTx, view_eq_committed howner]
    exact ha t' k w hpending

section

variable (hW : ∀ db k v, W db k v → ord.le k (db.view t k) v)
include hW

/-- Writes of something later than what the session sees keep what is pending later. -/
theorem Makes.ascending (h : Makes t W db db') (ha : Ascending ord db) : Ascending ord db' := by
  induction h with
  | stay h => exact h.ascending ha
  | @put db k v fu h hv =>
    intro t' k' w hw
    show ord.le k' (db.committed k') w
    rw [pending_put] at hw
    by_cases ht : t' = t
    · subst ht
      rw [Function.update_self] at hw
      by_cases hk : k' = k
      · subst hk
        rw [Function.update_self] at hw
        cases hw
        exact ord.trans (ha.le_view t' k') (hW _ _ _ hv)
      · rw [Function.update_of_ne hk] at hw
        exact ha t' k' w hw
    · rw [Function.update_of_ne ht] at hw
      exact ha t' k' w hw
  | trans _ _ ih ih' => exact ih' (ih ha)

/-- A session sees something later after its own writes. -/
theorem Makes.rises_view (h : Makes t W db db') (k : K) :
    ord.le k (db.view t k) (db'.view t k) := by
  induction h with
  | @stay db db' h =>
    rw [view, view, h.pending, h.committed]
    exact ord.refl k _
  | @put db k' v fu h hv =>
    by_cases hk : k = k'
    · subst hk
      rw [view_put_self]
      exact hW _ _ _ hv
    · rw [view_put_of_ne hk]
      exact ord.refl k _
  | trans _ _ ih ih' => exact ord.trans ih ih'

theorem Effect.ascending (h : Effect t W db db') (ha : Ascending ord db) : Ascending ord db' := by
  rcases h with h | h | ⟨st, rfl⟩
  · exact h.ascending hW ha
  · exact h.ascending ha
  · exact ha.commitTx

end

/-- What is committed has become later. -/
theorem Effect.rises (h : Effect t W db db') (ha : Ascending ord db) : Rises ord db db' := by
  rcases h with h | h | ⟨st, rfl⟩
  · exact .of_eq h.committed
  · exact .of_eq h.committed
  · exact fun k => ha.le_view t k

end Database

end AslanCore
