import AslanCore.Store.Database

/-!
# What others leave alone, and what may be read

* `Database.Frame`: what a session finds unchanged after the requests of others.
  Its own transaction is as it was, and so are the rows it has locked.
* `Database.All`: a property of every row that is committed, or may still be. It is
  kept by every request as soon as the rows written have it, so what a session
  reads has it too.
* `Database.Does`: what a request may do, given the rows it locks and writes. It is a
  frame for the other sessions (`Does.frame`), and keeps the properties of rows
  (`Does.all`).

What each request does exactly is given by the cases of its outcome
(`statement_cases`, `insertNew_cases`, …).
-/

set_option linter.unusedSectionVars false

namespace AslanCore

namespace Database

variable {T K : Type} {V : K → Type} [DecidableEq T] [DecidableEq K] {db db' db'' : Database T K V}
  {t t' : T} {k k' : K}

/-! ### The transaction of a session -/

section Own

variable {st : Status} {fu : Bool} {v : Option (V k)}

@[simp] theorem committed_put {h : db.CanLock t k fu} :
    (db.put t k v fu h).committed = db.committed := rfl

@[simp] theorem status_put {h : db.CanLock t k fu} : (db.put t k v fu h).status = db.status := rfl

@[simp] theorem saved_put {h : db.CanLock t k fu} : (db.put t k v fu h).saved = db.saved := rfl

@[simp] theorem owner_put {h : db.CanLock t k fu} :
    (db.put t k v fu h).owner = Function.update db.owner k (some t) := rfl

@[simp] theorem pending_put {h : db.CanLock t k fu} : (db.put t k v fu h).pending =
    Function.update db.pending t (Function.update (db.pending t) k (some v)) := rfl

@[simp] theorem view_put_self {h : db.CanLock t k fu} : (db.put t k v fu h).view t k = v := by
  simp [view]

theorem view_put_of_ne {h : db.CanLock t k fu} (hk : k' ≠ k) :
    (db.put t k v fu h).view t k' = db.view t k' := by
  simp [view, hk]

@[simp] theorem committed_lockRow {h : db.CanLock t k fu} :
    (db.lockRow t k fu h).committed = db.committed := rfl

@[simp] theorem pending_lockRow {h : db.CanLock t k fu} :
    (db.lockRow t k fu h).pending = db.pending := rfl

@[simp] theorem status_lockRow {h : db.CanLock t k fu} :
    (db.lockRow t k fu h).status = db.status := rfl

@[simp] theorem saved_lockRow {h : db.CanLock t k fu} :
    (db.lockRow t k fu h).saved = db.saved := rfl

@[simp] theorem owner_lockRow {h : db.CanLock t k fu} :
    (db.lockRow t k fu h).owner = Function.update db.owner k (some t) := rfl

@[simp] theorem committed_abort : (db.abort t st).committed = db.committed := rfl

@[simp] theorem pending_abort_self : (db.abort t st).pending t = fun _ => none := by
  simp [abort, finish]

@[simp] theorem owner_abort_self : (db.abort t st).owner k ≠ some t := by
  simp only [abort, finish]
  split_ifs with h
  · simp
  · exact h

@[simp] theorem saved_abort_self : (db.abort t st).saved t = none := by
  simp [abort, finish]

@[simp] theorem status_abort_self : (db.abort t st).status t = st := by
  simp [abort, finish]

@[simp] theorem refs_abort_self : t ∉ (db.abort t st).refs k := by
  simp [abort, finish]

@[simp] theorem committed_commitTx : (db.commitTx t st).committed = db.view t := rfl

@[simp] theorem pending_commitTx_self : (db.commitTx t st).pending t = fun _ => none := by
  simp [commitTx, finish]

@[simp] theorem owner_commitTx_self : (db.commitTx t st).owner k ≠ some t := by
  simp only [commitTx, finish]
  split_ifs with h
  · simp
  · exact h

@[simp] theorem saved_commitTx_self : (db.commitTx t st).saved t = none := by
  simp [commitTx, finish]

@[simp] theorem status_commitTx_self : (db.commitTx t st).status t = st := by
  simp [commitTx, finish]

@[simp] theorem refs_commitTx_self : t ∉ (db.commitTx t st).refs k := by
  simp [commitTx, finish]

@[simp] theorem committed_fail : (db.fail t).committed = db.committed := by
  rw [fail]
  split <;> rfl

@[simp] theorem status_fail_self : (db.fail t).status t = .failed := by
  rw [fail]
  split
  · simp [undoTo]
  · exact status_abort_self

/-- A row that the transaction has not written is committed as it was. -/
theorem view_eq_committed (h : db.owner k ≠ some t) : db.view t k = db.committed k := by
  cases hp : db.pending t k with
  | none => rw [view, hp, Option.getD_none]
  | some v => exact absurd (db.owner_of_pending t k (by simp [hp])) h

end Own

/-! ### Frames -/

/-- What the session `t` finds unchanged when only others have used the database. -/
structure Frame (t : T) (db db' : Database T K V) : Prop where
  pending : db'.pending t = db.pending t
  saved : db'.saved t = db.saved t
  status : db'.status t = db.status t
  owner : ∀ k, db'.owner k = some t ↔ db.owner k = some t
  forUpdate : ∀ k, db.owner k = some t → db'.forUpdate k = db.forUpdate k
  refs : ∀ k, t ∈ db'.refs k ↔ t ∈ db.refs k
  committed : ∀ k, db.owner k = some t → db'.committed k = db.committed k

namespace Frame

theorem refl (t : T) (db : Database T K V) : Frame t db db :=
  ⟨rfl, rfl, rfl, fun _ => Iff.rfl, fun _ _ => rfl, fun _ => Iff.rfl, fun _ _ => rfl⟩

theorem trans (h : Frame t db db') (h' : Frame t db' db'') : Frame t db db'' where
  pending := h'.pending.trans h.pending
  saved := h'.saved.trans h.saved
  status := h'.status.trans h.status
  owner k := (h'.owner k).trans (h.owner k)
  forUpdate k hk := (h'.forUpdate k ((h.owner k).2 hk)).trans (h.forUpdate k hk)
  refs k := (h'.refs k).trans (h.refs k)
  committed k hk := (h'.committed k ((h.owner k).2 hk)).trans (h.committed k hk)

/-- A row locked by the session looks the same to it. -/
theorem view (h : Frame t db db') (hk : db.owner k = some t) : db'.view t k = db.view t k := by
  rw [Database.view, Database.view, h.pending, h.committed k hk]

end Frame

theorem frame_lockRow {fu : Bool} {h : db.CanLock t k fu} (ht : t' ≠ t) :
    Frame t' db (db.lockRow t k fu h) := by
  have howner : db.owner k ≠ some t' := fun ho => ht (h.1 t' ho)
  refine ⟨rfl, rfl, rfl, fun k' => ?_, fun k' hk' => ?_, fun _ => Iff.rfl, fun _ _ => rfl⟩
  · by_cases hk : k' = k
    · subst hk
      simp [howner, Ne.symm ht]
    · simp [hk]
  · have hk : k' ≠ k := fun hk => howner (hk ▸ hk')
    simp [lockRow, hk]

theorem frame_put {fu : Bool} {v : Option (V k)} {h : db.CanLock t k fu} (ht : t' ≠ t) :
    Frame t' db (db.put t k v fu h) := by
  have hlock : Frame t' db (db.lockRow t k fu h) := frame_lockRow ht
  obtain ⟨_, h₁, h₂, h₃, h₄, h₅, h₆⟩ := hlock
  exact ⟨by simp [ht], h₁, h₂, h₃, h₄, h₅, h₆⟩

theorem frame_addRef (ht : t' ≠ t) : Frame t' db (db.addRef t k) := by
  refine ⟨rfl, rfl, rfl, fun _ => Iff.rfl, fun _ _ => rfl, fun k' => ?_, fun _ _ => rfl⟩
  by_cases hk : k' = k
  · subst hk
    simp [addRef, ht]
  · simp [addRef, hk]

/-- The end of a transaction only changes the rows it has written. -/
theorem frame_finish {st : Status} {rows : (k : K) → Option (V k)} (ht : t' ≠ t)
    (hrows : ∀ k, db.owner k ≠ some t → rows k = db.committed k) :
    Frame t' db (db.finish t rows st) := by
  refine ⟨by simp [finish, ht], by simp [finish, ht], by simp [finish, ht], fun k => ?_,
    fun _ _ => rfl, fun k => by simp [finish, ht], fun k hk => hrows k ?_⟩
  · simp only [finish]
    split_ifs with h
    · simp [h, Ne.symm ht]
    · exact Iff.rfl
  · rw [hk]
    simpa using ht

theorem frame_abort {st : Status} (ht : t' ≠ t) : Frame t' db (db.abort t st) :=
  frame_finish ht fun _ _ => rfl

theorem frame_commitTx {st : Status} (ht : t' ≠ t) : Frame t' db (db.commitTx t st) :=
  frame_finish ht fun _ => view_eq_committed

theorem frame_savepoint (ht : t' ≠ t) : Frame t' db (db.savepoint t) :=
  ⟨rfl, by simp [savepoint, ht], rfl, fun _ => Iff.rfl, fun _ _ => rfl, fun _ => Iff.rfl,
    fun _ _ => rfl⟩

theorem frame_release (ht : t' ≠ t) : Frame t' db (db.release t) :=
  ⟨rfl, by simp [release, ht], rfl, fun _ => Iff.rfl, fun _ _ => rfl, fun _ => Iff.rfl,
    fun _ _ => rfl⟩

theorem frame_undoTo {sp : Savepoint K V} {hsp : db.saved t = some sp} {st : Status}
    (ht : t' ≠ t) : Frame t' db (db.undoTo t sp hsp st) := by
  refine ⟨by simp [undoTo, ht], rfl, by simp [undoTo, ht], fun k => ?_, fun _ _ => rfl,
    fun _ => Iff.rfl, fun _ _ => rfl⟩
  simp only [undoTo]
  split_ifs with h
  · simp [h.1, Ne.symm ht]
  · exact Iff.rfl

theorem frame_fail (ht : t' ≠ t) : Frame t' db (db.fail t) := by
  rw [fail]
  split
  · exact frame_undoTo ht
  · exact frame_abort ht

/-! ### Properties of rows -/

/-- The row `w`, or its deletion if it is `none`, is committed, or may still be: it is
    pending, or was at a savepoint. -/
inductive Version (db : Database T K V) (k : K) : Option (V k) → Prop
  | committed {v : V k} (h : db.committed k = some v) : Version db k (some v)
  | pending {t : T} {w : Option (V k)} (h : db.pending t k = some w) : Version db k w
  | saved {t : T} {sp : Savepoint K V} {w : Option (V k)} (h : db.saved t = some sp)
    (h' : sp.pending k = some w) : Version db k w

/-- Every version of every row satisfies `G`. -/
def All (G : (k : K) → Option (V k) → Prop) (db : Database T K V) : Prop :=
  ∀ k w, db.Version k w → G k w

variable {G : (k : K) → Option (V k) → Prop}

/-- What a session reads is a version of the row. -/
theorem version_of_view {v : V k} (h : db.view t k = some v) : db.Version k (some v) := by
  cases hp : db.pending t k with
  | none => exact .committed (by rwa [view, hp, Option.getD_none] at h)
  | some w =>
    have hw : db.pending t k = some (some v) := by rw [hp, ← h, view, hp, Option.getD_some]
    exact .pending hw

/-- A session does not find a row only if it is not there, or is deleted. -/
theorem committed_or_version_of_view (h : db.view t k = none) :
    db.committed k = none ∨ db.Version k none := by
  cases hp : db.pending t k with
  | none => exact .inl (by rwa [view, hp, Option.getD_none] at h)
  | some w =>
    have hw : db.pending t k = some none := by rw [hp, ← h, view, hp, Option.getD_some]
    exact .inr (.pending hw)

theorem All.mono {G' : (k : K) → Option (V k) → Prop} (h : db.All G)
    (hG : ∀ k w, G k w → G' k w) : db.All G' :=
  fun k w hw => hG k w (h k w hw)

/-- Where rows are not deleted, a session finds those that are committed. -/
theorem All.isSome_view (h : db.All G) (hG : ¬G k none) (hk : (db.committed k).isSome) (t : T) :
    (db.view t k).isSome := by
  cases hv : db.view t k with
  | some v => rfl
  | none =>
    rcases committed_or_version_of_view hv with hc | hd
    · simp [hc] at hk
    · exact absurd (h k none hd) hG

theorem All.lockRow {fu : Bool} {hl : db.CanLock t k fu} (h : db.All G) :
    (db.lockRow t k fu hl).All G := by
  intro k' w hw
  cases hw with
  | committed hw => exact h _ _ (.committed hw)
  | pending hw => exact h _ _ (.pending hw)
  | saved hw hw' => exact h _ _ (.saved hw hw')

/-- The rows keep their property when what is written has it. -/
theorem All.put {fu : Bool} {v : Option (V k)} {hl : db.CanLock t k fu} (h : db.All G)
    (hG : G k v) : (db.put t k v fu hl).All G := by
  intro k' w hw
  cases hw with
  | committed hw => exact h _ _ (.committed hw)
  | @pending t' _ hw =>
    rw [pending_put] at hw
    by_cases ht : t' = t
    · subst ht
      rw [Function.update_self] at hw
      by_cases hk : k' = k
      · subst hk
        rw [Function.update_self] at hw
        exact Option.some.inj hw ▸ hG
      · rw [Function.update_of_ne hk] at hw
        exact h _ _ (.pending hw)
    · rw [Function.update_of_ne ht] at hw
      exact h _ _ (.pending hw)
  | saved hw hw' => exact h _ _ (.saved hw hw')

theorem All.addRef (h : db.All G) : (db.addRef t k).All G := by
  intro k' w hw
  cases hw with
  | committed hw => exact h _ _ (.committed hw)
  | pending hw => exact h _ _ (.pending hw)
  | saved hw hw' => exact h _ _ (.saved hw hw')

theorem All.finish {st : Status} {rows : (k : K) → Option (V k)} (h : db.All G)
    (hrows : ∀ k v, rows k = some v → G k (some v)) : (db.finish t rows st).All G := by
  intro k w hw
  cases hw with
  | committed hw => exact hrows k _ hw
  | @pending t' _ hw =>
    by_cases ht : t' = t
    · simp [ht, Database.finish] at hw
    · simp only [Database.finish, Function.update_of_ne ht] at hw
      exact h _ _ (.pending hw)
  | @saved t' sp _ hw hw' =>
    by_cases ht : t' = t
    · simp [ht, Database.finish] at hw
    · simp only [Database.finish, Function.update_of_ne ht] at hw
      exact h _ _ (.saved hw hw')

theorem All.abort {st : Status} (h : db.All G) : (db.abort t st).All G :=
  h.finish fun k _ hv => h k _ (.committed hv)

theorem All.commitTx {st : Status} (h : db.All G) : (db.commitTx t st).All G :=
  h.finish fun k _ hv => h k _ (version_of_view hv)

theorem All.savepoint (h : db.All G) : (db.savepoint t).All G := by
  intro k w hw
  cases hw with
  | committed hw => exact h _ _ (.committed hw)
  | pending hw => exact h _ _ (.pending hw)
  | @saved t' sp _ hw hw' =>
    by_cases ht : t' = t
    · subst ht
      simp only [Database.savepoint, Function.update_self] at hw
      cases hw
      exact h _ _ (.pending hw')
    · simp only [Database.savepoint, Function.update_of_ne ht] at hw
      exact h _ _ (.saved hw hw')

theorem All.release (h : db.All G) : (db.release t).All G := by
  intro k w hw
  cases hw with
  | committed hw => exact h _ _ (.committed hw)
  | pending hw => exact h _ _ (.pending hw)
  | @saved t' sp _ hw hw' =>
    by_cases ht : t' = t
    · simp [ht, Database.release] at hw
    · simp only [Database.release, Function.update_of_ne ht] at hw
      exact h _ _ (.saved hw hw')

theorem All.undoTo {sp : Savepoint K V} {hsp : db.saved t = some sp} {st : Status}
    (h : db.All G) : (db.undoTo t sp hsp st).All G := by
  intro k w hw
  cases hw with
  | committed hw => exact h _ _ (.committed hw)
  | @pending t' _ hw =>
    by_cases ht : t' = t
    · subst ht
      simp only [Database.undoTo, Function.update_self] at hw
      exact h _ _ (.saved hsp hw)
    · simp only [Database.undoTo, Function.update_of_ne ht] at hw
      exact h _ _ (.pending hw)
  | saved hw hw' => exact h _ _ (.saved hw hw')

theorem All.fail (h : db.All G) : (db.fail t).All G := by
  rw [Database.fail]
  split
  · exact h.undoTo
  · exact h.abort

/-! ### What a request may do -/

/-- What the requests of the session `t` may do to the database, when it only locks
    the rows of `L`, only refers to those of `F`, and only writes those of `W`. -/
inductive Does (t : T) (L F : K → Prop) (W : (k : K) → Option (V k) → Prop) :
    Database T K V → Database T K V → Prop
  | refl (db : Database T K V) : Does t L F W db db
  | trans {db db' db'' : Database T K V} : Does t L F W db db' → Does t L F W db' db'' →
    Does t L F W db db''
  | lockRow (db : Database T K V) (k : K) (fu : Bool) (h : db.CanLock t k fu) : L k →
    Does t L F W db (db.lockRow t k fu h)
  | put (db : Database T K V) (k : K) (v : Option (V k)) (fu : Bool) (h : db.CanLock t k fu) :
    L k → W k v → Does t L F W db (db.put t k v fu h)
  | addRef (db : Database T K V) (k : K) : F k → Does t L F W db (db.addRef t k)
  | abort (db : Database T K V) (st : Status) : Does t L F W db (db.abort t st)
  | commitTx (db : Database T K V) (st : Status) : Does t L F W db (db.commitTx t st)
  | savepoint (db : Database T K V) : Does t L F W db (db.savepoint t)
  | release (db : Database T K V) : Does t L F W db (db.release t)
  | undoTo (db : Database T K V) (sp : Savepoint K V) (h : db.saved t = some sp) (st : Status) :
    Does t L F W db (db.undoTo t sp h st)

namespace Does

variable {L L' F F' : K → Prop} {W W' : (k : K) → Option (V k) → Prop}

theorem mono (h : Does t L F W db db') (hL : ∀ k, L k → L' k) (hF : ∀ k, F k → F' k)
    (hW : ∀ k w, W k w → W' k w) : Does t L' F' W' db db' := by
  induction h with
  | refl => exact .refl _
  | trans _ _ ih ih' => exact ih.trans ih'
  | lockRow db k fu h hk => exact .lockRow db k fu h (hL k hk)
  | put db k v fu h hk hv => exact .put db k v fu h (hL k hk) (hW k v hv)
  | addRef db k hk => exact .addRef db k (hF k hk)
  | abort => exact .abort _ _
  | commitTx => exact .commitTx _ _
  | savepoint => exact .savepoint _
  | release => exact .release _
  | undoTo => exact .undoTo _ _ _ _

theorem fail : Does t L F W db (db.fail t) := by
  rw [Database.fail]
  split
  · exact .undoTo _ _ _ _
  · exact .abort _ _

/-- The other sessions find everything of theirs unchanged. -/
theorem frame (h : Does t L F W db db') (ht : t' ≠ t) : Frame t' db db' := by
  induction h with
  | refl => exact .refl _ _
  | trans _ _ ih ih' => exact ih.trans ih'
  | lockRow => exact frame_lockRow ht
  | put => exact frame_put ht
  | addRef => exact frame_addRef ht
  | abort => exact frame_abort ht
  | commitTx => exact frame_commitTx ht
  | savepoint => exact frame_savepoint ht
  | release => exact frame_release ht
  | undoTo => exact frame_undoTo ht

/-- The rows keep a property that the rows written have. -/
theorem all (h : Does t L F W db db') (hG : db.All G) (hW : ∀ k w, W k w → G k w) :
    db'.All G := by
  induction h with
  | refl => exact hG
  | trans _ _ ih ih' => exact ih' (ih hG)
  | lockRow => exact hG.lockRow
  | put db k v fu h hk hv => exact hG.put (hW k v hv)
  | addRef => exact hG.addRef
  | abort => exact hG.abort
  | commitTx => exact hG.commitTx
  | savepoint => exact hG.savepoint
  | release => exact hG.release
  | undoTo => exact hG.undoTo

/-- Where no row is deleted, the committed ones stay. -/
theorem isSome_committed (h : Does t L F W db db') (hG : db.All G) (hW : ∀ k w, W k w → G k w)
    (hnone : ¬G k none) (hk : (db.committed k).isSome) : (db'.committed k).isSome := by
  induction h with
  | refl => exact hk
  | trans h₁ _ ih ih' => exact ih' (h₁.all hG hW) (ih hG hk)
  | commitTx db st => exact hG.isSome_view hnone hk t
  | lockRow | put | addRef | abort | savepoint | release | undoTo => exact hk

/-- A row is locked by whom it was, or by the session. -/
theorem owner_or (h : Does t L F W db db') (hk : db'.owner k = some t') :
    db.owner k = some t' ∨ t' = t ∧ L k := by
  induction h with
  | refl => exact .inl hk
  | trans _ _ ih ih' =>
    rcases ih' hk with h | h
    · exact ih h
    · exact .inr h
  | lockRow db k' fu h hL =>
    rw [owner_lockRow] at hk
    by_cases hkk : k = k'
    · subst hkk
      rw [Function.update_self] at hk
      exact .inr ⟨(Option.some.inj hk).symm, hL⟩
    · rw [Function.update_of_ne hkk] at hk
      exact .inl hk
  | put db k' v fu h hL =>
    rw [owner_put] at hk
    by_cases hkk : k = k'
    · subst hkk
      rw [Function.update_self] at hk
      exact .inr ⟨(Option.some.inj hk).symm, hL⟩
    · rw [Function.update_of_ne hkk] at hk
      exact .inl hk
  | addRef | savepoint | release => exact .inl hk
  | abort | commitTx | undoTo =>
    refine .inl ?_
    simp only [Database.abort, Database.commitTx, finish, Database.undoTo] at hk
    split_ifs at hk
    exact hk

/-- Only the locks of the session are released. -/
theorem owner_of_none (h : Does t L F W db db') (hk : db'.owner k = none) :
    db.owner k = none ∨ db.owner k = some t := by
  cases ho : db.owner k with
  | none => exact .inl rfl
  | some t₁ =>
    by_cases ht : t₁ = t
    · exact .inr (ht ▸ rfl)
    · have := ((h.frame ht).owner k).2 ho
      simp [hk] at this

/-- A row is only referred to by whom it was, or by the session. -/
theorem refs_or (h : Does t L F W db db') (hk : t' ∈ db'.refs k) :
    t' ∈ db.refs k ∨ t' = t ∧ F k := by
  induction h with
  | refl => exact .inl hk
  | trans _ _ ih ih' =>
    rcases ih' hk with h | h
    · exact ih h
    · exact .inr h
  | addRef db k' hF =>
    simp only [Database.addRef] at hk
    by_cases hkk : k = k'
    · subst hkk
      rw [Function.update_self] at hk
      exact (List.mem_cons.1 hk).symm.imp_right fun ht => ⟨ht, hF⟩
    · rw [Function.update_of_ne hkk] at hk
      exact .inl hk
  | abort | commitTx => exact .inl (List.mem_filter.1 hk).1
  | lockRow | put | savepoint | release | undoTo => exact .inl hk

end Does

/-! ### Statements -/

section Statements

variable {ε α : Type} {fault : Fault} {e : ε} {r : Except ε α} {r' : Except ε Unit}

/-- A statement is refused, or fails and its transaction with it, or is executed. -/
theorem statement_cases {stmt : Option (Except ε (α × Database T K V))}
    (h : db.statement t fault e stmt = some (r, db')) :
    (∃ e', r = .error e' ∧ (db.status t ≠ .ready ∧ db' = db ∨
      db.status t = .ready ∧ (fault = .none → stmt = some (.error e')) ∧
        (db' = db.fail t ∨ db' = db.abort t .gone))) ∨
    ∃ a, r = .ok a ∧ fault = .none ∧ db.status t = .ready ∧ stmt = some (.ok (a, db')) := by
  unfold statement at h
  split_ifs at h with hst
  · cases fault with
    | none =>
      obtain ⟨x, hx, hr⟩ := Option.map_eq_some_iff.1 h
      cases x with
      | ok x =>
        obtain ⟨a, d⟩ := x
        cases hr
        exact .inr ⟨a, rfl, rfl, hst, hx⟩
      | error e' =>
        cases hr
        exact .inl ⟨e', rfl, .inr ⟨hst, fun _ => hx, .inl rfl⟩⟩
    | refused =>
      cases h
      exact .inl ⟨e, rfl, .inr ⟨hst, fun h => absurd h (by decide), .inl rfl⟩⟩
    | lost =>
      cases h
      exact .inl ⟨e, rfl, .inr ⟨hst, fun h => absurd h (by decide), .inr rfl⟩⟩
  · cases h
    exact .inl ⟨e, rfl, .inl ⟨hst, rfl⟩⟩

theorem commit_cases (h : db.commit t fault e = (r', db')) :
    (r' = .error e ∧ (db' = db ∧ db.status t ≠ .ready ∨
      db' = db.abort t .gone ∧ fault = .refused ∨ db' = db.commitTx t .gone ∧ fault = .lost)) ∨
    r' = .ok () ∧ db' = db.commitTx t .ready ∧ fault = .none ∧ db.status t = .ready := by
  unfold commit at h
  split_ifs at h with hst
  · cases fault <;> cases h
    · exact .inr ⟨rfl, rfl, rfl, hst⟩
    · exact .inl ⟨rfl, .inr (.inl ⟨rfl, rfl⟩)⟩
    · exact .inl ⟨rfl, .inr (.inr ⟨rfl, rfl⟩)⟩
  · cases h
    exact .inl ⟨rfl, .inl ⟨rfl, hst⟩⟩

theorem rollback_cases (h : db.rollback t fault e = (r', db')) :
    (r' = .ok () ∧ db' = db.abort t .ready) ∨ r' = .error e ∧ fault ≠ .none ∧
      db' = db.abort t .gone := by
  cases fault <;> cases h
  · exact .inl ⟨rfl, rfl⟩
  · exact .inr ⟨rfl, by decide, rfl⟩
  · exact .inr ⟨rfl, by decide, rfl⟩

theorem close_cases (h : db.close t fault e = (r', db')) :
    db' = db.abort t .ready ∧ (r' = .ok () ∨ r' = .error e ∧ fault ≠ .none) := by
  cases fault <;> cases h
  · exact ⟨rfl, .inl rfl⟩
  · exact ⟨rfl, .inr ⟨rfl, by decide⟩⟩
  · exact ⟨rfl, .inr ⟨rfl, by decide⟩⟩

theorem rollbackTo_cases (h : db.rollbackTo t fault e = (r', db')) :
    (r' = .error e ∧ fault ≠ .none ∧ db' = db.abort t .gone) ∨
    r' = .ok () ∧ ((db.saved t = none ∧ db' = db) ∨
      ∃ sp, ∃ hsp : db.saved t = some sp, db' = (db.undoTo t sp hsp .ready).release t) := by
  unfold rollbackTo at h
  split at h
  · cases h
    exact .inr ⟨rfl, .inr ⟨_, _, rfl⟩⟩
  · cases h
    exact .inr ⟨rfl, .inl ⟨by assumption, rfl⟩⟩
  · rename_i hn₁ hn₂
    cases h
    refine .inl ⟨rfl, ?_, rfl⟩
    rintro rfl
    cases hsp : db.saved t with
    | none => exact hn₂ hsp rfl
    | some sp => exact hn₁ sp hsp rfl

theorem insertNew_cases {v : V k} {b : Bool} (h : db.insertNew t k v = some (b, db')) :
    (b = false ∧ db' = db ∧ (db.view t k).isSome) ∨
    b = true ∧ db.view t k = none ∧ ∃ hl, db' = db.put t k (some v) false hl := by
  rw [insertNew] at h
  split_ifs at h with _ hv hl
  · cases h
    exact .inl ⟨rfl, rfl, hv⟩
  · cases h
    exact .inr ⟨rfl, by simpa using hv, hl, rfl⟩

theorem updateRow_cases {where_ : V k → Bool} {f : V k → V k} {b : Bool}
    (h : db.updateRow t k where_ f = some (b, db')) :
    (b = false ∧ db' = db ∧ ∀ v, db.view t k = some v → where_ v = false) ∨
    b = true ∧ ∃ v, db.view t k = some v ∧ where_ v = true ∧
      ∃ hl, db' = db.put t k (some (f v)) false hl := by
  rw [updateRow] at h
  split at h
  · cases h
    exact .inl ⟨rfl, rfl, by simp_all⟩
  · rename_i v hv
    split_ifs at h with hw hl
    · cases h
      exact .inr ⟨rfl, v, hv, hw, hl, rfl⟩
    · cases h
      exact .inl ⟨rfl, rfl, fun w hw' => by simp_all⟩

theorem deleteRow_cases {where_ : V k → Bool} {b : Bool}
    (h : db.deleteRow t k where_ = some (b, db')) :
    (b = false ∧ db' = db ∧ ∀ v, db.view t k = some v → where_ v = false) ∨
    b = true ∧ ∃ v, db.view t k = some v ∧ where_ v = true ∧
      ∃ hl, db' = db.put t k none true hl := by
  rw [deleteRow] at h
  split at h
  · cases h
    exact .inl ⟨rfl, rfl, by simp_all⟩
  · rename_i v hv
    split_ifs at h with hw hl
    · cases h
      exact .inr ⟨rfl, v, hv, hw, hl, rfl⟩
    · cases h
      exact .inl ⟨rfl, rfl, fun w hw' => by simp_all⟩

theorem selectForUpdate_cases {v : Option (V k)}
    (h : db.selectForUpdate t k = some (v, db')) :
    (v = none ∧ db' = db ∧ db.view t k = none) ∨
    ∃ w, v = some w ∧ db.view t k = some w ∧ ∃ hl, db' = db.lockRow t k true hl := by
  rw [selectForUpdate] at h
  split at h
  · cases h
    exact .inl ⟨rfl, rfl, by assumption⟩
  · rename_i w hw
    split_ifs at h with hl
    cases h
    exact .inr ⟨w, rfl, hw, hl, rfl⟩

/-- A statement does what it is executed for, or ends its transaction. -/
theorem statement_does {L F : K → Prop} {W : (k : K) → Option (V k) → Prop}
    {stmt : Option (Except ε (α × Database T K V))}
    (h : db.statement t fault e stmt = some (r, db'))
    (hs : ∀ a, stmt = some (.ok (a, db')) → Does t L F W db db') : Does t L F W db db' := by
  rcases statement_cases h with ⟨_, _, ⟨_, rfl⟩ | ⟨_, _, rfl | rfl⟩⟩ | ⟨a, _, _, _, ha⟩
  · exact .refl _
  · exact .fail
  · exact .abort _ _
  · exact hs a ha

theorem commit_does {L F : K → Prop} {W : (k : K) → Option (V k) → Prop}
    (h : db.commit t fault e = (r', db')) : Does t L F W db db' := by
  rcases commit_cases h with ⟨_, ⟨rfl, _⟩ | ⟨rfl, _⟩ | ⟨rfl, _⟩⟩ | ⟨_, rfl, _⟩
  · exact .refl _
  · exact .abort _ _
  · exact .commitTx _ _
  · exact .commitTx _ _

theorem rollback_does {L F : K → Prop} {W : (k : K) → Option (V k) → Prop}
    (h : db.rollback t fault e = (r', db')) : Does t L F W db db' := by
  rcases rollback_cases h with ⟨_, rfl⟩ | ⟨_, _, rfl⟩ <;> exact .abort _ _

theorem close_does {L F : K → Prop} {W : (k : K) → Option (V k) → Prop}
    (h : db.close t fault e = (r', db')) : Does t L F W db db' := by
  obtain ⟨rfl, _⟩ := close_cases h
  exact .abort _ _

theorem rollbackTo_does {L F : K → Prop} {W : (k : K) → Option (V k) → Prop}
    (h : db.rollbackTo t fault e = (r', db')) : Does t L F W db db' := by
  rcases rollbackTo_cases h with ⟨_, _, rfl⟩ | ⟨_, ⟨_, rfl⟩ | ⟨sp, hsp, rfl⟩⟩
  · exact .abort _ _
  · exact .refl _
  · exact (Does.undoTo _ sp hsp _).trans (.release _)

theorem insertNew_does {L F : K → Prop} {W : (k : K) → Option (V k) → Prop} {v : V k} {b : Bool}
    (h : db.insertNew t k v = some (b, db')) (hL : L k) (hW : W k (some v)) :
    Does t L F W db db' := by
  rcases insertNew_cases h with ⟨_, rfl, _⟩ | ⟨_, _, hl, rfl⟩
  · exact .refl _
  · exact .put _ _ _ _ _ hL hW

theorem updateRow_does {L F : K → Prop} {W : (k : K) → Option (V k) → Prop} {where_ : V k → Bool}
    {f : V k → V k} {b : Bool} (h : db.updateRow t k where_ f = some (b, db')) (hL : L k)
    (hW : ∀ v, db.view t k = some v → where_ v = true → W k (some (f v))) : Does t L F W db db' := by
  rcases updateRow_cases h with ⟨_, rfl, _⟩ | ⟨_, v, hv, hw, hl, rfl⟩
  · exact .refl _
  · exact .put _ _ _ _ _ hL (hW v hv hw)

theorem deleteRow_does {L F : K → Prop} {W : (k : K) → Option (V k) → Prop} {where_ : V k → Bool} {b : Bool}
    (h : db.deleteRow t k where_ = some (b, db')) (hL : L k) (hW : W k none) : Does t L F W db db' := by
  rcases deleteRow_cases h with ⟨_, rfl, _⟩ | ⟨_, v, hv, hw, hl, rfl⟩
  · exact .refl _
  · exact .put _ _ _ _ _ hL hW

theorem selectForUpdate_does {L F : K → Prop} {W : (k : K) → Option (V k) → Prop} {v : Option (V k)}
    (h : db.selectForUpdate t k = some (v, db')) (hL : v.isSome → L k) : Does t L F W db db' := by
  rcases selectForUpdate_cases h with ⟨_, rfl, _⟩ | ⟨w, rfl, _, hl, rfl⟩
  · exact .refl _
  · exact .lockRow _ _ _ _ (hL rfl)

end Statements

end Database

end AslanCore
