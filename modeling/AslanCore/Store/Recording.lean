import AslanCore.Store.Isolation
import AslanCore.Store.Journal

/-!
# What journals record

* `Journal.Effect`: what a command of a session does. It leaves alone what is of the others
  (`Effect.frame`), and the histories lead to the rows (`Effect.sound`).
* `Journal.outline`: if every program, when it ends, has recorded what it has written, then what is
  committed is recorded too (`Journal.recorded_of_reach`).
-/

set_option linter.unusedSectionVars false

namespace AslanCore.Journal

variable {T K : Type} {V : K → Type} {E ε α : Type} [DecidableEq T] [DecidableEq K]
  {s s' s'' : Journal T K V E} {t t' : T} {k : K} {c : Cmd K V E}

/-! ### Effects -/

/-- What a command of a session does to the journal. -/
inductive Effect (t : T) (c : Cmd K V E) (s : Journal T K V E) : Journal T K V E → Prop
  | none (hstatus : s.db.status t ≠ .ready) : Effect t c s s
  | meet (k : K) : Effect t c s (s.meet t k)
  | put (k : K) (row : V k) (h : s.db.CanLock t k false) (n : ℕ) (hstatus : s.db.status t = .ready) :
    Effect t c s { s.put t k row h with next := n }
  | record (e : E) (hstatus : s.db.status t = .ready) : Effect t c s (s.record t e)
  | undo (st : Status) : Effect t c s (s.undo t st)
  | keep (st : Status) (hc : c = .commit) : Effect t c s (s.keep t st)

/-- What a session finds unchanged when only others have used the journal. -/
structure Frame (t : T) (s s' : Journal T K V E) : Prop where
  db : Database.Frame t s.db s'.db
  pendingEvents : s'.pendingEvents t = s.pendingEvents t
  pendingWrites : s'.pendingWrites t = s.pendingWrites t
  seen : s'.seen t = s.seen t

theorem Frame.refl (t : T) (s : Journal T K V E) : Frame t s s := ⟨.refl t s.db, rfl, rfl, rfl⟩

theorem Frame.trans (h : Frame t s s') (h' : Frame t s' s'') : Frame t s s'' where
  db := h.db.trans h'.db
  pendingEvents := h'.pendingEvents.trans h.pendingEvents
  pendingWrites := h'.pendingWrites.trans h.pendingWrites
  seen := h'.seen.trans h.seen

theorem Effect.frame (h : Effect t c s s') (ht : t' ≠ t) : Frame t' s s' := by
  rcases h with _ | k | ⟨k, row, hlock, n, _⟩ | _ | st | ⟨st, _⟩
  · exact .refl t' s
  · exact ⟨.refl t' s.db, rfl, rfl, Function.update_of_ne ht _ _⟩
  · exact ⟨Database.frame_put ht, rfl, Function.update_of_ne ht _ _, Function.update_of_ne ht _ _⟩
  · exact ⟨.refl t' s.db, Function.update_of_ne ht _ _, rfl, rfl⟩
  · exact ⟨Database.frame_abort ht, Function.update_of_ne ht _ _, Function.update_of_ne ht _ _, rfl⟩
  · exact ⟨Database.frame_commitTx ht, Function.update_of_ne ht _ _, Function.update_of_ne ht _ _,
      rfl⟩

/-! ### Histories -/

/-- Nothing of the session is pending. -/
def Clear (t : T) (s : Journal T K V E) : Prop :=
  (∀ k, s.pendingWrites t k = []) ∧ s.pendingEvents t = []

/-- The history of the transaction of a session leads to the rows that it sees. -/
structure SessionSound (t : T) (s : Journal T K V E) : Prop where
  leads : ∀ k, Leads (s.db.committed k) (s.pendingWrites t k) (s.db.view t k)
  owner : ∀ k, s.pendingWrites t k ≠ [] → s.db.owner k = some t
  clear : s.db.status t ≠ .ready → Clear t s

/-- The histories lead to the rows. -/
structure Sound (s : Journal T K V E) : Prop where
  committed : ∀ k, Leads none (s.writes k) (s.db.committed k)
  session : ∀ t, SessionSound t s

theorem sound_empty : Sound (empty : Journal T K V E) :=
  ⟨fun _ => rfl, fun _ => ⟨fun _ => rfl, fun _ h => absurd rfl h, fun h => absurd rfl h⟩⟩

theorem clear_undo (s : Journal T K V E) (t : T) (st : Status) : Clear t (s.undo t st) :=
  ⟨congrFun (Function.update_self t _ s.pendingWrites), Function.update_self t _ s.pendingEvents⟩

theorem clear_keep (s : Journal T K V E) (t : T) (st : Status) : Clear t (s.keep t st) :=
  ⟨congrFun (Function.update_self t _ s.pendingWrites), Function.update_self t _ s.pendingEvents⟩

/-- A session of which nothing is pending sees what is committed. -/
theorem sessionSound_of_clear (h : Clear t s) (howner : ∀ k, s.db.owner k ≠ some t) :
    SessionSound t s where
  leads k := by
    rw [h.1 k]
    exact Database.view_eq_committed (howner k)
  owner k hk := absurd (h.1 k) hk
  clear _ := h

/-- What is said of a session is kept by the others. -/
theorem SessionSound.frame (h : SessionSound t s) (hframe : Frame t s s') : SessionSound t s' where
  leads k := by
    rw [hframe.pendingWrites]
    by_cases howner : s.db.owner k = some t
    · rw [hframe.db.committed k howner, hframe.db.view howner]
      exact h.leads k
    · -- The row has not been written by the session: it sees what is committed.
      have hnil : s.pendingWrites t k = [] := by
        by_contra hne
        exact howner (h.owner k hne)
      rw [hnil]
      exact Database.view_eq_committed fun howner' => howner ((hframe.db.owner k).1 howner')
  owner k hk := (hframe.db.owner k).2 (h.owner k (hframe.pendingWrites ▸ hk))
  clear hstatus := by
    obtain ⟨hwrites, hevents⟩ := h.clear (hframe.db.status ▸ hstatus)
    exact ⟨fun k => hframe.pendingWrites ▸ hwrites k, hframe.pendingEvents.trans hevents⟩

/-- The row that a session writes is led to. -/
theorem SessionSound.put {row : V k} {hlock : s.db.CanLock t k false} {n : ℕ}
    (h : SessionSound t s) (hstatus : s.db.status t = .ready) :
    SessionSound t { s.put t k row hlock with next := n } where
  leads k' := by
    change Leads (s.db.committed k') (Function.update s.pendingWrites t _ t k')
      ((s.db.put t k (some row) false hlock).view t k')
    rw [Function.update_self]
    by_cases hk : k' = k
    · subst hk
      rw [Function.update_self, Database.view_put_self]
      exact (h.leads k').concat row
    · rw [Function.update_of_ne hk, Database.view_put_of_ne hk]
      exact h.leads k'
  owner k' hk' := by
    change Function.update s.db.owner k (some t) k' = some t
    change Function.update s.pendingWrites t _ t k' ≠ [] at hk'
    rw [Function.update_self] at hk'
    by_cases hk : k' = k
    · rw [hk, Function.update_self]
    · rw [Function.update_of_ne hk] at hk' ⊢
      exact h.owner k' hk'
  clear hstatus' := absurd hstatus hstatus'

theorem Effect.session (h : Effect t c s s') (hs : SessionSound t s) : SessionSound t s' := by
  rcases h with _ | k | ⟨k, row, hlock, n, hstatus⟩ | ⟨e, hstatus⟩ | st | ⟨st, _⟩
  · exact hs
  · exact ⟨hs.leads, hs.owner, hs.clear⟩
  · exact hs.put hstatus
  · exact ⟨hs.leads, hs.owner, fun hstatus' => absurd hstatus hstatus'⟩
  · exact sessionSound_of_clear (clear_undo s t st) fun _ => Database.owner_abort_self
  · exact sessionSound_of_clear (clear_keep s t st) fun _ => Database.owner_commitTx_self

theorem Effect.sound (h : Effect t c s s') (hs : Sound s) : Sound s' where
  committed k := by
    rcases h with _ | _ | _ | _ | _ | st
    case keep => exact (hs.committed k).append ((hs.session t).leads k)
    all_goals exact hs.committed k
  session t' := by
    by_cases ht : t' = t
    · subst ht
      exact h.session (hs.session t')
    · exact (hs.session t').frame (h.frame ht)

/-! ### Commands -/

/-- What a statement does: what it does when it is carried out, or else its transaction fails. -/
theorem statement_cases {fault : Fault} {x : ε} {stmt : Option (Except ε (α × Journal T K V E))}
    {r : Except ε α} (h : s.statement t fault x stmt = some (r, s')) :
    (s.db.status t = .ready ∧ ∃ a, r = .ok a ∧ stmt = some (.ok (a, s'))) ∨
      (∃ x', r = .error x') ∧ ((∃ st, s' = s.undo t st) ∨ s.db.status t ≠ .ready ∧ s' = s) := by
  unfold statement at h
  split_ifs at h with hstatus
  · rcases fault with _ | _ | _
    · obtain ⟨r', rfl, hr⟩ := Option.map_eq_some_iff.1 h
      rcases r' with x' | ⟨a, s₁⟩
      · cases hr
        exact .inr ⟨⟨x', rfl⟩, .inl ⟨.failed, rfl⟩⟩
      · cases hr
        exact .inl ⟨hstatus, a, rfl, rfl⟩
    · cases h
      exact .inr ⟨⟨x, rfl⟩, .inl ⟨.failed, rfl⟩⟩
    · cases h
      exact .inr ⟨⟨x, rfl⟩, .inl ⟨.gone, rfl⟩⟩
  · cases h
    exact .inr ⟨⟨x, rfl⟩, .inr ⟨hstatus, rfl⟩⟩

/-- A session that has sent a statement in vain has nothing pending. -/
theorem clear_of_failed (hs : SessionSound t s)
    (h : (∃ st, s' = s.undo t st) ∨ s.db.status t ≠ .ready ∧ s' = s) : Clear t s' := by
  rcases h with ⟨st, rfl⟩ | ⟨hstatus, rfl⟩
  · exact clear_undo s t st
  · exact hs.clear hstatus

theorem effect_of_failed
    (h : (∃ st, s' = s.undo t st) ∨ s.db.status t ≠ .ready ∧ s' = s) : Effect t c s s' := by
  rcases h with ⟨st, rfl⟩ | ⟨hstatus, rfl⟩
  · exact .undo st
  · exact .none hstatus

/-- What an insertion does: it finds a row, or writes the one it is given. -/
theorem insertNew_cases {row : V k} {b : Bool} (h : s.insertNew t k row = some (b, s')) :
    (b = false ∧ (s.db.view t k).isSome ∧ s' = s.meet t k) ∨
      (b = true ∧ s.db.view t k = none ∧ ∃ hlock, s' = s.put t k row hlock) := by
  rw [insertNew] at h
  split_ifs at h with _ hview hlock
  · cases h
    exact .inl ⟨rfl, hview, rfl⟩
  · cases h
    exact .inr ⟨rfl, Option.not_isSome_iff_eq_none.1 hview, hlock, rfl⟩

/-- What an update does: it writes the row, if there is one that it is for. -/
theorem updateRow_cases {where_ : V k → Bool} {set : V k → V k} {b : Bool}
    (h : s.updateRow t k where_ set = some (b, s')) :
    (b = false ∧ (∀ v ∈ s.db.view t k, where_ v = false) ∧ s' = s.meet t k) ∨
      ∃ v, b = true ∧ s.db.view t k = some v ∧ where_ v = true ∧
        ∃ hlock, s' = s.put t k (set v) hlock := by
  rw [updateRow] at h
  rcases hview : s.db.view t k with _ | v
  · rw [hview] at h
    cases h
    exact .inl ⟨rfl, nofun, rfl⟩
  · rw [hview] at h
    simp only at h
    split_ifs at h with hwhere hlock
    · cases h
      exact .inr ⟨v, rfl, rfl, hwhere, hlock, rfl⟩
    · cases h
      refine .inl ⟨rfl, fun v' hv' => ?_, rfl⟩
      cases hv'
      exact Bool.eq_false_iff.2 hwhere

theorem upsertRow_cases {new : ℕ → V k} {set : V k → V k} {u : Unit}
    (h : s.upsertRow t k new set = some (u, s')) : ∃ hlock,
      s' = { s.put t k (s.upserted t k new set) hlock with next := s.next + 1 } := by
  rw [upsertRow] at h
  split_ifs at h with hlock
  cases h
  exact ⟨hlock, rfl⟩

/-- The statement that is carried out, as it is given to `statement`. -/
theorem eq_of_map_ok {stmt : Option (α × Journal T K V E)} {a : α}
    (h : stmt.map (Except.ok (ε := ε)) = some (.ok (a, s'))) : stmt = some (a, s') := by
  obtain ⟨p, rfl, hp⟩ := Option.map_eq_some_iff.1 h
  exact congrArg some (Except.ok.inj hp)

/-- Every command has one of the effects. -/
theorem effect_of_exec {x : ε} {fault : Fault} {r : Except ε (Reply c)}
    (h : exec x t c fault s = some (r, s')) : Effect t c s s' := by
  rcases c with k | ⟨k, row⟩ | ⟨k, where_, set⟩ | ⟨k, new, set⟩ | e | _ | _ | _
  · rcases statement_cases h with ⟨_, a, _, hstmt⟩ | ⟨_, hfailed⟩
    · cases hstmt
      exact .meet k
    · exact effect_of_failed hfailed
  · rcases statement_cases h with ⟨hstatus, a, _, hstmt⟩ | ⟨_, hfailed⟩
    · rcases insertNew_cases (eq_of_map_ok hstmt) with ⟨_, _, rfl⟩ | ⟨_, _, hlock, rfl⟩
      · exact .meet k
      · exact .put k row hlock _ hstatus
    · exact effect_of_failed hfailed
  · rcases statement_cases h with ⟨hstatus, a, _, hstmt⟩ | ⟨_, hfailed⟩
    · rcases updateRow_cases (eq_of_map_ok hstmt) with ⟨_, _, rfl⟩ | ⟨v, _, _, _, hlock, rfl⟩
      · exact .meet k
      · exact .put k (set v) hlock _ hstatus
    · exact effect_of_failed hfailed
  · rcases statement_cases h with ⟨hstatus, a, _, hstmt⟩ | ⟨_, hfailed⟩
    · obtain ⟨hlock, rfl⟩ := upsertRow_cases (eq_of_map_ok hstmt)
      exact .put k _ hlock _ hstatus
    · exact effect_of_failed hfailed
  · rcases statement_cases h with ⟨hstatus, a, _, hstmt⟩ | ⟨_, hfailed⟩
    · cases hstmt
      exact .record e hstatus
    · exact effect_of_failed hfailed
  · rcases statement_cases h with ⟨_, a, _, _⟩ | ⟨_, hfailed⟩
    · exact a.elim
    · exact effect_of_failed hfailed
  · simp only [exec, commit] at h
    split_ifs at h with hstatus
    · rcases fault with _ | _ | _ <;> cases h
      · exact .keep .ready rfl
      · exact .undo .gone
      · exact .keep .gone rfl
    · cases h
      exact .none hstatus
  · rcases fault with _ | _ | _ <;> cases h
    · exact .undo .ready
    · exact .undo .gone
    · exact .undo .gone

section Ok

variable {x : ε} {fault : Fault}

/-- A statement that returns has been carried out. -/
theorem statement_eq_ok {stmt : Option (Except ε (α × Journal T K V E))} {a : α}
    (h : s.statement t fault x stmt = some (.ok a, s')) : stmt = some (.ok (a, s')) := by
  rcases statement_cases h with ⟨_, a', ha, hstmt⟩ | ⟨⟨x', hx⟩, _⟩
  · cases ha
    exact hstmt
  · cases hx

theorem exec_select_ok {v : Option (V k)}
    (h : exec x t (.select k : Cmd K V E) fault s = some (.ok v, s')) :
    v = s.db.view t k ∧ s' = s.meet t k := by
  cases statement_eq_ok h
  exact ⟨rfl, rfl⟩

theorem exec_insertNew_ok {row : V k} {b : Bool}
    (h : exec x t (.insertNew k row : Cmd K V E) fault s = some (.ok b, s')) :
    (b = false ∧ (s.db.view t k).isSome ∧ s' = s.meet t k) ∨
      (b = true ∧ s.db.view t k = none ∧ ∃ hlock, s' = s.put t k row hlock) :=
  insertNew_cases (eq_of_map_ok (statement_eq_ok h))

theorem exec_update_ok {where_ : V k → Bool} {set : V k → V k} {b : Bool}
    (h : exec x t (.update k where_ set : Cmd K V E) fault s = some (.ok b, s')) :
    (b = false ∧ (∀ v ∈ s.db.view t k, where_ v = false) ∧ s' = s.meet t k) ∨
      ∃ v, b = true ∧ s.db.view t k = some v ∧ where_ v = true ∧
        ∃ hlock, s' = s.put t k (set v) hlock :=
  updateRow_cases (eq_of_map_ok (statement_eq_ok h))

theorem exec_upsert_ok {new : ℕ → V k} {set : V k → V k} {u : Unit}
    (h : exec x t (.upsert k new set : Cmd K V E) fault s = some (.ok u, s')) : ∃ hlock,
      s' = { s.put t k (s.upserted t k new set) hlock with next := s.next + 1 } :=
  upsertRow_cases (eq_of_map_ok (statement_eq_ok h))

theorem exec_record_ok {e : E} {u : Unit}
    (h : exec x t (.record e : Cmd K V E) fault s = some (.ok u, s')) : s' = s.record t e := by
  cases statement_eq_ok h
  rfl

theorem exec_commit_eq {u : Unit}
    (h : exec x t (.commit : Cmd K V E) fault s = some (.ok u, s')) : s' = s.keep t .ready := by
  simp only [exec, commit] at h
  split_ifs at h with hstatus
  · rcases fault with _ | _ | _ <;> cases h
    rfl
  · cases h

theorem exec_commit_ok {u : Unit}
    (h : exec x t (.commit : Cmd K V E) fault s = some (.ok u, s')) : Clear t s' :=
  exec_commit_eq h ▸ clear_keep s t .ready

theorem exec_rollback_ok {u : Unit}
    (h : exec x t (.rollback : Cmd K V E) fault s = some (.ok u, s')) : Clear t s' := by
  rcases fault with _ | _ | _ <;> cases h
  exact clear_undo s t .ready

end Ok

theorem upserted_of_none {new : ℕ → V k} {set : V k → V k} (h : s.db.view t k = none) :
    s.upserted t k new set = new s.next := by
  rw [upserted, h]

theorem upserted_of_some {new : ℕ → V k} {set : V k → V k} {v : V k}
    (h : s.db.view t k = some v) : s.upserted t k new set = set v := by
  rw [upserted, h]

/-- What a session has met. -/
theorem seen_meet : (s.meet t k).seen t k = s.db.view t k := by
  change Function.update s.seen t _ t k = _
  rw [Function.update_self, Function.update_self]

/-- A session whose command has failed has nothing pending. -/
theorem clear_of_error {x x' : ε} {fault : Fault} (hs : SessionSound t s)
    (h : exec x t c fault s = some (.error x', s')) : Clear t s' := by
  have hstatement : ∀ {α : Type} {stmt : Option (Except ε (α × Journal T K V E))},
      s.statement t fault x stmt = some (.error x', s') → Clear t s' := by
    intro α stmt h
    rcases statement_cases h with ⟨_, a, ha, _⟩ | ⟨_, hfailed⟩
    · cases ha
    · exact clear_of_failed hs hfailed
  rcases c with k | ⟨k, row⟩ | ⟨k, where_, set⟩ | ⟨k, new, set⟩ | e | _ | _ | _
  case commit =>
    simp only [exec, commit] at h
    split_ifs at h with hstatus
    · rcases fault with _ | _ | _ <;> cases h
      · exact clear_undo s t .gone
      · exact clear_keep s t .gone
    · cases h
      exact hs.clear hstatus
  case rollback =>
    rcases fault with _ | _ | _ <;> cases h
    · exact clear_undo s t .gone
    · exact clear_undo s t .gone
  all_goals exact hstatement h

/-- A session whose command has failed holds no lock, and what it raises is what a session
    raises. -/
theorem released_of_error {x x' : ε} {fault : Fault}
    (hs : s.db.status t ≠ .ready → ∀ k, s.db.owner k ≠ some t)
    (h : exec x t c fault s = some (.error x', s')) : x' = x ∧ ∀ k, s'.db.owner k ≠ some t := by
  have howner : ((∃ st, s' = s.undo t st) ∨ s.db.status t ≠ .ready ∧ s' = s) →
      ∀ k, s'.db.owner k ≠ some t := by
    rintro (⟨st, rfl⟩ | ⟨hstatus, rfl⟩)
    · exact fun k => Database.owner_abort_self
    · exact hs hstatus
  have hstatement : ∀ {α : Type} {stmt : Option (α × Journal T K V E)},
      s.statement t fault x (stmt.map .ok) = some (.error x', s') →
        x' = x ∧ ∀ k, s'.db.owner k ≠ some t := by
    intro α stmt h
    refine ⟨?_, (statement_cases h).elim (fun ⟨_, _, ha, _⟩ => nomatch ha) fun h => howner h.2⟩
    unfold statement at h
    split_ifs at h
    · rcases fault with _ | _ | _
      · obtain ⟨r, hr, h⟩ := Option.map_eq_some_iff.1 h
        obtain ⟨_, _, rfl⟩ := Option.map_eq_some_iff.1 hr
        cases h
      · cases h
        rfl
      · cases h
        rfl
    · cases h
      rfl
  rcases c with k | ⟨k, row⟩ | ⟨k, where_, set⟩ | ⟨k, new, set⟩ | e | _ | _ | _
  case select =>
    have h : s.statement t fault x ((some (s.db.view t k, s.meet t k)).map .ok) = _ := h
    exact hstatement h
  case record =>
    have h : s.statement t fault x ((some ((), s.record t e)).map .ok) = _ := h
    exact hstatement h
  case reject =>
    refine ⟨?_, (statement_cases h).elim (fun ⟨_, a, _, _⟩ => a.elim) fun h => howner h.2⟩
    simp only [exec, statement] at h
    split_ifs at h
    · rcases fault with _ | _ | _ <;> cases h <;> rfl
    · cases h
      rfl
  case commit =>
    simp only [exec, commit] at h
    split_ifs at h with hstatus
    · rcases fault with _ | _ | _ <;> cases h
      · exact ⟨rfl, fun k => Database.owner_abort_self⟩
      · exact ⟨rfl, fun k => Database.owner_commitTx_self⟩
    · cases h
      exact ⟨rfl, hs hstatus⟩
  case rollback =>
    rcases fault with _ | _ | _ <;> cases h
    · exact ⟨rfl, fun k => Database.owner_abort_self⟩
    · exact ⟨rfl, fun k => Database.owner_abort_self⟩
  all_goals exact hstatement h

/-! ### Records -/

variable (about : K → E → Bool) (Of : (k : K) → E → Overwrite (V k) → Prop)

/-- The records about each row are those of its writes, one by one. -/
def RecordsOf (events : List E) (writes : (k : K) → List (Overwrite (V k))) : Prop :=
  ∀ k, List.Forall₂ (Of k) (events.filter (about k)) (writes k)

/-- The session has recorded what it has written. -/
def Recorded (t : T) (s : Journal T K V E) : Prop :=
  RecordsOf about Of (s.pendingEvents t) (s.pendingWrites t)

variable {about Of} {events events' : List E} {writes writes' : (k : K) → List (Overwrite (V k))}

theorem RecordsOf.append (h : RecordsOf about Of events writes)
    (h' : RecordsOf about Of events' writes') :
    RecordsOf about Of (events ++ events') fun k => writes k ++ writes' k := by
  intro k
  rw [List.filter_append]
  exact List.rel_append (h k) (h' k)

theorem recorded_of_clear (h : Clear t s) : Recorded about Of t s := by
  intro k
  rw [h.1 k, h.2]
  exact .nil

theorem Recorded.frame (h : Recorded about Of t s) (hframe : Frame t s s') :
    Recorded about Of t s' := by
  intro k
  rw [hframe.pendingEvents, hframe.pendingWrites]
  exact h k

/-- The session has written a row since it has recorded what it has written. -/
structure Owes (about : K → E → Bool) (Of : (k : K) → E → Overwrite (V k) → Prop) (t : T)
    (k : K) (w : Overwrite (V k)) (s : Journal T K V E) : Prop where
  written : ∃ ws, s.pendingWrites t k = ws ++ [w] ∧
    List.Forall₂ (Of k) ((s.pendingEvents t).filter (about k)) ws
  others : ∀ k', k' ≠ k →
    List.Forall₂ (Of k') ((s.pendingEvents t).filter (about k')) (s.pendingWrites t k')

theorem Owes.frame {w : Overwrite (V k)} (h : Owes about Of t k w s) (hframe : Frame t s s') :
    Owes about Of t k w s' := by
  obtain ⟨hwritten, hothers⟩ := h
  refine ⟨?_, fun k' hk' => ?_⟩
  · rw [hframe.pendingEvents, hframe.pendingWrites]
    exact hwritten
  · rw [hframe.pendingEvents, hframe.pendingWrites]
    exact hothers k' hk'

/-- The session sees what it has written. -/
theorem Owes.view {w : Overwrite (V k)} (h : Owes about Of t k w s) (hs : Sound s) :
    s.db.view t k = some w.row := by
  obtain ⟨ws, hws, -⟩ := h.written
  have hview := ((hs.session t).leads k).eq_getLast
  rw [hws, List.getLast?_concat] at hview
  exact hview

theorem Recorded.put {row : V k} {hlock : s.db.CanLock t k false} {n : ℕ}
    (h : Recorded about Of t s) :
    Owes about Of t k ⟨s.db.view t k, row⟩ { s.put t k row hlock with next := n } := by
  have hwrites : ({ s.put t k row hlock with next := n } : Journal T K V E).pendingWrites t =
      Function.update (s.pendingWrites t) k (s.pendingWrites t k ++ [⟨s.db.view t k, row⟩]) :=
    Function.update_self _ _ _
  refine ⟨⟨s.pendingWrites t k, ?_, h k⟩, fun k' hk' => ?_⟩
  · rw [hwrites, Function.update_self]
  · rw [hwrites, Function.update_of_ne hk']
    exact h k'

/-- The record of the write is one of the row that was written, and of no other. -/
theorem Owes.record {w : Overwrite (V k)} {e : E} (h : Owes about Of t k w s) (he : Of k e w)
    (habout : ∀ k', about k' e = decide (k' = k)) : Recorded about Of t (s.record t e) := by
  have hevents : (s.record t e).pendingEvents t = s.pendingEvents t ++ [e] :=
    Function.update_self _ _ _
  intro k'
  rw [hevents, List.filter_append]
  by_cases hk : k' = k
  · subst hk
    obtain ⟨ws, hws, hrecorded⟩ := h.written
    rw [List.filter_cons_of_pos (by rw [habout, decide_eq_true rfl]), List.filter_nil]
    change List.Forall₂ _ _ (s.pendingWrites t k')
    rw [hws]
    exact List.rel_append hrecorded (.cons he .nil)
  · rw [List.filter_cons_of_neg (by rw [habout, decide_eq_false hk]; exact Bool.false_ne_true),
      List.filter_nil, List.append_nil]
    exact h.others k' hk

/-- A record that is about no row. -/
theorem Recorded.record {e : E} (h : Recorded about Of t s) (habout : ∀ k, about k e = false) :
    Recorded about Of t (s.record t e) := by
  have hevents : (s.record t e).pendingEvents t = s.pendingEvents t ++ [e] :=
    Function.update_self _ _ _
  intro k
  rw [hevents, List.filter_append,
    List.filter_cons_of_neg (by rw [habout]; exact Bool.false_ne_true), List.filter_nil,
    List.append_nil]
  exact h k

/-! ### Programs -/

section Outline

variable {A J : Type} {x : ε} {body : T → J → Prog (Cmd K V E) Reply ε A}
  {g : Guard (Cmd K V E) T J Fault (Journal T K V E)}

/-- The outline of programs that record what they write. -/
def outline (about : K → E → Bool) (Of : (k : K) → E → Overwrite (V k) → Prop)
    (Q : T → J → Except ε A → Journal T K V E → Prop) :
    Outline (Cmd K V E) ε A T J (Journal T K V E) where
  inv s := Sound s ∧ RecordsOf about Of s.events s.writes
  know t c s := c = .commit → Recorded about Of t s
  rely := Frame
  idle := Recorded about Of
  post t j r s := Recorded about Of t s ∧ Q t j r s

variable {Q : T → J → Except ε A → Journal T K V E → Prop}

theorem Effect.recordsOf (h : Effect t c s s') (hs : RecordsOf about Of s.events s.writes)
    (hc : c = .commit → Recorded about Of t s) : RecordsOf about Of s'.events s'.writes := by
  rcases h with _ | _ | _ | _ | _ | ⟨st, hcommit⟩
  case keep => exact hs.append (hc hcommit)
  all_goals exact hs

/-- The outline is valid, if every program keeps to it. -/
theorem valid_outline (hQ : ∀ t j r s s', Frame t s s' → Q t j r s → Q t j r s')
    (hbody : ∀ t j s, Recorded about Of t s → g.start t j s →
      (outline about Of Q).Safe (system x body) g t (body t j)
        ((outline about Of Q).post t j) s) :
    (outline about Of Q).Valid (system x body) g where
  rely_refl := Frame.refl
  rely_trans _ _ _ _ h h' := h.trans h'
  inv_step _ _ _ _ _ _ hs hknow _ hexec :=
    have heffect := effect_of_exec hexec
    ⟨heffect.sound hs.1, heffect.recordsOf hs.2 hknow⟩
  rely_step _ _ _ _ _ _ _ ht _ _ _ hexec := (effect_of_exec hexec).frame ht.symm
  inv_kill t s hs _ :=
    have hundo : Effect t .rollback s (s.undo t .ready) := .undo .ready
    ⟨hundo.sound hs.1, hs.2⟩
  rely_kill t t' s ht _ _ :=
    have hundo : Effect t' .rollback s (s.undo t' .ready) := .undo .ready
    hundo.frame ht.symm
  idle_kill t s _ := recorded_of_clear (clear_undo s t .ready)
  idle_stable _ _ _ hframe h := h.frame hframe
  post_stable _ _ _ _ _ hframe h := ⟨h.1.frame hframe, hQ _ _ _ _ _ hframe h.2⟩
  post_idle _ _ _ _ h := h.1
  body t j s _ h hstart := hbody t j s h hstart

/-- A command that fails leaves nothing pending: what is left to say is what it does when it is
    carried out. -/
theorem safe_command {P : Except ε (Reply c) → Journal T K V E → Prop} (a : Journal T K V E → Prop)
    (ha : ∀ s s', Frame t s s' → a s → a s') (h : a s)
    (hcommit : c = .commit → ∀ s, a s → Recorded about Of t s)
    (herror : ∀ e s', Clear t s' → P (.error e) s')
    (hok : ∀ fault s₁ v s', Sound s₁ → a s₁ → g.step t c fault s₁ →
      exec x t c fault s₁ = some (.ok v, s') → P (.ok v) s') :
    (outline about Of Q).Safe (system x body) g t (.perform c) P s := by
  refine Outline.safe_perform a ha h fun s₁ hinv h₁ => ⟨fun hc => hcommit hc s₁ h₁, ?_⟩
  rintro fault (e | v) s' hstep hexec -
  · exact herror e s' (clear_of_error (hinv.1.session t) hexec)
  · exact hok fault s₁ v s' hinv.1 h₁ hstep hexec

/-- A statement that is rejected only fails. -/
theorem safe_reject {P : Except ε α → Journal T K V E → Prop} (a : Journal T K V E → Prop)
    (ha : ∀ s s', Frame t s s' → a s → a s') (h : a s)
    (herror : ∀ e s', Clear t s' → P (.error e) s') :
    (outline about Of Q).Safe (system x body) g t reject P s :=
  Outline.safe_bind.2 (safe_command a ha h nofun herror fun _ _ v _ _ _ _ _ => v.elim)

/-- A command with values. -/
theorem safe_performIf {storable : Bool} {P : Except ε (Reply c) → Journal T K V E → Prop}
    (a : Journal T K V E → Prop) (ha : ∀ s s', Frame t s s' → a s → a s') (h : a s)
    (hcommit : c ≠ .commit) (herror : ∀ e s', Clear t s' → P (.error e) s')
    (hok : ∀ fault s₁ v s', Sound s₁ → a s₁ → g.step t c fault s₁ →
      exec x t c fault s₁ = some (.ok v, s') → P (.ok v) s') :
    (outline about Of Q).Safe (system x body) g t (performIf storable c) P s := by
  rw [performIf]
  split_ifs
  · exact safe_command a ha h (fun hc => absurd hc hcommit) herror hok
  · exact safe_reject a ha h herror

end Outline

end AslanCore.Journal
