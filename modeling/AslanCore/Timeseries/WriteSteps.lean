import AslanCore.Timeseries.Serial

/-!
# What the commands of a writer do

* `executed_exec`: what a command does to the database, and to the other writers
  (`Executed.rely`);
* `inv_exec`: it keeps the invariant, given what is known when a transaction is committed;
* `Applied.insertNew`: what a writer has done to the observations, after one more row;
* `Audited.insertEvent`, `Audited.insertKey`, `Audited.complete`: what it has recorded, after the
  event of a batch, after each of its keys, and when it has all of them.
-/

set_option linter.unusedSectionVars false

namespace AslanCore

namespace Timeseries

namespace Writing

open Insertion Database Outline

section

variable {P : Type} [DecidableEq P] {env : Env} {rows : (k : Key) → Option (RowOf k)} {first : ℕ}
  {healthy : Prop} {p q : P} {s s' s₁ : World P} {fault : Fault} {o : Choice} {c : Cmd}

/-! ### Commands -/

section

variable {α : Type} {r : Except WriteError α}
  {stmt : Option (Except WriteError (α × Database P Key RowOf))}

/-- A statement raises an error of the database, or does what it is executed for. -/
theorem sql_cases (h : s.sql p fault stmt = some (r, s'))
    (hstmt : ∀ e, stmt = some (.error e) → e = .sql) :
    (r = .error .sql ∧ (s.db.status p = .ready → fault = .none → stmt = some (.error .sql))) ∨
      ∃ a db', r = .ok a ∧ stmt = some (.ok (a, db')) ∧ s' = { s with db := db' } := by
  rw [World.sql] at h
  obtain ⟨⟨r', db'⟩, hst, heq⟩ := Option.map_eq_some_iff.1 h
  obtain ⟨rfl, rfl⟩ := Prod.mk.inj heq
  rcases statement_cases hst with ⟨e, rfl, hcase⟩ | ⟨a, rfl, -, -, ha⟩
  · left
    by_cases hsql : s.db.status p = .ready ∧ fault = .none
    · obtain ⟨hready, rfl⟩ := hsql
      rcases hcase with ⟨hne, -⟩ | ⟨-, herror, -⟩
      · exact absurd hready hne
      · obtain rfl := hstmt e (herror rfl)
        exact ⟨rfl, fun _ _ => herror rfl⟩
    · refine ⟨?_, fun hready hfault => absurd ⟨hready, hfault⟩ hsql⟩
      -- The error is the one of the session, or of the connection.
      unfold Database.statement at hst
      split_ifs at hst with hready
      · rcases fault with _ | _ | _
        · exact absurd ⟨hready, rfl⟩ hsql
        · cases hst
          rfl
        · cases hst
          rfl
      · cases hst
        rfl
  · exact .inr ⟨a, db', rfl, ha, rfl⟩

theorem effect_sql {W : Database P Key RowOf → (k : Key) → Option (RowOf k) → Prop}
    (hu : s.db.Unsaved) (h : s.sql p fault stmt = some (r, s'))
    (hW : ∀ a db', stmt = some (.ok (a, db')) → Makes p W s.db db') :
    Database.Effect p W s.db s'.db ∧ s'.nextEventId = s.nextEventId ∧ s'.history = s.history ∧
      s'.db.committed = s.db.committed := by
  rw [World.sql] at h
  obtain ⟨⟨r', db'⟩, hst, heq⟩ := Option.map_eq_some_iff.1 h
  obtain ⟨rfl, rfl⟩ := Prod.mk.inj heq
  rcases statement_makes hst hu with ⟨e, -, rfl | hundone⟩ | ⟨a, -, ha⟩
  · exact ⟨.refl _, rfl, rfl, rfl⟩
  · exact ⟨.undone hundone, rfl, rfl, hundone.committed⟩
  · exact ⟨.makes (hW a db' ha), rfl, rfl, (hW a db' ha).committed⟩

end

variable {db' : Database P Key RowOf} {k : ObservationKey} {row : ObservationColumns} {b : Bool}

theorem insertObservation_cases {x : Except WriteError (Bool × Database P Key RowOf)}
    (h : s.insertObservation env p k row = some x) :
    (x = .error .sql ∧ (env.admits row = false ∨
      ∃ db', s.db.insertNew p (.observation k) row = some (true, db') ∧ ¬World.Refers db' p k row)) ∨
    ∃ b db', x = .ok (b, db') ∧ s.db.insertNew p (.observation k) row = some (b, db') := by
  rw [World.insertObservation] at h
  split_ifs at h with hadmits
  · obtain ⟨⟨b, db'⟩, hnew, rfl⟩ := Option.map_eq_some_iff.1 h
    simp only
    split_ifs with hrefers
    · obtain ⟨rfl, hrefers⟩ := hrefers
      exact .inl ⟨rfl, .inr ⟨db', hnew, hrefers⟩⟩
    · exact .inr ⟨b, db', rfl, hnew⟩
  · cases h
    exact .inl ⟨rfl, .inl (by simpa using hadmits)⟩

theorem insertRow_cases {key : Key} {v : RowOf key}
    {x : Except WriteError (Unit × Database P Key RowOf)} (h : s.insertRow p key v = some x) :
    (x = .error .sql ∧ (s.db.view p key).isSome) ∨
    ∃ db', x = .ok ((), db') ∧ s.db.insertNew p key v = some (true, db') := by
  rw [World.insertRow] at h
  obtain ⟨⟨b, db'⟩, hnew, rfl⟩ := Option.map_eq_some_iff.1 h
  rcases insertNew_cases hnew with ⟨rfl, rfl, hsome⟩ | ⟨rfl, -, -⟩
  · exact .inl ⟨rfl, hsome⟩
  · exact .inr ⟨db', rfl, hnew⟩

/-- What a writer writes is new, and numbered. -/
def WritesNew (p : P) (next : ℕ) (db : Database P Key RowOf) (k : Key) (v : Option (RowOf k)) :
    Prop :=
  Inserts p db k v ∧ Numbered next k v

theorem makes_insertNew {key : Key} {v : RowOf key} {next : ℕ}
    (h : s.db.insertNew p key v = some (b, db')) (hnext : Numbered next key (some v)) :
    Makes p (WritesNew p next) s.db db' :=
  insertNew_makes h fun hnone => ⟨⟨hnone, rfl⟩, hnext⟩

/-- What a command does to the database and the sequence. Only the end of a transaction changes what
    is committed. -/
structure Executed (p : P) (c : Cmd) (s s' : World P) : Prop where
  effect : Database.Effect p (WritesNew p s'.nextEventId) s.db s'.db
  le : s.nextEventId ≤ s'.nextEventId
  history : s.history <+: s'.history
  same : (∀ job counts, c ≠ .commit job counts) →
    s'.db.committed = s.db.committed ∧ s'.history = s.history

theorem executed_exec {r : Except WriteError (Reply c)} (hu : s.db.Unsaved)
    (h : World.exec env p c o s = some (r, s')) : Executed p c s s' := by
  have hsql : ∀ {α : Type} {r : Except WriteError α} {s' : World P}
      {stmt : Option (Except WriteError (α × Database P Key RowOf))},
      s.sql p o.fault stmt = some (r, s') →
      (∀ a db', stmt = some (.ok (a, db')) → Makes p (WritesNew p s.nextEventId) s.db db') →
      Executed p c s s' := by
    intro α r s' stmt h hW
    obtain ⟨heff, hnext, hhistory, hcommitted⟩ := effect_sql hu h hW
    exact ⟨hnext ▸ heff, hnext.ge, hhistory ▸ List.prefix_rfl, fun _ => ⟨hcommitted, hhistory⟩⟩
  rcases c with seriesId | seriesId | ⟨k, row⟩ | keys | _ | e | ⟨eventId, k, row⟩ | ⟨job, counts⟩ | _
  · refine hsql h fun a db' ha => ?_
    split_ifs at ha <;> cases ha
    exact .refl _
  · refine hsql h fun a db' ha => ?_
    split_ifs at ha
    cases ha
    exact .stay stays_lockRow
  · refine hsql h fun a db' ha => ?_
    rcases insertObservation_cases ha with ⟨he, -⟩ | ⟨b, db₁, heq, hnew⟩
    · cases he
    · cases heq
      exact makes_insertNew hnew trivial
  · refine hsql h fun a db' ha => ?_
    cases ha
    exact .refl _
  · cases h
    exact ⟨.refl _, le_rfl, List.prefix_rfl, fun _ => ⟨rfl, rfl⟩⟩
  · obtain ⟨⟨r', s''⟩, hst, heq⟩ := Option.map_eq_some_iff.1 h
    cases heq
    obtain ⟨heff, -, hhistory, hcommitted⟩ :=
      effect_sql (W := WritesNew p (s.nextEventId + 1)) hu hst fun a db' ha => by
        rcases insertRow_cases ha with ⟨he, -⟩ | ⟨db₁, heq, hnew⟩
        · cases he
        · cases heq
          exact makes_insertNew hnew (Nat.lt_succ_self _)
    exact ⟨heff, Nat.le_succ _, hhistory ▸ List.prefix_rfl, fun _ => ⟨hcommitted, hhistory⟩⟩
  · refine hsql h fun a db' ha => ?_
    rcases insertRow_cases ha with ⟨he, -⟩ | ⟨db₁, heq, hnew⟩
    · cases he
    · cases heq
      exact makes_insertNew hnew trivial
  · cases h
    refine ⟨commit_effect rfl, le_rfl, ?_, fun hne => absurd rfl (hne job counts)⟩
    simp only
    split_ifs
    · exact List.prefix_append _ _
    · exact List.prefix_rfl
  · cases h
    refine ⟨close_effect rfl, le_rfl, List.prefix_rfl, fun _ => ⟨?_, rfl⟩⟩
    have hclose : (s.db.close p o.fault WriteError.sql).2 = s.db.abort p .ready :=
      (close_cases rfl).1
    have hcommitted : (s.db.close p o.fault WriteError.sql).2.committed = s.db.committed := by
      rw [hclose]
      rfl
    exact hcommitted

namespace Executed

theorem inserts (h : Executed p c s s') : Database.Effect p (Inserts p) s.db s'.db := by
  rcases h.effect with hm | hu | ⟨st, heq⟩
  · exact .makes (hm.mono fun _ _ _ hw => hw.1)
  · exact .undone hu
  · exact .committed st heq

theorem rely (h : Executed p c s s') (hfresh : s.db.Fresh) (hq : q ≠ p) :
    (writeOutline P env rows first healthy).rely q s s' :=
  ⟨h.effect.frame hq, h.inserts.keeps hfresh, h.history⟩

end Executed

/-- The end of a transaction: it is undone, or committed and in the history. -/
theorem exec_commit {job : WriteJob} {counts : List WriteCount} {r : Except WriteError Unit}
    (hready : s.db.status p = .ready) (h : World.exec env p (.commit job counts) o s = some (r, s')) :
    (r = .error .sql ∧ o.fault ≠ .none ∧ s'.db.committed = s.db.committed ∧
        s'.history = s.history) ∨
      (s'.db.committed = s.db.view p ∧ s'.history = s.history ++ [(job, counts)] ∧
        (r = .ok () ∨ r = .error .sql ∧ o.fault ≠ .none)) := by
  rcases hcommit : s.db.commit p o.fault WriteError.sql with ⟨r', db⟩
  simp only [World.exec, hcommit] at h
  cases h
  rcases commit_cases hcommit with
    ⟨rfl, ⟨-, hne⟩ | ⟨rfl, hfault⟩ | ⟨rfl, hfault⟩⟩ | ⟨rfl, rfl, hfault, -⟩
  · exact absurd hready hne
  · exact .inl ⟨rfl, by simp [hfault], rfl, by simp [hfault]⟩
  · exact .inr ⟨rfl, by simp [hready, hfault], .inr ⟨rfl, by simp [hfault]⟩⟩
  · exact .inr ⟨rfl, by simp [hready, hfault], .inl rfl⟩

/-- What is committed keeps the invariant, given what is known when a transaction is committed. -/
theorem serial_trail_exec {r : Except WriteError (Reply c)} (hinv : Inv env rows first s)
    (hknow : (writeOutline P env rows first healthy).know p c s)
    (h : World.exec env p c o s = some (r, s')) :
    Serial env (Writing.observations rows) s'.history (Writing.observations s'.db.committed) ∧
      Trail first (Writing.observations rows) s'.db.committed := by
  have hsame : s'.db.committed = s.db.committed → s'.history = s.history →
      Serial env (Writing.observations rows) s'.history (Writing.observations s'.db.committed) ∧
        Trail first (Writing.observations rows) s'.db.committed := by
    intro hcommitted hhistory
    rw [hcommitted, hhistory]
    exact ⟨hinv.serial, hinv.trail⟩
  by_cases hc : ∃ job counts, c = .commit job counts
  · obtain ⟨job, counts, rfl⟩ := hc
    obtain ⟨batches, hw⟩ := hknow
    rcases exec_commit hw.ready h with ⟨-, -, hcommitted, hhistory⟩ | ⟨hcommitted, hhistory, -⟩
    · exact hsame hcommitted hhistory
    · rw [hcommitted, hhistory]
      exact ⟨hinv.serial.commit_working hw, hinv.trail.commit hinv.fresh hinv.kept hw.audited⟩
  · have hne : ∀ job counts, c ≠ .commit job counts := fun job counts heq => hc ⟨job, counts, heq⟩
    obtain ⟨hcommitted, hhistory⟩ := (executed_exec hinv.unsaved h).same hne
    exact hsame hcommitted hhistory

/-- The commands keep the invariant, given what is known when a transaction is committed. -/
theorem inv_exec {r : Except WriteError (Reply c)} (hinv : Inv env rows first s)
    (hknow : (writeOutline P env rows first healthy).know p c s)
    (h : World.exec env p c o s = some (r, s')) : Inv env rows first s' := by
  have hexec := executed_exec hinv.unsaved h
  have hkeeps := hexec.inserts.keeps hinv.fresh
  obtain ⟨hserial, htrail⟩ := serial_trail_exec hinv hknow h
  refine ⟨hexec.effect.unsaved hinv.unsaved, hexec.inserts.fresh hinv.fresh,
    fun k v hv => hkeeps k v (hinv.kept k v hv), hinv.le.trans hexec.le, ?_, hserial, htrail⟩
  refine hexec.effect.all hinv.unsaved (hinv.numbered.mono fun k w hk => ?_) fun _ _ _ hw => hw.2
  rcases k with _ | _ | _ | n | _ | _
  all_goals first | trivial | exact lt_of_lt_of_le hk hexec.le

/-! ### What a writer knows after a command -/

section

variable {caller : Caller} {done : List WriteCall} {counts : List WriteCount}
  {batches : List Batch} {xs : List (ObservationKey × ObservationColumns)}
  {inserted : Finset ObservationKey} {current : Option Batch} {db : Database P Key RowOf}
  {hashes : List (ObservationKey × String)} {eventId : ℕ} {e : WriteBatchEvent}
  {keys : List (ObservationKey × BatchKeyColumns)} {col : BatchKeyColumns}

/-- A row that is inserted leaves what the writer sees of others. -/
theorem view_of_insertNew {key key' : Key} {v : RowOf key} (h : db.insertNew p key v = some (b, db'))
    {w : RowOf key'} (hw : db.view p key' = some w) : db'.view p key' = some w := by
  rcases insertNew_cases h with ⟨-, rfl, -⟩ | ⟨-, hnone, hl, rfl⟩
  · exact hw
  · have hne : key' ≠ key := by
      rintro rfl
      rw [hnone] at hw
      cases hw
    rwa [view_put_of_ne hne]

theorem status_of_insertNew {key : Key} {v : RowOf key} (h : db.insertNew p key v = some (b, db')) :
    db'.status = db.status ∧ db'.committed = db.committed := by
  rcases insertNew_cases h with ⟨-, rfl, -⟩ | ⟨-, -, hl, rfl⟩ <;> exact ⟨rfl, rfl⟩

/-- Rows of other tables do not matter to what is done to the observations. -/
theorem Applied.congr (h : Applied env caller p done counts xs inserted db)
    (hcommitted : db'.committed = db.committed)
    (hseen : Writing.observations (db'.view p) = Writing.observations (db.view p)) :
    Applied env caller p done counts xs inserted db' := by
  obtain ⟨before, happly, heq, hinserted⟩ := h
  exact ⟨before, by rwa [hcommitted], hseen.trans heq, hinserted⟩

theorem observations_put {key : Key} {v : Option (RowOf key)} {hl : db.CanLock p key false}
    (hne : ∀ k, Key.observation k ≠ key) : Writing.observations ((db.put p key v false hl).view p) =
      Writing.observations (db.view p) :=
  funext fun k => view_put_of_ne (hne k)

/-- An observation is inserted, unless it is there. -/
theorem Applied.insertNew (h : Applied env caller p done counts xs inserted db)
    (hnew : db.insertNew p (.observation k) row = some (b, db')) (hk : k ∉ xs.map Prod.fst) :
    Applied env caller p done counts (xs ++ [(k, row)]) (if b then insert k inserted else inserted)
      db' := by
  obtain ⟨before, happly, hseen, hinserted⟩ := h
  have hbefore : Writing.observations (db.view p) k = before k := by
    rw [hseen, insertAll_of_notMem hk]
  refine ⟨before, by rwa [(status_of_insertNew hnew).2], ?_, fun k' => ?_⟩
  · rw [insertAll_concat, ← hseen]
    rcases insertNew_cases hnew with ⟨rfl, rfl, hsome⟩ | ⟨rfl, hnone, hl, rfl⟩
    · exact (insertNew_of_isSome hsome).symm
    · funext k'
      rw [insertNew_apply]
      by_cases hkk : k = k'
      · subst hkk
        have hnone' : Writing.observations (db.view p) k = none := hnone
        rw [if_pos rfl, hnone', Option.none_or]
        exact view_put_self
      · rw [if_neg hkk, Option.or_none]
        exact view_put_of_ne fun heq => hkk (Key.observation.inj heq).symm
  · have hmem : k' ∈ (xs ++ [(k, row)]).map Prod.fst ↔ k' = k ∨ k' ∈ xs.map Prod.fst := by
      simp [or_comm]
    rw [hmem]
    rcases insertNew_cases hnew with ⟨rfl, -, hsome⟩ | ⟨rfl, hnone, -, -⟩
    · rw [if_neg (by decide), hinserted]
      constructor
      · exact fun ⟨hk', hnone⟩ => ⟨.inr hk', hnone⟩
      · rintro ⟨rfl | hk', hnone⟩
        · have hsome' : (Writing.observations (db.view p) k').isSome := hsome
          rw [hbefore, hnone] at hsome'
          cases hsome'
        · exact ⟨hk', hnone⟩
    · have hnone' : before k = none := by
        rw [← hbefore]
        exact hnone
      rw [if_pos rfl, Finset.mem_insert, hinserted]
      constructor
      · rintro (rfl | ⟨hk', hnone⟩)
        · exact ⟨.inl rfl, hnone'⟩
        · exact ⟨.inr hk', hnone⟩
      · rintro ⟨rfl | hk', hnone⟩
        · exact .inl rfl
        · exact .inr ⟨hk', hnone⟩

/-- A row of another table than those of the audit is inserted. -/
theorem pending_put_of_ne {key key' : Key} {v : Option (RowOf key)} {hl : db.CanLock p key false}
    (hne : key' ≠ key) : (db.put p key v false hl).pending p key' = db.pending p key' := by
  rw [pending_put, Function.update_self, Function.update_of_ne hne]

theorem pending_put_self {key : Key} {v : Option (RowOf key)} {hl : db.CanLock p key false} :
    (db.put p key v false hl).pending p key = some v := by
  rw [pending_put, Function.update_self, Function.update_self]

/-- What has been recorded, after the insertion of an observation. -/
theorem Audited.insertObservation (h : Audited first p batches none inserted db) (hfresh : db.Fresh)
    (hnew : db.insertNew p (.observation k) row = some (b, db')) :
    Audited first p batches none (if b then insert k inserted else inserted) db' := by
  have hseen : ∀ k' row', Writing.observations (db.view p) k' = some row' →
      Writing.observations (db'.view p) k' = some row' := fun _ _ => view_of_insertNew hnew
  rcases insertNew_cases hnew with ⟨rfl, rfl, -⟩ | ⟨rfl, hnone, hl, rfl⟩
  · exact h
  · obtain ⟨hpending, -⟩ := hfresh.of_view_eq_none hnone
    rw [if_pos rfl]
    refine ⟨fun n e => ?_, fun n k' c => ?_, h.le, h.nodup, fun b hb => (h.describes b hb).mono hseen,
      fun k' => ?_, h.unique, fun k' hk' b hb hins => ?_⟩
    · rw [pending_put_of_ne (by simp), h.event]
    · rw [pending_put_of_ne (by simp), h.key]
    · by_cases hk : k' = k
      · subst hk
        rw [pending_put_self]
        simp
      · rw [pending_put_of_ne (by simpa using hk), h.observation, Finset.mem_insert]
        simp [hk]
    · rcases Finset.mem_insert.1 hk' with rfl | hk'
      · -- It would have been pending before.
        have hsome := (h.observation k').2 (.inr ⟨b, hb, hins⟩)
        rw [hpending] at hsome
        cases hsome
      · exact h.disjoint k' hk' b hb hins

/-- The event of a batch is recorded, before its keys. -/
theorem Audited.insertEvent (h : Audited first p batches none inserted db) (hfresh : db.Fresh)
    (hnew : db.insertNew p (.event eventId) e = some (true, db')) (hle : first ≤ eventId) :
    Audited first p batches (some ⟨eventId, e, []⟩) inserted db' := by
  have hseen : ∀ k' row', Writing.observations (db.view p) k' = some row' →
      Writing.observations (db'.view p) k' = some row' := fun _ _ => view_of_insertNew hnew
  rcases insertNew_cases hnew with ⟨hb, -, -⟩ | ⟨-, hnone, hl, rfl⟩
  · cases hb
  obtain ⟨hpending, -⟩ := hfresh.of_view_eq_none hnone
  -- No batch has the number of the event.
  have hne : ∀ b ∈ batches, b.eventId ≠ eventId := by
    rintro b hb rfl
    rw [h.pending_event hb] at hpending
    cases hpending
  have hmem : ∀ b : Batch, b ∈ batches ++ (some (⟨eventId, e, []⟩ : Batch)).toList ↔
      b ∈ batches ∨ b = ⟨eventId, e, []⟩ := by simp
  have hmem' : ∀ b : Batch, b ∈ batches ++ (none : Option Batch).toList ↔ b ∈ batches := by simp
  refine ⟨fun n e' => ?_, fun n k' c => ?_, fun b hb => ?_, ?_,
    fun b hb => (h.describes b hb).mono hseen, fun k' => ?_, h.unique, h.disjoint⟩
  · simp only [hmem]
    by_cases hn : n = eventId
    · subst hn
      rw [pending_put_self]
      constructor
      · intro heq
        cases heq
        exact ⟨_, .inr rfl, rfl, rfl⟩
      · rintro ⟨b, hb | rfl, hid, rfl⟩
        · exact absurd hid (hne b hb)
        · rfl
    · rw [pending_put_of_ne (by simpa using hn), h.event]
      simp only [hmem']
      constructor
      · rintro ⟨b, hb, hid, he⟩
        exact ⟨b, .inl hb, hid, he⟩
      · rintro ⟨b, hb | rfl, hid, he⟩
        · exact ⟨b, hb, hid, he⟩
        · exact absurd hid.symm hn
  · simp only [hmem]
    rw [pending_put_of_ne (by simp), h.key]
    simp only [hmem']
    constructor
    · rintro ⟨b, hb, hid, hc⟩
      exact ⟨b, .inl hb, hid, hc⟩
    · rintro ⟨b, hb | rfl, hid, hc⟩
      · exact ⟨b, hb, hid, hc⟩
      · cases hc
  · rcases (hmem b).1 hb with hb | rfl
    · exact h.le b ((hmem' b).2 hb)
    · exact hle
  · have hnodup := h.nodup
    rw [Option.toList_none, List.append_nil] at hnodup
    rw [Option.toList_some, List.map_append, List.map_singleton]
    refine hnodup.append (List.nodup_singleton _) (List.disjoint_singleton.2 fun hid => ?_)
    obtain ⟨b, hb, hid⟩ := List.mem_map.1 hid
    exact hne b hb hid
  · rw [pending_put_of_ne (by simp), h.observation]

/-- A key of the batch is recorded. -/
theorem Audited.insertKey (h : Audited first p batches (some ⟨eventId, e, keys⟩) inserted db)
    (hfresh : db.Fresh) (hnew : db.insertNew p (.batchKey eventId k) col = some (true, db')) :
    Audited first p batches (some ⟨eventId, e, keys ++ [(k, col)]⟩) inserted db' := by
  have hseen : ∀ k' row', Writing.observations (db.view p) k' = some row' →
      Writing.observations (db'.view p) k' = some row' := fun _ _ => view_of_insertNew hnew
  rcases insertNew_cases hnew with ⟨hb, -, -⟩ | ⟨-, hnone, hl, rfl⟩
  · cases hb
  obtain ⟨hpending, -⟩ := hfresh.of_view_eq_none hnone
  have hmem : ∀ (keys : List (ObservationKey × BatchKeyColumns)) (b : Batch),
      b ∈ batches ++ (some (⟨eventId, e, keys⟩ : Batch)).toList ↔
        b ∈ batches ∨ b = ⟨eventId, e, keys⟩ := by simp
  have hnodup := h.nodup
  rw [Option.toList_some, List.map_append, List.map_singleton] at hnodup
  have hne : ∀ b ∈ batches, b.eventId ≠ eventId := by
    intro b hb hid
    have hmemId := List.mem_map_of_mem (f := Batch.eventId) hb
    rw [hid] at hmemId
    exact List.disjoint_singleton.1 (List.disjoint_of_nodup_append hnodup) hmemId
  refine ⟨fun n e' => ?_, fun n k' c => ?_, fun b hb => ?_, ?_,
    fun b hb => (h.describes b hb).mono hseen, fun k' => ?_, h.unique, h.disjoint⟩
  · rw [pending_put_of_ne (by simp), h.event]
    simp only [hmem]
    constructor
    · rintro ⟨b, hb | rfl, hid, he⟩
      · exact ⟨b, .inl hb, hid, he⟩
      · exact ⟨_, .inr rfl, hid, he⟩
    · rintro ⟨b, hb | rfl, hid, he⟩
      · exact ⟨b, .inl hb, hid, he⟩
      · exact ⟨_, .inr rfl, hid, he⟩
  · simp only [hmem]
    by_cases hn : n = eventId ∧ k' = k
    · obtain ⟨rfl, rfl⟩ := hn
      rw [pending_put_self]
      constructor
      · intro heq
        cases heq
        exact ⟨_, .inr rfl, rfl, by simp⟩
      · rintro ⟨b, hb | rfl, hid, hc⟩
        · exact absurd hid (hne b hb)
        · rcases List.mem_append.1 hc with hc | hc
          · -- It would have been recorded before.
            have hrec := (h.key n k' c).2 ⟨_, (hmem _ _).2 (.inr rfl), rfl, hc⟩
            rw [hpending] at hrec
            cases hrec
          · cases List.mem_singleton.1 hc
            rfl
    · have hne' : Key.batchKey n k' ≠ Key.batchKey eventId k := by
        rintro heq
        obtain ⟨rfl, rfl⟩ := Key.batchKey.inj heq
        exact hn ⟨rfl, rfl⟩
      rw [pending_put_of_ne hne', h.key]
      simp only [hmem]
      constructor
      · rintro ⟨b, hb | rfl, hid, hc⟩
        · exact ⟨b, .inl hb, hid, hc⟩
        · exact ⟨_, .inr rfl, hid, List.mem_append_left _ hc⟩
      · rintro ⟨b, hb | rfl, hid, hc⟩
        · exact ⟨b, .inl hb, hid, hc⟩
        · rcases List.mem_append.1 hc with hc | hc
          · exact ⟨_, .inr rfl, hid, hc⟩
          · obtain ⟨rfl, -⟩ := Prod.mk.inj (List.mem_singleton.1 hc)
            exact absurd ⟨hid.symm, rfl⟩ hn
  · rcases (hmem _ b).1 hb with hb | rfl
    · exact h.le b ((hmem _ b).2 (.inl hb))
    · exact h.le ⟨eventId, e, keys⟩ ((hmem _ _).2 (.inr rfl))
  · rw [Option.toList_some, List.map_append, List.map_singleton]
    exact hnodup
  · rw [pending_put_of_ne (by simp), h.observation]

/-- A batch is complete. -/
theorem Audited.complete {batch : Batch} (h : Audited first p batches (some batch) inserted db)
    (hdesc : batch.Describes (Writing.observations (db.view p)))
    (hinserted : ∀ k, k ∈ inserted ↔ batch.Inserts k) :
    Audited first p (batches ++ [batch]) none ∅ db := by
  have hmem : ∀ b : Batch, b ∈ batches ++ [batch] ↔ b ∈ batches ∨ b = batch := by simp
  refine ⟨fun n e => ?_, fun n k c => ?_, fun b hb => ?_, ?_, fun b hb => ?_, fun k => ?_,
    fun b₁ h₁ b₂ h₂ k hk hk' => ?_, by simp⟩
  · rw [h.event]
    simp
  · rw [h.key]
    simp
  · exact h.le b (by simpa using hb)
  · simpa using h.nodup
  · rcases (hmem b).1 hb with hb | rfl
    · exact h.describes b hb
    · exact hdesc
  · rw [h.observation, hinserted]
    simp only [hmem, Finset.notMem_empty, false_or]
    constructor
    · rintro (hk | ⟨b, hb, hk⟩)
      · exact ⟨_, .inr rfl, hk⟩
      · exact ⟨b, .inl hb, hk⟩
    · rintro ⟨b, hb | rfl, hk⟩
      · exact .inr ⟨b, hb, hk⟩
      · exact .inl hk
  · rcases (hmem b₁).1 h₁ with hm₁ | rfl <;> rcases (hmem b₂).1 h₂ with hm₂ | rfl
    · exact h.unique b₁ hm₁ b₂ hm₂ k hk hk'
    · exact absurd hk (h.disjoint k ((hinserted k).2 hk') b₁ hm₁)
    · exact absurd hk' (h.disjoint k ((hinserted k).2 hk) b₂ hm₂)
    · rfl

/-! ### Commands amid a transaction -/

theorem Sees.insertNew {key : Key} {v : RowOf key} (h : Sees p hashes db)
    (hnew : db.insertNew p key v = some (b, db')) : Sees p hashes db' := fun x hx => by
  obtain ⟨row, hrow, hph⟩ := h x hx
  exact ⟨row, view_of_insertNew hnew hrow, hph⟩

/-- A command that writes nothing leaves what the writer knows. -/
theorem Working.stays (h : Working env first caller p done counts batches xs inserted current db)
    (hs : Stays p db db') (hstatus : db'.status p = db.status p) :
    Working env first caller p done counts batches xs inserted current db' := by
  have hview : db'.view p = db.view p := by
    funext key
    rw [view, view, hs.pending, hs.committed]
  exact ⟨hstatus.trans h.ready, h.applied.congr hs.committed (by rw [hview]),
    h.audited.congr hs.pending (by rw [hview]; exact fun _ _ => id)⟩

/-- The row of another table is inserted. -/
theorem Applied.insertOther {key : Key} {v : RowOf key}
    (h : Applied env caller p done counts xs inserted db) (hne : ∀ k, Key.observation k ≠ key)
    (hnew : db.insertNew p key v = some (b, db')) :
    Applied env caller p done counts xs inserted db' := by
  rcases insertNew_cases hnew with ⟨-, rfl, -⟩ | ⟨-, -, hl, rfl⟩
  · exact h
  · exact h.congr rfl (observations_put hne)

section

variable (hinv : Inv env rows first s)
  (hw : Working env first caller p done counts batches xs inserted current s.db)
  (hfault : healthy → o.fault = .none)

include hw hfault

/-- A statement that only reads, or locks. -/
theorem exec_quiet {α : Type} {r : Except WriteError α}
    {stmt : Option (Except WriteError (α × Database P Key RowOf))}
    (h : s.sql p o.fault stmt = some (r, s'))
    (hok : ∀ a db', stmt = some (.ok (a, db')) → Stays p s.db db' ∧ db'.status = s.db.status)
    (herror : ∀ e, stmt = some (.error e) → e = .sql ∧ ¬healthy) :
    (∃ a db', r = .ok a ∧ stmt = some (.ok (a, db')) ∧
      Working env first caller p done counts batches xs inserted current s'.db ∧
      Stays p s.db s'.db) ∨ (r = .error .sql ∧ ¬healthy) := by
  rcases sql_cases h fun e he => (herror e he).1 with ⟨rfl, hsql⟩ | ⟨a, db', rfl, ha, rfl⟩
  · exact .inr ⟨rfl, fun hh => (herror _ (hsql hw.ready (hfault hh))).2 hh⟩
  · obtain ⟨hstays, hstatus⟩ := hok a db' ha
    exact .inl ⟨a, db', rfl, ha, hw.stays hstays (by rw [hstatus]), hstays⟩

include hinv

theorem exec_insertObservation {r : Except WriteError Bool} (hcurrent : current = none)
    (h : World.exec env p (.insertObservation k row) o s = some (r, s')) (hk : k ∉ xs.map Prod.fst)
    (hstorable : healthy → env.admits row = true ∧ (rows (.series k.1)).isSome ∧
      (rows (.ingestionRun row.ingestionRunId)).isSome) :
    (∃ b, r = .ok b ∧ Working env first caller p done counts batches (xs ++ [(k, row)])
        (if b then insert k inserted else inserted) none s'.db ∧
      (∀ hashes, Sees p hashes s.db → Sees p hashes s'.db) ∧
      (b = true → Sees p [(k, row.payloadHash)] s'.db)) ∨ (r = .error .sql ∧ ¬healthy) := by
  subst hcurrent
  have hrefers : ∀ {key : Key} {b : Bool} {db' : Database P Key RowOf},
      s.db.insertNew p (.observation k) row = some (b, db') → (rows key).isSome →
      (db'.view p key).isSome := by
    intro key b db' hnew hsome
    obtain ⟨v, hv⟩ := Option.isSome_iff_exists.1 hsome
    rw [view_of_insertNew hnew (hinv.fresh.view_of_committed (hinv.kept _ _ hv))]
    rfl
  rcases sql_cases h fun e he => by
    rcases insertObservation_cases he with ⟨heq, -⟩ | ⟨b, db', heq, -⟩ <;> cases heq
    rfl with ⟨rfl, hsql⟩ | ⟨b, db', rfl, ha, rfl⟩
  · refine .inr ⟨rfl, fun hh => ?_⟩
    obtain ⟨hadmits, hseries, hrun⟩ := hstorable hh
    rcases insertObservation_cases (hsql hw.ready (hfault hh)) with
      ⟨-, hno | ⟨db', hnew, hno⟩⟩ | ⟨b, db', heq, -⟩
    · rw [hadmits] at hno
      cases hno
    · exact hno ⟨hrefers hnew hseries, hrefers hnew hrun⟩
    · cases heq
  · rcases insertObservation_cases ha with ⟨heq, -⟩ | ⟨b', db'', heq, hnew⟩
    · cases heq
    cases heq
    refine .inl ⟨b, rfl, ⟨?_, hw.applied.insertNew hnew hk,
      hw.audited.insertObservation hinv.fresh hnew⟩, fun hashes hs => hs.insertNew hnew, ?_⟩
    · rw [(status_of_insertNew hnew).1]
      exact hw.ready
    · rintro rfl
      rcases insertNew_cases hnew with ⟨hb, -, -⟩ | ⟨-, -, hl, rfl⟩
      · cases hb
      · intro x hx
        rw [List.mem_singleton] at hx
        subst hx
        exact ⟨row, view_put_self, rfl⟩

theorem exec_insertEvent {r : Except WriteError ℕ} (hcurrent : current = none)
    (h : World.exec env p (.insertEvent e) o s = some (r, s')) :
    (∃ n, r = .ok n ∧ Working env first caller p done counts batches xs inserted
        (some ⟨n, e, []⟩) s'.db ∧ ∀ hashes, Sees p hashes s.db → Sees p hashes s'.db) ∨
      (r = .error .sql ∧ ¬healthy) := by
  subst hcurrent
  obtain ⟨⟨r', s''⟩, hst, heq⟩ := Option.map_eq_some_iff.1 h
  cases heq
  rcases sql_cases hst fun e he => by
    rcases insertRow_cases he with ⟨heq, -⟩ | ⟨db', heq, -⟩ <;> cases heq
    rfl with ⟨rfl, hsql⟩ | ⟨⟨⟩, db', rfl, ha, rfl⟩
  · refine .inr ⟨rfl, fun hh => ?_⟩
    rcases insertRow_cases (hsql hw.ready (hfault hh)) with ⟨-, hsome⟩ | ⟨db', heq, -⟩
    · -- The next number is the one of no event.
      obtain ⟨v, hv⟩ := Option.isSome_iff_exists.1 hsome
      exact absurd (hinv.numbered _ _ (version_of_view hv)) (lt_irrefl s.nextEventId)
    · cases heq
  · rcases insertRow_cases ha with ⟨heq, -⟩ | ⟨db'', heq, hnew⟩
    · cases heq
    cases heq
    refine .inl ⟨_, rfl, ⟨?_, hw.applied.insertOther (by simp) hnew,
      hw.audited.insertEvent hinv.fresh hnew hinv.le⟩, fun hashes hs => hs.insertNew hnew⟩
    rw [(status_of_insertNew hnew).1]
    exact hw.ready

theorem exec_insertBatchKey {r : Except WriteError Unit}
    (hcurrent : current = some ⟨eventId, e, keys⟩)
    (h : World.exec env p (.insertBatchKey eventId k col) o s = some (r, s'))
    (hk : k ∉ keys.map Prod.fst) :
    (r = .ok () ∧ Working env first caller p done counts batches xs inserted
        (some ⟨eventId, e, keys ++ [(k, col)]⟩) s'.db ∧
      ∀ hashes, Sees p hashes s.db → Sees p hashes s'.db) ∨ (r = .error .sql ∧ ¬healthy) := by
  subst hcurrent
  rcases sql_cases h fun e he => by
    rcases insertRow_cases he with ⟨heq, -⟩ | ⟨db', heq, -⟩ <;> cases heq
    rfl with ⟨rfl, hsql⟩ | ⟨⟨⟩, db', rfl, ha, rfl⟩
  · refine .inr ⟨rfl, fun hh => ?_⟩
    rcases insertRow_cases (hsql hw.ready (hfault hh)) with ⟨-, hsome⟩ | ⟨db', heq, -⟩
    · -- The event is the writer's own, so there is no other row under the key.
      obtain ⟨v, hv⟩ := Option.isSome_iff_exists.1 hsome
      have hevent : s.db.pending p (.event eventId) = some (some e) :=
        (hw.audited.event _ _).2 ⟨_, List.mem_append_right _ (List.mem_singleton_self _), rfl, rfl⟩
      rcases view_cases hv with hp | ⟨-, hp⟩
      · obtain ⟨b, hb, hid, hmem⟩ := (hw.audited.key _ _ _).1 hp
        have hb' := List.inj_on_of_nodup_map hw.audited.nodup hb
          (List.mem_append_right _ (List.mem_singleton_self _)) hid
        subst hb'
        exact hk (List.mem_map_of_mem (f := Prod.fst) hmem)
      · have hle := hw.audited.le _ (List.mem_append_right _ (List.mem_singleton_self _))
        have hcommitted := hinv.trail.event_of_key hle hp
        rw [(hinv.fresh _ _ _ hevent).2] at hcommitted
        cases hcommitted
    · cases heq
  · rcases insertRow_cases ha with ⟨heq, -⟩ | ⟨db'', heq, hnew⟩
    · cases heq
    cases heq
    refine .inl ⟨rfl, ⟨?_, hw.applied.insertOther (by simp) hnew,
      hw.audited.insertKey hinv.fresh hnew⟩, fun hashes hs => hs.insertNew hnew⟩
    rw [(status_of_insertNew hnew).1]
    exact hw.ready

end

end

end

end Writing

end Timeseries

end AslanCore
