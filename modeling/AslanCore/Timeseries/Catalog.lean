import AslanCore.Timeseries.Rows

/-!
# The catalog among many writers

Every writer has a transaction, in which it makes one call of `upsert_series` after the other.
A call is made of steps, between which other writers take theirs: it reads the row of its
code, and later inserts it, or reconciles it with what it read; when another writer was faster
to insert it, it reads again. A row that was written is locked until its writer commits, or is
rolled back; the others read the row that was committed before.

* `Catalog`, `Step`, `Reachable`: the catalog, its steps, and the catalogs that are reached by
  steps that meet a condition;
* `Sound`: what holds of every catalog that is reached (`sound_of_reachable`);
* `Effect`: what a step does to a catalog that is sound (`effect_of_step`).
-/

namespace AslanCore.Timeseries

/-- Where a call is, between its statements. -/
inductive Phase
  /-- It found no row. -/
  | fresh (caller : Caller) (call : SeriesCall)
  /-- The insertion found a row. -/
  | lost (caller : Caller) (call : SeriesCall)
  /-- It read a row. -/
  | reconcile (caller : Caller) (call : SeriesCall) (existing : SeriesRow)

def Phase.caller : Phase → Caller
  | fresh caller _ => caller
  | lost caller _ => caller
  | reconcile caller _ _ => caller

def Phase.call : Phase → SeriesCall
  | fresh _ call => call
  | lost _ call => call
  | reconcile _ call _ => call

/-- The rows that are committed, the tables with all that was written, the writers that hold
    the lock of a row, and the calls that are in progress. -/
structure Catalog where
  committed : String → Option SeriesRow
  store : Store
  owner : String → Option ℕ
  phase : ℕ → Option Phase

namespace Catalog

/-- No rows, and no calls. -/
def empty : Catalog where
  committed _ := none
  store := { series := fun _ => none, subjects := [], events := [], nextId := 1 }
  owner _ := none
  phase _ := none

variable (c : Catalog)

/-- The rows that a writer reads: those that it wrote itself, or else the committed ones. -/
def visible (x : ℕ) (code : String) : Option SeriesRow :=
  if c.owner code = some x then c.store.series code else c.committed code

/-- No other writer holds the lock of the row. -/
def Free (x : ℕ) (code : String) : Prop := c.owner code = none ∨ c.owner code = some x

/-- No other writer is about to insert one of the subjects: the insertion would wait for it. -/
def FreeSubjects (x : ℕ) (seriesId : ℤ) (refs : List SubjectRef) : Prop :=
  ∀ s ∈ c.store.subjects, s.seriesId = seriesId → s.ref ∈ refs → s.tx = none ∨ s.tx = some x

def setPhase (x : ℕ) (phase : Option Phase) : Catalog :=
  { c with phase := Function.update c.phase x phase }

/-- The rows that have the number of the series are locked. -/
def lockSeries (x : ℕ) (seriesId : ℤ) : Catalog :=
  { c with
    owner := fun code =>
      if (c.store.series code).any fun row => row.seriesId = seriesId then some x else c.owner code }

def closeTx (x : ℕ) (tx : Option ℕ) : Option ℕ := if tx = some x then none else tx

/-- What a writer wrote is there for all. -/
def commit (x : ℕ) : Catalog where
  committed := c.visible x
  store := { c.store with
    subjects := c.store.subjects.map fun s => { s with tx := closeTx x s.tx }
    events := c.store.events.map fun e => { e with tx := closeTx x e.tx } }
  owner code := closeTx x (c.owner code)
  phase := c.phase

/-- What a writer wrote is undone, but for the number that the sequence has given away. -/
def abort (x : ℕ) : Catalog where
  committed := c.committed
  store := { c.store with
    series := fun code => if c.owner code = some x then c.committed code else c.store.series code
    subjects := c.store.subjects.filter fun s => s.tx ≠ some x
    events := c.store.events.filter fun e => e.tx ≠ some x }
  owner code := closeTx x (c.owner code)
  phase := Function.update c.phase x none

end Catalog

inductive Action
  | look (x : ℕ) (caller : Caller) (call : SeriesCall)
  | insert (x : ℕ)
  | lookAgain (x : ℕ)
  | reconcile (x : ℕ)
  | raise (x : ℕ)
  | commit (x : ℕ)
  | abort (x : ℕ)

/-- What follows when a row, or none, was read. -/
def afterLook (caller : Caller) (call : SeriesCall) : Option SeriesRow → Phase
  | none => .fresh caller call
  | some existing => .reconcile caller call existing

@[simp]
theorem afterLook_caller {caller : Caller} {call : SeriesCall} {row : Option SeriesRow} :
    (afterLook caller call row).caller = caller := by
  cases row <;> rfl

@[simp]
theorem afterLook_call {caller : Caller} {call : SeriesCall} {row : Option SeriesRow} :
    (afterLook caller call row).call = call := by
  cases row <;> rfl

/-- A step of a writer. A statement that waits for another writer is a step once the wait is
    over. A call that raises has no effect, or else its transaction is undone. -/
inductive Step (env : SeriesEnv) : Catalog → Action → Catalog → Prop
  | look {c : Catalog} {x : ℕ} {caller : Caller} {call : SeriesCall} {row : Option SeriesRow}
      (idle : c.phase x = none) (check : checkCall env caller call = .ok ())
      (read : selectSeries (c.visible x) call.seriesCode = .ok row) :
      Step env c (.look x caller call) (c.setPhase x (some (afterLook caller call row)))
  | insert {c : Catalog} {x : ℕ} {caller : Caller} {call : SeriesCall} {now : Timestamp}
      {result : SeriesUpsertResult} {st : Store}
      (phase : c.phase x = some (.fresh caller call)) (freeRow : c.Free x call.seriesCode)
      (free : c.FreeSubjects x c.store.nextId call.subjects)
      (does : upsertSeriesFresh env caller (some x) now call c.store = .ok (some (result, st))) :
      Step env c (.insert x)
        { c.setPhase x none with
          store := st
          owner := Function.update c.owner call.seriesCode (some x) }
  | lose {c : Catalog} {x : ℕ} {caller : Caller} {call : SeriesCall} {now : Timestamp}
      (phase : c.phase x = some (.fresh caller call)) (freeRow : c.Free x call.seriesCode)
      (does : upsertSeriesFresh env caller (some x) now call c.store = .ok none) :
      Step env c (.insert x) (c.setPhase x (some (.lost caller call)))
  | lookAgain {c : Catalog} {x : ℕ} {caller : Caller} {call : SeriesCall} {existing : SeriesRow}
      (phase : c.phase x = some (.lost caller call))
      (read : selectSeries (c.visible x) call.seriesCode = .ok (some existing)) :
      Step env c (.lookAgain x) (c.setPhase x (some (.reconcile caller call existing)))
  | hit {c : Catalog} {x : ℕ} {caller : Caller} {call : SeriesCall} {existing : SeriesRow}
      {now : Timestamp} {obsCount : ℤ → ℕ} {result : SeriesUpsertResult} {st : Store}
      (phase : c.phase x = some (.reconcile caller call existing))
      (same : sameFields existing call.fields = true)
      (free : c.FreeSubjects x existing.seriesId call.subjects)
      (does : reconcileExisting env caller (some x) now obsCount existing call c.store =
        .ok (result, st)) :
      Step env c (.reconcile x) { c.setPhase x none with store := st }
  | update {c : Catalog} {x : ℕ} {caller : Caller} {call : SeriesCall} {existing : SeriesRow}
      {now : Timestamp} {obsCount : ℤ → ℕ} {result : SeriesUpsertResult} {st : Store}
      (phase : c.phase x = some (.reconcile caller call existing))
      (same : sameFields existing call.fields = false)
      (freeRow : ∀ code row, c.store.series code = some row → row.seriesId = existing.seriesId →
        c.Free x code)
      (free : c.FreeSubjects x existing.seriesId call.subjects)
      (does : reconcileExisting env caller (some x) now obsCount existing call c.store =
        .ok (result, st)) :
      Step env c (.reconcile x)
        { (c.lockSeries x existing.seriesId).setPhase x none with store := st }
  | raise {c : Catalog} {x : ℕ} : Step env c (.raise x) (c.setPhase x none)
  | commit {c : Catalog} {x : ℕ} (idle : c.phase x = none) : Step env c (.commit x) (c.commit x)
  | abort {c : Catalog} {x : ℕ} : Step env c (.abort x) (c.abort x)

/-- The catalogs that are reached from the empty one by steps that meet a condition. -/
inductive Reachable (env : SeriesEnv) (Allowed : Catalog → Action → Prop) : Catalog → Prop
  | empty : Reachable env Allowed .empty
  | step {c c' : Catalog} {a : Action} (reached : Reachable env Allowed c) (allowed : Allowed c a)
      (step : Step env c a c') : Reachable env Allowed c'

/-! ### What holds of every catalog -/

/-- Rows have the code they are found under, and numbers of their own; a row that is committed
    is not lost, one that nobody holds is committed, and a call that read a row finds it. -/
structure Sound (c : Catalog) : Prop where
  keyed : c.store.Keyed
  code : ∀ {code row}, c.committed code = some row → row.seriesCode = code
  free : ∀ {code}, c.owner code = none → c.store.series code = c.committed code
  kept : ∀ {code row}, c.committed code = some row →
    ∃ row', c.store.series code = some row' ∧ row'.seriesId = row.seriesId
  found : ∀ {x caller call existing}, c.phase x = some (.reconcile caller call existing) →
    ∃ row, c.visible x call.seriesCode = some row ∧ row.seriesId = existing.seriesId

/-- A writer writes the row of a code, under its lock. -/
structure RowWritten (x : ℕ) (code : String) (row : SeriesRow) (c c' : Catalog) : Prop where
  freeRow : c.Free x code
  committed : c'.committed = c.committed
  written : Store.Written code row c.store c'.store
  owner : c'.owner = Function.update c.owner code (some x)
  phase : c'.phase = Function.update c.phase x none

variable {env : SeriesEnv} {c c' : Catalog} {a : Action} {x y : ℕ} {code : String}
  {row row' : SeriesRow} {caller : Caller} {call : SeriesCall}

theorem Catalog.closeTx_eq_some_iff {tx : Option ℕ} :
    Catalog.closeTx x tx = some y ↔ tx = some y ∧ y ≠ x := by
  rw [Catalog.closeTx]
  split_ifs with htx
  · subst htx
    simp
    exact fun h => h.symm
  · exact ⟨fun h => ⟨h, fun hxy => htx (hxy ▸ h)⟩, fun h => h.1⟩

theorem Catalog.closeTx_eq_none_iff {tx : Option ℕ} :
    Catalog.closeTx x tx = none ↔ tx = none ∨ tx = some x := by
  rw [Catalog.closeTx]
  split_ifs with htx
  · simp [htx]
  · simp [htx]

namespace Sound

/-- The row that a writer reads has the number of the newest one. -/
theorem visible_kept (h : Sound c) (hrow : c.visible x code = some row) :
    ∃ row', c.store.series code = some row' ∧ row'.seriesId = row.seriesId := by
  rw [Catalog.visible] at hrow
  split_ifs at hrow
  · exact ⟨row, hrow, rfl⟩
  · exact h.kept hrow

theorem setPhase (h : Sound c) {p : Option Phase}
    (hp : ∀ {caller call existing}, p = some (.reconcile caller call existing) →
      ∃ row, c.visible x call.seriesCode = some row ∧ row.seriesId = existing.seriesId) :
    Sound (c.setPhase x p) where
  keyed := h.keyed
  code := h.code
  free := h.free
  kept := h.kept
  found {y caller call existing} hy := by
    by_cases hxy : y = x
    · subst hxy
      simp only [Catalog.setPhase, Function.update_self] at hy
      exact hp hy
    · simp only [Catalog.setPhase, Function.update_of_ne hxy] at hy
      exact h.found hy

/-- The rows are the same. -/
theorem congr (h : Sound c) (hcommitted : c'.committed = c.committed)
    (hseries : c'.store.series = c.store.series) (hnextId : c'.store.nextId = c.store.nextId)
    (howner : c'.owner = c.owner) (hphase : c'.phase = c.phase) : Sound c' where
  keyed := h.keyed.congr hseries hnextId
  code := hcommitted ▸ h.code
  free := hseries ▸ hcommitted ▸ howner ▸ h.free
  kept := hseries ▸ hcommitted ▸ h.kept
  found hp := by
    simp only [Catalog.visible, hseries, hcommitted, howner]
    exact h.found (hphase ▸ hp)

theorem rowWritten (h : Sound c) (hw : RowWritten x code row c c') : Sound c' where
  keyed := h.keyed.written hw.written
  code := hw.committed ▸ h.code
  free {code'} howner := by
    rw [hw.owner] at howner
    by_cases hcode : code' = code
    · subst hcode
      rw [Function.update_self] at howner
      cases howner
    · rw [Function.update_of_ne hcode] at howner
      rw [hw.written.series_of_ne hcode, hw.committed]
      exact h.free howner
  kept {code' row'} hrow' := by
    rw [hw.committed] at hrow'
    obtain ⟨row₁, hrow₁, hid⟩ := h.kept hrow'
    by_cases hcode : code' = code
    · subst hcode
      refine ⟨row, hw.written.series_self, ?_⟩
      rcases hw.written.number with ⟨hnone, _⟩ | ⟨row₀, hrow₀, hold, _⟩
      · rw [hnone] at hrow₁
        cases hrow₁
      · rw [hrow₀] at hrow₁
        rw [hold, Option.some.inj hrow₁, hid]
    · exact ⟨row₁, (hw.written.series_of_ne hcode).trans hrow₁, hid⟩
  found {y caller call existing} hy := by
    rw [hw.phase] at hy
    by_cases hxy : y = x
    · subst hxy
      rw [Function.update_self] at hy
      cases hy
    rw [Function.update_of_ne hxy] at hy
    obtain ⟨row₁, hrow₁, hid⟩ := h.found hy
    refine ⟨row₁, ?_, hid⟩
    -- The others still read the row that is committed.
    rw [Catalog.visible] at hrow₁ ⊢
    rw [hw.owner, hw.committed]
    by_cases hcode : call.seriesCode = code
    · subst hcode
      rw [Function.update_self, if_neg fun heq => hxy (Option.some.inj heq).symm]
      rcases hw.freeRow with hfree | hfree
      · rwa [hfree, if_neg nofun] at hrow₁
      · rwa [hfree, if_neg fun heq => hxy (Option.some.inj heq).symm] at hrow₁
    · rwa [Function.update_of_ne hcode, hw.written.series_of_ne hcode]

theorem commit (h : Sound c) : Sound (c.commit x) where
  keyed := h.keyed.congr rfl rfl
  code {code row} hrow := by
    obtain hrow | hrow : c.store.series code = some row ∨ c.committed code = some row := by
      simp only [Catalog.commit, Catalog.visible] at hrow
      split_ifs at hrow
      · exact .inl hrow
      · exact .inr hrow
    · exact h.keyed.code hrow
    · exact h.code hrow
  free {code} howner := by
    simp only [Catalog.commit, Catalog.visible]
    split_ifs with hx
    · rfl
    · exact h.free ((Catalog.closeTx_eq_none_iff.1 howner).resolve_right hx)
  kept {code row} hrow := h.visible_kept hrow
  found {y caller call existing} hy := by
    obtain ⟨row, hrow, hid⟩ := h.found hy
    simp only [Catalog.visible, Catalog.commit, Catalog.closeTx_eq_some_iff]
    rw [Catalog.visible] at hrow
    by_cases hx : c.owner call.seriesCode = some x
    · -- What `x` wrote has the number of the row that was committed before.
      rw [hx]
      rw [if_neg fun hxy => hxy.2 (Option.some.inj hxy.1).symm, if_pos rfl]
      rw [hx] at hrow
      split_ifs at hrow
      · exact ⟨row, hrow, hid⟩
      · obtain ⟨row', hrow', hid'⟩ := h.kept hrow
        exact ⟨row', hrow', hid'.trans hid⟩
    · refine ⟨row, ?_, hid⟩
      rw [if_neg hx]
      split_ifs at hrow with hy
      · rwa [if_pos ⟨hy, fun hyx => hx (hyx ▸ hy)⟩]
      · rwa [if_neg fun hxy => hy hxy.1]

theorem abort_kept (h : Sound c) (hrow : (c.abort x).store.series code = some row) :
    ∃ row', c.store.series code = some row' ∧ row'.seriesId = row.seriesId := by
  simp only [Catalog.abort] at hrow
  split_ifs at hrow
  · exact h.kept hrow
  · exact ⟨row, hrow, rfl⟩

theorem abort (h : Sound c) : Sound (c.abort x) where
  keyed := {
    code := fun {code row} hrow => by
      simp only [Catalog.abort] at hrow
      split_ifs at hrow
      · exact h.code hrow
      · exact h.keyed.code hrow
    unique := fun {code code' row row'} hrow hrow' hid => by
      obtain ⟨row₀, hrow₀, hid₀⟩ := h.abort_kept hrow
      obtain ⟨row₁, hrow₁, hid₁⟩ := h.abort_kept hrow'
      exact h.keyed.unique hrow₀ hrow₁ (hid₀.trans (hid.trans hid₁.symm))
    lt := fun {code row} hrow => by
      obtain ⟨row₀, hrow₀, hid₀⟩ := h.abort_kept hrow
      exact hid₀ ▸ h.keyed.lt hrow₀ }
  code := h.code
  free {code} howner := by
    simp only [Catalog.abort]
    split_ifs with hx
    · rfl
    · exact h.free ((Catalog.closeTx_eq_none_iff.1 howner).resolve_right hx)
  kept {code row} hrow := by
    simp only [Catalog.abort]
    split_ifs with hx
    · exact ⟨row, hrow, rfl⟩
    · exact h.kept hrow
  found {y caller call existing} hy := by
    simp only [Catalog.abort] at hy
    by_cases hxy : y = x
    · subst hxy
      rw [Function.update_self] at hy
      cases hy
    rw [Function.update_of_ne hxy] at hy
    obtain ⟨row, hrow, hid⟩ := h.found hy
    refine ⟨row, ?_, hid⟩
    simp only [Catalog.visible, Catalog.abort, Catalog.closeTx_eq_some_iff]
    rw [Catalog.visible] at hrow
    split_ifs at hrow with howner
    · rw [if_pos ⟨howner, hxy⟩, if_neg fun hx => hxy (Option.some.inj (howner.symm.trans hx))]
      exact hrow
    · rwa [if_neg fun hx => howner hx.1]

theorem lockSeries_owner {seriesId : ℤ} (h : Sound c) (hrow : c.store.series code = some row)
    (hid : row.seriesId = seriesId) :
    (c.lockSeries x seriesId).owner = Function.update c.owner code (some x) := by
  funext code'
  simp only [Catalog.lockSeries]
  by_cases hcode : code' = code
  · subst hcode
    rw [Function.update_self, hrow, Option.any_some, decide_eq_true hid, if_pos rfl]
  · rw [Function.update_of_ne hcode]
    cases hrow' : c.store.series code' with
    | none => rfl
    | some row' =>
      rw [Option.any_some, if_neg]
      exact fun hid' => hcode (h.keyed.unique hrow' hrow ((of_decide_eq_true hid').trans hid.symm))

end Sound

/-! ### What a step does -/

/-- The event of a row that is written. -/
inductive Recorded (c : Catalog) (x : ℕ) (caller : Caller) (call : SeriesCall) (row : SeriesRow) :
    SeriesEvent → Prop
  | upsert {e : SeriesEvent} (absent : c.store.series call.seriesCode = none)
      (operation : e.operation = .upsert)
      (after : e.after = some (shortPayload row.seriesId call.seriesCode
        (call.fields.withMetadata row.metadata))) :
      Recorded c x caller call row e
  | update {e : SeriesEvent} {existing row₀ : SeriesRow}
      (phase : c.phase x = some (.reconcile caller call existing))
      (same : sameFields existing call.fields = false)
      (present : c.store.series call.seriesCode = some row₀)
      (number : row.seriesId = existing.seriesId)
      (operation : e.operation = .update)
      (before : e.before = some (beforePayload existing call.seriesCode))
      (after : e.after = some (afterPayload (beforePayload existing call.seriesCode)
        (call.fields.withMetadata row.metadata))) :
      Recorded c x caller call row e

/-- A call writes its row, its subjects and its event. -/
structure Wrote (env : SeriesEnv) (x : ℕ) (caller : Caller) (call : SeriesCall) (row : SeriesRow)
    (c c' : Catalog) : Prop extends RowWritten x call.seriesCode row c c' where
  calls : ∃ p, c.phase x = some p ∧ p.caller = caller ∧ p.call = call
  encoded : storeFields call.fields = .ok row.toSeriesFields
  free : c.FreeSubjects x row.seriesId call.subjects
  subset : ∀ s ∈ c.store.subjects, s ∈ c'.store.subjects
  covered : ∀ ref ∈ call.subjects, ∃ s ∈ c'.store.subjects, s.seriesId = row.seriesId ∧
    s.ref = ref ∧ (s.tx = none ∨ s.tx = some x)
  event : ∃ e, c'.store.events = c.store.events ++ [e] ∧ e.targetPk = row.seriesId ∧
    e.tx = some x ∧ Recorded c x caller call row e

/-- What a step does to the tables of a sound catalog. -/
inductive Effect (env : SeriesEnv) (c : Catalog) : Action → Catalog → Prop
  | phase {a : Action} {x : ℕ} {p : Option Phase} : Effect env c a (c.setPhase x p)
  | hit {x : ℕ} {caller : Caller} {call : SeriesCall} {existing : SeriesRow} {st : Store}
      (phase : c.phase x = some (.reconcile caller call existing))
      (does : Hit caller (some x) existing call c.store st) :
      Effect env c (.reconcile x) { c.setPhase x none with store := st }
  | insert {x : ℕ} {caller : Caller} {call : SeriesCall} {row : SeriesRow} {c' : Catalog}
      (wrote : Wrote env x caller call row c c')
      (absent : c.store.series call.seriesCode = none) : Effect env c (.insert x) c'
  | update {x : ℕ} {caller : Caller} {call : SeriesCall} {row : SeriesRow} {c' : Catalog}
      (wrote : Wrote env x caller call row c c')
      (present : c.store.series call.seriesCode ≠ none) : Effect env c (.reconcile x) c'
  | commit {x : ℕ} : Effect env c (.commit x) (c.commit x)
  | abort {x : ℕ} : Effect env c (.abort x) (c.abort x)

/-- The subjects of a call are there, and nobody else can undo them. -/
theorem covered_of_persisted {seriesId : ℤ} {refs : List SubjectRef} {actor : Option Actor}
    {st st' : Store} (h : Persisted (some x) actor seriesId refs st st')
    (hfree : ∀ s ∈ st.subjects, s.seriesId = seriesId → s.ref ∈ refs → s.tx = none ∨ s.tx = some x) :
    ∀ ref ∈ refs, ∃ s ∈ st'.subjects, s.seriesId = seriesId ∧ s.ref = ref ∧
      (s.tx = none ∨ s.tx = some x) := by
  intro ref href
  obtain ⟨s, hs, hid, hsref⟩ := h.covered ref href
  refine ⟨s, hs, hid, hsref, ?_⟩
  rcases h.origin s hs with hold | ⟨_, _, _, htx⟩
  · exact hfree s hold hid (hsref ▸ href)
  · exact .inr htx

/-- A call that inserts its row. -/
theorem wrote_of_inserted {now : Timestamp} {stored : SeriesFields Jsonb} {st : Store}
    (hphase : c.phase x = some (.fresh caller call)) (hfreeRow : c.Free x call.seriesCode)
    (hfree : c.FreeSubjects x c.store.nextId call.subjects)
    (h : Inserted env caller (some x) now call stored c.store st) :
    Wrote env x caller call (freshRow caller now c.store.nextId call.seriesCode stored) c
      { c.setPhase x none with
        store := st, owner := Function.update c.owner call.seriesCode (some x) } := by
  have hwritten := written_of_inserted h
  obtain ⟨hencoded, habsent, st₁, hst₁, rfl⟩ := h
  have hcovered := covered_of_persisted hst₁ hfree
  exact {
    freeRow := hfreeRow
    committed := rfl
    written := hwritten
    owner := rfl
    phase := rfl
    calls := ⟨_, hphase, rfl, rfl⟩
    encoded := hencoded
    free := hfree
    subset := hst₁.subset
    covered := hcovered
    event := ⟨_, congrArg (· ++ _) hst₁.events, rfl, rfl, .upsert habsent rfl rfl⟩ }

/-- A call that updates its row. -/
theorem wrote_of_fieldChanged {now : Timestamp} {stored : SeriesFields Jsonb} {st : Store}
    {existing : SeriesRow} (h : Sound c) (hphase : c.phase x = some (.reconcile caller call existing))
    (hsame : sameFields existing call.fields = false)
    (hfreeRow : ∀ code row, c.store.series code = some row → row.seriesId = existing.seriesId →
      c.Free x code)
    (hfree : c.FreeSubjects x existing.seriesId call.subjects)
    (hchanged : FieldChanged env caller (some x) now existing call stored c.store st) :
    c.store.series call.seriesCode ≠ none ∧ ∃ row, Wrote env x caller call row c
      { (c.lockSeries x existing.seriesId).setPhase x none with store := st } := by
  obtain ⟨row, hrow, hid⟩ := h.found hphase
  obtain ⟨row₀, hrow₀, hid₀⟩ := h.visible_kept hrow
  have hnumber : row₀.seriesId = existing.seriesId := hid₀.trans hid
  have hwritten := written_of_fieldChanged h.keyed hrow₀ hnumber hchanged
  obtain ⟨hencoded, st₁, hst₁, rfl⟩ := hchanged
  have hcovered := covered_of_persisted hst₁ hfree
  refine ⟨by rw [hrow₀]; exact Option.some_ne_none _, changedRow caller now stored row₀, {
    freeRow := hfreeRow _ _ hrow₀ hnumber
    committed := rfl
    written := hwritten
    owner := h.lockSeries_owner hrow₀ hnumber
    phase := rfl
    calls := ⟨_, hphase, rfl, rfl⟩
    encoded := hencoded
    free := fun s hs hsid => hfree s hs (hsid.trans hnumber)
    subset := hst₁.subset
    covered := fun ref href => ?_
    event := ⟨_, congrArg (· ++ _) hst₁.events, hnumber.symm, rfl,
      .update hphase hsame hrow₀ hnumber rfl rfl rfl⟩ }⟩
  obtain ⟨s, hs, hsid, hsref⟩ := hcovered ref href
  exact ⟨s, hs, hsid.trans hnumber.symm, hsref⟩

theorem effect_of_step (h : Sound c) (hs : Step env c a c') : Effect env c a c' := by
  rcases hs with _ | ⟨hphase, hfreeRow, hfree, hdoes⟩ | _ | _ | ⟨hphase, hsame, hfree, hdoes⟩ |
    ⟨hphase, hsame, hfreeRow, hfree, hdoes⟩ | _ | _ | _
  · exact .phase
  · obtain ⟨-, stored, hinserted⟩ := upsertSeriesFresh_eq_ok hdoes
    exact .insert (wrote_of_inserted hphase hfreeRow hfree hinserted) hinserted.absent
  · exact .phase
  · exact .phase
  · rcases (reconcileExisting_eq_ok hdoes).2 with hhit | ⟨hsame', _⟩
    · exact .hit hphase hhit
    · rw [hsame] at hsame'
      cases hsame'
  · rcases (reconcileExisting_eq_ok hdoes).2 with hhit | ⟨-, stored, hchanged⟩
    · rw [hhit.same] at hsame
      cases hsame
    · obtain ⟨hpresent, row, hwrote⟩ :=
        wrote_of_fieldChanged h hphase hsame hfreeRow hfree hchanged
      exact .update hwrote hpresent
  · exact .phase
  · exact .commit
  · exact .abort

/-- A call that read a row reconciles it with this row. -/
theorem found_afterLook {caller' : Caller} {call' : SeriesCall} {existing : SeriesRow}
    (hp : some (afterLook caller call (c.visible x call.seriesCode)) =
      some (.reconcile caller' call' existing)) :
    ∃ row, c.visible x call'.seriesCode = some row ∧ row.seriesId = existing.seriesId := by
  cases hrow : c.visible x call.seriesCode with
  | none =>
    rw [hrow] at hp
    cases hp
  | some row =>
    rw [hrow] at hp
    cases hp
    exact ⟨_, hrow, rfl⟩

theorem sound_step (h : Sound c) (hs : Step env c a c') : Sound c' := by
  rcases hs with ⟨_, _, hread⟩ | ⟨hphase, hfreeRow, hfree, hdoes⟩ | _ | ⟨_, hread⟩ |
    ⟨_, hsame, _, hdoes⟩ | ⟨hphase, hsame, hfreeRow, hfree, hdoes⟩ | _ | _ | _
  · obtain ⟨-, rfl⟩ := selectSeries_eq_ok_iff.1 hread
    exact h.setPhase found_afterLook
  · obtain ⟨-, stored, hinserted⟩ := upsertSeriesFresh_eq_ok hdoes
    exact h.rowWritten (wrote_of_inserted hphase hfreeRow hfree hinserted).toRowWritten
  · exact h.setPhase nofun
  · obtain ⟨-, hrow⟩ := selectSeries_eq_ok_iff.1 hread
    exact h.setPhase fun hp => by cases hp; exact ⟨_, hrow.symm, rfl⟩
  · rcases (reconcileExisting_eq_ok hdoes).2 with ⟨-, st₁, hst₁, rfl⟩ | ⟨hsame', _⟩
    · exact (h.setPhase fun hp => by cases hp).congr rfl hst₁.series hst₁.nextId rfl rfl
    · rw [hsame] at hsame'
      cases hsame'
  · rcases (reconcileExisting_eq_ok hdoes).2 with hhit | ⟨-, stored, hchanged⟩
    · rw [hhit.same] at hsame
      cases hsame
    · obtain ⟨-, row, hwrote⟩ := wrote_of_fieldChanged h hphase hsame hfreeRow hfree hchanged
      exact h.rowWritten hwrote.toRowWritten
  · exact h.setPhase nofun
  · exact h.commit
  · exact h.abort

/-! ### What holds of every catalog that is reached -/

variable {Allowed : Catalog → Action → Prop}

theorem sound_of_reachable (h : Reachable env Allowed c) : Sound c := by
  induction h with
  | empty => exact ⟨⟨nofun, nofun, nofun⟩, nofun, fun _ => rfl, nofun, nofun⟩
  | step _ _ hs ih => exact sound_step ih hs

/-- The calls in progress have a property. -/
def Passed (P : Caller → SeriesCall → Prop) (c : Catalog) : Prop :=
  ∀ x p, c.phase x = some p → P p.caller p.call

section Passed

variable {P : Caller → SeriesCall → Prop}

theorem Passed.setPhase (h : Passed P c) {q : Phase} (hq : P q.caller q.call) :
    Passed P (c.setPhase x (some q)) := by
  intro y p hp
  simp only [Catalog.setPhase, Function.update_apply] at hp
  split_ifs at hp
  · exact Option.some.inj hp ▸ hq
  · exact h y p hp

theorem Passed.clear (h : Passed P c) (hphase : c'.phase = Function.update c.phase x none) :
    Passed P c' := by
  intro y p hp
  rw [hphase, Function.update_apply] at hp
  split_ifs at hp
  exact h y p hp

/-- A call in progress has passed the checks, and what holds of the calls that are made holds
    of it. -/
theorem passed_of_reachable
    (hP : ∀ {c x caller call}, Allowed c (.look x caller call) → P caller call)
    (h : Reachable env Allowed c) :
    Passed (fun caller call => checkCall env caller call = .ok () ∧ P caller call) c := by
  induction h with
  | empty =>
    intro x p hp
    cases hp
  | step _ hallowed hs ih =>
    rcases hs with ⟨_, hcheck, _⟩ | _ | ⟨hphase, _, _⟩ | ⟨hphase, _⟩ | _ | _ | _ | _ | _
    · refine ih.setPhase ?_
      rw [afterLook_caller, afterLook_call]
      exact ⟨hcheck, hP hallowed⟩
    · exact ih.clear rfl
    · have hp := ih _ _ hphase
      exact ih.setPhase hp
    · have hp := ih _ _ hphase
      exact ih.setPhase hp
    · exact ih.clear rfl
    · exact ih.clear rfl
    · exact ih.clear rfl
    · exact ih
    · exact ih.clear rfl

end Passed

end AslanCore.Timeseries
