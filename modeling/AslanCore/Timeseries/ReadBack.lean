import Mathlib.Data.Prod.Lex
import Mathlib.Data.String.Basic
import AslanCore.Store.DistinctOn
import AslanCore.Timeseries.Rows

/-!
# Reading a series back

`get_series` returns the row of a code, with its subjects. After calls of `upsert_series`, one
after the other, it should return what the last call for the code was given, and the subjects
of all of them.

A call that finds the same fields does not write the row. It compares as Python does, for which
`True` is `1`, but these are different as JSON: then the metadata that are read back are not
those of the call. Nor does the column of the currency return a code that is not of three
characters, or the schema a series with an empty code. Those are all the exceptions
(`run_faithful_iff`).
-/

namespace AslanCore.Timeseries

def SubjectRole.text : SubjectRole → String
  | dataSubject => "data_subject"
  | reporter => "reporter"
  | beneficialOwner => "beneficial_owner"
  | insider => "insider"
  | executive => "executive"
  | boardMember => "board_member"
  | other => "other"

/-- A series that is read back. Its metadata are the document that is read. -/
structure Series extends SeriesFields Jsonb where
  seriesId : ℤ
  seriesCode : String
  subjects : List SubjectRef
  createdAt : Timestamp
  updatedAt : Timestamp

/-- `ObservationReader.get_series`. The schema refuses an empty code. -/
def getSeries (st : Store) (code : String) : Except SeriesError (Option Series) := do
  match ← selectSeries st.series code with
  | none => return none
  | some row =>
    if row.seriesCode = "" then throw .refused
    let subjects := st.subjects.filter fun s => s.seriesId = row.seriesId
    let sorted := orderBy (fun s => toLex (s.ref.subjectId, s.ref.role.text)) subjects
    return some { row with subjects := sorted.map SubjectRow.ref }

/-- The tables without rows. -/
def Store.empty : Store where
  series _ := none
  subjects := []
  events := []
  nextId := 1

/-- The calls that succeeded, one after the other, and the tables after them, where a condition
    holds of every call. -/
inductive Run (env : SeriesEnv) (Allowed : List SeriesCall → Store → SeriesCall → Store → Prop) :
    List SeriesCall → Store → Prop
  | nil : Run env Allowed [] .empty
  | call {calls : List SeriesCall} {caller : Caller} {now : Timestamp} {obsCount : ℤ → ℕ}
      {call : SeriesCall} {result : SeriesUpsertResult} {st st' : Store}
      (run : Run env Allowed calls st)
      (does : upsertSeries env caller none now obsCount call st = .ok (result, st'))
      (allowed : Allowed calls st call st') : Run env Allowed (calls ++ [call]) st'

/-- The last call for a code. -/
def lastCall (code : String) (calls : List SeriesCall) : Option SeriesCall :=
  (calls.filter fun call => call.seriesCode = code).getLast?

/-- A document is equal to metadata as JSON. -/
def SameJson (j : Jsonb) (metadata : PyDict) : Prop :=
  ∃ j', (PyValue.dict metadata).jsonb = some j' ∧ j.norm = j'.norm

/-- The fields are those of the call. -/
def HoldsCall (fields : SeriesFields Jsonb) (call : SeriesCall) : Prop :=
  fields.withMetadata () = call.fields.withMetadata () ∧ SameJson fields.metadata call.fields.metadata

/-- Every code is read back with the fields of its last call, and the subjects of all. -/
def ReadsYourWrites (calls : List SeriesCall) (st : Store) : Prop :=
  ∀ code call, lastCall code calls = some call → ∃ series, getSeries st code = .ok (some series) ∧
    series.seriesCode = code ∧ HoldsCall series.toSeriesFields call ∧
    ∀ ref, ref ∈ series.subjects ↔ ∃ call' ∈ calls, call'.seriesCode = code ∧ ref ∈ call'.subjects

/-- What is stored for a call can be read back: where all fields are the same as Python compares
    them, the metadata are equal as JSON, and otherwise the currency fits its column. -/
structure Faithful (st : Store) (call : SeriesCall) : Prop where
  code : call.seriesCode ≠ ""
  same : ∀ existing, st.series call.seriesCode = some existing →
    sameFields existing call.fields = true → SameJson existing.metadata call.fields.metadata
  other : (∀ existing, st.series call.seriesCode = some existing →
    sameFields existing call.fields = false) → ∀ s ∈ call.currencyCode, char3 s = some s

variable {env : SeriesEnv} {caller : Caller} {tx : Option ℕ} {now : Timestamp} {obsCount : ℤ → ℕ}
  {existing row : SeriesRow} {call : SeriesCall} {calls : List SeriesCall} {st st' : Store}
  {result : SeriesUpsertResult} {stored : SeriesFields Jsonb} {code : String}
  {Allowed : List SeriesCall → Store → SeriesCall → Store → Prop}

/-! ### Fields -/

theorem eq_of_sameFields (h : sameFields existing call.fields = true) :
    existing.withMetadata () = call.fields.withMetadata () := by
  simp only [sameFields, decide_eq_true_eq] at h
  obtain ⟨h₁, h₂, h₃, h₄, h₅, h₆, h₇, h₈, h₉, h₁₀, h₁₁, h₁₂, -⟩ := h
  simp only [SeriesFields.withMetadata, h₁, h₂, h₃, h₄, h₅, h₆, h₇, h₈, h₉, h₁₀, h₁₁, h₁₂]

/-- A row that is not written holds the call if the metadata are equal as JSON. -/
theorem holdsCall_of_same (h : sameFields existing call.fields = true) :
    HoldsCall existing.toSeriesFields call ↔
      SameJson existing.metadata call.fields.metadata :=
  and_iff_right (eq_of_sameFields h)

/-- A row that is written holds the call if its column returns the currency. -/
theorem holdsCall_of_storeFields (h : storeFields call.fields = .ok stored) :
    HoldsCall stored call ↔ ∀ s ∈ call.currencyCode, char3 s = some s := by
  obtain ⟨j, hj, hfits, rfl⟩ := storeFields_eq_ok h
  have hjson : SameJson j call.fields.metadata := ⟨j, hj, rfl⟩
  have hcurrency : call.fields.currencyCode = call.currencyCode := rfl
  rw [HoldsCall, and_iff_left hjson]
  simp only [SeriesFields.withMetadata, SeriesFields.mk.injEq, true_and, and_true, hcurrency]
  cases call.currencyCode with
  | none => simp
  | some s =>
    cases hs : char3 s <;> simp [hs]

/-! ### One call -/

/-- What a call does to the rows and subjects. -/
structure CallDone (call : SeriesCall) (row : SeriesRow) (st st' : Store) : Prop where
  keyed : st'.Keyed
  present : st'.series call.seriesCode = some row
  others : ∀ {code}, code ≠ call.seriesCode → st'.series code = st.series code
  kept : ∀ {row₀}, st.series call.seriesCode = some row₀ → row.seriesId = row₀.seriesId
  fresh : st.series call.seriesCode = none → row.seriesId = st.nextId
  nextId : st.nextId ≤ st'.nextId
  subjects : ∀ id ref, (∃ s ∈ st'.subjects, s.seriesId = id ∧ s.ref = ref) ↔
    (∃ s ∈ st.subjects, s.seriesId = id ∧ s.ref = ref) ∨ id = row.seriesId ∧ ref ∈ call.subjects
  holds : HoldsCall row.toSeriesFields call ↔
    (∀ existing, st.series call.seriesCode = some existing →
      sameFields existing call.fields = true →
        SameJson existing.metadata call.fields.metadata) ∧
    ((∀ existing, st.series call.seriesCode = some existing →
      sameFields existing call.fields = false) → ∀ s ∈ call.currencyCode, char3 s = some s)

theorem subjects_of_persisted {seriesId : ℤ} {refs : List SubjectRef} {actor : Option Actor}
    (h : Persisted tx actor seriesId refs st st') (id : ℤ) (ref : SubjectRef) :
    (∃ s ∈ st'.subjects, s.seriesId = id ∧ s.ref = ref) ↔
      (∃ s ∈ st.subjects, s.seriesId = id ∧ s.ref = ref) ∨ id = seriesId ∧ ref ∈ refs := by
  constructor
  · rintro ⟨s, hs, rfl, rfl⟩
    rcases h.origin s hs with hold | ⟨hid, href, -, -⟩
    · exact .inl ⟨s, hold, rfl, rfl⟩
    · exact .inr ⟨hid, href⟩
  · rintro (⟨s, hs, hid, href⟩ | ⟨rfl, href⟩)
    · exact ⟨s, h.subset s hs, hid, href⟩
    · exact h.covered ref href

theorem callDone_of_written (hst : st.Keyed) (hw : Store.Written call.seriesCode row st st')
    (hsame : ∀ existing, st.series call.seriesCode = some existing →
      sameFields existing call.fields = false)
    (hencoded : storeFields call.fields = .ok row.toSeriesFields)
    (hsubjects : ∀ id ref, (∃ s ∈ st'.subjects, s.seriesId = id ∧ s.ref = ref) ↔
      (∃ s ∈ st.subjects, s.seriesId = id ∧ s.ref = ref) ∨ id = row.seriesId ∧ ref ∈ call.subjects) :
    CallDone call row st st' where
  keyed := hst.written hw
  present := hw.series_self
  others := hw.series_of_ne
  kept {row₀} hrow₀ := by
    rcases hw.number with ⟨hnone, _⟩ | ⟨row₁, hrow₁, hid, _⟩
    · rw [hnone] at hrow₀
      cases hrow₀
    · rw [hrow₁] at hrow₀
      rw [hid, Option.some.inj hrow₀]
  fresh hnone := by
    rcases hw.number with ⟨_, hid, _⟩ | ⟨row₁, hrow₁, _⟩
    · exact hid
    · rw [hnone] at hrow₁
      cases hrow₁
  nextId := by
    rcases hw.number with ⟨_, _, hnext⟩ | ⟨_, _, _, hnext⟩ <;> omega
  subjects := hsubjects
  holds := by
    rw [holdsCall_of_storeFields hencoded]
    refine ⟨fun h => ⟨fun existing hex htrue => ?_, fun _ => h⟩, fun h => h.2 hsame⟩
    rw [hsame existing hex] at htrue
    cases htrue

/-- A call leaves a row behind, which holds the call if it is faithful. -/
theorem callDone_of_ok (hst : st.Keyed)
    (h : upsertSeries env caller tx now obsCount call st = .ok (result, st')) :
    ∃ row, CallDone call row st st' := by
  obtain ⟨-, -, ⟨stored, hinserted⟩ | ⟨existing, hex, hhit | ⟨hsame, stored, hchanged⟩⟩⟩ :=
    upsertSeries_eq_ok h
  · have hwritten := written_of_inserted hinserted
    obtain ⟨hencoded, habsent, st₁, hst₁, rfl⟩ := hinserted
    have hsub := subjects_of_persisted hst₁
    refine ⟨_, callDone_of_written hst hwritten (fun existing hex => ?_) hencoded hsub⟩
    rw [habsent] at hex
    cases hex
  · obtain ⟨hsame, st₁, hst₁, rfl⟩ := hhit
    have hsub := subjects_of_persisted hst₁
    refine ⟨existing, {
      keyed := hst.congr hst₁.series hst₁.nextId
      present := (congrFun hst₁.series _).trans hex
      others := fun _ => congrFun hst₁.series _
      kept := fun hrow₀ => congrArg _ (Option.some.inj (hex.symm.trans hrow₀))
      fresh := fun hnone => by rw [hnone] at hex; cases hex
      nextId := hst₁.nextId.ge
      subjects := hsub
      holds := ?_ }⟩
    rw [holdsCall_of_same hsame]
    refine ⟨fun hjson => ⟨fun existing' hex' _ => ?_, fun hne => ?_⟩, fun h => h.1 existing hex hsame⟩
    · rwa [← Option.some.inj (hex.symm.trans hex')]
    · rw [hne existing hex] at hsame
      cases hsame
  · have hwritten := written_of_fieldChanged hst hex rfl hchanged
    obtain ⟨hencoded, st₁, hst₁, rfl⟩ := hchanged
    have hsub := subjects_of_persisted hst₁
    refine ⟨_, callDone_of_written hst hwritten (fun existing' hex' => ?_) hencoded hsub⟩
    rwa [← Option.some.inj (hex.symm.trans hex')]

/-! ### Reading -/

/-- What is read is what the row and the subjects hold. -/
theorem getSeries_eq_ok {series : Series} (h : getSeries st code = .ok (some series)) :
    ∃ row, st.series code = some row ∧ row.seriesCode ≠ "" ∧
      series.toSeriesFields = row.toSeriesFields ∧ series.seriesCode = row.seriesCode ∧
      ∀ ref, ref ∈ series.subjects ↔ ∃ s ∈ st.subjects, s.seriesId = row.seriesId ∧ s.ref = ref := by
  rw [getSeries] at h
  obtain ⟨_, hrow, h⟩ := except_bind_eq_ok.1 h
  obtain ⟨-, rfl⟩ := selectSeries_eq_ok_iff.1 hrow
  split at h
  · cases h
  · rename_i row hrow
    simp only [bind, Except.bind, throw, throwThe, MonadExceptOf.throw, pure, Except.pure] at h
    split_ifs at h with hcode
    cases h
    refine ⟨row, hrow, hcode, rfl, rfl, fun ref => ?_⟩
    simp only [List.mem_map, mem_orderBy, List.mem_filter, decide_eq_true_eq, and_assoc]

theorem getSeries_of_row (hcode : storableText code = true) (hrow : st.series code = some row)
    (hne : row.seriesCode ≠ "") : ∃ series, getSeries st code = .ok (some series) := by
  rw [getSeries, selectSeries_eq_ok_iff.2 ⟨hcode, rfl⟩, hrow]
  simp only [bind, Except.bind, pure, Except.pure, if_neg hne]
  exact ⟨_, rfl⟩

/-! ### Runs -/

theorem lastCall_append (code : String) (calls : List SeriesCall) (call : SeriesCall) :
    lastCall code (calls ++ [call]) =
      if call.seriesCode = code then some call else lastCall code calls := by
  rw [lastCall, List.filter_append, lastCall]
  split_ifs with hcode
  · have hself : [call].filter (fun call => call.seriesCode = code) = [call] := by simp [hcode]
    rw [hself, List.getLast?_concat]
  · have hself : [call].filter (fun call => call.seriesCode = code) = [] := by simp [hcode]
    rw [hself, List.append_nil]

theorem lastCall_eq_some (h : lastCall code calls = some call) :
    call ∈ calls ∧ call.seriesCode = code := by
  obtain ⟨hmem, hcode⟩ := List.mem_filter.1 (List.mem_of_getLast? h)
  exact ⟨hmem, of_decide_eq_true hcode⟩

/-- The rows that are there are those of the codes that were called for, with the subjects of
    the calls. -/
structure Tracked (calls : List SeriesCall) (st : Store) : Prop where
  keyed : st.Keyed
  storable : ∀ call ∈ calls, storableText call.seriesCode = true
  below : ∀ s ∈ st.subjects, s.seriesId < st.nextId
  present : ∀ {code}, st.series code = none → ∀ call ∈ calls, call.seriesCode ≠ code
  subjects : ∀ {code row}, st.series code = some row → ∀ ref,
    (∃ s ∈ st.subjects, s.seriesId = row.seriesId ∧ s.ref = ref) ↔
      ∃ call ∈ calls, call.seriesCode = code ∧ ref ∈ call.subjects

theorem Tracked.callDone (h : Tracked calls st) (hcode : storableText call.seriesCode = true)
    (hd : CallDone call row st st') : Tracked (calls ++ [call]) st' where
  keyed := hd.keyed
  storable := List.forall_mem_append.2 ⟨h.storable, List.forall_mem_singleton.2 hcode⟩
  below s hs := by
    rcases (hd.subjects s.seriesId s.ref).1 ⟨s, hs, rfl, rfl⟩ with ⟨s₀, hs₀, hid, -⟩ | ⟨hid, -⟩
    · exact hid ▸ lt_of_lt_of_le (h.below s₀ hs₀) hd.nextId
    · exact hid ▸ hd.keyed.lt hd.present
  present {code} hnone := by
    have hne : code ≠ call.seriesCode := by
      rintro rfl
      rw [hd.present] at hnone
      cases hnone
    rw [hd.others hne] at hnone
    exact List.forall_mem_append.2 ⟨h.present hnone, List.forall_mem_singleton.2 hne.symm⟩
  subjects {code row'} hrow' ref := by
    rw [hd.subjects]
    simp only [List.mem_append, List.mem_singleton, or_and_right, exists_or, exists_eq_left]
    by_cases hne : code = call.seriesCode
    · subst hne
      obtain rfl := Option.some.inj (hd.present.symm.trans hrow')
      refine or_congr ?_ (by simp)
      cases hrow₀ : st.series call.seriesCode with
      | none =>
        -- No subjects have the number yet, and no calls were made for the code.
        refine iff_of_false ?_ ?_
        · rintro ⟨s, hs, hid, -⟩
          have := h.below s hs
          rw [hid, hd.fresh hrow₀] at this
          exact lt_irrefl _ this
        · rintro ⟨call', hcall', hcode', -⟩
          exact h.present hrow₀ call' hcall' hcode'
      | some row₀ =>
        rw [hd.kept hrow₀]
        exact h.subjects hrow₀ ref
    · rw [or_iff_left, or_iff_left]
      · exact h.subjects ((hd.others hne).symm.trans hrow') ref
      · exact fun heq => hne heq.1.symm
      · exact fun hid => hne (hd.keyed.unique hrow' hd.present hid.1)

theorem tracked_of_run (h : Run env Allowed calls st) : Tracked calls st := by
  induction h with
  | nil =>
    exact ⟨⟨nofun, nofun, nofun⟩, List.forall_mem_nil _, List.forall_mem_nil _,
      fun _ => List.forall_mem_nil _, nofun⟩
  | call _ hdoes _ ih =>
    obtain ⟨row, hd⟩ := callDone_of_ok ih.keyed hdoes
    exact ih.callDone (upsertSeries_eq_ok hdoes).2.1 hd

/-- The rows hold the last calls for their codes. -/
def Held (calls : List SeriesCall) (st : Store) : Prop :=
  ∀ {code call}, lastCall code calls = some call →
    ∃ row, st.series code = some row ∧ code ≠ "" ∧ HoldsCall row.toSeriesFields call

theorem Held.callDone (h : Held calls st) (hd : CallDone call row st st') (hf : Faithful st call) :
    Held (calls ++ [call]) st' := by
  intro code call' hlast
  rw [lastCall_append] at hlast
  split_ifs at hlast with hcode
  · obtain rfl := Option.some.inj hlast
    subst hcode
    exact ⟨row, hd.present, hf.code, hd.holds.2 ⟨hf.same, hf.other⟩⟩
  · rw [hd.others (Ne.symm hcode)]
    exact h hlast

theorem held_of_run (h : Run env (fun _ st call _ => Faithful st call) calls st) :
    Held calls st := by
  induction h with
  | nil => exact nofun
  | call hrun hdoes hallowed ih =>
    obtain ⟨row, hd⟩ := callDone_of_ok (tracked_of_run hrun).keyed hdoes
    exact Held.callDone ih hd hallowed

theorem readsYourWrites_of_held (htracked : Tracked calls st) (hheld : Held calls st) :
    ReadsYourWrites calls st := by
  intro code call hlast
  obtain ⟨row, hrow, hne, hholds⟩ := hheld hlast
  obtain ⟨hmem, hcode⟩ := lastCall_eq_some hlast
  have hstorable := hcode ▸ htracked.storable call hmem
  obtain ⟨series, hseries⟩ := getSeries_of_row hstorable hrow (htracked.keyed.code hrow ▸ hne)
  obtain ⟨row', hrow', -, hfields, hcode', hsubjects⟩ := getSeries_eq_ok hseries
  obtain rfl := Option.some.inj (hrow.symm.trans hrow')
  refine ⟨series, hseries, hcode'.trans (htracked.keyed.code hrow), hfields ▸ hholds, fun ref => ?_⟩
  rw [hsubjects, htracked.subjects hrow]

/-- A call that is read back was faithful. -/
theorem faithful_of_readsYourWrites (hd : CallDone call row st st')
    (h : ReadsYourWrites (calls ++ [call]) st') : Faithful st call := by
  obtain ⟨series, hseries, hcode, hholds, -⟩ :=
    h call.seriesCode call (by rw [lastCall_append, if_pos rfl])
  obtain ⟨row', hrow', hne, hfields, hcode', -⟩ := getSeries_eq_ok hseries
  obtain rfl := Option.some.inj (hd.present.symm.trans hrow')
  rw [hfields] at hholds
  obtain ⟨hsame, hother⟩ := hd.holds.1 hholds
  exact ⟨hcode ▸ hcode' ▸ hne, hsame, hother⟩

/-- After every call of a run the codes are read back with their last calls if and only if all
    of its calls are faithful. -/
theorem run_faithful_iff :
    Run env (fun _ st call _ => Faithful st call) calls st ↔
      Run env (fun calls _ call st' => ReadsYourWrites (calls ++ [call]) st') calls st := by
  constructor
  · intro h
    induction h with
    | nil => exact .nil
    | call hrun hdoes hallowed ih =>
      have hrun' := hrun.call hdoes hallowed
      exact ih.call hdoes (readsYourWrites_of_held (tracked_of_run hrun') (held_of_run hrun'))
  · intro h
    induction h with
    | nil => exact .nil
    | call hrun hdoes hallowed ih =>
      obtain ⟨row, hd⟩ := callDone_of_ok (tracked_of_run hrun).keyed hdoes
      exact ih.call hdoes (faithful_of_readsYourWrites hd hallowed)

/-! ### A boolean over a number -/

def flagEnv : SeriesEnv where
  patterns := []
  numericKey _ := false
  admits _ := true
  auditStrict := false

/-- A call whose metadata are `{"a": value}`. -/
def flagCall (value : PyValue) : SeriesCall where
  sourceId := "s"
  metric := "m"
  frequency := .d1
  unit := "u"
  metadata := some [(.str "a", value)]
  seriesCode := "x"

/-- The row of the first call. -/
def flagRow : SeriesRow where
  sourceId := "s"
  metric := "m"
  frequency := .d1
  unit := "u"
  metadata := .obj [("a", .num ⟨1, 0⟩)]
  seriesId := 1
  seriesCode := "x"
  actor := none
  createdAt := 0
  updatedAt := 0

theorem sameFields_flag : sameFields flagRow (flagCall (.bool true)).fields = true := by
  have hunits : Numeric.units ⟨1, 0⟩ = boolUnits true := by
    rw [Numeric.units, if_pos rfl, boolUnits, if_pos rfl, one_mul]
  have hnum : (Jsonb.num ⟨1, 0⟩).pyEq (.bool true) = true := by
    rw [Jsonb.pyEq, hunits, beq_self_eq_true]
  have hmetadata : flagRow.metadata.pyEq (.dict [(.str "a", .bool true)]) = true := by
    rw [flagRow, Jsonb.pyEq, fieldsPyEq, fieldsPyEq, List.lookup_cons, beq_self_eq_true]
    simp only [List.length_singleton, beq_self_eq_true, hnum, Bool.and_true]
  simp only [sameFields, decide_eq_true_eq]
  exact ⟨rfl, rfl, rfl, rfl, rfl, rfl, rfl, rfl, rfl, rfl, rfl, rfl, hmetadata⟩

theorem not_sameJson_flag : ¬SameJson flagRow.metadata [(.str "a", .bool true)] := by
  rintro ⟨j, hj, hnorm⟩
  have hj' : (PyValue.dict [(.str "a", .bool true)]).jsonb = some (.obj [("a", .bool true)]) := rfl
  obtain rfl := Option.some.inj (hj.symm.trans hj')
  simp [flagRow, Jsonb.norm, fieldsNorm] at hnorm

/-- The second call succeeds, but the number of the first is read back. -/
theorem not_readsYourWrites_flag : ∃ st,
    Run flagEnv (fun _ _ _ _ => True) [flagCall (.int 1), flagCall (.bool true)] st ∧
      ¬ReadsYourWrites [flagCall (.int 1), flagCall (.bool true)] st := by
  obtain ⟨result₁, st₁, h₁⟩ : ∃ result st, upsertSeries flagEnv ⟨none, 1⟩ none 0 (fun _ => 0)
      (flagCall (.int 1)) .empty = .ok (result, st) := ⟨_, _, rfl⟩
  have hrow₁ : st₁.series "x" = some flagRow := by
    cases h₁
    rfl
  obtain ⟨st₂, h₂, hrow₂⟩ : ∃ st, upsertSeries flagEnv ⟨none, 1⟩ none 0 (fun _ => 0)
      (flagCall (.bool true)) st₁ = .ok (⟨1, false⟩, st) ∧ st.series "x" = some flagRow := by
    have hread : selectSeries st₁.series (flagCall (.bool true)).seriesCode = .ok (some flagRow) :=
      selectSeries_eq_ok_iff.2 ⟨rfl, hrow₁.symm⟩
    have hcheck : checkCall flagEnv ⟨none, 1⟩ (flagCall (.bool true)) = .ok () := rfl
    simp only [upsertSeries, hcheck, hread, bind, Except.bind, reconcileExisting]
    rw [if_pos sameFields_flag]
    exact ⟨_, rfl, hrow₁⟩
  refine ⟨st₂, .call (.call .nil h₁ trivial) h₂ trivial, fun h => ?_⟩
  obtain ⟨series, hseries, -, ⟨-, hjson⟩, -⟩ := h "x" (flagCall (.bool true)) rfl
  obtain ⟨row, hrow, -, hfields, -⟩ := getSeries_eq_ok hseries
  obtain rfl := Option.some.inj (hrow.symm.trans hrow₂)
  rw [hfields] at hjson
  exact not_sameJson_flag hjson

end AslanCore.Timeseries
