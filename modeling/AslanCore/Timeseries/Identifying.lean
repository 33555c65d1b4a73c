import AslanCore.Timeseries.Catalog

/-!
# Identifying series

A series of the class `identifying` is about a natural person. Whatever the order of the calls
that write its row, and whoever else writes in between, the row has a subject, and no pattern of
personal data matches its code, its description, or a value in its metadata: every row is one
that a single call has written as a whole (`WrittenBy`), and the call was checked.

The names of the fields of the metadata are not searched. So a pattern may match one
(`not_identifyingClear_addressRow`), unless one matches in the names of a call's own metadata
(`identifying_names_of_reachable`).
-/

namespace AslanCore.Timeseries

variable {env : SeriesEnv} {c c' : Catalog} {a : Action} {x : ℕ} {tx tx' : Option ℕ}
  {code : String} {row : SeriesRow} {Allowed : Catalog → Action → Prop} {names : Bool}
  {P : Caller → SeriesCall → Prop}

/-- No pattern matches the code, the description, or a string of the metadata. -/
structure ClearRow (env : SeriesEnv) (names : Bool) (row : SeriesRow) : Prop where
  code : ¬env.patterns.Matches row.seriesCode
  description : ∀ s ∈ row.description, ¬env.patterns.Matches s
  metadata : ∀ s ∈ row.metadata.metadataStrings names, ¬env.patterns.Matches s

/-- The rows that are read in a transaction, or outside of one. -/
def Catalog.rows (c : Catalog) : Option ℕ → String → Option SeriesRow
  | none => c.committed
  | some x => c.visible x

/-- Every identifying series has a subject, and is clear. -/
def IdentifyingClear (env : SeriesEnv) (names : Bool) (c : Catalog) : Prop :=
  ∀ tx code row, c.rows tx code = some row → row.piiClass = .identifying →
    (∃ s ∈ c.store.subjects, s.seriesId = row.seriesId ∧ (s.tx = none ∨ s.tx = tx)) ∧
      ClearRow env names row

/-! ### Every row is written by a call -/

/-- The row is as one call has written it, and the subjects of the call are there: `tx` is the
    transaction that holds the row. -/
def WrittenBy (P : Caller → SeriesCall → Prop) (c : Catalog) (tx : Option ℕ) (row : SeriesRow) :
    Prop :=
  ∃ caller call, P caller call ∧ storeFields call.fields = .ok row.toSeriesFields ∧
    row.seriesCode = call.seriesCode ∧ ∀ ref ∈ call.subjects, ∃ s ∈ c.store.subjects,
      s.seriesId = row.seriesId ∧ s.ref = ref ∧ (s.tx = none ∨ s.tx = tx)

theorem WrittenBy.mono (h : WrittenBy P c tx row)
    (hsubjects : ∀ s ∈ c.store.subjects, s.tx = none ∨ s.tx = tx → ∃ s' ∈ c'.store.subjects,
      s'.seriesId = s.seriesId ∧ s'.ref = s.ref ∧ (s'.tx = none ∨ s'.tx = tx')) :
    WrittenBy P c' tx' row := by
  obtain ⟨caller, call, hP, hencoded, hcode, hcovered⟩ := h
  refine ⟨caller, call, hP, hencoded, hcode, fun ref href => ?_⟩
  obtain ⟨s, hs, hid, hsref, htx⟩ := hcovered ref href
  obtain ⟨s', hs', hid', hsref', htx'⟩ := hsubjects s hs htx
  exact ⟨s', hs', hid'.trans hid, hsref'.trans hsref, htx'⟩

theorem WrittenBy.of_subset (h : WrittenBy P c tx row)
    (hsubset : ∀ s ∈ c.store.subjects, s ∈ c'.store.subjects) : WrittenBy P c' tx row :=
  h.mono fun s hs htx => ⟨s, hsubset s hs, rfl, rfl, htx⟩

/-- The newest rows, and the committed ones, are written by calls. -/
structure Called (P : Caller → SeriesCall → Prop) (c : Catalog) : Prop where
  newest : ∀ {code row}, c.store.series code = some row → WrittenBy P c (c.owner code) row
  committed : ∀ {code row}, c.committed code = some row → WrittenBy P c none row

theorem Called.of_subset (h : Called P c) (hcommitted : c'.committed = c.committed)
    (hseries : c'.store.series = c.store.series) (howner : c'.owner = c.owner)
    (hsubset : ∀ s ∈ c.store.subjects, s ∈ c'.store.subjects) : Called P c' where
  newest hrow := by
    rw [howner]
    exact (h.newest (hseries ▸ hrow)).of_subset hsubset
  committed hrow := (h.committed (hcommitted ▸ hrow)).of_subset hsubset

theorem Called.wrote {caller : Caller} {call : SeriesCall} (h : Called P c)
    (hpassed : Passed P c) (hw : Wrote env x caller call row c c') : Called P c' where
  newest {code' row'} hrow' := by
    rw [hw.owner]
    by_cases hcode : code' = call.seriesCode
    · subst hcode
      rw [hw.written.series_self] at hrow'
      rw [Function.update_self]
      obtain rfl := Option.some.inj hrow'
      obtain ⟨p, hp, rfl, rfl⟩ := hw.calls
      exact ⟨p.caller, p.call, hpassed x p hp, hw.encoded, hw.written.seriesCode, hw.covered⟩
    · rw [hw.written.series_of_ne hcode] at hrow'
      rw [Function.update_of_ne hcode]
      exact (h.newest hrow').of_subset hw.subset
  committed hrow' := (h.committed (hw.committed ▸ hrow')).of_subset hw.subset

theorem Called.commit (h : Called P c) : Called P (c.commit x) := by
  -- What was written in the transaction of `x` is there for all.
  have hmono : ∀ {tx row}, WrittenBy P c tx row → WrittenBy P (c.commit x) (Catalog.closeTx x tx) row := by
    intro tx row hrow
    refine hrow.mono fun s hs htx => ?_
    refine ⟨_, List.mem_map_of_mem hs, rfl, rfl, ?_⟩
    rcases htx with htx | htx
    · exact .inl (Catalog.closeTx_eq_none_iff.2 (.inl htx))
    · exact .inr (congrArg (Catalog.closeTx x) htx)
  refine ⟨fun hrow => hmono (h.newest hrow), fun {code row} hrow => ?_⟩
  simp only [Catalog.commit, Catalog.visible] at hrow
  split_ifs at hrow with howner
  · have hnewest := hmono (h.newest hrow)
    rwa [Catalog.closeTx_eq_none_iff.2 (.inr howner)] at hnewest
  · exact hmono (h.committed hrow)

theorem Called.abort (h : Called P c) : Called P (c.abort x) := by
  have hmono : ∀ {tx row}, tx ≠ some x → WrittenBy P c tx row → WrittenBy P (c.abort x) tx row := by
    intro tx row hx hrow
    refine hrow.mono fun s hs htx => ⟨s, List.mem_filter.2 ⟨hs, ?_⟩, rfl, rfl, htx⟩
    rcases htx with htx | htx
    · rw [htx]
      exact decide_eq_true nofun
    · rw [htx]
      exact decide_eq_true hx
  refine ⟨fun {code row} hrow => ?_, fun hrow => hmono nofun (h.committed hrow)⟩
  simp only [Catalog.abort] at hrow ⊢
  split_ifs at hrow with howner
  · rw [Catalog.closeTx_eq_none_iff.2 (.inr howner)]
    exact hmono nofun (h.committed hrow)
  · rw [Catalog.closeTx, if_neg howner]
    exact hmono howner (h.newest hrow)

theorem called_of_reachable
    (hP : ∀ {c x caller call}, Allowed c (.look x caller call) → P caller call)
    (h : Reachable env Allowed c) :
    Called (fun caller call => checkCall env caller call = .ok () ∧ P caller call) c := by
  induction h with
  | empty => exact ⟨nofun, nofun⟩
  | step hreached _ hs ih =>
    have hpassed := passed_of_reachable hP hreached
    rcases effect_of_step (sound_of_reachable hreached) hs with
      _ | ⟨_, -, st₁, hst₁, rfl⟩ | ⟨hw, _⟩ | ⟨hw, _⟩ | _ | _
    · exact ih.of_subset rfl rfl rfl fun _ hs => hs
    · exact ih.of_subset rfl hst₁.series rfl hst₁.subset
    · exact ih.wrote hpassed hw
    · exact ih.wrote hpassed hw
    · exact ih.commit
    · exact ih.abort

/-! ### Identifying rows -/

/-- An identifying row of a call that was checked has a subject, and is clear. -/
theorem clear_of_writtenBy
    (h : WrittenBy (fun caller call => checkCall env caller call = .ok () ∧ P caller call) c tx row)
    (hnames : ∀ {caller call}, P caller call → call.piiClass = .identifying → names = true →
      NamesClear env.patterns call.fields.metadata)
    (hpii : row.piiClass = .identifying) :
    (∃ s ∈ c.store.subjects, s.seriesId = row.seriesId ∧ (s.tx = none ∨ s.tx = tx)) ∧
      ClearRow env names row := by
  obtain ⟨caller, call, ⟨hcheck, hP⟩, hencoded, hcode, hcovered⟩ := h
  obtain ⟨j, hj, -, hstored⟩ := storeFields_eq_ok hencoded
  have hclass : call.piiClass = .identifying := by
    rw [hstored] at hpii
    exact hpii
  obtain ⟨hclear, hdescription, hsubjects, hmetadata⟩ :=
    checkIdentifying_eq_ok (checkIdentifying_of_checkCall hcheck hclass)
  constructor
  · obtain ⟨ref, href⟩ := List.exists_mem_of_ne_nil _ hsubjects
    obtain ⟨s, hs, hid, -, htx⟩ := hcovered ref href
    exact ⟨s, hs, hid, htx⟩
  · refine ⟨hcode ▸ hclear, ?_, ?_⟩
    · rw [hstored]
      exact hdescription
    · rw [hstored]
      exact not_matches_metadataStrings hj hmetadata (hnames hP hclass)

theorem writtenBy_of_rows (h : Called P c) (hrow : c.rows tx code = some row) :
    WrittenBy P c tx row := by
  cases tx with
  | none => exact h.committed hrow
  | some x =>
    simp only [Catalog.rows, Catalog.visible] at hrow
    split_ifs at hrow with howner
    · exact howner ▸ h.newest hrow
    · exact (h.committed hrow).mono fun s hs htx => ⟨s, hs, rfl, rfl, .inl (htx.elim id id)⟩

theorem identifyingClear_of_reachable
    (hnames : ∀ {c x caller call}, Allowed c (.look x caller call) → call.piiClass = .identifying →
      names = true → NamesClear env.patterns call.fields.metadata)
    (h : Reachable env Allowed c) : IdentifyingClear env names c := by
  intro tx code row hrow
  have hcalled := called_of_reachable
    (P := fun _ call => call.piiClass = .identifying → names = true →
      NamesClear env.patterns call.fields.metadata) (fun hallowed => hnames hallowed) h
  exact clear_of_writtenBy (writtenBy_of_rows hcalled hrow) fun hP => hP

/-- In every catalog that is reached, an identifying series has a subject, and no pattern
    matches its code, its description, or a value in its metadata, outside the top-level
    `subjects`. -/
theorem identifying_of_reachable (h : Reachable env Allowed c) : IdentifyingClear env false c :=
  identifyingClear_of_reachable (fun _ _ => nofun) h

/-- Nor is there a match in the name of a field, if there is none in the calls. -/
theorem identifying_names_of_reachable
    (hnames : ∀ {c x caller call}, Allowed c (.look x caller call) → call.piiClass = .identifying →
      NamesClear env.patterns call.fields.metadata)
    (h : Reachable env Allowed c) : IdentifyingClear env true c :=
  identifyingClear_of_reachable (fun hallowed hpii _ => hnames hallowed hpii) h

/-! ### A match in the name of a field -/

/-- The patterns, on the strings of `addressCall`. -/
def addressPatterns : PatternTable :=
  [("email", fun s => if s = "a@b.c" then [("a@b.c", 0, 5)] else []), ("name", fun _ => [])]

def addressEnv : SeriesEnv where
  patterns := addressPatterns
  numericKey _ := false
  admits _ := true
  auditStrict := false

/-- A call with an address in the name of a field. -/
def addressCall : SeriesCall where
  sourceId := "s"
  metric := "m"
  frequency := .d1
  unit := "u"
  piiClass := .identifying
  metadata := some [(.str "a@b.c", .int 1)]
  seriesCode := "x"
  subjects := [⟨"p", .insider, by decide⟩]

def addressCaller : Caller := ⟨none, 1⟩

/-- The row of `addressCall`. -/
def addressRow : SeriesRow where
  sourceId := "s"
  metric := "m"
  frequency := .d1
  unit := "u"
  piiClass := .identifying
  metadata := .obj [("a@b.c", .num ⟨1, 0⟩)]
  seriesId := 1
  seriesCode := "x"
  actor := none
  createdAt := 0
  updatedAt := 0

theorem matches_address : addressPatterns.Matches "a@b.c" :=
  ⟨_, List.mem_cons_self, by decide⟩

/-- The call is not refused: its row is committed. -/
theorem reachable_addressRow : ∃ c, Reachable addressEnv (fun _ _ => True) c ∧
    c.committed "x" = some addressRow := by
  let c₁ := Catalog.empty.setPhase 0 (some (afterLook addressCaller addressCall none))
  have hlook : Step addressEnv .empty (.look 0 addressCaller addressCall) c₁ := .look rfl rfl rfl
  obtain ⟨result, st, hdoes⟩ : ∃ result st,
      upsertSeriesFresh addressEnv addressCaller (some 0) 0 addressCall c₁.store =
        .ok (some (result, st)) := ⟨_, _, rfl⟩
  have hrow : st.series "x" = some addressRow := by
    cases hdoes
    rfl
  let c₂ : Catalog := { c₁.setPhase 0 none with
    store := st, owner := Function.update c₁.owner "x" (some 0) }
  have hinsert : Step addressEnv c₁ (.insert 0) c₂ := .insert rfl (.inl rfl)
    (fun s hs => absurd hs List.not_mem_nil) hdoes
  have hcommit : Step addressEnv c₂ (.commit 0) (c₂.commit 0) := .commit rfl
  exact ⟨_, .step (.step (.step .empty trivial hlook) trivial hinsert) trivial hcommit, hrow⟩

/-- A match in the name of a field is not found. -/
theorem not_identifyingClear_addressRow : ∃ c, Reachable addressEnv (fun _ _ => True) c ∧
    ¬IdentifyingClear addressEnv true c := by
  obtain ⟨c, hc, hrow⟩ := reachable_addressRow
  refine ⟨c, hc, fun hclear => ?_⟩
  exact (hclear none "x" addressRow hrow rfl).2.metadata "a@b.c" List.mem_cons_self matches_address

/-- The other strings of the row are clear, and it has its subject. -/
theorem identifying_of_reachable_addressRow : ∃ c, c.committed "x" = some addressRow ∧
    IdentifyingClear addressEnv false c := by
  obtain ⟨c, hc, hrow⟩ := reachable_addressRow
  exact ⟨c, hrow, identifying_of_reachable hc⟩

end AslanCore.Timeseries
