import AslanCore.Timeseries.Series

/-!
# Rows of the catalog

Every row of the catalog is found under its code, and has a number of its own, below the next
one of the sequence (`Store.Keyed`). So the update of the rows with a number is one of a single
row (`updateSeries_series`), and a call writes no row but that of its code (`Store.Written`).
-/

namespace AslanCore.Timeseries

namespace Store

/-- Rows have the code they are found under, and numbers of their own. -/
structure Keyed (st : Store) : Prop where
  code : ∀ {code row}, st.series code = some row → row.seriesCode = code
  unique : ∀ {code code' row row'}, st.series code = some row → st.series code' = some row' →
    row.seriesId = row'.seriesId → code = code'
  lt : ∀ {code row}, st.series code = some row → row.seriesId < st.nextId

/-- The row of a code is written: a new row, with the next number, or one that takes the place
    of the row with its number. -/
structure Written (code : String) (row : SeriesRow) (st st' : Store) : Prop where
  seriesCode : row.seriesCode = code
  series : st'.series = Function.update st.series code (some row)
  number : (st.series code = none ∧ row.seriesId = st.nextId ∧ st'.nextId = st.nextId + 1) ∨
    (∃ row₀, st.series code = some row₀ ∧ row.seriesId = row₀.seriesId ∧ st'.nextId = st.nextId)

variable {st st' : Store} {code : String} {row : SeriesRow}

theorem Written.series_self (h : Written code row st st') : st'.series code = some row := by
  rw [h.series, Function.update_self]

theorem Written.series_of_ne {code' : String} (h : Written code row st st') (hcode : code' ≠ code) :
    st'.series code' = st.series code' := by
  rw [h.series, Function.update_of_ne hcode]

theorem Keyed.congr (h : Keyed st) (hseries : st'.series = st.series)
    (hnextId : st'.nextId = st.nextId) : Keyed st' :=
  ⟨hseries ▸ h.code, hseries ▸ h.unique, hseries ▸ hnextId ▸ h.lt⟩

theorem Keyed.written (h : Keyed st) (hw : Written code row st st') : Keyed st' where
  code {code' row'} hrow' := by
    by_cases hcode : code' = code
    · subst hcode
      rw [hw.series_self] at hrow'
      exact Option.some.inj hrow' ▸ hw.seriesCode
    · rw [hw.series_of_ne hcode] at hrow'
      exact h.code hrow'
  unique := by
    -- A new number is larger than all others, and the others are unique.
    have hne : ∀ {code' row'}, code' ≠ code → st.series code' = some row' →
        row'.seriesId ≠ row.seriesId := by
      intro code' row' hcode hrow' hid
      rcases hw.number with ⟨_, hnew, _⟩ | ⟨row₀, hrow₀, hold, _⟩
      · exact absurd (h.lt hrow') (by omega)
      · exact hcode (h.unique hrow' hrow₀ (hid.trans hold))
    intro code₁ code₂ row₁ row₂ h₁ h₂ hid
    by_cases hc₁ : code₁ = code <;> by_cases hc₂ : code₂ = code
    · rw [hc₁, hc₂]
    · subst hc₁
      rw [hw.series_self] at h₁
      rw [hw.series_of_ne hc₂] at h₂
      exact absurd (hid.symm.trans (congrArg _ (Option.some.inj h₁.symm))) (hne hc₂ h₂)
    · subst hc₂
      rw [hw.series_of_ne hc₁] at h₁
      rw [hw.series_self] at h₂
      exact absurd (hid.trans (congrArg _ (Option.some.inj h₂.symm))) (hne hc₁ h₁)
    · rw [hw.series_of_ne hc₁] at h₁
      rw [hw.series_of_ne hc₂] at h₂
      exact h.unique h₁ h₂ hid
  lt {code' row'} hrow' := by
    have hlt : row.seriesId < st'.nextId ∧ st.nextId ≤ st'.nextId := by
      rcases hw.number with ⟨_, hnew, hnext⟩ | ⟨row₀, hrow₀, hold, hnext⟩
      · omega
      · have := h.lt hrow₀
        omega
    by_cases hcode : code' = code
    · subst hcode
      rw [hw.series_self] at hrow'
      exact Option.some.inj hrow' ▸ hlt.1
    · rw [hw.series_of_ne hcode] at hrow'
      exact lt_of_lt_of_le (h.lt hrow') hlt.2

/-- The update of the rows with a number is one of the row of a code. -/
theorem Keyed.updateSeries_series {seriesId : ℤ} {stored : SeriesFields Jsonb}
    {actor : Option Actor} {now : Timestamp} (h : Keyed st) (hrow : st.series code = some row)
    (hid : row.seriesId = seriesId) :
    (updateSeries seriesId stored actor now st).series =
      Function.update st.series code
        (some { row with toSeriesFields := stored, actor, updatedAt := now }) := by
  funext code'
  simp only [updateSeries]
  by_cases hcode : code' = code
  · subst hcode
    rw [Function.update_self, hrow, Option.map_some, if_pos hid]
  · rw [Function.update_of_ne hcode]
    cases hrow' : st.series code' with
    | none => rfl
    | some row' =>
      rw [Option.map_some, if_neg fun hid' => hcode (h.unique hrow' hrow (hid'.trans hid.symm))]

end Store

variable {env : SeriesEnv} {caller : Caller} {tx : Option ℕ} {now : Timestamp}
  {existing row : SeriesRow} {call : SeriesCall} {stored : SeriesFields Jsonb} {st st' : Store}

theorem written_of_inserted (h : Inserted env caller tx now call stored st st') :
    Store.Written call.seriesCode (freshRow caller now st.nextId call.seriesCode stored) st st' := by
  obtain ⟨-, habsent, st₁, hst₁, rfl⟩ := h
  exact ⟨rfl, hst₁.series, .inl ⟨habsent, rfl, hst₁.nextId⟩⟩

/-- The row that a field change leaves behind. -/
def changedRow (caller : Caller) (now : Timestamp) (stored : SeriesFields Jsonb)
    (row : SeriesRow) : SeriesRow :=
  { row with toSeriesFields := stored, actor := caller.currentActor, updatedAt := now }

theorem written_of_fieldChanged (hst : st.Keyed) (hrow : st.series call.seriesCode = some row)
    (hid : row.seriesId = existing.seriesId)
    (h : FieldChanged env caller tx now existing call stored st st') :
    Store.Written call.seriesCode (changedRow caller now stored row) st st' := by
  obtain ⟨-, st₁, hst₁, rfl⟩ := h
  have hcode : row.seriesCode = call.seriesCode := hst.code hrow
  exact ⟨hcode, hst₁.series.trans (hst.updateSeries_series hrow hid),
    .inr ⟨row, hrow, rfl, hst₁.nextId⟩⟩

end AslanCore.Timeseries
