import AslanCore.Financials.Queries

/-!
# The latest canonical value

A value is restated by a row of a greater `mapping_version`, or of the same one and a later `as_of`.
The queries only look at the first: they return the latest value of every key, whatever the database
chooses, when the rows of a key with its greatest `mapping_version` agree on the value, and only
then (`latest_iff`).

* `IsLatestValue`: the value of the row of the greatest `mapping_version` and `as_of`;
* `Latest`: what is to hold of all answers of a query;
* `Agree`: the condition on the rows that the query selects.
-/

namespace AslanCore

namespace Financials

variable {t t' : CanonicalTable} {scores : List QualityScoreRow} {limit : ℤ}
  {row row' : CanonicalRow} {k : FinancialKey} {v : Option Numeric} {c : FinancialKey → Bool}

/-! ### Versions -/

/-- What orders the rows of a key: a later mapping first, and then a later `as_of`. -/
def CanonicalRow.version (row : CanonicalRow) : ℤ ×ₗ Timestamp :=
  toLex (row.mappingVersion, row.asOf)

/-- The value of the row of a key with the greatest `mapping_version` and, among those, the greatest
    `as_of`. -/
def IsLatestValue (t : CanonicalTable) (k : FinancialKey) (v : Option Numeric) : Prop :=
  ∃ row, IsLast CanonicalRow.toFinancialKey CanonicalRow.version t.rows row ∧
    row.toFinancialKey = k ∧ row.value = v

/-- The values of a key are measured in one way. -/
def CanonicalTable.SingleValued (t : CanonicalTable) : Prop :=
  ∀ row ∈ t.rows, ∀ row' ∈ t.rows, row.toFinancialKey = row'.toFinancialKey →
    row.toMeasure = row'.toMeasure

/-- The row has the greatest `mapping_version` of its key. -/
abbrev IsMapped (t : CanonicalTable) (row : CanonicalRow) : Prop :=
  IsLast CanonicalRow.toFinancialKey CanonicalRow.mappingVersion t.rows row

/-- Of the keys of a condition, the rows with the greatest `mapping_version` have the same value. -/
def Agree (t : CanonicalTable) (c : FinancialKey → Bool) : Prop :=
  ∀ row row', IsMapped t row → IsMapped t row' → c row.toFinancialKey →
    row.toFinancialKey = row'.toFinancialKey → row.value = row'.value

theorem isMapped_of_isLast (h : IsLast CanonicalRow.toFinancialKey CanonicalRow.version t.rows row) :
    IsMapped t row := by
  refine ⟨h.mem, fun row' hrow' hkey => ?_⟩
  have hle := h.last row' hrow' hkey
  rw [CanonicalRow.version, CanonicalRow.version, Prod.Lex.toLex_le_toLex] at hle
  rcases hle with hlt | ⟨heq, -⟩
  · exact hlt.le
  · exact heq.le

/-- A key of a single measure has one latest value. -/
theorem IsLatestValue.unique {v' : Option Numeric} (ht : t.SingleValued) (h : IsLatestValue t k v)
    (h' : IsLatestValue t k v') : v = v' := by
  obtain ⟨row, hlast, rfl, rfl⟩ := h
  obtain ⟨row', hlast', hkey, rfl⟩ := h'
  have hversion : row.version = row'.version :=
    le_antisymm (hlast'.last row hlast.mem hkey.symm) (hlast.last row' hlast'.mem hkey)
  obtain ⟨hmapping, hasOf⟩ := Prod.mk.inj (toLex.injective hversion)
  have hmeasure := ht row hlast.mem row' hlast'.mem hkey.symm
  have heq : row = row' := by
    refine List.inj_on_of_nodup_map t.primaryKey hlast.mem hlast'.mem ?_
    rw [CanonicalRow.versionKey, CanonicalRow.versionKey, hkey, hmeasure, hmapping, hasOf]
  rw [heq]

/-- Where the rows agree, any of them with the greatest `mapping_version` has the latest value. -/
theorem isLatestValue_of_agree (h : Agree t c) (hrow : IsMapped t row) (hc : c row.toFinancialKey) :
    IsLatestValue t row.toFinancialKey row.value := by
  obtain ⟨top, htop, hkey⟩ :=
    IsLast.exists_of_mem CanonicalRow.toFinancialKey CanonicalRow.version hrow.mem
  exact ⟨top, htop, hkey, (h row top hrow (isMapped_of_isLast htop) hc hkey.symm).symm⟩

/-! ### The rows that are selected -/

theorem value_injective : Function.Injective PeriodType.value := by
  intro a b h
  cases a <;> cases b <;> first | rfl | exact absurd h (by decide)

theorem basis_injective : Function.Injective RestatementBasis.value := by
  intro a b h
  cases a <;> cases b <;> first | rfl | exact absurd h (by decide)

/-- A key that tells the rows of a condition apart as their whole keys do. -/
def Distinguishes {γ : Type} (key : CanonicalRow → γ) (c : FinancialKey → Bool) : Prop :=
  ∀ row row' : CanonicalRow, c row.toFinancialKey → c row'.toFinancialKey →
    (key row = key row' ↔ row.toFinancialKey = row'.toFinancialKey)

section Select

variable {γ : Type} [LinearOrder γ] {key : CanonicalRow → γ} {rows rows' : List CanonicalRow}

omit [LinearOrder γ] in
/-- The rows that may be returned are those of the greatest `mapping_version`. -/
theorem isLast_select_iff (hkey : Distinguishes key c) :
    IsLast key CanonicalRow.mappingVersion (t.select c) row ↔
      IsMapped t row ∧ c row.toFinancialKey := by
  have hiff : IsLast CanonicalRow.toFinancialKey CanonicalRow.mappingVersion (t.select c) row ↔
      IsMapped t row ∧ c row.toFinancialKey :=
    IsLast.filter_iff fun x y h => congrArg c h
  rw [← hiff]
  have hc : ∀ {x}, x ∈ t.select c → c x.toFinancialKey := fun hx => (List.mem_filter.1 hx).2
  exact ⟨fun ⟨hmem, hlast⟩ => ⟨hmem, fun y hy h => hlast y hy ((hkey y row (hc hy) (hc hmem)).2 h)⟩,
    fun ⟨hmem, hlast⟩ => ⟨hmem, fun y hy h => hlast y hy ((hkey y row (hc hy) (hc hmem)).1 h)⟩⟩

/-- The rows of the table, or of what is left of it. -/
structure Restated (t t' : CanonicalTable) : Prop where
  subset : ∀ row ∈ t'.rows, row ∈ t.rows
  mapped : ∀ row ∈ t.rows, ∃ row' ∈ t'.rows, row'.toFinancialKey = row.toFinancialKey ∧
    row.mappingVersion ≤ row'.mappingVersion

theorem restated_of_mem_iff (h : ∀ row, row ∈ t'.rows ↔ row ∈ t.rows) : Restated t t' :=
  ⟨fun row => (h row).1, fun row hrow => ⟨row, (h row).2 hrow, rfl, le_rfl⟩⟩

/-- All that is known is what is known now. -/
theorem restated_at {now : Timestamp} (h : ∀ row ∈ t.rows, row.asOf ≤ now) :
    Restated t (t.at now) := by
  refine ⟨fun row hrow => (List.mem_filter.1 hrow).1, fun row hrow => ?_⟩
  obtain ⟨last, hlast, hkey⟩ :=
    IsLast.exists_of_mem CanonicalRow.versionKey CanonicalRow.asOf hrow
  obtain ⟨hkeys, hmapping⟩ := Prod.mk.inj hkey
  refine ⟨last, List.mem_filter.2 ⟨hlast.mem, decide_eq_true ⟨h last hlast.mem, fun row' hrow' hk _ =>
    hlast.last row' hrow' hk⟩⟩, (Prod.mk.inj hkeys).1, hmapping.ge⟩

/-- The greatest `mapping_version` is left. -/
theorem Restated.isMapped (h : Restated t t') (hrow : IsMapped t' row) : IsMapped t row := by
  refine ⟨h.subset row hrow.mem, fun row' hrow' hkey => ?_⟩
  obtain ⟨row₁, hrow₁, hkey₁, hle⟩ := h.mapped row' hrow'
  exact hle.trans (hrow.last row₁ hrow₁ (hkey₁.trans hkey))

/-- A row without its version. -/
def CanonicalRow.strip (row : CanonicalRow) : CanonicalRow := { row with mappingVersion := 0, asOf := 0 }

theorem strip_eq (hkey : row.toFinancialKey = row'.toFinancialKey)
    (hmeasure : row.toMeasure = row'.toMeasure) (hvalue : row.value = row'.value) :
    row.strip = row'.strip := by
  rw [CanonicalRow.strip, CanonicalRow.strip, hkey, hmeasure, hvalue]

/-- Where the rows agree, it does not matter which of them are returned. -/
theorem map_strip_eq (ht : t.SingleValued) (hagree : Agree t c) (hkey : Distinguishes key c)
    (hres : Restated t t') (h : MaySelect key CanonicalRow.mappingVersion (t.select c) rows)
    (h' : MaySelect key CanonicalRow.mappingVersion (t'.select c) rows') :
    rows.map CanonicalRow.strip = rows'.map CanonicalRow.strip := by
  have hmem : ∀ {t : CanonicalTable} {x}, x ∈ t.select c → x ∈ t.rows ∧ c x.toFinancialKey :=
    fun hx => List.mem_filter.1 hx
  have heq := h.map_eq (f := CanonicalRow.strip) h' (fun x hx => ?_) (fun x hx => ?_)
    fun x y hx hy hxy => ?_
  · have := congrArg (List.map Prod.snd) heq
    simpa only [List.map_map, Function.comp_def] using this
  · obtain ⟨hx, hc⟩ := hmem hx
    obtain ⟨y, hy, hyx, -⟩ := hres.mapped x hx
    have hcy : c y.toFinancialKey := hyx ▸ hc
    exact ⟨y, List.mem_filter.2 ⟨hy, hcy⟩, (hkey y x hcy hc).2 hyx⟩
  · obtain ⟨hx, hc⟩ := hmem hx
    exact ⟨x, List.mem_filter.2 ⟨hres.subset x hx, hc⟩, rfl⟩
  · obtain ⟨hx, hcx⟩ := (isLast_select_iff hkey).1 hx
    obtain ⟨hy, hcy⟩ := (isLast_select_iff hkey).1 hy
    have hkeys := (hkey y x hcy hcx).1 hxy
    have hy := hres.isMapped hy
    exact strip_eq hkeys (ht y hy.mem x hx.mem hkeys) (hagree y x hy hx hcy hkeys)

end Select

/-! ### Functions that read the table -/

/-- What a function that reads the table has to do with the rows of a condition: `returns` are its
    possible answers with a limit, and `gives` the values in them. -/
structure Reads {α β : Type} (returns : CanonicalTable → ℤ → α → Prop)
    (gives : α → FinancialKey → Option Numeric → Prop) (view : α → β) (c : FinancialKey → Bool) :
    Prop where
  value : ∀ {t limit a k v}, returns t limit a → gives a k v →
    (∃ row, IsMapped t row ∧ c row.toFinancialKey ∧ row.toFinancialKey = k ∧ row.value = v) ∨
      (∀ row ∈ t.rows, row.toFinancialKey ≠ k) ∧ v = none
  reach : ∀ {t row}, IsMapped t row → c row.toFinancialKey →
    ∃ (limit : ℤ) (a : α), returns t limit a ∧ gives a row.toFinancialKey row.value
  eq : ∀ {t t' limit a a'}, t.SingleValued → Agree t c → Restated t t' → returns t limit a →
    returns t' limit a' → view a = view a'

/-- The values of all answers are the latest ones, and the answers are a function of the rows of the
    table, and of what is known now. -/
structure LatestOf {α β : Type} (returns : CanonicalTable → ℤ → α → Prop)
    (gives : α → FinancialKey → Option Numeric → Prop) (view : α → β) (t : CanonicalTable) :
    Prop where
  value : ∀ limit a k v, returns t limit a → gives a k v →
    IsLatestValue t k v ∨ (∀ row ∈ t.rows, row.toFinancialKey ≠ k) ∧ v = none
  stored : ∀ (t' : CanonicalTable) limit a a', (∀ row, row ∈ t'.rows ↔ row ∈ t.rows) →
    returns t limit a → returns t' limit a' → view a = view a'
  collapse : ∀ now limit a a', (∀ row ∈ t.rows, row.asOf ≤ now) → returns t limit a →
    returns (t.at now) limit a' → view a = view a'

theorem Reads.latestOf_iff {α β : Type} {returns : CanonicalTable → ℤ → α → Prop}
    {gives : α → FinancialKey → Option Numeric → Prop} {view : α → β}
    (h : Reads returns gives view c) (ht : t.SingleValued) :
    LatestOf returns gives view t ↔ Agree t c := by
  constructor
  · intro hlatest
    -- Both rows may be returned, and there is one latest value.
    have hvalue : ∀ row, IsMapped t row → c row.toFinancialKey →
        IsLatestValue t row.toFinancialKey row.value := by
      intro row hrow hc
      obtain ⟨limit, a, ha, hgives⟩ := h.reach hrow hc
      rcases hlatest.value limit a _ _ ha hgives with hv | ⟨hnone, -⟩
      · exact hv
      · exact absurd rfl (hnone row hrow.mem)
    intro row row' hrow hrow' hc hkey
    exact (hvalue row hrow hc).unique ht (hkey ▸ hvalue row' hrow' (hkey ▸ hc))
  · intro hagree
    refine ⟨fun limit a k v ha hgives => ?_, fun t' limit a a' hrows ha ha' => ?_,
      fun now limit a a' hnow ha ha' => ?_⟩
    · rcases h.value ha hgives with ⟨row, hrow, hc, rfl, rfl⟩ | hnone
      · exact .inl (isLatestValue_of_agree hagree hrow hc)
      · exact .inr hnone
    · exact h.eq ht hagree (restated_of_mem_iff hrows) ha ha'
    · exact h.eq ht hagree (restated_at hnow) ha ha'

end Financials

end AslanCore
