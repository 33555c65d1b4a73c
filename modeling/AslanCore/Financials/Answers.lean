import AslanCore.Financials.Latest

/-!
# The answers of the queries of canonical financials

The values that the three functions return, and the condition under which they are the latest ones.

* `Query`, `Query.MayReturn`, `Query.Gives`: the queries, their answers and the values in them;
* `Query.reads`: an answer has a value of the greatest `mapping_version` for each key, any of them,
  and nothing else of the rows;
* `latest_iff`: the answers are the latest values exactly where those values agree.
-/

namespace AslanCore

namespace Financials

variable {t t' : CanonicalTable} {scores : List QualityScoreRow} {limit : ℤ} {row : CanonicalRow}
  {k : FinancialKey} {v : Option Numeric} {c : FinancialKey → Bool}

/-! ### Lists -/

theorem mem_of_mem_sliceTo {α : Type} {xs : List α} {x : α} (h : x ∈ sliceTo limit xs) : x ∈ xs := by
  rw [sliceTo] at h
  split_ifs at h <;> exact List.mem_of_mem_take h

/-- A limit may be large enough. -/
theorem exists_sliceTo_eq {α : Type} (xs : List α) : ∃ limit : ℤ, sliceTo limit xs = xs := by
  refine ⟨xs.length, ?_⟩
  rw [sliceTo, if_pos (Int.natCast_nonneg _), Int.toNat_natCast, List.take_length]

theorem map_sliceTo {α β : Type} (f : α → β) (xs : List α) :
    (sliceTo limit xs).map f = sliceTo limit (xs.map f) := by
  rw [sliceTo, sliceTo, List.length_map]
  split_ifs <;> rw [List.map_take]

@[simp] theorem mem_sortDesc {α : Type} {periodEnd : α → Date} {xs : List α} {x : α} :
    x ∈ sortDesc periodEnd xs ↔ x ∈ xs := mem_orderBy

/-- What is sorted is changed one by one, if the periods are kept. -/
theorem map_sortDesc {α β : Type} {p : α → Date} {p' : β → Date} {f : α → β}
    (hf : ∀ x, p' (f x) = p x) (xs : List α) :
    (sortDesc p xs).map f = sortDesc p' (xs.map f) := by
  rw [sortDesc, sortDesc, orderBy, orderBy]
  refine List.map_insertionSort _ _ _ _ fun a _ b _ => ?_
  rw [hf, hf]

/-! ### `get_entity_financials` -/

section EntityFinancials

variable {q : EntityFinancialsQuery} {rows : List CanonicalRow} {answer answer' : List PeriodData}

theorem distinguishes_lineKey (q : EntityFinancialsQuery) : Distinguishes lineKey q.where_ := by
  intro row row' h h'
  obtain ⟨hentity, htype, hbasis, hcons, -⟩ := of_decide_eq_true h
  obtain ⟨hentity', htype', hbasis', hcons', -⟩ := of_decide_eq_true h'
  constructor
  · intro heq
    obtain ⟨hcode, heq⟩ := Prod.mk.inj (toLex.injective heq)
    obtain ⟨hend, -⟩ := Prod.mk.inj (toLex.injective heq)
    exact FinancialKey.ext (hentity.trans hentity'.symm) hcode hend (htype.trans htype'.symm)
      (hcons.trans hcons'.symm) (hbasis.trans hbasis'.symm)
  · intro heq
    rw [lineKey, lineKey, heq]

/-- A line of a group is that of a row, or was there. -/
theorem mem_lines {groups : List (PeriodKey × List (String × Option Numeric) × Option ℤ)}
    {rows : List (CanonicalRow × Option ℤ)} {g : PeriodKey × List (String × Option Numeric) × Option ℤ}
    {line : String × Option Numeric} (hg : g ∈ rows.foldl addRow groups) (hline : line ∈ g.2.1) :
    (∃ r ∈ rows, r.1.periodKey = g.1 ∧ (r.1.canonicalCode, r.1.value) = line) ∨
      ∃ g' ∈ groups, g'.1 = g.1 ∧ line ∈ g'.2.1 := by
  induction rows generalizing groups with
  | nil => exact .inr ⟨g, hg, rfl, hline⟩
  | cons r rows ih =>
    rcases ih hg with ⟨r', hr', h⟩ | ⟨g', hg', hkey, hline'⟩
    · exact .inl ⟨r', List.mem_cons_of_mem _ hr', h⟩
    · rcases eq_or_mem_of_mem_dictSet hg' with rfl | hg'
      · rcases eq_or_mem_of_mem_dictSet hline' with rfl | hline'
        · exact .inl ⟨r, List.mem_cons_self, hkey, rfl⟩
        · cases hlookup : groups.lookup r.1.periodKey with
          | none =>
            rw [hlookup] at hline'
            exact absurd hline' List.not_mem_nil
          | some p =>
            rw [hlookup] at hline'
            exact .inr ⟨_, mem_of_lookup hlookup, hkey, hline'⟩
      · exact .inr ⟨g', hg', hkey, hline'⟩

/-- A line of a group stays, unless its row comes again. -/
theorem line_kept {groups : List (PeriodKey × List (String × Option Numeric) × Option ℤ)}
    {rows : List (CanonicalRow × Option ℤ)} {k : PeriodKey} {line : String × Option Numeric}
    (hrows : ∀ r ∈ rows, ¬(r.1.periodKey = k ∧ r.1.canonicalCode = line.1))
    (h : ∃ p, groups.lookup k = some p ∧ line ∈ p.1) :
    ∃ p, (rows.foldl addRow groups).lookup k = some p ∧ line ∈ p.1 := by
  induction rows generalizing groups with
  | nil => exact h
  | cons r rows ih =>
    refine ih (fun r' hr' => hrows r' (List.mem_cons_of_mem _ hr')) ?_
    obtain ⟨p, hp, hline⟩ := h
    have hr := hrows r List.mem_cons_self
    by_cases hk : k = r.1.periodKey
    · subst hk
      refine ⟨_, lookup_dictSet_self, ?_⟩
      have hcode : line.1 ≠ r.1.canonicalCode := fun hcode => hr ⟨rfl, hcode.symm⟩
      rw [hp]
      exact (mem_dictSet_of_ne hcode).2 hline
    · exact ⟨p, (lookup_dictSet_of_ne hk).trans hp, hline⟩

/-- Every row has its line in the group of its period. -/
theorem exists_line (score : CanonicalRow → Option ℤ) (hrow : row ∈ rows)
    (hrows : rows.Pairwise fun x y => ¬(y.periodKey = x.periodKey ∧ y.canonicalCode = x.canonicalCode)) :
    ∃ g ∈ (rows.map fun row => (row, score row)).foldl addRow [], g.1 = row.periodKey ∧
      (row.canonicalCode, row.value) ∈ g.2.1 := by
  obtain ⟨l, l', rfl⟩ := List.append_of_mem hrow
  obtain ⟨-, hrows, -⟩ := List.pairwise_append.1 hrows
  rw [List.map_append, List.foldl_append, List.map_cons, List.foldl_cons]
  generalize (l.map fun row => (row, score row)).foldl addRow [] = groups
  have hadd : ∃ p, (addRow groups (row, score row)).lookup row.periodKey = some p ∧
      (row.canonicalCode, row.value) ∈ p.1 := ⟨_, lookup_dictSet_self, mem_dictSet_self⟩
  have hlater : ∀ r ∈ l'.map fun row => (row, score row),
      ¬(r.1.periodKey = row.periodKey ∧ r.1.canonicalCode = row.canonicalCode) := by
    intro r hr
    obtain ⟨row', hrow', rfl⟩ := List.mem_map.1 hr
    exact (List.pairwise_cons.1 hrows).1 row' hrow'
  obtain ⟨p, hp, hline⟩ := line_kept hlater hadd
  exact ⟨_, mem_of_lookup hp, rfl, hline⟩

/-- A row is added to the lines of its period. -/
def addLine (groups : List (PeriodKey × List (String × Option Numeric))) (row : CanonicalRow) :
    List (PeriodKey × List (String × Option Numeric)) :=
  dictSet row.periodKey
    (dictSet row.canonicalCode row.value ((groups.lookup row.periodKey).getD [])) groups

theorem map_addRow (groups : List (PeriodKey × List (String × Option Numeric) × Option ℤ))
    (r : CanonicalRow × Option ℤ) :
    (addRow groups r).map (fun g => (g.1, g.2.1)) = addLine (groups.map fun g => (g.1, g.2.1)) r.1 := by
  rw [addRow, addLine, lookup_map Prod.fst]
  cases groups.lookup r.1.periodKey <;> exact map_dictSet Prod.fst

/-- The lines do not depend on the scores. -/
theorem map_foldl_addRow (groups : List (PeriodKey × List (String × Option Numeric) × Option ℤ))
    (score : CanonicalRow → Option ℤ) (rows : List CanonicalRow) :
    ((rows.map fun row => (row, score row)).foldl addRow groups).map (fun g => (g.1, g.2.1)) =
      rows.foldl addLine (groups.map fun g => (g.1, g.2.1)) := by
  induction rows generalizing groups with
  | nil => rfl
  | cons row rows ih => rw [List.map_cons, List.foldl_cons, List.foldl_cons, ih, map_addRow]

/-- A period without its score. -/
def PeriodData.withoutScore (p : PeriodData) : PeriodData := { p with qualityScore := none }

theorem withoutScore_eq (limit : ℤ) (score : CanonicalRow → Option ℤ) (rows : List CanonicalRow) :
    (sliceTo limit (sortDesc PeriodData.periodEnd
      (((rows.map fun row => (row, score row)).foldl addRow []).map PeriodData.ofGroup))).map
        PeriodData.withoutScore =
    sliceTo limit (sortDesc PeriodData.periodEnd
      (((rows.map CanonicalRow.strip).foldl addLine []).map fun g =>
        PeriodData.ofGroup (g.1, g.2, none))) := by
  have hperiod : ∀ p : PeriodData, p.withoutScore.periodEnd = p.periodEnd := fun _ => rfl
  have hlines : (rows.map CanonicalRow.strip).foldl addLine [] =
      ((rows.map fun row => (row, score row)).foldl addRow []).map fun g => (g.1, g.2.1) := by
    rw [List.foldl_map]
    exact (map_foldl_addRow [] score rows).symm
  rw [map_sliceTo, map_sortDesc hperiod, hlines, List.map_map, List.map_map]
  rfl

/-- The answer has a value for a key. -/
def EntityFinancialsQuery.Gives (q : EntityFinancialsQuery) (answer : List PeriodData)
    (k : FinancialKey) (v : Option Numeric) : Prop :=
  ∃ p ∈ answer, ∃ line ∈ p.lines,
    k = ⟨q.entityId, line.1, p.periodEnd, p.periodType, p.consolidation, p.restatementBasis⟩ ∧
      v = line.2

theorem exists_isQualityScore (scores : List QualityScoreRow) (k : FinancialKey) :
    ∃ score, IsQualityScore scores k score := by
  classical
  by_cases h : ∃ qs ∈ scores, qs.IsFor k
  · obtain ⟨qs, hqs, hfor⟩ := h
    have hmem : qs ∈ scores.filter fun qs => decide (qs.IsFor k) :=
      List.mem_filter.2 ⟨hqs, decide_eq_true hfor⟩
    obtain ⟨last, hlast, -⟩ := IsLast.exists_of_mem (fun _ => ()) QualityScoreRow.mappingVersion hmem
    obtain ⟨hlast, hmax⟩ := hlast
    obtain ⟨hmem, hfor⟩ := List.mem_filter.1 hlast
    refine ⟨some last.score, last, hmem, of_decide_eq_true hfor, rfl, fun qs' hqs' hfor' => ?_⟩
    exact hmax qs' (List.mem_filter.2 ⟨hqs', decide_eq_true hfor'⟩) rfl
  · exact ⟨none, fun qs hqs hfor => h ⟨qs, hqs, hfor⟩⟩

/-- The lines of the groups are those of the rows, that come once for a key. -/
theorem pairwise_lines
    (h : MaySelect lineKey CanonicalRow.mappingVersion (t.select q.where_) rows) :
    rows.Pairwise fun x y => ¬(y.periodKey = x.periodKey ∧ y.canonicalCode = x.canonicalCode) := by
  refine h.pairwise.imp fun {x y} hlt => ?_
  rintro ⟨hperiod, hcode⟩
  obtain ⟨hend, htype, hcons, hbasis⟩ := PeriodKey.mk.inj hperiod
  refine hlt.ne ?_
  rw [lineKey, lineKey, hcode, hend, htype, hcons, hbasis]

theorem EntityFinancialsQuery.reads (scores : List QualityScoreRow) (q : EntityFinancialsQuery) :
    Reads (fun t limit answer => EntityFinancials t scores q limit answer) q.Gives
      (List.map PeriodData.withoutScore) q.where_ where
  value := by
    rintro t limit answer k v ⟨rows, score, hselect, -, rfl⟩ ⟨p, hp, line, hline, rfl, rfl⟩
    left
    obtain ⟨g, hg, rfl⟩ := List.mem_map.1 (mem_sortDesc.1 (mem_of_mem_sliceTo hp))
    rcases mem_lines hg hline with ⟨r, hr, hperiod, rfl⟩ | ⟨g', hg', -⟩
    · obtain ⟨row, hrow, rfl⟩ := List.mem_map.1 hr
      obtain ⟨hmapped, hc⟩ := (isLast_select_iff (distinguishes_lineKey q)).1 (hselect.isLast hrow)
      obtain ⟨hentity, -⟩ := of_decide_eq_true hc
      refine ⟨row, hmapped, hc, ?_, rfl⟩
      rw [PeriodData.ofGroup, ← hperiod, ← hentity]
      rfl
    · exact absurd hg' List.not_mem_nil
  reach := by
    intro t row hrow hc
    obtain ⟨rows, hselect, hmem⟩ :=
      exists_maySelect ((isLast_select_iff (distinguishes_lineKey q)).2 ⟨hrow, hc⟩)
    choose score hscore using fun row : CanonicalRow =>
      exists_isQualityScore scores row.toFinancialKey
    obtain ⟨g, hg, hperiod, hline⟩ := exists_line score hmem (pairwise_lines hselect)
    obtain ⟨hentity, -⟩ := of_decide_eq_true hc
    obtain ⟨limit, hlimit⟩ := exists_sliceTo_eq (sortDesc PeriodData.periodEnd
      (((rows.map fun row => (row, score row)).foldl addRow []).map PeriodData.ofGroup))
    refine ⟨limit, _, ⟨rows, score, hselect, fun row _ => hscore row, rfl⟩, PeriodData.ofGroup g, ?_,
      _, hline, ?_, rfl⟩
    · rw [hlimit]
      exact mem_sortDesc.2 (List.mem_map_of_mem hg)
    · rw [PeriodData.ofGroup, hperiod, ← hentity]
      rfl
  eq := by
    rintro t t' limit _ _ ht hagree hres ⟨rows, score, hselect, -, rfl⟩
      ⟨rows', score', hselect', -, rfl⟩
    rw [withoutScore_eq, withoutScore_eq,
      map_strip_eq ht hagree (distinguishes_lineKey q) hres hselect hselect']

end EntityFinancials

/-! ### `compare_metric` -/

section CompareMetric

variable {q : CompareMetricQuery} {rows : List CanonicalRow} {out : List (PgUuid × List MetricPoint)}

/-- What the query selects, unless it has too many entities. -/
def CompareMetricQuery.selects (q : CompareMetricQuery) (k : FinancialKey) : Bool :=
  (uniqueIds q.entityIds).length ≤ 10 && q.where_ k

/-- The answer has a value for a key. -/
def CompareMetricQuery.Gives (q : CompareMetricQuery)
    (answer : Except CompareError (List (PgUuid × List MetricPoint))) (k : FinancialKey)
    (v : Option Numeric) : Prop :=
  ∃ out, answer = .ok out ∧ ∃ p ∈ out, ∃ point ∈ p.2,
    k = ⟨p.1, q.canonicalCode, point.periodEnd, point.periodType, q.consolidation.value,
      point.restatementBasis⟩ ∧ v = point.value

theorem distinguishes_entityKey (q : CompareMetricQuery) : Distinguishes entityKey q.where_ := by
  intro row row' h h'
  obtain ⟨-, hcode, hbasis, htype, hcons⟩ := of_decide_eq_true h
  obtain ⟨-, hcode', hbasis', htype', hcons'⟩ := of_decide_eq_true h'
  constructor
  · intro heq
    obtain ⟨hentity, heq⟩ := Prod.mk.inj (toLex.injective heq)
    obtain ⟨hend, -⟩ := Prod.mk.inj (toLex.injective heq)
    exact FinancialKey.ext hentity (hcode.trans hcode'.symm) hend (htype.trans htype'.symm)
      (hcons.trans hcons'.symm) (hbasis.trans hbasis'.symm)
  · intro heq
    rw [entityKey, entityKey, heq]

/-- The points of an entity are those of its rows. -/
theorem mem_points {p : PgUuid × List MetricPoint} {point : MetricPoint}
    (hp : p ∈ rows.foldl addPoint out) (hpoint : point ∈ p.2) :
    (∃ row ∈ rows, row.entityId = p.1 ∧ MetricPoint.ofRow row = point) ∨
      ∃ p' ∈ out, p'.1 = p.1 ∧ point ∈ p'.2 := by
  induction rows generalizing out with
  | nil => exact .inr ⟨p, hp, rfl, hpoint⟩
  | cons row rows ih =>
    rcases ih hp with ⟨row', hrow', h⟩ | ⟨p', hp', hkey, hpoint'⟩
    · exact .inl ⟨row', List.mem_cons_of_mem _ hrow', h⟩
    · rcases eq_or_mem_of_mem_dictSet hp' with rfl | hp'
      · rcases List.mem_append.1 hpoint' with hpoint' | hpoint'
        · cases hlookup : out.lookup row.entityId with
          | none =>
            rw [hlookup] at hpoint'
            exact absurd hpoint' List.not_mem_nil
          | some points =>
            rw [hlookup] at hpoint'
            exact .inr ⟨_, mem_of_lookup hlookup, hkey, hpoint'⟩
        · exact .inl ⟨row, List.mem_cons_self, hkey, (List.mem_singleton.1 hpoint').symm⟩
      · exact .inr ⟨p', hp', hkey, hpoint'⟩

/-- The points of an entity stay. -/
theorem point_kept {uid : PgUuid} {point : MetricPoint}
    (h : ∃ points, out.lookup uid = some points ∧ point ∈ points) :
    ∃ points, (rows.foldl addPoint out).lookup uid = some points ∧ point ∈ points := by
  induction rows generalizing out with
  | nil => exact h
  | cons row rows ih =>
    refine ih ?_
    obtain ⟨points, hpoints, hpoint⟩ := h
    by_cases huid : uid = row.entityId
    · subst huid
      refine ⟨_, lookup_dictSet_self, ?_⟩
      rw [hpoints]
      exact List.mem_append_left _ hpoint
    · exact ⟨points, (lookup_dictSet_of_ne huid).trans hpoints, hpoint⟩

/-- Every row has its point. -/
theorem exists_point (hrow : row ∈ rows) :
    ∃ points, (rows.foldl addPoint []).lookup row.entityId = some points ∧
      MetricPoint.ofRow row ∈ points := by
  obtain ⟨l, l', rfl⟩ := List.append_of_mem hrow
  rw [List.foldl_append, List.foldl_cons]
  exact point_kept ⟨_, lookup_dictSet_self, List.mem_append_right _ List.mem_cons_self⟩

/-- An entity that is added has no points. -/
theorem mem_addMissing {uids : List PgUuid} {p : PgUuid × List MetricPoint} {point : MetricPoint}
    (hp : p ∈ uids.foldl addMissing out) (hpoint : point ∈ p.2) : p ∈ out := by
  induction uids generalizing out with
  | nil => exact hp
  | cons uid uids ih =>
    have hp := ih hp
    rw [addMissing] at hp
    split_ifs at hp
    · exact hp
    · rcases eq_or_mem_of_mem_dictSet hp with rfl | hp
      · exact absurd hpoint List.not_mem_nil
      · exact hp

theorem lookup_addMissing (uids : List PgUuid) {uid : PgUuid} {points : List MetricPoint}
    (h : out.lookup uid = some points) : (uids.foldl addMissing out).lookup uid = some points := by
  induction uids generalizing out with
  | nil => exact h
  | cons uid' uids ih =>
    refine ih ?_
    rw [addMissing]
    split_ifs with hsome
    · exact h
    · have hne : uid ≠ uid' := by
        rintro rfl
        rw [h] at hsome
        exact hsome rfl
      rw [lookup_dictSet_of_ne hne, h]

/-- Only some of the columns of the rows are used. -/
theorem foldl_addPoint_strip (rows : List CanonicalRow) :
    (rows.map CanonicalRow.strip).foldl addPoint [] = rows.foldl addPoint [] := by
  rw [List.foldl_map]
  rfl

theorem CompareMetricQuery.reads (q : CompareMetricQuery) :
    Reads (fun t limit answer => CompareMetric t q limit answer) q.Gives id q.selects where
  value := by
    rintro t limit answer k v hanswer ⟨out, rfl, p, hp, point, hpoint, rfl, rfl⟩
    left
    obtain ⟨-, hle, rows, hselect, rfl⟩ := hanswer
    obtain ⟨p', hp', rfl⟩ := List.mem_map.1 (mem_addMissing hp hpoint)
    rcases mem_points hp' (mem_sortDesc.1 (mem_of_mem_sliceTo hpoint)) with
      ⟨row, hrow, hentity, rfl⟩ | ⟨_, hnil, -⟩
    · obtain ⟨hmapped, hc⟩ := (isLast_select_iff (distinguishes_entityKey q)).1 (hselect.isLast hrow)
      obtain ⟨-, hcode, -, -, hcons⟩ := of_decide_eq_true hc
      refine ⟨row, hmapped, Bool.and_eq_true_iff.2 ⟨decide_eq_true hle, hc⟩, ?_, rfl⟩
      exact FinancialKey.ext hentity hcode rfl rfl hcons rfl
    · exact absurd hnil List.not_mem_nil
  reach := by
    intro t row hrow hc
    obtain ⟨hle, hc⟩ := Bool.and_eq_true_iff.1 hc
    obtain ⟨rows, hselect, hmem⟩ :=
      exists_maySelect ((isLast_select_iff (distinguishes_entityKey q)).2 ⟨hrow, hc⟩)
    obtain ⟨hentity, hcode, -, -, hcons⟩ := of_decide_eq_true hc
    obtain ⟨points, hpoints, hpoint⟩ := exists_point hmem
    obtain ⟨limit, hlimit⟩ := exists_sliceTo_eq (sortDesc MetricPoint.periodEnd points)
    have hpos : 1 ≤ (uniqueIds q.entityIds).length := by
      obtain ⟨uid, huid, -⟩ := exists_mem_distinctOn id hentity
      exact List.length_pos_of_mem huid
    have hlookup : ((rows.foldl addPoint []).map fun p =>
        (p.1, sliceTo limit (sortDesc MetricPoint.periodEnd p.2))).lookup row.entityId =
          some (sortDesc MetricPoint.periodEnd points) := by
      rw [lookup_map fun ps => sliceTo limit (sortDesc MetricPoint.periodEnd ps), hpoints,
        Option.map_some, hlimit]
    have hkept := lookup_addMissing (uniqueIds q.entityIds) hlookup
    refine ⟨limit, .ok _, ?_, _, rfl, _, mem_of_lookup hkept, .ofRow row,
      mem_sortDesc.2 hpoint, ?_, rfl⟩
    · exact ⟨hpos, of_decide_eq_true hle, rows, hselect, rfl⟩
    · exact FinancialKey.ext rfl hcode rfl rfl hcons rfl
  eq := by
    intro t t' limit a a' ht hagree hres ha ha'
    rw [id, id]
    rcases a with e | out <;> rcases a' with e' | out'
    · rcases ha with ⟨h, rfl⟩ | ⟨h, rfl⟩ <;> rcases ha' with ⟨h', rfl⟩ | ⟨h', rfl⟩
      · rfl
      · omega
      · omega
      · rfl
    · obtain ⟨h, h', -⟩ := ha'
      rcases ha with ⟨h'', -⟩ | ⟨h'', -⟩ <;> omega
    · obtain ⟨h, h', -⟩ := ha
      rcases ha' with ⟨h'', -⟩ | ⟨h'', -⟩ <;> omega
    · obtain ⟨-, hle, rows, hselect, rfl⟩ := ha
      obtain ⟨-, -, rows', hselect', rfl⟩ := ha'
      have hagree' : Agree t q.where_ := fun row row' hrow hrow' hc =>
        hagree row row' hrow hrow' (Bool.and_eq_true_iff.2 ⟨decide_eq_true hle, hc⟩)
      rw [← foldl_addPoint_strip rows, ← foldl_addPoint_strip rows',
        map_strip_eq ht hagree' (distinguishes_entityKey q) hres hselect hselect']

end CompareMetric

/-! ### `get_metric_timeseries` -/

section MetricTimeseries

variable {q : MetricTimeseriesQuery} {b : RestatementBasis} {ar cn ar' cn' : List CanonicalRow}
  {j j' : Joined}

/-- What the query selects, of one basis or of both. -/
def MetricTimeseriesQuery.selects (q : MetricTimeseriesQuery) (k : FinancialKey) : Bool :=
  (∀ b ∈ q.restatementBasis, k.restatementBasis = b) ∧ q.where_ k.restatementBasis k

/-- The value of a basis. -/
def TimeseriesPoint.value (p : TimeseriesPoint) : RestatementBasis → Option Numeric
  | .asReported => p.asReported
  | .cpiNormalized => p.cpiNormalized

/-- The answer has a value for a key. -/
def MetricTimeseriesQuery.Gives (q : MetricTimeseriesQuery) (answer : List TimeseriesPoint)
    (k : FinancialKey) (v : Option Numeric) : Prop :=
  ∃ p ∈ answer, ∃ b, (∀ b' ∈ q.restatementBasis, b = b') ∧
    k = ⟨q.entityId, q.canonicalCode, p.periodEnd, p.periodType, q.consolidation.value, b⟩ ∧
      v = p.value b

theorem distinguishes_pointKey (q : MetricTimeseriesQuery) (b : RestatementBasis) :
    Distinguishes pointKey (q.where_ b) := by
  intro row row' h h'
  obtain ⟨hentity, hcode, hbasis, htype, hcons⟩ := of_decide_eq_true h
  obtain ⟨hentity', hcode', hbasis', htype', hcons'⟩ := of_decide_eq_true h'
  constructor
  · intro heq
    obtain ⟨hend, -⟩ := Prod.mk.inj (toLex.injective heq)
    exact FinancialKey.ext (hentity.trans hentity'.symm) (hcode.trans hcode'.symm) hend
      (htype.trans htype'.symm) (hcons.trans hcons'.symm) (hbasis.trans hbasis'.symm)
  · intro heq
    rw [pointKey, pointKey, heq]

theorem where_basis (h : q.where_ b k) : q.where_ k.restatementBasis k := by
  obtain ⟨hentity, hcode, -, htype, hcons⟩ := of_decide_eq_true h
  exact decide_eq_true ⟨hentity, hcode, rfl, htype, hcons⟩

/-- The key of a row that is selected. -/
theorem key_eq_of_where (h : q.where_ b row.toFinancialKey) :
    row.toFinancialKey = ⟨q.entityId, q.canonicalCode, row.periodEnd, row.periodType,
      q.consolidation.value, b⟩ := by
  obtain ⟨hentity, hcode, hbasis, -, hcons⟩ := of_decide_eq_true h
  exact FinancialKey.ext hentity hcode rfl rfl hcons hbasis

theorem joins_iff {a c : CanonicalRow} :
    joins a c ↔ a.periodEnd = c.periodEnd ∧ a.periodType = c.periodType :=
  decide_eq_true_iff

/-- The rows of the join: those that match, and on either side those without a match. -/
theorem mem_fullJoin : j ∈ fullJoin ar cn ↔ match j with
    | .both a c => a ∈ ar ∧ c ∈ cn ∧ joins a c
    | .left a => a ∈ ar ∧ ∀ c ∈ cn, ¬joins a c
    | .right c => c ∈ cn ∧ ∀ a ∈ ar, ¬joins a c := by
  rw [fullJoin, List.mem_append, List.mem_flatMap]
  constructor
  · rintro (⟨a, ha, hj⟩ | hj)
    · split at hj
      next hnil =>
        obtain rfl := List.mem_singleton.1 hj
        exact ⟨ha, fun c hc hjoin => List.filter_eq_nil_iff.1 hnil c hc hjoin⟩
      next =>
        obtain ⟨c, hc, rfl⟩ := List.mem_map.1 hj
        obtain ⟨hc, hjoin⟩ := List.mem_filter.1 hc
        exact ⟨ha, hc, hjoin⟩
    · obtain ⟨c, hc, rfl⟩ := List.mem_map.1 hj
      obtain ⟨hc, hnone⟩ := List.mem_filter.1 hc
      refine ⟨hc, fun a ha hjoin => ?_⟩
      have hany : (ar.any fun a => joins a c) = true := List.any_eq_true.2 ⟨a, ha, hjoin⟩
      rw [hany] at hnone
      exact Bool.false_ne_true hnone
  · rcases j with ⟨a, c⟩ | a | c
    · rintro ⟨ha, hc, hjoin⟩
      refine .inl ⟨a, ha, ?_⟩
      have hmem : c ∈ cn.filter (joins a) := List.mem_filter.2 ⟨hc, hjoin⟩
      split
      next hnil => exact absurd (hnil ▸ hmem) List.not_mem_nil
      next => exact List.mem_map_of_mem hmem
    · rintro ⟨ha, hnone⟩
      refine .inl ⟨a, ha, ?_⟩
      rw [List.filter_eq_nil_iff.2 hnone]
      exact List.mem_cons_self
    · rintro ⟨hc, hnone⟩
      refine .inr (List.mem_map_of_mem (List.mem_filter.2 ⟨hc, ?_⟩))
      rw [Bool.not_eq_true', List.any_eq_false]
      exact hnone

/-- Every row of the left side is in the join. -/
theorem exists_joined_ar {a : CanonicalRow} (ha : a ∈ ar) :
    ∃ j ∈ fullJoin ar cn, j.ar = some a ∧ j.row = a := by
  by_cases h : ∃ c ∈ cn, joins a c
  · obtain ⟨c, hc, hjoin⟩ := h
    exact ⟨.both a c, mem_fullJoin.2 ⟨ha, hc, hjoin⟩, rfl, rfl⟩
  · exact ⟨.left a, mem_fullJoin.2 ⟨ha, fun c hc hjoin => h ⟨c, hc, hjoin⟩⟩, rfl, rfl⟩

/-- Every row of the right side is in the join. -/
theorem exists_joined_cn {c : CanonicalRow} (hc : c ∈ cn) :
    ∃ j ∈ fullJoin ar cn, j.cn = some c ∧ j.row.periodEnd = c.periodEnd ∧
      j.row.periodType = c.periodType := by
  by_cases h : ∃ a ∈ ar, joins a c
  · obtain ⟨a, ha, hjoin⟩ := h
    obtain ⟨hend, htype⟩ := joins_iff.1 hjoin
    exact ⟨.both a c, mem_fullJoin.2 ⟨ha, hc, hjoin⟩, rfl, hend, htype⟩
  · exact ⟨.right c, mem_fullJoin.2 ⟨hc, fun a ha hjoin => h ⟨a, ha, hjoin⟩⟩, rfl, rfl, rfl⟩

/-- A row of the join, without the versions of its rows. -/
def Joined.strip : Joined → Joined
  | .both a c => .both a.strip c.strip
  | .left a => .left a.strip
  | .right c => .right c.strip

theorem map_strip_fullJoin (ar cn : List CanonicalRow) :
    (fullJoin ar cn).map Joined.strip =
      fullJoin (ar.map CanonicalRow.strip) (cn.map CanonicalRow.strip) := by
  rw [fullJoin, fullJoin, List.map_append, List.map_flatMap, List.flatMap_map, List.filter_map,
    List.map_map, List.map_map]
  refine congrArg₂ _ (List.flatMap_congr fun a _ => ?_) ?_
  · have hfilter : (cn.map CanonicalRow.strip).filter (joins a.strip) =
        (cn.filter (joins a)).map CanonicalRow.strip := List.filter_map
    rw [hfilter]
    cases cn.filter (joins a) with
    | nil => rfl
    | cons c cs => simp only [List.map_cons, List.map_map]; rfl
  · have hany : (fun c => !ar.any fun a => joins a c) =
        (fun c => !(ar.map CanonicalRow.strip).any fun a => joins a c) ∘ CanonicalRow.strip := by
      funext c
      rw [Function.comp, List.any_map]
      rfl
    rw [hany]
    rfl

theorem Joined.eq_of_sides (har : j.ar = j'.ar) (hcn : j.cn = j'.cn) : j = j' := by
  rcases j with ⟨a, c⟩ | a | c <;> rcases j' with ⟨a', c'⟩ | a' | c' <;>
    simp_all only [Joined.ar, Joined.cn, Option.some.injEq, reduceCtorEq]

/-- Rows of one type, with distinct periods. -/
structure Separate (ar cn : List CanonicalRow) : Prop where
  ar_inj : ∀ a ∈ ar, ∀ a' ∈ ar, a.periodEnd = a'.periodEnd → a = a'
  cn_inj : ∀ c ∈ cn, ∀ c' ∈ cn, c.periodEnd = c'.periodEnd → c = c'
  type_eq : ∀ a ∈ ar, ∀ c ∈ cn, a.periodType = c.periodType

/-- A row of the join has the row of the left side with its period, if there is one. -/
theorem Separate.ar_iff (h : Separate ar cn) (hj : j ∈ fullJoin ar cn) {a : CanonicalRow} :
    j.ar = some a ↔ a ∈ ar ∧ a.periodEnd = j.row.periodEnd := by
  have hj := mem_fullJoin.1 hj
  rcases j with ⟨a', c⟩ | a' | c
  · exact ⟨fun heq => Option.some.inj heq ▸ ⟨hj.1, rfl⟩,
      fun ⟨ha, hend⟩ => congrArg some (h.ar_inj a' hj.1 a ha hend.symm)⟩
  · exact ⟨fun heq => Option.some.inj heq ▸ ⟨hj.1, rfl⟩,
      fun ⟨ha, hend⟩ => congrArg some (h.ar_inj a' hj.1 a ha hend.symm)⟩
  · refine ⟨nofun, fun ⟨ha, hend⟩ => ?_⟩
    exact absurd (joins_iff.2 ⟨hend, h.type_eq a ha c hj.1⟩) (hj.2 a ha)

/-- And the row of the right side. -/
theorem Separate.cn_iff (h : Separate ar cn) (hj : j ∈ fullJoin ar cn) {c : CanonicalRow} :
    j.cn = some c ↔ c ∈ cn ∧ c.periodEnd = j.row.periodEnd := by
  have hj := mem_fullJoin.1 hj
  rcases j with ⟨a, c'⟩ | a | c'
  · obtain ⟨-, hc', hjoin⟩ := hj
    obtain ⟨hend', -⟩ := joins_iff.1 hjoin
    exact ⟨fun heq => Option.some.inj heq ▸ ⟨hc', hend'.symm⟩,
      fun ⟨hc, hend⟩ => congrArg some (h.cn_inj c' hc' c hc (hend'.symm.trans hend.symm))⟩
  · refine ⟨nofun, fun ⟨hc, hend⟩ => ?_⟩
    exact absurd (joins_iff.2 ⟨hend.symm, h.type_eq a hj.1 c hc⟩) (hj.2 c hc)
  · exact ⟨fun heq => Option.some.inj heq ▸ ⟨hj.1, rfl⟩,
      fun ⟨hc, hend⟩ => congrArg some (h.cn_inj c' hj.1 c hc hend.symm)⟩

/-- The rows of the join have distinct periods. -/
theorem Separate.eq_of_mem (h : Separate ar cn) (hj : j ∈ fullJoin ar cn)
    (hj' : j' ∈ fullJoin ar cn) (hend : j.row.periodEnd = j'.row.periodEnd) : j = j' := by
  refine Joined.eq_of_sides (Option.ext fun a => ?_) (Option.ext fun c => ?_)
  · rw [h.ar_iff hj, h.ar_iff hj', hend]
  · rw [h.cn_iff hj, h.cn_iff hj', hend]

/-- The rows that are returned for both bases. -/
theorem separate_of_maySelect
    (har : MaySelect pointKey CanonicalRow.mappingVersion (t.select (q.where_ .asReported)) ar)
    (hcn : MaySelect pointKey CanonicalRow.mappingVersion (t.select (q.where_ .cpiNormalized)) cn) :
    Separate ar cn := by
  have htype : ∀ {b rows row}, MaySelect pointKey CanonicalRow.mappingVersion
      (t.select (q.where_ b)) rows → row ∈ rows → row.periodType = q.periodType := by
    intro b rows row h hrow
    obtain ⟨-, hc⟩ := (isLast_select_iff (distinguishes_pointKey q b)).1 (h.isLast hrow)
    obtain ⟨-, -, -, htype, -⟩ := of_decide_eq_true hc
    exact htype
  have hinj : ∀ {b rows}, MaySelect pointKey CanonicalRow.mappingVersion
      (t.select (q.where_ b)) rows → ∀ x ∈ rows, ∀ y ∈ rows, x.periodEnd = y.periodEnd → x = y := by
    intro b rows h x hx y hy hend
    refine h.key_inj hx hy ?_
    rw [pointKey, pointKey, hend, htype h hx, htype h hy]
  exact ⟨hinj har, hinj hcn, fun a ha c hc => (htype har ha).trans (htype hcn hc).symm⟩

/-- It does not matter in which order rows of one period come, since there are none. -/
theorem map_strip_joined {joined joined' : List Joined} (h : Separate ar cn)
    (har : ar.map CanonicalRow.strip = ar'.map CanonicalRow.strip)
    (hcn : cn.map CanonicalRow.strip = cn'.map CanonicalRow.strip)
    (hj : IsOrdered (fun j : Joined => OrderDual.toDual j.row.periodEnd) (fullJoin ar cn) joined)
    (hj' : IsOrdered (fun j : Joined => OrderDual.toDual j.row.periodEnd) (fullJoin ar' cn')
      joined') :
    joined.map Joined.strip = joined'.map Joined.strip := by
  have hrow : ∀ j : Joined, j.strip.row.periodEnd = j.row.periodEnd := by
    rintro (⟨a, c⟩ | a | c) <;> rfl
  have hfull : (fullJoin ar cn).map Joined.strip = (fullJoin ar' cn').map Joined.strip := by
    rw [map_strip_fullJoin, map_strip_fullJoin, har, hcn]
  have hperm : (joined.map Joined.strip).Perm (joined'.map Joined.strip) :=
    ((hj.perm.map _).trans (.of_eq hfull)).trans (hj'.perm.map _).symm
  have hsorted : (joined.map Joined.strip).Pairwise fun x y => y.row.periodEnd ≤ x.row.periodEnd :=
    List.pairwise_map.2 (hj.sorted.imp fun hle => by rw [hrow, hrow]; exact hle)
  have hsorted' : (joined'.map Joined.strip).Pairwise fun x y => y.row.periodEnd ≤ x.row.periodEnd :=
    List.pairwise_map.2 (hj'.sorted.imp fun hle => by rw [hrow, hrow]; exact hle)
  refine List.Perm.eq_of_pairwise (fun x y hx hy hle hle' => ?_) hsorted hsorted' hperm
  obtain ⟨j, hmem, rfl⟩ := List.mem_map.1 hx
  obtain ⟨j', hmem', rfl⟩ := List.mem_map.1 (hperm.mem_iff.2 hy)
  rw [hrow, hrow] at hle hle'
  rw [h.eq_of_mem (hj.perm.mem_iff.1 hmem) (hj.perm.mem_iff.1 hmem') (le_antisymm hle' hle)]

theorem ofJoined_strip (j : Joined) : TimeseriesPoint.ofJoined j.strip = .ofJoined j := by
  rcases j with ⟨a, c⟩ | a | c <;> rfl

/-- The value of one side of a row of the join. -/
theorem side_value {rows : List CanonicalRow} {side : Option CanonicalRow} {periodEnd : Date}
    {periodType : PeriodType}
    (h : MaySelect pointKey CanonicalRow.mappingVersion (t.select (q.where_ b)) rows)
    (hside : ∀ row, side = some row ↔ row ∈ rows ∧ row.periodEnd = periodEnd)
    (htype : periodType = q.periodType)
    (hk : k = ⟨q.entityId, q.canonicalCode, periodEnd, periodType, q.consolidation.value, b⟩) :
    (∃ row, IsMapped t row ∧ q.where_ b row.toFinancialKey ∧ row.toFinancialKey = k ∧
      row.value = side.bind (·.value)) ∨
      (∀ row ∈ t.rows, row.toFinancialKey ≠ k) ∧ side.bind (·.value) = none := by
  subst hk
  cases hrow : side with
  | some row =>
    left
    obtain ⟨hmem, rfl⟩ := (hside row).1 hrow
    obtain ⟨hmapped, hc⟩ := (isLast_select_iff (distinguishes_pointKey q b)).1 (h.isLast hmem)
    obtain ⟨-, -, -, htype', -⟩ := of_decide_eq_true hc
    exact ⟨row, hmapped, hc, by rw [htype, ← htype', ← key_eq_of_where hc], rfl⟩
  | none =>
    refine .inr ⟨fun row hrow' hkey => ?_, rfl⟩
    have hc : q.where_ b row.toFinancialKey := by
      rw [hkey]
      exact decide_eq_true ⟨rfl, rfl, rfl, htype, rfl⟩
    obtain ⟨row', hmem, hpoint⟩ := h.exists_mem (List.mem_filter.2 ⟨hrow', hc⟩)
    obtain ⟨hend, -⟩ := Prod.mk.inj (toLex.injective hpoint)
    have hsome := (hside row').2 ⟨hmem, hend.trans (congrArg FinancialKey.periodEnd hkey)⟩
    rw [hrow] at hsome
    cases hsome

theorem row_mem_of_mem_fullJoin (hj : j ∈ fullJoin ar cn) : j.row ∈ ar ∨ j.row ∈ cn := by
  have hj := mem_fullJoin.1 hj
  rcases j with ⟨a, c⟩ | a | c
  · exact .inl hj.1
  · exact .inl hj.1
  · exact .inr hj.1

theorem periodType_of_maySelect {rows : List CanonicalRow}
    (h : MaySelect pointKey CanonicalRow.mappingVersion (t.select (q.where_ b)) rows)
    (hrow : row ∈ rows) : row.periodType = q.periodType := by
  obtain ⟨-, hc⟩ := (isLast_select_iff (distinguishes_pointKey q b)).1 (h.isLast hrow)
  obtain ⟨-, -, -, htype, -⟩ := of_decide_eq_true hc
  exact htype

theorem metricTimeseries_both {answer : List TimeseriesPoint} (hq : q.restatementBasis = none) :
    MetricTimeseries t q limit answer ↔ ∃ ar cn joined,
      MaySelect pointKey CanonicalRow.mappingVersion (t.select (q.where_ .asReported)) ar ∧
      MaySelect pointKey CanonicalRow.mappingVersion (t.select (q.where_ .cpiNormalized)) cn ∧
      IsOrdered (fun j => OrderDual.toDual j.row.periodEnd) (fullJoin ar cn) joined ∧
      answer = sliceTo limit (joined.map TimeseriesPoint.ofJoined) := by
  rw [MetricTimeseries, hq]

theorem metricTimeseries_single {answer : List TimeseriesPoint} (hq : q.restatementBasis = some b) :
    MetricTimeseries t q limit answer ↔ ∃ rows,
      MaySelect pointKey CanonicalRow.mappingVersion (t.select (q.where_ b)) rows ∧
      answer = sliceTo limit (rows.map TimeseriesPoint.ofRow) := by
  rw [MetricTimeseries, hq]

theorem selects_of_where (hq : q.restatementBasis = none) (h : q.where_ b k) : q.selects k := by
  refine decide_eq_true ⟨fun b' hb' => ?_, where_basis h⟩
  rw [hq] at hb'
  exact absurd hb' (Option.not_mem_none b')

/-- An answer with a row of the join. -/
theorem exists_answer_both (hq : q.restatementBasis = none)
    (har : MaySelect pointKey CanonicalRow.mappingVersion (t.select (q.where_ .asReported)) ar)
    (hcn : MaySelect pointKey CanonicalRow.mappingVersion (t.select (q.where_ .cpiNormalized)) cn)
    (hj : j ∈ fullJoin ar cn) :
    ∃ (limit : ℤ) (answer : List TimeseriesPoint), MetricTimeseries t q limit answer ∧
      .ofJoined j ∈ answer := by
  have hordered := isOrdered_orderBy (fun j : Joined => OrderDual.toDual j.row.periodEnd)
    (fullJoin ar cn)
  obtain ⟨limit, hlimit⟩ := exists_sliceTo_eq ((orderBy (fun j : Joined =>
    OrderDual.toDual j.row.periodEnd) (fullJoin ar cn)).map TimeseriesPoint.ofJoined)
  refine ⟨limit, _, (metricTimeseries_both hq).2 ⟨ar, cn, _, har, hcn, hordered, rfl⟩, ?_⟩
  rw [hlimit]
  exact List.mem_map_of_mem (hordered.perm.mem_iff.2 hj)

theorem gives_of_mem {answer : List TimeseriesPoint} {p : TimeseriesPoint}
    (hc : q.selects row.toFinancialKey) (hp : p ∈ answer) (hend : p.periodEnd = row.periodEnd)
    (htype : p.periodType = row.periodType) (hvalue : p.value row.restatementBasis = row.value) :
    q.Gives answer row.toFinancialKey row.value := by
  obtain ⟨hbasis, hc⟩ := of_decide_eq_true hc
  refine ⟨p, hp, row.restatementBasis, hbasis, ?_, hvalue.symm⟩
  rw [hend, htype]
  exact key_eq_of_where hc

theorem MetricTimeseriesQuery.reads_both (hq : q.restatementBasis = none) :
    Reads (fun t limit answer => MetricTimeseries t q limit answer) q.Gives id q.selects where
  value := by
    rintro t limit answer k v hanswer ⟨p, hp, b, -, hk, rfl⟩
    obtain ⟨ar, cn, joined, har, hcn, hj, rfl⟩ := (metricTimeseries_both hq).1 hanswer
    obtain ⟨j, hj', rfl⟩ := List.mem_map.1 (mem_of_mem_sliceTo hp)
    have hmem := hj.perm.mem_iff.1 hj'
    have hsep := separate_of_maySelect har hcn
    have htype : j.row.periodType = q.periodType := (row_mem_of_mem_fullJoin hmem).elim
      (periodType_of_maySelect har) (periodType_of_maySelect hcn)
    have hside : (∃ row, IsMapped t row ∧ q.where_ b row.toFinancialKey ∧ row.toFinancialKey = k ∧
        row.value = (TimeseriesPoint.ofJoined j).value b) ∨
          (∀ row ∈ t.rows, row.toFinancialKey ≠ k) ∧ (TimeseriesPoint.ofJoined j).value b = none := by
      rcases b with _ | _
      · exact side_value har (fun _ => hsep.ar_iff hmem) htype hk
      · exact side_value hcn (fun _ => hsep.cn_iff hmem) htype hk
    exact hside.imp_left fun ⟨row, hrow, hc, h⟩ => ⟨row, hrow, selects_of_where hq hc, h⟩
  reach := by
    intro t row hrow hselects
    obtain ⟨-, hc⟩ := of_decide_eq_true hselects
    -- The rows of the other basis are any.
    have hother := fun b => maySelect_orderBy pointKey CanonicalRow.mappingVersion
      (t.select (q.where_ b))
    cases hb : row.restatementBasis with
    | asReported =>
      rw [hb] at hc
      obtain ⟨rows, hselect, hmem⟩ :=
        exists_maySelect ((isLast_select_iff (distinguishes_pointKey q _)).2 ⟨hrow, hc⟩)
      obtain ⟨j, hj, har, hend⟩ := exists_joined_ar hmem
      obtain ⟨limit, answer, hanswer, hp⟩ := exists_answer_both hq hselect (hother _) hj
      refine ⟨limit, answer, hanswer, gives_of_mem hselects hp ?_ ?_ ?_⟩
      · exact congrArg (·.periodEnd) hend
      · exact congrArg (·.periodType) hend
      · rw [hb, TimeseriesPoint.value, TimeseriesPoint.ofJoined, har, Option.bind_some]
    | cpiNormalized =>
      rw [hb] at hc
      obtain ⟨rows, hselect, hmem⟩ :=
        exists_maySelect ((isLast_select_iff (distinguishes_pointKey q _)).2 ⟨hrow, hc⟩)
      obtain ⟨j, hj, hcn, hend, htype⟩ := exists_joined_cn hmem
      obtain ⟨limit, answer, hanswer, hp⟩ := exists_answer_both hq (hother _) hselect hj
      refine ⟨limit, answer, hanswer, gives_of_mem hselects hp hend htype ?_⟩
      rw [hb, TimeseriesPoint.value, TimeseriesPoint.ofJoined, hcn, Option.bind_some]
  eq := by
    intro t t' limit a a' ht hagree hres ha ha'
    obtain ⟨ar, cn, joined, har, hcn, hj, rfl⟩ := (metricTimeseries_both hq).1 ha
    obtain ⟨ar', cn', joined', har', hcn', hj', rfl⟩ := (metricTimeseries_both hq).1 ha'
    have hagree' : ∀ b, Agree t (q.where_ b) := fun b row row' hrow hrow' hc =>
      hagree row row' hrow hrow' (selects_of_where hq hc)
    have hstrip := map_strip_joined (separate_of_maySelect har hcn)
      (map_strip_eq ht (hagree' _) (distinguishes_pointKey q _) hres har har')
      (map_strip_eq ht (hagree' _) (distinguishes_pointKey q _) hres hcn hcn') hj hj'
    have hmap := congrArg (List.map TimeseriesPoint.ofJoined) hstrip
    simp only [List.map_map, Function.comp_def, ofJoined_strip] at hmap
    rw [hmap]

theorem selects_iff (hq : q.restatementBasis = some b) : q.selects k ↔ q.where_ b k := by
  constructor
  · intro h
    obtain ⟨hbasis, hc⟩ := of_decide_eq_true h
    rwa [hbasis b hq] at hc
  · intro h
    obtain ⟨-, -, hbasis, -⟩ := of_decide_eq_true h
    refine decide_eq_true ⟨fun b' hb' => ?_, where_basis h⟩
    rw [hq] at hb'
    exact hbasis.trans (Option.some.inj hb')

theorem value_ofRow (hb : row.restatementBasis = b) :
    (TimeseriesPoint.ofRow row).value b = row.value := by
  subst hb
  cases hb : row.restatementBasis <;> simp [TimeseriesPoint.value, TimeseriesPoint.ofRow, hb]

theorem MetricTimeseriesQuery.reads_single (hq : q.restatementBasis = some b) :
    Reads (fun t limit answer => MetricTimeseries t q limit answer) q.Gives id q.selects where
  value := by
    rintro t limit answer k v hanswer ⟨p, hp, b', hb', rfl, rfl⟩
    left
    obtain rfl := hb' b hq
    obtain ⟨rows, hselect, rfl⟩ := (metricTimeseries_single hq).1 hanswer
    obtain ⟨row, hrow, rfl⟩ := List.mem_map.1 (mem_of_mem_sliceTo hp)
    obtain ⟨hmapped, hc⟩ :=
      (isLast_select_iff (distinguishes_pointKey q b')).1 (hselect.isLast hrow)
    obtain ⟨-, -, hbasis, -⟩ := of_decide_eq_true hc
    exact ⟨row, hmapped, (selects_iff hq).2 hc, key_eq_of_where hc, (value_ofRow hbasis).symm⟩
  reach := by
    intro t row hrow hselects
    have hc := (selects_iff hq).1 hselects
    obtain ⟨rows, hselect, hmem⟩ :=
      exists_maySelect ((isLast_select_iff (distinguishes_pointKey q b)).2 ⟨hrow, hc⟩)
    obtain ⟨limit, hlimit⟩ := exists_sliceTo_eq (rows.map TimeseriesPoint.ofRow)
    refine ⟨limit, _, (metricTimeseries_single hq).2 ⟨rows, hselect, rfl⟩, ?_⟩
    rw [hlimit]
    exact gives_of_mem hselects (List.mem_map_of_mem hmem) rfl rfl (value_ofRow rfl)
  eq := by
    intro t t' limit a a' ht hagree hres ha ha'
    obtain ⟨rows, hselect, rfl⟩ := (metricTimeseries_single hq).1 ha
    obtain ⟨rows', hselect', rfl⟩ := (metricTimeseries_single hq).1 ha'
    have hagree' : Agree t (q.where_ b) := fun row row' hrow hrow' hc =>
      hagree row row' hrow hrow' ((selects_iff hq).2 hc)
    have hstrip := map_strip_eq ht hagree' (distinguishes_pointKey q b) hres hselect hselect'
    have hmap := congrArg (List.map TimeseriesPoint.ofRow) hstrip
    have hrow : TimeseriesPoint.ofRow ∘ CanonicalRow.strip = TimeseriesPoint.ofRow := rfl
    rw [List.map_map, List.map_map, hrow] at hmap
    rw [hmap]

theorem MetricTimeseriesQuery.reads (q : MetricTimeseriesQuery) :
    Reads (fun t limit answer => MetricTimeseries t q limit answer) q.Gives id q.selects := by
  cases hq : q.restatementBasis with
  | none => exact q.reads_both hq
  | some b => exact q.reads_single hq

end MetricTimeseries

/-! ### All queries -/

inductive Query
  | entityFinancials (q : EntityFinancialsQuery)
  | compareMetric (q : CompareMetricQuery)
  | metricTimeseries (q : MetricTimeseriesQuery)

/-- The keys whose values are looked up. -/
def Query.selects : Query → FinancialKey → Bool
  | .entityFinancials q => q.where_
  | .compareMetric q => q.selects
  | .metricTimeseries q => q.selects

/-- The values that a query returns, with whatever limit, are the latest ones, and its answer, but for
    the quality scores, is a function of the rows of the table and of what is known now. -/
def Latest (t : CanonicalTable) (scores : List QualityScoreRow) : Query → Prop
  | .entityFinancials q => LatestOf (fun t limit answer => EntityFinancials t scores q limit answer)
      q.Gives (List.map PeriodData.withoutScore) t
  | .compareMetric q =>
    LatestOf (fun t limit answer => CompareMetric t q limit answer) q.Gives id t
  | .metricTimeseries q =>
    LatestOf (fun t limit answer => MetricTimeseries t q limit answer) q.Gives id t

/-- A query returns the latest values exactly if, of every key that it looks up, the rows with the
    greatest `mapping_version` have the same value. -/
theorem latest_iff (scores : List QualityScoreRow) (q : Query) (ht : t.SingleValued) :
    Latest t scores q ↔ Agree t q.selects := by
  rcases q with q | q | q
  · exact (q.reads scores).latestOf_iff ht
  · exact q.reads.latestOf_iff ht
  · exact q.reads.latestOf_iff ht

/-! ### A restatement -/

/-- A value of one metric of one entity. -/
def restatedRow (canonicalCode : String) (value mappingVersion : ℤ) (asOf : Timestamp) :
    CanonicalRow where
  entityId := 1
  canonicalCode := canonicalCode
  periodEnd := 20000
  periodType := .annual
  consolidation := "consolidated"
  restatementBasis := .asReported
  currencyCode := "TRY"
  accountingStandard := "tfrs"
  cpiBaseDate := cpiSentinel
  value := some (.finite value 0)
  mappingVersion := mappingVersion
  asOf := asOf

/-- The revenue is restated under the same mapping, and the profit under a later one. -/
def restatedTable : CanonicalTable where
  rows := [restatedRow "is.revenue" 100 1 1, restatedRow "is.revenue" 90 1 2,
    restatedRow "is.profit" 10 1 1, restatedRow "is.profit" 9 2 2]
  primaryKey := by decide +kernel
  check := by decide +kernel

def restatedQuery (canonicalCode : String) : MetricTimeseriesQuery where
  entityId := 1
  canonicalCode := canonicalCode
  restatementBasis := some .asReported
  periodType := .annual
  consolidation := .consolidated

theorem singleValued_restatedTable : restatedTable.SingleValued := by
  unfold CanonicalTable.SingleValued
  decide +kernel

/-- The revenue that is returned may be the one before the restatement. -/
theorem not_latest_revenue : restatedTable.SingleValued ∧
    ¬Latest restatedTable [] (.metricTimeseries (restatedQuery "is.revenue")) := by
  refine ⟨singleValued_restatedTable, fun h => ?_⟩
  have hselect : MaySelect pointKey CanonicalRow.mappingVersion
      (restatedTable.select ((restatedQuery "is.revenue").where_ .asReported))
      [restatedRow "is.revenue" 100 1 1] := by
    refine ⟨[restatedRow "is.revenue" 100 1 1, restatedRow "is.revenue" 90 1 2], ⟨?_, ?_⟩, ?_⟩
    · exact .of_eq (by rfl)
    · exact List.pairwise_pair.2 le_rfl
    · rfl
  have hbasis : ∀ b ∈ some RestatementBasis.asReported, RestatementBasis.asReported = b :=
    fun b hb => Option.some.inj hb
  have hvalue := h.value 40 _ (restatedRow "is.revenue" 100 1 1).toFinancialKey
    (some (.finite 100 0)) ⟨_, hselect, rfl⟩ ⟨_, List.mem_cons_self, .asReported, hbasis, rfl, rfl⟩
  have hmem : restatedRow "is.revenue" 90 1 2 ∈ restatedTable.rows := by
    exact List.mem_cons_of_mem _ List.mem_cons_self
  rcases hvalue with ⟨row, hlast, hkey, hval⟩ | ⟨hnone, -⟩
  · have hle := hlast.last _ hmem hkey.symm
    rcases List.mem_cons.1 hlast.mem with rfl | hrow
    · exact absurd hle (by decide +kernel)
    · have hother : ∀ row ∈ restatedTable.rows.tail, row.value ≠ some (.finite 100 0) := by
        decide +kernel
      exact hother row hrow hval
  · exact hnone _ hmem rfl

/-- The profit is that of the later mapping. -/
theorem latest_profit :
    Latest restatedTable [] (.metricTimeseries (restatedQuery "is.profit")) := by
  refine (latest_iff [] (.metricTimeseries (restatedQuery "is.profit"))
    singleValued_restatedTable).2 fun row row' hrow hrow' hc hkey => ?_
  have hsame : ∀ row ∈ restatedTable.rows, ∀ row' ∈ restatedTable.rows,
      (restatedQuery "is.profit").selects row.toFinancialKey →
      row.toFinancialKey = row'.toFinancialKey → row.mappingVersion = row'.mappingVersion →
      row.value = row'.value := by
    decide +kernel
  exact hsame row hrow.mem row' hrow'.mem hc hkey
    (le_antisymm (hrow'.last row hrow.mem hkey) (hrow.last row' hrow'.mem hkey.symm))

end Financials

end AslanCore
