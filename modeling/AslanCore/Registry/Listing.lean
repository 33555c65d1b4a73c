import AslanCore.Json.Text
import AslanCore.Registry.Tables
import AslanCore.Store.Paging
import Mathlib.Data.String.Basic

/-!
# The list of entities

A client reads the list of the entities page by page. The page and the number of entities come from
two statements: the page joins the tickers, and is sorted by the legal names.

* `listEntities`: what the function returns, for an order that the database gives to the rows;
* `Listed`: the pages up to the total have every entity that matches once, whatever the orders;
* `listed_iff_listable`: they do exactly if the statements do not fail, no page ends among entities of one
  name, and no entity has had two tickers, but for one that comes last of all and ends the last page.

The names are sorted by the collation of the database, and `ILIKE` is its own; nothing is assumed of
either.
-/

namespace AslanCore.Registry

open Timeseries (storableText)

/-! ### Tables -/

/-- The columns of `ts.canonical_financial` that the list reads. -/
structure CanonicalFinancialRow where
  entityId : PgUuid
  periodEnd : Date
  deriving DecidableEq

/-- The columns of `ts.entity_quality_score` that the list reads. -/
structure EntityQualityScoreRow where
  entityId : PgUuid
  score : ℤ
  deriving DecidableEq

/-- The registry, and what there is of its entities in the schema `ts`. -/
structure Listings extends Tables where
  canonicalFinancial : List CanonicalFinancialRow
  entityQualityScore : List EntityQualityScoreRow
  canonicalFinancial_entity : ∀ r ∈ canonicalFinancial, r.entityId ∈ entity.map (·.entityId)
  entityQualityScore_entity : ∀ r ∈ entityQualityScore, r.entityId ∈ entity.map (·.entityId)
  entityQualityScore_score : ∀ r ∈ entityQualityScore, 0 ≤ r.score ∧ r.score ≤ 100

/-- What the database compares texts with. -/
structure Collation (κ : Type) where
  /-- The place of a text in the order of the collation. -/
  sortKey : String → κ
  /-- `text ILIKE pattern`. -/
  ilike : String → String → Bool

/-- A row of the list. -/
structure EntitySummary where
  entityId : PgUuid
  legalName : String
  ticker : Option String
  latestPeriod : Option Date
  avgQualityScore : Option ℤ
  canonicalLineCount : ℕ
  deriving DecidableEq

/-- Why the list is not returned: an argument is not accepted, or a statement fails. -/
inductive ListError
  | value (msg : String)
  | badText
  | integerOutOfRange
  deriving DecidableEq

namespace Listings

variable (t : Listings)

/-- The rows of an entity in `ts.canonical_financial`. -/
def canonicalOf (entityId : PgUuid) : List CanonicalFinancialRow :=
  t.canonicalFinancial.filter (·.entityId = entityId)

/-- `MAX(period_end)`. -/
def latestPeriod (entityId : PgUuid) : Option Date :=
  ((t.canonicalOf entityId).map (·.periodEnd)).max?

/-- `ROUND(AVG(score))::INT`. No score is negative. -/
def avgQualityScore (entityId : PgUuid) : Option ℤ :=
  match (t.entityQualityScore.filter (·.entityId = entityId)).map (·.score) with
  | [] => none
  | scores => some ((2 * scores.sum + scores.length) / (2 * scores.length))

/-- The tickers that an entity has had. -/
def tickersOf (entityId : PgUuid) : List IdentifierRow :=
  t.identifier.filter fun id => id.entityId = entityId ∧ id.ns = "bist_ticker"

/-- `LEFT JOIN ref.identifier id ON id.entity_id = e.entity_id AND id.namespace = 'bist_ticker'`. -/
def joinTickers (entityId : PgUuid) : List (Option String) :=
  match t.tickersOf entityId with
  | [] => [none]
  | ids => ids.map fun id => some id.value

variable {κ : Type} (c : Collation κ) (search : Option String) (hasFinancials : Bool)

/-- The condition of both statements. -/
def matching : List EntityRow :=
  t.entity.filter fun e =>
    (search.all fun s => c.ilike e.legalName ("%" ++ s ++ "%")) &&
      (!hasFinancials || t.canonicalOf e.entityId ≠ [])

/-- The rows of an entity. -/
def summaries (entityId : PgUuid) (legalName : String) : List EntitySummary :=
  (t.joinTickers entityId).map fun ticker =>
    { entityId, legalName, ticker
      latestPeriod := t.latestPeriod entityId
      avgQualityScore := t.avgQualityScore entityId
      canonicalLineCount := (t.canonicalOf entityId).length }

/-- The rows that `_LIST_ENTITIES_SQL` sorts. The lines of an entity are counted in an `INT`. -/
def selectEntities : Except ListError (List EntitySummary) :=
  if ¬search.all storableText then .error .badText
  else if ∃ e ∈ t.entity, 2 ^ 31 ≤ (t.canonicalOf e.entityId).length then .error .integerOutOfRange
  else .ok ((t.matching c search hasFinancials).flatMap fun e => t.summaries e.entityId e.legalName)

/-- `_LIST_ENTITIES_COUNT_SQL`. -/
def countEntities : Except ListError ℕ :=
  if ¬search.all storableText then .error .badText
  else .ok (t.matching c search hasFinancials).length

/-- `list_entities`: `order` is the order of the rows, as far as the database chooses it. -/
def listEntities (order : List EntitySummary → List EntitySummary) (limit offset : ℤ) :
    Except ListError (List EntitySummary × ℕ) :=
  if ¬(1 ≤ limit ∧ limit ≤ 100) then .error (.value s!"limit must be 1-100, got {limit}")
  else if ¬(0 ≤ offset ∧ offset ≤ 10000) then
    .error (.value s!"offset must be 0-10000, got {offset}")
  else if ¬search.all fun s => s.length ≤ 100 then
    .error (.value "search string must be at most 100 characters")
  else do
    let rows ← t.selectEntities c search hasFinancials
    let total ← t.countEntities c search hasFinancials
    pure (((order rows).drop offset.toNat).take limit.toNat, total)

/-- The pages of `k` rows, up to a number of rows. -/
def listPages (order : ℕ → List EntitySummary → List EntitySummary) (k total : ℕ) :
    Except ListError (List (List EntitySummary × ℕ)) :=
  (List.range (pageCount k total)).mapM fun i =>
    t.listEntities c search hasFinancials (order i) k ((k * i : ℕ) : ℤ)

variable [LinearOrder κ]

/-- `ORDER BY e.legal_name`. -/
def Orders (order : ℕ → List EntitySummary → List EntitySummary) : Prop :=
  ∀ i xs, IsOrdered (fun r : EntitySummary => c.sortKey r.legalName) xs (order i xs)

/-- The pages up to the reported total have every entity that matches once, and nothing else, whatever
    the order of each page, and the total is the number of these entities. -/
def Listed (k : ℕ) : Prop :=
  ∀ order, Orders c order →
    ∃ pages, t.listPages c search hasFinancials order k (t.matching c search hasFinancials).length =
        .ok pages ∧
      (∀ page ∈ pages, page.2 = (t.matching c search hasFinancials).length) ∧
      ((pages.flatMap (·.1)).map (·.entityId)).Perm
        ((t.matching c search hasFinancials).map (·.entityId))

/-- The entities that match and come before an entity. -/
def before (e : EntityRow) : List EntityRow :=
  (t.matching c search hasFinancials).filter fun e' =>
    c.sortKey e'.legalName < c.sortKey e.legalName

/-- Those that come before it, or are of its name. -/
def upTo (e : EntityRow) : List EntityRow :=
  (t.matching c search hasFinancials).filter fun e' =>
    c.sortKey e'.legalName ≤ c.sortKey e.legalName

/-- The list can be read in pages of `k` rows. -/
structure Listable (k : ℕ) : Prop where
  search_ok : ∀ s ∈ search, s.length ≤ 100 ∧ storableText s
  countable : ∀ e ∈ t.entity, (t.canonicalOf e.entityId).length < 2 ^ 31
  /-- The entities of one name are in one page. -/
  unsplit : ∀ e ∈ t.matching c search hasFinancials,
    (t.before c search hasFinancials e).length / k =
      ((t.upTo c search hasFinancials e).length - 1) / k
  /-- An entity with several tickers is the last one, in a page that is full. -/
  single : ∀ e ∈ t.matching c search hasFinancials, (t.tickersOf e.entityId).length ≤ 1 ∨
    k ∣ (t.matching c search hasFinancials).length ∧
      ∀ e' ∈ t.matching c search hasFinancials, e'.entityId ≠ e.entityId →
        c.sortKey e'.legalName < c.sortKey e.legalName

/-! ### Entities and their rows -/

/-- An entity, as the list shows it. -/
def entityRef (e : EntityRow) : PgUuid × String := (e.entityId, e.legalName)

/-- The entity of a row. -/
def refOf (r : EntitySummary) : PgUuid × String := (r.entityId, r.legalName)

/-- The order of the entities. -/
def refKey (ref : PgUuid × String) : κ := c.sortKey ref.2

/-- The rows of an entity. -/
def refRows (ref : PgUuid × String) : List EntitySummary := t.summaries ref.1 ref.2

/-- The entities that match. -/
def refs : List (PgUuid × String) := (t.matching c search hasFinancials).map entityRef

variable {t : Listings} {c : Collation κ} {search : Option String} {hasFinancials : Bool} {k : ℕ}

omit [LinearOrder κ] in
theorem nodup_entityId :
    ((t.matching c search hasFinancials).map (·.entityId)).Nodup :=
  t.entity_pkey.sublist (List.filter_sublist.map _)

theorem length_refRows (ref : PgUuid × String) :
    (t.refRows ref).length = max 1 (t.tickersOf ref.1).length := by
  rw [refRows, summaries, List.length_map, joinTickers]
  rcases t.tickersOf ref.1 with _ | ⟨id, ids⟩
  · rfl
  · rw [List.length_map, List.length_cons]
    omega

omit [LinearOrder κ] in
theorem rowsOf_refRows : RowsOf refOf (t.refs c search hasFinancials) t.refRows := by
  refine ⟨?_, fun ref _ hnil => ?_, fun ref _ r hr => ?_⟩
  · have h : ((t.matching c search hasFinancials).map (·.entityId)).Nodup := nodup_entityId
    refine List.Nodup.of_map Prod.fst ?_
    rwa [refs, List.map_map]
  · have hlength := length_refRows (t := t) ref
    rw [hnil, List.length_nil] at hlength
    omega
  · obtain ⟨ticker, -, rfl⟩ := List.mem_map.1 hr
    rfl

omit [LinearOrder κ] in
theorem flatMap_summaries : ((t.matching c search hasFinancials).flatMap fun e =>
    t.summaries e.entityId e.legalName) = (t.refs c search hasFinancials).flatMap t.refRows := by
  rw [refs, List.flatMap_map]
  rfl

/-- The places of an entity are told by the entities before it and of its name. -/
theorem unsplit_refs : Unsplit (refKey c) (t.refs c search hasFinancials) k ↔
    ∀ e ∈ t.matching c search hasFinancials,
      (t.before c search hasFinancials e).length / k =
        ((t.upTo c search hasFinancials e).length - 1) / k := by
  have hfirst : ∀ e, firstOf (refKey c) (t.refs c search hasFinancials) (entityRef e) =
      (t.before c search hasFinancials e).length := fun e => by
    rw [firstOf, refs, List.countP_map, List.countP_eq_length_filter]
    rfl
  have hlast : ∀ e, lastOf (refKey c) (t.refs c search hasFinancials) (entityRef e) =
      (t.upTo c search hasFinancials e).length - 1 := fun e => by
    rw [lastOf, refs, List.countP_map, List.countP_eq_length_filter]
    rfl
  rw [Unsplit, refs, List.forall_mem_map]
  refine forall₂_congr fun e _ => ?_
  rw [← hfirst, ← hlast]
  rfl

theorem single_refs : Single (refKey c) (t.refs c search hasFinancials) t.refRows k ↔
    ∀ e ∈ t.matching c search hasFinancials, (t.tickersOf e.entityId).length ≤ 1 ∨
      k ∣ (t.matching c search hasFinancials).length ∧
        ∀ e' ∈ t.matching c search hasFinancials, e'.entityId ≠ e.entityId →
          c.sortKey e'.legalName < c.sortKey e.legalName := by
  have hne : ∀ e ∈ t.matching c search hasFinancials, ∀ e' ∈ t.matching c search hasFinancials,
      (entityRef e' ≠ entityRef e ↔ e'.entityId ≠ e.entityId) := by
    intro e he e' he'
    refine not_congr ⟨fun heq => (Prod.mk.inj heq).1, fun heq => ?_⟩
    rw [List.inj_on_of_nodup_map nodup_entityId he' he heq]
  rw [Single, refs, List.forall_mem_map, List.length_map]
  refine forall₂_congr fun e he => ?_
  rw [length_refRows, List.forall_mem_map]
  refine or_congr ?_ (and_congr_right fun _ => forall₂_congr fun e' he' => ?_)
  · show max 1 (t.tickersOf e.entityId).length = 1 ↔ _
    omega
  · rw [hne e he e' he']
    rfl

/-! ### The pages -/

/-- The arguments and the tables that no statement fails on. -/
def Answered (t : Listings) (search : Option String) : Prop :=
  (∀ s ∈ search, s.length ≤ 100 ∧ storableText s) ∧
    ∀ e ∈ t.entity, (t.canonicalOf e.entityId).length < 2 ^ 31

omit [LinearOrder κ] in
/-- A page, and the number of the entities that match. -/
theorem listEntities_eq_ok_iff {order : List EntitySummary → List EntitySummary} {offset : ℕ}
    {r : List EntitySummary × ℕ} (hk : 1 ≤ k) (hk' : k ≤ 100) (hoffset : offset ≤ 10000) :
    t.listEntities c search hasFinancials order k offset = .ok r ↔ Answered t search ∧
      r = (((order ((t.refs c search hasFinancials).flatMap t.refRows)).drop offset).take k,
        (t.matching c search hasFinancials).length) := by
  rw [listEntities, if_neg (not_not.2 ⟨by omega, by omega⟩), if_neg (not_not.2 ⟨by omega, by omega⟩),
    selectEntities, countEntities, flatMap_summaries, Int.toNat_natCast, Int.toNat_natCast]
  have hlength : (search.all fun s => decide (s.length ≤ 100)) = true ↔ ∀ s ∈ search, s.length ≤ 100 := by
    rw [Option.all_eq_true]
    simp only [decide_eq_true_iff, Option.mem_def]
  have htext : search.all storableText = true ↔ ∀ s ∈ search, storableText s :=
    Option.all_eq_true _ _
  by_cases hshort : (search.all fun s => decide (s.length ≤ 100)) = true
  · rw [if_neg (not_not.2 hshort)]
    by_cases hstorable : search.all storableText = true
    · rw [if_neg (not_not.2 hstorable), if_neg (not_not.2 hstorable)]
      by_cases hcount : ∃ e ∈ t.entity, 2 ^ 31 ≤ (t.canonicalOf e.entityId).length
      · rw [if_pos hcount]
        obtain ⟨e, he, hle⟩ := hcount
        exact ⟨nofun, fun h => absurd (h.1.2 e he) (not_lt.2 hle)⟩
      · rw [if_neg hcount]
        have hanswered : Answered t search := by
          refine ⟨fun s hs => ⟨hlength.1 hshort s hs, htext.1 hstorable s hs⟩, fun e he => ?_⟩
          exact not_le.1 fun hle => hcount ⟨e, he, hle⟩
        exact ⟨fun h => ⟨hanswered, (Except.ok.inj h).symm⟩, fun h => congrArg Except.ok h.2.symm⟩
    · rw [if_pos hstorable]
      exact ⟨nofun, fun h => absurd (htext.2 fun s hs => (h.1.1 s hs).2) hstorable⟩
  · rw [if_pos hshort]
    exact ⟨nofun, fun h => absurd (hlength.2 fun s hs => (h.1.1 s hs).1) hshort⟩

theorem mapM_eq_ok {α β ε : Type} {f : α → Except ε β} {g : α → β} {xs : List α}
    (h : ∀ x ∈ xs, f x = .ok (g x)) : xs.mapM f = .ok (xs.map g) := by
  induction xs with
  | nil => rfl
  | cons x xs ih =>
    obtain ⟨hx, h⟩ := List.forall_mem_cons.1 h
    rw [List.mapM_cons, hx, ih h]
    rfl

/-- Every offset is accepted. -/
theorem mul_le_of_mem_pageCount {total i : ℕ} (htotal : total ≤ 10000)
    (hi : i ∈ List.range (pageCount k total)) : k * i ≤ 10000 := by
  have hle := Nat.le_of_lt_succ (List.mem_range.1 hi)
  have hmul := (Nat.mul_le_mul_left k hle).trans (Nat.mul_div_le _ k)
  omega

omit [LinearOrder κ] in
/-- The pages, if no statement fails. -/
theorem listPages_eq {order : ℕ → List EntitySummary → List EntitySummary} (hk : 1 ≤ k)
    (hk' : k ≤ 100) (htotal : (t.matching c search hasFinancials).length ≤ 10000)
    (h : Answered t search) :
    t.listPages c search hasFinancials order k (t.matching c search hasFinancials).length =
      .ok ((List.range (pageCount k (t.matching c search hasFinancials).length)).map fun i =>
        (((order i ((t.refs c search hasFinancials).flatMap t.refRows)).drop (k * i)).take k,
          (t.matching c search hasFinancials).length)) :=
  mapM_eq_ok fun _ hi =>
    (listEntities_eq_ok_iff hk hk' (mul_le_of_mem_pageCount htotal hi)).2 ⟨h, rfl⟩

omit [LinearOrder κ] in
/-- Entities are told by their identifiers. -/
theorem perm_refs_iff {rows : List EntitySummary}
    (hrows : ∀ r ∈ rows, refOf r ∈ t.refs c search hasFinancials) :
    (rows.map (·.entityId)).Perm ((t.matching c search hasFinancials).map (·.entityId)) ↔
      (rows.map refOf).Perm (t.refs c search hasFinancials) := by
  have hfst : (rows.map refOf).map Prod.fst = rows.map (·.entityId) := by rw [List.map_map]; rfl
  have hfst' : (t.refs c search hasFinancials).map Prod.fst =
      (t.matching c search hasFinancials).map (·.entityId) := by rw [refs, List.map_map]; rfl
  have hnodup : ((t.refs c search hasFinancials).map Prod.fst).Nodup := hfst' ▸ nodup_entityId
  rw [← hfst, ← hfst']
  refine ⟨fun h => ?_, fun h => h.map _⟩
  have hrefs : ∀ x ∈ rows.map refOf, x ∈ t.refs c search hasFinancials := by
    intro x hx
    obtain ⟨r, hr, rfl⟩ := List.mem_map.1 hx
    exact hrows r hr
  refine (List.perm_ext_iff_of_nodup (.of_map _ (h.nodup_iff.2 hnodup)) (.of_map _ hnodup)).2
    fun x => ⟨hrefs x, fun hx => ?_⟩
  obtain ⟨y, hy, heq⟩ := List.mem_map.1 (h.mem_iff.2 (List.mem_map_of_mem hx))
  rwa [← List.inj_on_of_nodup_map hnodup (hrefs y hy) hx heq]

omit [LinearOrder κ] in
/-- What is read is in the list, whatever the order. -/
theorem refOf_mem_refs {k m : ℕ} {result : ℕ → List EntitySummary}
    (h : ∀ i, (result i).Perm ((t.refs c search hasFinancials).flatMap t.refRows)) :
    ∀ r ∈ readPages k m result, refOf r ∈ t.refs c search hasFinancials := by
  intro r hr
  obtain ⟨i, -, hr⟩ := List.mem_flatMap.1 hr
  exact (mem_flatMap_rows rowsOf_refRows
    ((h i).mem_iff.1 (List.mem_of_mem_drop (List.mem_of_mem_take hr)))).1

/-- The list can be read page by page, whatever the orders, exactly if the statements do not fail, no
    page ends among entities of one name, and no entity has had several tickers, but for one that comes
    last of all and ends the last page. -/
theorem listed_iff_listable (hk : 1 ≤ k) (hk' : k ≤ 100)
    (htotal : (t.matching c search hasFinancials).length ≤ 10000) :
    t.Listed c search hasFinancials k ↔ t.Listable c search hasFinancials k := by
  have hlength : (t.refs c search hasFinancials).length =
      (t.matching c search hasFinancials).length := List.length_map _
  have hpages : ∀ result : ℕ → List EntitySummary,
      ((((List.range (pageCount k (t.matching c search hasFinancials).length)).map fun i =>
        (((result i).drop (k * i)).take k, (t.matching c search hasFinancials).length)).flatMap
          (·.1)).map (·.entityId)) =
      (readPages k (pageCount k (t.refs c search hasFinancials).length) result).map (·.entityId) := by
    intro result
    rw [List.flatMap_map, hlength]
    rfl
  -- If no statement fails, it is about the pages of the rows.
  have hread : Answered t search → (t.Listed c search hasFinancials k ↔
      ReadOnce (refKey c) refOf (t.refs c search hasFinancials) t.refRows k) := by
    intro h
    constructor
    · intro hlisted result hresult
      have horder : Orders c fun i xs =>
          if xs = (t.refs c search hasFinancials).flatMap t.refRows then result i
          else orderBy (fun r : EntitySummary => c.sortKey r.legalName) xs := by
        intro i xs
        dsimp only
        split_ifs with hxs
        · subst hxs
          exact hresult i
        · exact isOrdered_orderBy _ xs
      obtain ⟨pages, hok, -, hperm⟩ := hlisted _ horder
      rw [listPages_eq hk hk' htotal h] at hok
      rw [← Except.ok.inj hok] at hperm
      simp only [if_true] at hperm
      rw [hpages] at hperm
      exact (perm_refs_iff (refOf_mem_refs fun i => (hresult i).perm)).1 hperm
    · intro honce order horder
      refine ⟨_, listPages_eq hk hk' htotal h, ?_, ?_⟩
      · intro page hpage
        obtain ⟨i, -, rfl⟩ := List.mem_map.1 hpage
        rfl
      · rw [hpages]
        exact (perm_refs_iff (refOf_mem_refs fun i => (horder i _).perm)).2
          (honce _ fun i => horder i _)
  constructor
  · intro hlisted
    have hanswered : Answered t search := by
      obtain ⟨pages, hok, -⟩ := hlisted
        (fun _ => orderBy fun r : EntitySummary => c.sortKey r.legalName)
        fun _ xs => isOrdered_orderBy _ xs
      rw [listPages, pageCount, List.range_succ_eq_map, List.mapM_cons] at hok
      simp only [bind, except_bind_eq_ok] at hok
      obtain ⟨page, hpage, -⟩ := hok
      exact ((listEntities_eq_ok_iff hk hk' (by omega)).1 hpage).1
    obtain ⟨hunsplit, hsingle⟩ := (readOnce_iff hk rowsOf_refRows).1 ((hread hanswered).1 hlisted)
    exact ⟨hanswered.1, hanswered.2, unsplit_refs.1 hunsplit, single_refs.1 hsingle⟩
  · rintro ⟨hsearch, hcountable, hunsplit, hsingle⟩
    exact (hread ⟨hsearch, hcountable⟩).2
      ((readOnce_iff hk rowsOf_refRows).2 ⟨unsplit_refs.2 hunsplit, single_refs.2 hsingle⟩)

/-! ### Companies -/

def company (entityId : PgUuid) (legalName : String) : EntityRow where
  entityType := "company"
  legalName := legalName
  shortName := none
  countryCode := "TR"
  domicile := none
  incorporationDt := none
  fiscalYearEnd := none
  status := "active"
  parentEntityId := none
  metadata := []
  entityId := entityId
  sourceId := "kap"
  ingestionRunId := 1
  createdAt := 0
  updatedAt := 0
  toAuditCols := ⟨none, none, none, none, none⟩

def tickerRow (identifierId : ℤ) (entityId : PgUuid) (value : String) (window : Window Date) :
    IdentifierRow where
  identifierId := identifierId
  entityId := entityId
  ns := "bist_ticker"
  value := value
  window := window
  isPrimary := true
  sourceId := "kap"
  ingestionRunId := 1
  createdAt := 0
  toAuditCols := ⟨none, none, none, none, none⟩

/-- The collation `C`. -/
def byCodePoint : Collation String := ⟨id, fun _ _ => true⟩

/-- Companies of which each has one ticker. -/
def companies : Listings where
  sourceOf _ := some "kap"
  entity := [company 8 "Turkcell", company 7 "Aselsan"]
  identifier := [tickerRow 1 7 "ASELS" always, tickerRow 2 8 "TCELL" always]
  nextIdentifierId := 3
  events := []
  entity_pkey := by decide
  identifier_pkey := by decide
  identifier_seq := by decide
  identifier_excl := by
    refine List.pairwise_pair.2 fun h => ?_
    exact absurd (Prod.mk.inj h.1).2 (by decide)
  identifier_entity := by decide
  canonicalFinancial := []
  entityQualityScore := []
  canonicalFinancial_entity := nofun
  entityQualityScore_entity := nofun
  entityQualityScore_score := nofun

theorem listed_companies : companies.Listed byCodePoint none false 1 :=
  (listed_iff_listable (by decide) (by decide) (by decide)).2
    ⟨nofun, by decide, by decide +kernel, by decide⟩

/-- A company whose ticker has changed. -/
def renamed : Listings where
  sourceOf _ := some "kap"
  entity := [company 7 "Aselsan"]
  identifier := [tickerRow 1 7 "ASEL" ⟨firstDay, 10000, by decide⟩,
    tickerRow 2 7 "ASELS" ⟨10000, lastDay, by decide⟩]
  nextIdentifierId := 3
  events := []
  entity_pkey := by decide
  identifier_pkey := by decide
  identifier_seq := by decide
  identifier_excl := by
    refine List.pairwise_pair.2 fun h => ?_
    exact absurd (Prod.mk.inj h.1).2 (by decide)
  identifier_entity := by decide
  canonicalFinancial := []
  entityQualityScore := []
  canonicalFinancial_entity := nofun
  entityQualityScore_entity := nofun
  entityQualityScore_score := nofun

/-- It is listed twice. -/
theorem not_listed_renamed : ¬renamed.Listed byCodePoint none false 50 := by
  intro h
  obtain ⟨pages, hok, -, hperm⟩ := h
    (fun _ => orderBy fun r : EntitySummary => byCodePoint.sortKey r.legalName)
    fun _ xs => isOrdered_orderBy _ xs
  have hanswered : Answered renamed none := ⟨nofun, by decide⟩
  rw [listPages_eq (by decide) (by decide) (by decide) hanswered] at hok
  rw [← Except.ok.inj hok] at hperm
  -- One page has the rows of both tickers.
  have hrows : ((renamed.refs byCodePoint none false).flatMap renamed.refRows).length = 2 := rfl
  have hcount : pageCount 50 (renamed.matching byCodePoint none false).length = 1 := rfl
  have hone : (renamed.matching byCodePoint none false).length = 1 := rfl
  have hlength := hperm.length_eq
  rw [hcount] at hlength
  simp only [List.range_one, List.map_cons, List.map_nil, List.flatMap_cons, List.flatMap_nil,
    List.append_nil, Nat.mul_zero, List.drop_zero, List.length_map, List.length_take,
    (perm_orderBy _ _).length_eq, hrows, hone] at hlength
  exact absurd hlength (by decide)

end Listings

end AslanCore.Registry
