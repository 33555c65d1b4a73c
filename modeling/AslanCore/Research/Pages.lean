import Std.Data.String.ToInt
import AslanCore.Dict
import AslanCore.Research.Revalidation

/-!
# Pages

A list has pages: a full page has a cursor for the next one, which is bound to the filters of the
request as they are resolved, and says that there is more to come.

* `Paginates`: what the metadata of a first page should say;
* `decodeCursor_encodeCursor`: which filters a cursor is accepted with;
* `accepted_iff`: a cursor is accepted later if the request has a point in time or a range;
* `paginates_iff`: the metadata are right unless the rows are as many as the limit, or there are
  more and the request has neither.
-/

namespace AslanCore.Research

/-! ### What pages rely on -/

/-- A statement with a limit has as many rows as it has without it, up to the limit. -/
def Environment.Limits (env : Environment) : Prop :=
  ∀ (sql : String) (params : Params) (n : ℕ), 0 < n →
    (env.execute (limited sql) (("limit", .int n) :: params)).map List.length =
      (env.execute sql params).map fun rows => min n rows.length

/-- What is written in a cursor is read back. -/
def Environment.ReadsCursors (env : Environment) (enc : Encoding) : Prop :=
  ∀ j : Json, j.Readable 2 → env.loadCursor (enc.urlsafeB64 (dumpsSorted j)) = some j.sortKeys

/-- The hash of filters tells the point in time that they have. -/
def Environment.HashesTime (env : Environment) : Prop :=
  ∀ (t t' : Timestamp) (filters : List (String × Data)),
    env.filtersHash (("as_of", .isoformat (.timestamptz t)) :: filters) =
      env.filtersHash (("as_of", .isoformat (.timestamptz t')) :: filters) → t = t'

/-- A value that is written as one text, number or `None`. -/
def SqlValue.IsScalar : SqlValue → Prop
  | .float _ | .numeric .. | .json _ | .array _ => False
  | .int n => FewDigits n
  | _ => True

/-- The columns that are in the anchors as they are. -/
def anchorColumns : List String :=
  ["series_id", "canonical_code", "restatement_basis", "line_code", "event_seq", "published_at",
    "filing_id", "period_end", "entity_id"]

/-- They hold scalars. -/
def ResultRow.HasAnchor (r : ResultRow) : Prop := ∀ column ∈ anchorColumns, (r.get column).IsScalar

def Environment.ScalarAnchors (env : Environment) : Prop :=
  ∀ sql params rows, env.execute sql params = .ok rows → ∀ r ∈ rows, r.HasAnchor

/-! ### Totals -/

/-- The number of rows of the query without a limit. -/
def ListRequest.total (env : Environment) (l : ListRequest) : Except HttpError ℕ := do
  let w ← l.window env
  let sel ← l.select env w
  let rows ← env.execute sel.sql sel.params
  return rows.length

/-- There is more to come, and a cursor for it, if and only if the query has more rows than the
    limit; and the cursor is accepted at any later time. -/
structure Paginates (env : Environment) (principal : Option ApiKeyPrincipal) (l : ListRequest)
    (total : ℕ) (pagination : Pagination) : Prop where
  hasMore : pagination.hasMore = true ↔ l.params.limit < total
  nextCursor : pagination.nextCursor.isSome ↔ l.params.limit < total
  accepted : ∀ cursor ∈ pagination.nextCursor, ∀ now headersNow, env.now ≤ now →
    ∃ r, respond (env.at now headersNow) principal (l.withCursor (some cursor)).toRequest = .ok r

variable {env : Environment} {enc : Encoding} {i : PgUuid} {p : Option ApiKeyPrincipal}
  {l : ListRequest} {w w' : Window} {sel : Selection} {rows : List ResultRow} {data : List Data}
  {a : Answer} {n m : Timestamp}

/-! ### Anchors -/

theorem readable_of_isScalar {v : SqlValue} (h : v.IsScalar) : (v.toJson enc).Readable 0 := by
  cases v with
  | int n => exact .int h
  | float | numeric | json | array => exact h.elim
  | null => exact .null
  | bool b => exact .bool b
  | _ => exact .str _

theorem length_mapM {α β ε : Type} {f : α → Except ε β} : ∀ {xs : List α} {ys : List β},
    xs.mapM f = .ok ys → ys.length = xs.length := by
  intro xs
  induction xs with
  | nil =>
    intro ys h
    cases h
    rfl
  | cons x xs ih =>
    intro ys h
    simp only [List.mapM_cons, bind, except_bind_eq_ok, pure, Except.pure, Except.ok.injEq] at h
    obtain ⟨y, -, ys', hys', rfl⟩ := h
    rw [List.length_cons, List.length_cons, ih hys']

/-- Every row is an item. -/
theorem length_items (h : l.items env p w rows = .ok data) : data.length = rows.length := by
  cases l with
  | financialsCanonical q => exact length_mapM h
  | entities q => exact length_mapM h
  | _ =>
    cases h
    exact List.length_map _


theorem exists_of_mapM {α β ε : Type} {f : α → Except ε β} {y : β} : ∀ {xs : List α} {ys : List β},
    xs.mapM f = .ok ys → y ∈ ys → ∃ x ∈ xs, f x = .ok y := by
  intro xs
  induction xs with
  | nil =>
    intro ys h hy
    cases h
    cases hy
  | cons x xs ih =>
    intro ys h hy
    simp only [List.mapM_cons, bind, except_bind_eq_ok, pure, Except.pure, Except.ok.injEq] at h
    obtain ⟨y', hy', ys', hys', rfl⟩ := h
    rcases List.mem_cons.1 hy with rfl | hy
    · exact ⟨x, List.mem_cons_self, hy'⟩
    · obtain ⟨x', hx', heq⟩ := ih hys' hy
      exact ⟨x', List.mem_cons_of_mem x hx', heq⟩

theorem readable_isoOrNone (v : SqlValue) : ((isoOrNone v).toJson enc).Readable 0 := by
  rw [isoOrNone]
  split_ifs
  · exact .str _
  · exact .null

theorem readable_strOrNone (v : SqlValue) : ((strOrNone v).toJson enc).Readable 0 := by
  rw [strOrNone]
  split_ifs
  · exact .str _
  · exact .null

theorem readable_isoformat {v : SqlValue} {x : Data} (h : isoformat v = .ok x) :
    (x.toJson enc).Readable 0 := by
  cases v <;> cases h <;> exact .str _

theorem readable_sql {r : ResultRow} (h : r.HasAnchor) {column : String}
    (hc : column ∈ anchorColumns) : ((Data.sql (r.get column)).toJson enc).Readable 0 :=
  readable_of_isScalar (h column hc)

theorem readable_column {column : SqlValue → Data} {r : ResultRow} {name : String}
    (hcolumn : ∀ v : SqlValue, v.IsScalar → ((column v).toJson enc).Readable 0)
    (h : (r.get name).IsScalar) : (((recordItem column r).field name).toJson enc).Readable 0 := by
  rw [recordItem, Data.field, lookup_map]
  rw [ResultRow.get] at h
  cases hv : r.lookup name with
  | none => exact .null
  | some v =>
    rw [hv] at h
    exact hcolumn v h

theorem readable_filingColumn (v : SqlValue) (h : v.IsScalar) :
    ((filingColumn v).toJson enc).Readable 0 := by
  cases v with
  | timestamptz | uuid => exact .str _
  | _ => exact readable_of_isScalar h

theorem readable_qualityScoreColumn (v : SqlValue) (h : v.IsScalar) :
    ((qualityScoreColumn v).toJson enc).Readable 0 := by
  cases v with
  | numeric => exact h.elim
  | _ => exact readable_filingColumn _ h

/-- What is in an anchor is one text or number. -/
theorem readable_anchor (hrows : ∀ r ∈ rows, r.HasAnchor) (h : l.items env p w rows = .ok data)
    {last : Data} (hlast : last ∈ data) :
    ∀ name ∈ l.anchorNames, ((last.field name).toJson enc).Readable 0 := by
  cases l with
  | financialsCanonical q =>
    obtain ⟨r, hr, hitem⟩ := exists_of_mapM h hlast
    simp only [canonicalItem, bind, except_bind_eq_ok, pure, Except.pure, Except.ok.injEq] at hitem
    obtain ⟨periodEnd, hperiod, asOf, -, rfl⟩ := hitem
    simp only [ListRequest.anchorNames, List.forall_mem_cons]
    exact ⟨readable_isoformat hperiod, readable_sql (hrows r hr) (by decide),
      readable_sql (hrows r hr) (by decide), List.forall_mem_nil _⟩
  | entities q =>
    obtain ⟨r, hr, hitem⟩ := exists_of_mapM h hlast
    simp only [bind, except_bind_eq_ok, pure, Except.pure, Except.ok.injEq] at hitem
    obtain ⟨lineageRows, -, rfl⟩ := hitem
    simp only [ListRequest.anchorNames, List.forall_mem_cons]
    exact ⟨.str _, List.forall_mem_nil _⟩
  | observations q =>
    cases h
    obtain ⟨r, hr, rfl⟩ := List.mem_map.1 hlast
    simp only [ListRequest.anchorNames, List.forall_mem_cons]
    exact ⟨readable_sql (hrows r hr) (by decide), readable_isoOrNone _, List.forall_mem_nil _⟩
  | financialsLineItems q =>
    cases h
    obtain ⟨r, hr, rfl⟩ := List.mem_map.1 hlast
    simp only [ListRequest.anchorNames, List.forall_mem_cons]
    exact ⟨readable_isoOrNone _, readable_sql (hrows r hr) (by decide),
      readable_sql (hrows r hr) (by decide), List.forall_mem_nil _⟩
  | disclosures q =>
    cases h
    obtain ⟨r, hr, rfl⟩ := List.mem_map.1 hlast
    simp only [ListRequest.anchorNames, List.forall_mem_cons]
    exact ⟨readable_isoOrNone _, readable_strOrNone _, List.forall_mem_nil _⟩
  | events q =>
    cases h
    obtain ⟨r, hr, rfl⟩ := List.mem_map.1 hlast
    simp only [ListRequest.anchorNames, List.forall_mem_cons]
    exact ⟨readable_strOrNone _, readable_sql (hrows r hr) (by decide), List.forall_mem_nil _⟩
  | filings q =>
    cases h
    obtain ⟨r, hr, rfl⟩ := List.mem_map.1 hlast
    simp only [ListRequest.anchorNames, List.forall_mem_cons]
    exact ⟨readable_column readable_filingColumn (hrows r hr _ (by decide)),
      readable_column readable_filingColumn (hrows r hr _ (by decide)), List.forall_mem_nil _⟩
  | qualityScores q =>
    cases h
    obtain ⟨r, hr, rfl⟩ := List.mem_map.1 hlast
    simp only [ListRequest.anchorNames, List.forall_mem_cons]
    exact ⟨readable_column readable_qualityScoreColumn (hrows r hr _ (by decide)),
      readable_column readable_qualityScoreColumn (hrows r hr _ (by decide)), List.forall_mem_nil _⟩


/-! ### Cursors -/

theorem keys_fieldsJson (items : List (String × Data)) :
    (fieldsJson enc items).map Prod.fst = items.map Prod.fst := by
  induction items with
  | nil => rfl
  | cons f items ih => rw [fieldsJson, List.map_cons, List.map_cons, ih]

theorem forall_mem_fieldsJson {items : List (String × Data)} {q : Json → Prop} :
    (∀ f ∈ fieldsJson enc items, q f.2) ↔ ∀ f ∈ items, q (f.2.toJson enc) := by
  induction items with
  | nil => exact ⟨nofun, nofun⟩
  | cons f items ih => rw [fieldsJson, List.forall_mem_cons, List.forall_mem_cons, ih]

theorem nodupKeys_cursorPayload (asOf : Timestamp) (anchor filters : List (String × Data)) :
    (cursorPayload env enc asOf anchor filters).NodupKeys :=
  show ["v", "as_of", "anchor", "filters_hash"].Nodup by decide

/-- A cursor is accepted with filters that have the hash of its own. -/
theorem decodeCursor_encodeCursor (hread : env.ReadsCursors enc) {asOf : Timestamp}
    {anchor filters filters' : List (String × Data)} (hnodup : (anchor.map Prod.fst).Nodup)
    (hanchor : ∀ f ∈ anchor, (f.2.toJson enc).Readable 0) :
    decodeCursor env (some (encodeCursor env enc asOf anchor filters)) filters' = .ok () ↔
      env.filtersHash filters = env.filtersHash filters' := by
  have hkeys : (cursorPayload env enc asOf anchor filters).NodupKeys :=
    nodupKeys_cursorPayload asOf anchor filters
  have hanchorKeys : (fieldsJson enc anchor).NodupKeys := by
    rwa [JsonObject.NodupKeys, keys_fieldsJson]
  have hpayload := hread _ (.obj hkeys (by
    simp only [cursorPayload, List.forall_mem_cons]
    exact ⟨.int (by decide), .str _, .obj hanchorKeys (forall_mem_fieldsJson.2 hanchor), .str _,
      List.forall_mem_nil _⟩))
  have hversion : (cursorPayload env enc asOf anchor filters).lookup "v" = some (.int 1) := rfl
  have hhash : (cursorPayload env enc asOf anchor filters).lookup "filters_hash" =
      some (.str (env.filtersHash filters)) := rfl
  simp only [decodeCursor, encodeCursor, hpayload, Json.sortKeys, lookup_sortKeys hkeys, hversion,
    hhash, Option.map_some, isCursorVersion, decide_true, Bool.not_true, Bool.false_eq_true,
    if_false]
  split_ifs with h
  · exact iff_of_true rfl h
  · exact iff_of_false (by rintro ⟨⟩) h

/-! ### Later times -/

/-- The windows are the same, up to a point in time that is not used. -/
structure Window.Same (w w' : Window) : Prop where
  interval : w'.interval = w.interval
  resolved : w.interval = none → w'.resolved = w.resolved

theorem Window.Same.params (h : w.Same w') : w'.params = w.params := by
  rw [Window.params, Window.params, h.interval]
  cases hi : w.interval with
  | none => rw [h.resolved hi]
  | some r => rfl

theorem Window.Same.cursorFilters (h : w.Same w') : w'.cursorFilters = w.cursorFilters := by
  rw [Window.cursorFilters, Window.cursorFilters, h.interval]
  cases hi : w.interval with
  | none => rw [h.resolved hi]
  | some r => rfl

/-- What is selected is the same later. -/
theorem select_of_same (h : w.Same w') {cursor : Option String} :
    (l.withCursor cursor).select (env.at n m) w' = l.select env w := by
  have hselect : ∀ a b c d e f, w'.select a b c d e f = w.select a b c d e f := by
    intro a b c d e f
    rw [Window.select, Window.select, h.params, h.cursorFilters, h.interval]
  cases l with
  | observations q =>
    simp only [ListRequest.withCursor, ListRequest.select, ObservationsRequest.select, hselect]
    rfl
  | disclosures q =>
    simp only [ListRequest.withCursor, ListRequest.select, DisclosuresRequest.select, hselect,
      h.interval]
  | filings q =>
    simp only [ListRequest.withCursor, ListRequest.select, FilingsRequest.select, h.cursorFilters]
  | financialsCanonical q =>
    simp only [ListRequest.withCursor, ListRequest.select, FinancialsCanonicalRequest.select,
      hselect]
  | financialsLineItems q =>
    simp only [ListRequest.withCursor, ListRequest.select, FinancialsLineItemsRequest.select,
      hselect]
  | entities q =>
    simp only [ListRequest.withCursor, ListRequest.select, EntitiesRequest.select, hselect]
  | events q =>
    simp only [ListRequest.withCursor, ListRequest.select, EventsRequest.select, hselect]
  | qualityScores q =>
    simp only [ListRequest.withCursor, ListRequest.select, QualityScoresRequest.select, hselect]

theorem items_of_same (h : w.Same w') {cursor : Option String} :
    (l.withCursor cursor).items (env.at n m) p w' rows = l.items env p w rows := by
  cases l with
  | entities q =>
    have hlineage : ∀ r, entityLineage (env.at n m) w' r = entityLineage env w r := by
      intro r
      simp only [entityLineage, h.interval]
      cases hi : w.interval with
      | none => rw [h.resolved hi]; rfl
      | some r => rfl
    simp only [ListRequest.withCursor, ListRequest.items, entityItems, hlineage]
  | _ => rfl


theorem interval_withCursor (cursor : Option String) :
    (l.withCursor cursor).interval (env.at n m) = l.interval env := by
  cases l <;> rfl

theorem params_withCursor (cursor : Option String) :
    (l.withCursor cursor).params = { l.params with cursor := cursor } := by
  cases l <;> rfl

/-- A range that is given is an interval. -/
theorem isSome_of_parseAsOfRange {raw : Option String} {x : Option (Timestamp × Timestamp)}
    (h : parseAsOfRange env raw = .ok x) : x.isSome = raw.isSome := by
  cases raw with
  | none =>
    cases h
    rfl
  | some raw =>
    simp only [parseAsOfRange, bind, except_bind_eq_ok] at h
    obtain ⟨⟨t1Raw, t2Raw⟩, -, h⟩ := h
    split at h
    · simp only [except_bind_eq_ok] at h
      obtain ⟨t1, -, t2, -, h⟩ := h
      split_ifs at h
      cases h
      rfl
    · cases h
    · cases h

theorem isSome_of_listInterval {q : ListParams} {x : Option (Timestamp × Timestamp)}
    (h : listInterval env q = .ok x) : x.isSome = q.asOfRange.isSome := by
  simp only [listInterval, bind, except_bind_eq_ok, pure, Except.pure, Except.ok.injEq] at h
  obtain ⟨-, -, x', hx', -, -, -, -, rfl⟩ := h
  exact isSome_of_parseAsOfRange hx'

theorem isSome_of_interval {x : Option (Timestamp × Timestamp)} (h : l.interval env = .ok x) :
    x.isSome = l.params.asOfRange.isSome := by
  cases l with
  | disclosures q =>
    simp only [ListRequest.interval, DisclosuresRequest.interval, bind, except_bind_eq_ok] at h
    obtain ⟨x', hx', h⟩ := h
    split_ifs at h
    · cases h
    · cases h
      exact isSome_of_listInterval hx'
  | _ => exact isSome_of_listInterval h

/-- With a point in time or a range, the window is the same later. -/
theorem window_later (hw : l.window env = .ok w)
    (hgiven : l.params.asOf.isSome ∨ l.params.asOfRange.isSome) (hn : env.now ≤ n)
    (cursor : Option String) :
    ∃ w', (l.withCursor cursor).window (env.at n m) = .ok w' ∧ w.Same w' := by
  obtain ⟨hint, requested, hreq, hres⟩ := window_eq_ok.1 hw
  have hlater := parseAsOf_later (m := m) hreq hn
  refine ⟨⟨w.interval, requested.getD n⟩, window_eq_ok.2 ⟨(interval_withCursor cursor).trans hint,
    requested, ?_, rfl⟩, rfl, fun hnone => ?_⟩
  · rw [params_withCursor]
    exact hlater
  · rcases hgiven with h | h
    · exact ((parsed_at h hreq hlater).2).trans hres.symm
    · rw [← isSome_of_interval hint, hnone] at h
      cases h


/-! ### Pages -/

theorem paginate_full {limit : ℤ} (env : Environment) (enc : Encoding) (asOf : Timestamp)
    (names : List String) (filters : List (String × Data)) (hlimit : 1 ≤ limit) (hfull : data.length = limit) :
    ∃ last ∈ data, paginate env enc asOf limit names filters data =
      { nextCursor := some (encodeCursor env enc asOf
          (names.map fun name => (name, last.field name)) filters)
        hasMore := true } := by
  have hne : data ≠ [] := by
    rintro rfl
    simp only [List.length_nil] at hfull
    omega
  refine ⟨data.getLast hne, List.getLast_mem hne, ?_⟩
  rw [paginate, List.getLast?_eq_some_getLast hne]
  exact if_pos hfull

theorem paginate_short {asOf : Timestamp} {limit : ℤ} {names : List String}
    {filters : List (String × Data)} (hshort : data.length ≠ limit) :
    paginate env enc asOf limit names filters data = {} := by
  rw [paginate]
  split
  · exact if_neg hshort
  · rfl

/-- The rows of the first page are those of the query, up to the limit. -/
theorem length_rows (hlimits : env.Limits) {q : ListParams} (hcursor : q.cursor = none)
    (hlimit : 1 ≤ q.limit) (h : sel.rows env q = .ok rows) :
    ∃ all, env.execute sel.sql sel.params = .ok all ∧
      (rows.length : ℤ) = min q.limit all.length := by
  obtain ⟨k, hk⟩ := Int.eq_ofNat_of_zero_le (show 0 ≤ q.limit by omega)
  rw [Selection.rows, hcursor, hk] at h
  have hlen := hlimits sel.sql sel.params k (by omega)
  rw [show env.execute (limited sel.sql) (("limit", .int k) :: sel.params) = .ok rows from h]
    at hlen
  cases hall : env.execute sel.sql sel.params with
  | error e =>
    rw [hall] at hlen
    cases hlen
  | ok all =>
    rw [hall] at hlen
    have hmin : rows.length = min k all.length := Except.ok.inj hlen
    exact ⟨all, rfl, by omega⟩

/-- The names of the anchors are different. -/
theorem nodup_anchorNames (l : ListRequest) : l.anchorNames.Nodup := by
  cases l <;> simp [ListRequest.anchorNames]

/-- Without an interval, the first filter is the point in time, and the others do not depend on
    it. -/
theorem exists_cursorFilters (env : Environment) (l : ListRequest) : ∃ rest, ∀ n m w cursor sel,
    w.interval = none → (l.withCursor cursor).select (env.at n m) w = .ok sel →
      sel.cursorFilters = ("as_of", .isoformat (.timestamptz w.resolved)) :: rest := by
  have hw : ∀ w : Window, w.interval = none → w.cursorFilters =
      [("as_of", .isoformat (.timestamptz w.resolved)), ("as_of_range", .none)] := by
    rintro ⟨-, resolved⟩ rfl
    rfl
  have hselect : ∀ (a : String) (b : Source) (c : List Filter) (d : List (String × Data))
      (e f : String), ∀ w : Window, w.interval = none →
      (w.select a b c d e f).cursorFilters =
        ("as_of", .isoformat (.timestamptz w.resolved)) :: ("as_of_range", .none) :: d := by
    intro a b c d e f w hnone
    rw [Window.select, hw w hnone]
    rfl
  cases l with
  | observations q =>
    cases hs : q.series env with
    | error e =>
      refine ⟨[], fun n m w cursor sel _ h => ?_⟩
      have hs' : ({ q with cursor := cursor } : ObservationsRequest).series (env.at n m) =
        .error e := hs
      simp [ListRequest.withCursor, ListRequest.select, ObservationsRequest.select, hs', bind,
        Except.bind] at h
    | ok seriesId =>
      refine ⟨("as_of_range", .none) ::
        [("series_id", (seriesId.map fun n => Data.sql (.int n)).getD .none),
          ("ts_from", datetimeFilter q.tsFrom), ("ts_to", datetimeFilter q.tsTo)],
        fun n m w cursor sel hnone h => ?_⟩
      have hs' : ({ q with cursor := cursor } : ObservationsRequest).series (env.at n m) =
        .ok seriesId := hs
      simp only [ListRequest.withCursor, ListRequest.select, ObservationsRequest.select, hs', bind,
        Except.bind, pure, Except.pure, Except.ok.injEq] at h
      rw [← h]
      exact hselect _ _ _ _ _ _ w hnone
  | filings q =>
    refine ⟨(q.select ⟨none, 0⟩).cursorFilters.tail, fun n m w cursor sel hnone h => ?_⟩
    cases h
    rw [FilingsRequest.select, hw w hnone]
    rfl
  | _ q =>
    refine ⟨(q.select ⟨none, 0⟩).cursorFilters.tail, fun n m w cursor sel hnone h => ?_⟩
    cases h
    exact hselect _ _ _ _ _ _ w hnone

/-- Later, the cursor is accepted if and only if its filters have the same hash. -/
theorem accepted_iff (hflag : requireMasterFlag env = .ok ()) (hread : env.ReadsCursors enc)
    (hhash : env.HashesTime) (hw : l.window env = .ok w) (hsel : l.select env w = .ok sel)
    (hcursor : l.params.cursor = none) (hrows : sel.rows env l.params = .ok rows)
    (hdata : l.items env p w rows = .ok data) {anchor : List (String × Data)} {asOf : Timestamp}
    (hnodup : (anchor.map Prod.fst).Nodup)
    (hanchor : ∀ f ∈ anchor, (f.2.toJson enc).Readable 0) :
    (∀ n m, env.now ≤ n → ∃ r, respond (env.at n m) p (l.withCursor
        (some (encodeCursor env enc asOf anchor sel.cursorFilters))).toRequest = .ok r) ↔
      l.params.asOf.isSome ∨ l.params.asOfRange.isSome := by
  constructor
  · intro haccepted
    by_contra hnone
    obtain ⟨hasOf, hrange⟩ := not_or.1 hnone
    obtain ⟨hint, requested, hreq, hres⟩ := window_eq_ok.1 hw
    have hinterval : w.interval = none := by
      have h := isSome_of_interval hint
      rw [Bool.eq_false_iff.2 hrange, Option.isSome_eq_false_iff, Option.isNone_iff_eq_none] at h
      exact h
    -- A microsecond later, the filters have another point in time.
    obtain ⟨r, hr⟩ := haccepted (env.now + 1) 0 (Int.le_add_one le_rfl)
    simp only [respond_toRequest, bind, except_bind_eq_ok] at hr
    obtain ⟨-, -, w', hw', sel', hsel', rows', hrows', -⟩ := hr
    obtain ⟨hint', requested', hreq', hres'⟩ := window_eq_ok.1 hw'
    rw [interval_withCursor] at hint'
    have hinterval' : w'.interval = none := (Except.ok.inj (hint'.symm.trans hint)).trans hinterval
    obtain ⟨rest, hrest⟩ := exists_cursorFilters env l
    have hfilters := hrest env.now env.headersNow w l.params.cursor sel hinterval
      ((select_of_same ⟨rfl, fun _ => rfl⟩).trans hsel)
    have hfilters' := hrest _ _ w' _ sel' hinterval' hsel'
    rw [Selection.rows, params_withCursor] at hrows'
    simp only [bind, except_bind_eq_ok] at hrows'
    obtain ⟨_, hdecode, -⟩ := hrows'
    have hsame := (decodeCursor_encodeCursor hread hnodup hanchor).1 hdecode
    rw [hfilters, hfilters'] at hsame
    have htime := hhash _ _ _ hsame
    rw [params_withCursor] at hreq'
    rw [Option.not_isSome_iff_eq_none.1 hasOf] at hreq hreq'
    cases hreq
    cases hreq'
    rw [hres, hres'] at htime
    exact absurd htime (Int.lt_succ env.now).ne
  · intro hgiven n m hn
    obtain ⟨w', hw', hsame⟩ := window_later (m := m) hw hgiven hn
      (some (encodeCursor env enc asOf anchor sel.cursorFilters))
    have hdecode : decodeCursor (env.at n m)
        (some (encodeCursor env enc asOf anchor sel.cursorFilters)) sel.cursorFilters = .ok () :=
      (decodeCursor_encodeCursor hread hnodup hanchor).2 rfl
    refine ⟨envelope (env.at n m) w'.cacheAsOf (.list data), ?_⟩
    simp only [respond_toRequest, bind, except_bind_eq_ok, pure, Except.pure, Except.ok.injEq]
    refine ⟨(), hflag, w', hw', sel, (select_of_same hsame).trans hsel, rows, ?_, data,
      (items_of_same hsame).trans hdata, rfl⟩
    rw [params_withCursor, Selection.rows, hdecode]
    rw [Selection.rows, hcursor] at hrows
    exact hrows


/-- A full page is right if there are more rows, and its cursor is accepted. -/
theorem paginates_full {total : ℕ} {cursor : String} :
    Paginates env p l total { nextCursor := some cursor, hasMore := true } ↔
      l.params.limit < total ∧ ∀ n m, env.now ≤ n →
        ∃ r, respond (env.at n m) p (l.withCursor (some cursor)).toRequest = .ok r := by
  constructor
  · rintro ⟨hmore, -, haccepted⟩
    exact ⟨hmore.1 rfl, haccepted cursor rfl⟩
  · rintro ⟨hlt, haccepted⟩
    refine ⟨iff_of_true rfl hlt, iff_of_true rfl hlt, ?_⟩
    rintro _ ⟨⟩
    exact haccepted

/-- Another one is right if there are no more. -/
theorem paginates_short {total : ℕ} :
    Paginates env p l total {} ↔ ¬l.params.limit < total :=
  ⟨fun h hlt => Bool.false_ne_true (h.hasMore.2 hlt),
    fun h => ⟨iff_of_false nofun h, iff_of_false nofun h, nofun⟩⟩

/-- The metadata of a first page are right, and its cursor is accepted later, if and only if the
    number of rows is not exactly the limit, and a point in time or a range is given if there are
    more. -/
theorem paginates_iff (hlimits : env.Limits) (hread : env.ReadsCursors enc)
    (hhash : env.HashesTime) (hscalar : env.ScalarAnchors) (hlimit : 1 ≤ l.params.limit)
    (hcursor : l.params.cursor = none) (h : answer env enc i p (.list l) = .ok a) :
    ∃ total, l.total env = .ok total ∧ (Paginates env p l total a.metadata.pagination ↔
      (total : ℤ) ≠ l.params.limit ∧
        (l.params.limit < total → l.params.asOf.isSome ∨ l.params.asOfRange.isSome)) := by
  obtain ⟨hflag, h⟩ := answer_eq_ok.1 h
  obtain ⟨w, requested, data, hw, hreq, hpage, -⟩ := listAnswer_eq_ok.1 h
  obtain ⟨sel, rows, hsel, hrows, hdata, hmeta⟩ := page_eq_ok.1 hpage
  obtain ⟨all, hall, hlen⟩ := length_rows hlimits hcursor hlimit hrows
  have htotal : l.total env = .ok all.length := by
    simp only [ListRequest.total, bind, except_bind_eq_ok, pure, Except.pure, Except.ok.injEq]
    exact ⟨w, hw, sel, hsel, all, hall, rfl⟩
  refine ⟨all.length, htotal, ?_⟩
  have hdatalen := length_items hdata
  rw [hmeta]
  by_cases hfull : (data.length : ℤ) = l.params.limit
  · -- The page is full.
    obtain ⟨last, hlast, hpag⟩ :=
      paginate_full env enc w.resolved l.anchorNames sel.cursorFilters hlimit hfull
    rw [hpag]
    have hmem : ∀ r ∈ rows, r.HasAnchor := by
      rw [Selection.rows, hcursor] at hrows
      exact hscalar _ _ _ hrows
    have hanchor : ∀ name ∈ l.anchorNames, ((last.field name).toJson enc).Readable 0 :=
      readable_anchor hmem hdata hlast
    have hnodup : ((l.anchorNames.map fun name => (name, last.field name)).map Prod.fst).Nodup := by
      rw [List.map_map]
      exact (List.map_id l.anchorNames).symm ▸ nodup_anchorNames l
    rw [paginates_full, accepted_iff hflag hread hhash hw hsel hcursor hrows hdata hnodup
      (List.forall_mem_map.2 hanchor)]
    have hle : l.params.limit ≤ all.length := by omega
    refine ⟨fun h => ⟨h.1.ne', fun _ => h.2⟩, fun h => ?_⟩
    have hlt := lt_of_le_of_ne hle h.1.symm
    exact ⟨hlt, h.2 hlt⟩
  · -- It is not, and has all rows.
    rw [paginate_short hfull, paginates_short]
    have hlt : (all.length : ℤ) < l.params.limit := by omega
    exact iff_of_true hlt.not_gt ⟨hlt.ne, fun h => absurd h hlt.not_gt⟩


/-! ### One observation -/

/-- An environment of one observation, in which cursors are what they are read as. -/
def oneEnvironment : Environment where
  now := 1000000000
  headersNow := 1000000000
  flags := [("BITEMPORAL_API_ENABLED", true)]
  fromisoformat := fun _ => some ⟨0, some 0⟩
  loadCursor := fun text => (loads 2 text).toOption
  filtersHash := fun filters => match filters with
    | (_, .isoformat (.timestamptz t)) :: _ => Int.repr t
    | _ => ""
  execute := fun _ _ => .ok [[("series_id", .int 1), ("value_text", .text "A")]]

/-- `GET /v1/research/observations?as_of=1970-01-01T00:00:00Z&limit=`. -/
def observationsPage (limit : ℤ) : ListRequest :=
  .observations ⟨⟨some "1970-01-01T00:00:00Z", none, none, limit⟩, none, none, none, none⟩

theorem limits_oneEnvironment : oneEnvironment.Limits := by
  intro sql params n hn
  show Except.ok 1 = Except.ok (min n 1)
  rw [min_eq_right hn]

theorem readsCursors_oneEnvironment : oneEnvironment.ReadsCursors plainEncoding := by
  intro j hj
  have htext : j.sortKeys.dumps {} = some (dumpsSorted j) := if_pos hj.sortKeys.writable
  show (loads 2 (dumpsSorted j)).toOption = _
  rw [loads_dumps DumpStyle.valid_default hj.sortKeys htext]
  rfl

theorem hashesTime_oneEnvironment : oneEnvironment.HashesTime := by
  intro t t' filters h
  have hrepr : (Int.repr t).toInt? = (Int.repr t').toInt? := congrArg String.toInt? h
  rw [Int.toInt?_repr, Int.toInt?_repr] at hrepr
  exact Option.some.inj hrepr

theorem scalarAnchors_oneEnvironment : oneEnvironment.ScalarAnchors := by
  rintro sql params rows ⟨⟩
  refine List.forall_mem_singleton.2 ?_
  simp only [ResultRow.HasAnchor, anchorColumns, List.forall_mem_cons]
  exact ⟨show FewDigits 1 by decide, trivial, trivial, trivial, trivial, trivial, trivial, trivial,
    trivial, List.forall_mem_nil _⟩

/-- With a limit of two, there is no more to come. -/
theorem paginates_observationsPage :
    ∃ a, answer oneEnvironment plainEncoding 1 none (.list (observationsPage 2)) = .ok a ∧
      Paginates oneEnvironment none (observationsPage 2) 1 a.metadata.pagination := by
  refine ⟨_, rfl, ?_⟩
  obtain ⟨total, htotal, hiff⟩ := paginates_iff limits_oneEnvironment readsCursors_oneEnvironment
    hashesTime_oneEnvironment scalarAnchors_oneEnvironment (l := observationsPage 2) (p := none)
    (by decide) rfl (rfl : answer oneEnvironment plainEncoding 1 none _ = _)
  cases htotal
  exact hiff.2 ⟨by decide, fun _ => .inl rfl⟩

/-- With a limit of one, the only observation is a full page, and there is said to be more. -/
theorem not_paginates_observationsPage :
    ¬∀ total a, (observationsPage 1).total oneEnvironment = .ok total →
      answer oneEnvironment plainEncoding 1 none (.list (observationsPage 1)) = .ok a →
        Paginates oneEnvironment none (observationsPage 1) total a.metadata.pagination := by
  intro h
  have hmore := (h 1 _ rfl rfl).hasMore.1 rfl
  exact absurd hmore (by decide)

end AslanCore.Research
