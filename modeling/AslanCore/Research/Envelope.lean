import AslanCore.Json.Same
import AslanCore.Research.Endpoints

/-!
# Envelopes of the research API

A response of data is an envelope: the data, and metadata with what they are as of, the page they
are on, and the id of the request. How values are written is in the `Encoding`.

* `Metadata`: what `build_envelope` puts beside the data;
* `encodeCursor`: the cursor of the next page, which is bound to the filters of this one;
* `answer`: the envelope that is the response to a request (`respond_eq_answer`);
* `Answer.etag`: the tag of the response, a digest of the envelope.

The time of a request decides whether its point in time is in the future (`parseAsOf_later`), and
what it is as of if it has none (`window_eq_ok`), and nothing else of a page (`page_at`).
-/

namespace AslanCore.Research

/-! ### Values as JSON -/

/-- How values are written. -/
structure Encoding where
  /-- `str(v)`. -/
  str : SqlValue → String
  /-- `v.isoformat()`. -/
  isoformat : SqlValue → String
  /-- `float(v)`. -/
  float : SqlValue → BitVec 64
  /-- A `datetime` of the metadata, as pydantic writes it. -/
  datetime : Timestamp → String
  /-- `str(uuid)`. -/
  uuidStr : PgUuid → String
  /-- The first 32 digits of the SHA-256 of a text. -/
  digest : String → String
  /-- `base64.urlsafe_b64encode`, without the padding. -/
  urlsafeB64 : String → String
  /-- `ASLAN_BUILD_SHA`. -/
  buildSha : String

mutual

/-- The value as JSON, where what JSON does not have is `str(v)`. -/
def SqlValue.toJson (enc : Encoding) : SqlValue → Json
  | .null => .null
  | .bool b => .bool b
  | .int n => .int n
  | .float bits => .float bits
  | .text s => .str s
  | .json j => j
  | .array xs => .arr (arrayJson enc xs)
  | v => .str (enc.str v)

def arrayJson (enc : Encoding) : List SqlValue → List Json
  | [] => []
  | v :: vs => v.toJson enc :: arrayJson enc vs

end

mutual

def Data.toJson (enc : Encoding) : Data → Json
  | .none => .null
  | .sql v => v.toJson enc
  | .str v => .str (enc.str v)
  | .isoformat v => .str (enc.isoformat v)
  | .float v => .float (enc.float v)
  | .bool b => .bool b
  | .text s => .str s
  | .list xs => .arr (itemsJson enc xs)
  | .dict items => .obj (fieldsJson enc items)

def itemsJson (enc : Encoding) : List Data → List Json
  | [] => []
  | x :: xs => x.toJson enc :: itemsJson enc xs

def fieldsJson (enc : Encoding) : List (String × Data) → JsonObject
  | [] => []
  | (k, x) :: items => (k, x.toJson enc) :: fieldsJson enc items

end

/-- `data[name]`, and `data.get(name)`. -/
def Data.field (name : String) : Data → Data
  | .dict items => (items.lookup name).getD .none
  | _ => .none

/-- `json.dumps(value, sort_keys=True)`. -/
def dumpsSorted (j : Json) : String := String.ofList (j.sortKeys.render {})

/-! ### Metadata -/

/-- What is known of the origin of the rows: the fields that are ever set. -/
structure Lineage where
  rawBytesSha256 : SqlValue
  promptVersion : SqlValue
  modelIdentity : SqlValue

structure Pagination where
  nextCursor : Option String := none
  hasMore : Bool := false

structure Warning where
  code : String
  message : String
  rowsAffected : ℤ := 0

structure Metadata where
  asOfRequested : Option Timestamp
  asOfResolved : Timestamp
  asOfRange : Option (Timestamp × Timestamp) := none
  lineage : Option Lineage := none
  pagination : Pagination := {}
  featureFlagsActive : List Data
  warnings : List Warning := []
  requestId : PgUuid

/-- `None`, or what the value is written as. -/
def orNull {α : Type} (write : α → Json) (x : Option α) : Json := (x.map write).getD .null

def Lineage.toJson (enc : Encoding) (l : Lineage) : Json := .obj [
  ("source_filing_id", .null),
  ("raw_bytes_sha256", l.rawBytesSha256.toJson enc),
  ("extraction_code_version", .null),
  ("prompt_version", l.promptVersion.toJson enc),
  ("model_identity", l.modelIdentity.toJson enc),
  ("extraction_seed", .null)]

def Pagination.toJson (p : Pagination) : Json := .obj [
  ("next_cursor", orNull .str p.nextCursor),
  ("prev_cursor", .null),
  ("has_more", .bool p.hasMore),
  ("total_count_estimate", .null)]

def Warning.toJson (w : Warning) : Json :=
  .obj [("code", .str w.code), ("message", .str w.message), ("rows_affected", .int w.rowsAffected)]

/-- `model_dump(mode="json")`. -/
def Metadata.fields (enc : Encoding) (m : Metadata) : JsonObject := [
  ("as_of_requested", orNull (fun t => .str (enc.datetime t)) m.asOfRequested),
  ("as_of_resolved", .str (enc.datetime m.asOfResolved)),
  ("as_of_range", orNull (fun r => .arr [.str (enc.datetime r.1), .str (enc.datetime r.2)])
    m.asOfRange),
  ("lineage", orNull (Lineage.toJson enc) m.lineage),
  ("pagination", m.pagination.toJson),
  ("feature_flags_active", .arr (itemsJson enc m.featureFlagsActive)),
  ("warnings", .arr (m.warnings.map Warning.toJson)),
  ("request_id", .str (enc.uuidStr m.requestId)),
  ("served_by", .str ("bitemporal-api/" ++ enc.buildSha))]

/-- A response with its metadata. -/
structure Answer where
  response : Response
  metadata : Metadata

/-- The envelope. -/
def Answer.fields (enc : Encoding) (a : Answer) : JsonObject :=
  [("data", a.response.data.toJson enc), ("metadata", .obj (a.metadata.fields enc))]

def Answer.body (enc : Encoding) (a : Answer) : Json := .obj (a.fields enc)

/-- The `ETag` of the response. -/
def Answer.etag (enc : Encoding) (a : Answer) : String :=
  "\"" ++ enc.digest (dumpsSorted (a.body enc)) ++ "\""

/-! ### Cursors -/

/-- What is in a cursor. -/
def cursorPayload (env : Environment) (enc : Encoding) (asOf : Timestamp)
    (anchor filters : List (String × Data)) : JsonObject := [
  ("v", .int 1),
  ("as_of", .str (enc.isoformat (.timestamptz asOf))),
  ("anchor", (Data.dict anchor).toJson enc),
  ("filters_hash", .str (env.filtersHash filters))]

/-- The cursor for what follows an anchor. -/
def encodeCursor (env : Environment) (enc : Encoding) (asOf : Timestamp)
    (anchor filters : List (String × Data)) : String :=
  enc.urlsafeB64 (dumpsSorted (.obj (cursorPayload env enc asOf anchor filters)))

/-- A full page has a cursor, after its last item, and there is more to come. -/
def paginate (env : Environment) (enc : Encoding) (asOf : Timestamp) (limit : ℤ)
    (anchorNames : List String) (filters : List (String × Data)) (data : List Data) : Pagination :=
  match data.getLast? with
  | some last =>
    if data.length = limit then
      { nextCursor := some (encodeCursor env enc asOf
          (anchorNames.map fun name => (name, last.field name)) filters)
        hasMore := true }
    else {}
  | none => {}

/-! ### Lists -/

/-- A request of a list. -/
inductive ListRequest
  | observations (q : ObservationsRequest)
  | financialsCanonical (q : FinancialsCanonicalRequest)
  | financialsLineItems (q : FinancialsLineItemsRequest)
  | entities (q : EntitiesRequest)
  | disclosures (q : DisclosuresRequest)
  | filings (q : FilingsRequest)
  | events (q : EventsRequest)
  | qualityScores (q : QualityScoresRequest)

namespace ListRequest

def toRequest : ListRequest → Request
  | observations q => .observations q
  | financialsCanonical q => .financialsCanonical q
  | financialsLineItems q => .financialsLineItems q
  | entities q => .entities q
  | disclosures q => .disclosures q
  | filings q => .filings q
  | events q => .events q
  | qualityScores q => .qualityScores q

def params : ListRequest → ListParams
  | observations q => q.toListParams
  | financialsCanonical q => q.toListParams
  | financialsLineItems q => q.toListParams
  | entities q => q.toListParams
  | disclosures q => q.toListParams
  | filings q => q.toListParams
  | events q => q.toListParams
  | qualityScores q => q.toListParams

/-- The same request, with a cursor. -/
def withCursor (cursor : Option String) : ListRequest → ListRequest
  | observations q => observations { q with cursor := cursor }
  | financialsCanonical q => financialsCanonical { q with cursor := cursor }
  | financialsLineItems q => financialsLineItems { q with cursor := cursor }
  | entities q => entities { q with cursor := cursor }
  | disclosures q => disclosures { q with cursor := cursor }
  | filings q => filings { q with cursor := cursor }
  | events q => events { q with cursor := cursor }
  | qualityScores q => qualityScores { q with cursor := cursor }

def interval (env : Environment) : ListRequest → Except HttpError (Option (Timestamp × Timestamp))
  | disclosures q => q.interval env
  | l => listInterval env l.params

def window (env : Environment) (l : ListRequest) : Except HttpError Window := do
  let interval ← l.interval env
  let resolved ← resolve env l.params.asOf
  return ⟨interval, resolved⟩

def select (env : Environment) (w : Window) : ListRequest → Except HttpError Selection
  | observations q => q.select env w
  | financialsCanonical q => .ok (q.select w)
  | financialsLineItems q => .ok (q.select w)
  | entities q => .ok (q.select w)
  | disclosures q => .ok (q.select w)
  | filings q => .ok (q.select w)
  | events q => .ok (q.select w)
  | qualityScores q => .ok (q.select w)

/-- The items of the rows. -/
def items (env : Environment) (principal : Option ApiKeyPrincipal) (w : Window)
    (rows : List ResultRow) : ListRequest → Except HttpError (List Data)
  | observations _ => .ok (rows.map observationItem)
  | financialsCanonical _ => rows.mapM canonicalItem
  | financialsLineItems _ => .ok (rows.map lineItem)
  | entities _ => entityItems env w rows
  | disclosures _ => .ok (rows.map disclosureItem)
  | filings _ => .ok (rows.map (recordItem filingColumn))
  | events _ => .ok (rows.map (eventItem principal))
  | qualityScores _ => .ok (rows.map (recordItem qualityScoreColumn))

/-- The names of the fields of an anchor. -/
def anchorNames : ListRequest → List String
  | observations _ => ["series_id", "ts"]
  | financialsCanonical _ => ["period_end", "canonical_code", "restatement_basis"]
  | financialsLineItems _ => ["period_end", "line_code", "restatement_basis"]
  | entities _ => ["entity_id"]
  | disclosures _ => ["published_at", "disclosure_id"]
  | filings _ => ["published_at", "filing_id"]
  | events _ => ["filing_id", "event_seq"]
  | qualityScores _ => ["period_end", "entity_id"]

/-- The lineage of the first event. -/
def lineage (rows : List ResultRow) : ListRequest → Option Lineage
  | events _ => rows.head?.map fun first =>
    ⟨first.get "input_text_sha256", first.get "primary_prompt_version",
      first.get "primary_model_version"⟩
  | _ => none

/-- The item is restated. -/
def isNormalized (item : Data) : Bool :=
  match item.field "restatement_basis" with
  | .sql (.text s) => s = "cpi_normalized"
  | _ => false

def warnings (data : List Data) : ListRequest → List Warning
  | financialsCanonical _ =>
    if data.any isNormalized then
      [⟨"TAS29_PRESENT", "Response contains TAS 29 (cpi_normalized) restated rows. " ++
        "Both as_reported and cpi_normalized bases are returned by " ++
        "default; pass restatement_basis to filter.", data.countP isNormalized⟩]
    else []
  | filings _ =>
    [{ code := "PRE_BITEMPORAL_TABLE"
       message := "This endpoint reads a Class F table that does not yet have a PIT " ++
        "function in v1; rows reflect current state regardless of as_of. " ++
        "Adding doc.filing_at is a v1.0.0-beta follow-up." }]
  | _ => []

/-- The page of a list in a window, and its metadata. -/
def page (env : Environment) (enc : Encoding) (requestId : PgUuid)
    (principal : Option ApiKeyPrincipal) (requested : Option Timestamp) (w : Window)
    (l : ListRequest) : Except HttpError (List Data × Metadata) := do
  let sel ← l.select env w
  let rows ← sel.rows env l.params
  let data ← l.items env principal w rows
  return (data, {
    asOfRequested := requested
    asOfResolved := w.resolved
    asOfRange := w.interval
    lineage := l.lineage rows
    pagination := paginate env enc w.resolved l.params.limit l.anchorNames sel.cursorFilters data
    featureFlagsActive := activeFlags env
    warnings := l.warnings data
    requestId := requestId })

def answer (env : Environment) (enc : Encoding) (requestId : PgUuid)
    (principal : Option ApiKeyPrincipal) (l : ListRequest) : Except HttpError Answer := do
  let w ← l.window env
  let requested ← parseAsOf env l.params.asOf
  let (data, metadata) ← l.page env enc requestId principal requested w
  return ⟨envelope env w.cacheAsOf (.list data), metadata⟩

end ListRequest

/-! ### Answers -/

/-- A request of data: of a list, or of one item. -/
inductive DataRequest
  | list (l : ListRequest)
  | identifiersResolve (q : IdentifiersResolveRequest)
  | getEntity (q : GetEntityRequest)
  | getDisclosure (q : GetDisclosureRequest)

namespace DataRequest

def toRequest : DataRequest → Request
  | list l => l.toRequest
  | identifiersResolve q => .identifiersResolve q
  | getEntity q => .getEntity q
  | getDisclosure q => .getDisclosure q

/-- The point in time that is given. -/
def asOf : DataRequest → Option String
  | list l => l.params.asOf
  | identifiersResolve q => q.asOf
  | getEntity q => q.asOf
  | getDisclosure q => q.asOf

end DataRequest

/-- The answer with one item, as of a point in time. -/
def answerItem (env : Environment) (requestId : PgUuid) (asOf : Option String)
    (find : Timestamp → Except HttpError Data) : Except HttpError Answer := do
  let requested ← parseAsOf env asOf
  let resolved := requested.getD env.now
  let data ← find resolved
  return ⟨envelope env resolved data,
    { asOfRequested := requested
      asOfResolved := resolved
      featureFlagsActive := activeFlags env
      requestId := requestId }⟩

def answer (env : Environment) (enc : Encoding) (requestId : PgUuid)
    (principal : Option ApiKeyPrincipal) : DataRequest → Except HttpError Answer
  | .list l => do requireMasterFlag env; l.answer env enc requestId principal
  | .identifiersResolve q => do requireMasterFlag env; answerItem env requestId q.asOf (q.find env)
  | .getEntity q => do requireMasterFlag env; answerItem env requestId q.asOf (q.find env)
  | .getDisclosure q => do requireMasterFlag env; answerItem env requestId q.asOf (q.find env)

/-! ### Answers and responses -/

variable {env : Environment} {enc : Encoding} {i : PgUuid} {p : Option ApiKeyPrincipal}
  {req : DataRequest} {l : ListRequest} {w : Window} {requested : Option Timestamp}
  {a a' : Answer} {n m : Timestamp}

theorem resolve_eq_ok {asOf : Option String} {t : Timestamp} : resolve env asOf = .ok t ↔
    ∃ requested, parseAsOf env asOf = .ok requested ∧ t = requested.getD env.now := by
  rw [resolve]
  cases parseAsOf env asOf with
  | error e => exact ⟨nofun, nofun⟩
  | ok requested => 
    refine ⟨fun h => ⟨requested, rfl, (Except.ok.inj h).symm⟩, ?_⟩
    rintro ⟨requested', h, rfl⟩
    cases h
    rfl

theorem window_eq_ok : l.window env = .ok w ↔ l.interval env = .ok w.interval ∧
    ∃ requested, parseAsOf env l.params.asOf = .ok requested ∧
      w.resolved = requested.getD env.now := by
  rw [ListRequest.window, ← resolve_eq_ok]
  cases hi : l.interval env with
  | error e => exact ⟨nofun, nofun⟩
  | ok interval =>
    cases hr : resolve env l.params.asOf with
    | error e => exact ⟨nofun, nofun⟩
    | ok resolved =>
      refine ⟨fun h => ?_, ?_⟩
      · cases h
        exact ⟨rfl, rfl⟩
      · rintro ⟨h, h'⟩
        cases h
        cases h'
        rfl

/-- A list is answered with the items of its rows. -/
theorem respond_toRequest (l : ListRequest) : respond env p l.toRequest = (do
    requireMasterFlag env
    let w ← l.window env
    let sel ← l.select env w
    let rows ← sel.rows env l.params
    let data ← l.items env p w rows
    return envelope env w.cacheAsOf (.list data)) := by
  cases l with
  | events q =>
    rw [ListRequest.toRequest, respond, events, EventsRequest.rows, bind_assoc]
    simp only [bind_assoc, pure_bind]
    rfl
  | disclosures q =>
    simp only [ListRequest.window, bind_assoc, pure_bind]
    rfl
  | _ => rfl

theorem response_answerItem {asOf : Option String} {find : Timestamp → Except HttpError Data} :
    (answerItem env i asOf find).map (·.response) = (do
      let resolved ← resolve env asOf
      let data ← find resolved
      return envelope env resolved data) := by
  rw [answerItem, resolve]
  cases parseAsOf env asOf with
  | error e => rfl
  | ok requested =>
    simp only [bind, Except.bind, pure, Except.pure]
    cases find (requested.getD env.now) <;> rfl

/-- The envelope is that of the response. -/
theorem respond_eq_answer (req : DataRequest) :
    respond env p req.toRequest = (answer env enc i p req).map (·.response) := by
  cases req with
  | list l =>
    rw [DataRequest.toRequest, respond_toRequest, answer, ListRequest.answer]
    cases requireMasterFlag env with
    | error e => rfl
    | ok =>
      cases hw : l.window env with
      | error e => rfl
      | ok w =>
        obtain ⟨requested, hreq, -⟩ := (window_eq_ok.1 hw).2
        rw [hreq]
        simp only [ListRequest.page, bind, Except.bind]
        cases l.select env w with
        | error e => rfl
        | ok sel =>
          simp only
          cases sel.rows env l.params with
          | error e => rfl
          | ok rows =>
            simp only
            cases l.items env p w rows <;> rfl
  | identifiersResolve q | getEntity q | getDisclosure q =>
    rw [DataRequest.toRequest, respond, answer]
    cases requireMasterFlag env with
    | error e => rfl
    | ok => exact response_answerItem.symm

theorem page_eq_ok {data : List Data} {md : Metadata} :
    l.page env enc i p requested w = .ok (data, md) ↔ ∃ sel rows, l.select env w = .ok sel ∧
      sel.rows env l.params = .ok rows ∧ l.items env p w rows = .ok data ∧ md =
        { asOfRequested := requested
          asOfResolved := w.resolved
          asOfRange := w.interval
          lineage := l.lineage rows
          pagination :=
            paginate env enc w.resolved l.params.limit l.anchorNames sel.cursorFilters data
          featureFlagsActive := activeFlags env
          warnings := l.warnings data
          requestId := i } := by
  simp only [ListRequest.page, bind, except_bind_eq_ok, pure, Except.pure, Except.ok.injEq,
    Prod.mk.injEq]
  constructor
  · rintro ⟨sel, hsel, rows, hrows, data', hdata, rfl, rfl⟩
    exact ⟨sel, rows, hsel, hrows, hdata, rfl⟩
  · rintro ⟨sel, rows, hsel, hrows, hdata, rfl⟩
    exact ⟨sel, hsel, rows, hrows, data, hdata, rfl, rfl⟩

theorem listAnswer_eq_ok : l.answer env enc i p = .ok a ↔ ∃ w requested data,
    l.window env = .ok w ∧ parseAsOf env l.params.asOf = .ok requested ∧
      l.page env enc i p requested w = .ok (data, a.metadata) ∧
      a.response = envelope env w.cacheAsOf (.list data) := by
  simp only [ListRequest.answer, bind, except_bind_eq_ok, pure, Except.pure, Except.ok.injEq]
  constructor
  · rintro ⟨w, hw, requested, hreq, ⟨data, md⟩, hpage, rfl⟩
    exact ⟨w, requested, data, hw, hreq, hpage, rfl⟩
  · rintro ⟨w, requested, data, hw, hreq, hpage, hr⟩
    exact ⟨w, hw, requested, hreq, ⟨data, a.metadata⟩, hpage, by rw [← hr]⟩

theorem answerItem_eq_ok {asOf : Option String} {find : Timestamp → Except HttpError Data} :
    answerItem env i asOf find = .ok a ↔ ∃ requested data, parseAsOf env asOf = .ok requested ∧
      find (requested.getD env.now) = .ok data ∧
      a = ⟨envelope env (requested.getD env.now) data,
        { asOfRequested := requested
          asOfResolved := requested.getD env.now
          featureFlagsActive := activeFlags env
          requestId := i }⟩ := by
  simp only [answerItem, bind, except_bind_eq_ok, pure, Except.pure, Except.ok.injEq]
  constructor
  · rintro ⟨requested, hreq, data, hdata, rfl⟩
    exact ⟨requested, data, hreq, hdata, rfl⟩
  · rintro ⟨requested, data, hreq, hdata, rfl⟩
    exact ⟨requested, hreq, data, hdata, rfl⟩

/-- A request is answered if the API is enabled. -/
theorem answer_eq_ok : answer env enc i p req = .ok a ↔ requireMasterFlag env = .ok () ∧
    match req with
    | .list l => l.answer env enc i p = .ok a
    | .identifiersResolve q => answerItem env i q.asOf (q.find env) = .ok a
    | .getEntity q => answerItem env i q.asOf (q.find env) = .ok a
    | .getDisclosure q => answerItem env i q.asOf (q.find env) = .ok a := by
  cases hflag : requireMasterFlag env with
  | error e =>
    refine ⟨fun h => ?_, fun h => nomatch h.1⟩
    cases req <;> simp [answer, hflag, bind, Except.bind] at h
  | ok =>
    rw [and_iff_right rfl]
    cases req <;> simp [answer, hflag, bind, Except.bind]

/-- The metadata have the id of the request. -/
theorem requestId_of_answer (h : answer env enc i p req = .ok a) : a.metadata.requestId = i := by
  obtain ⟨-, h⟩ := answer_eq_ok.1 h
  cases req with
  | list l =>
    obtain ⟨w, requested, data, -, -, hpage, -⟩ := listAnswer_eq_ok.1 h
    obtain ⟨sel, rows, -, -, -, hm⟩ := page_eq_ok.1 hpage
    rw [hm]
  | identifiersResolve q | getEntity q | getDisclosure q =>
    obtain ⟨requested, data, -, -, rfl⟩ := answerItem_eq_ok.1 h
    rfl

theorem nodupKeys_metadata (md : Metadata) : (md.fields enc).NodupKeys :=
  show ["as_of_requested", "as_of_resolved", "as_of_range", "lineage", "pagination",
    "feature_flags_active", "warnings", "request_id", "served_by"].Nodup by decide

theorem nodupKeys_answer (a : Answer) : (a.fields enc).NodupKeys :=
  show ["data", "metadata"].Nodup by decide

/-! ### The time of a request -/

/-- The environment at another time. -/
def Environment.at (env : Environment) (now headersNow : Timestamp) : Environment :=
  { env with now := now, headersNow := headersNow }

/-- Where a page is, and what it has, does not depend on the time. -/
theorem page_at : l.page (env.at n m) enc i p requested w = l.page env enc i p requested w := by
  cases l <;> rfl

theorem interval_at : l.interval (env.at n m) = l.interval env := by
  cases l <;> rfl

theorem parseAsOf_some_eq_ok {raw : String} {t : Option Timestamp} :
    parseAsOf env (some raw) = .ok t ↔ ∃ wall offset,
      env.fromisoformat (replaceZ raw.toList) = some ⟨wall, some offset⟩ ∧
      wall - offset ≤ env.now - env.now % 1000000 + 999999 + clockSkewTolerance ∧
      (astimezoneUtc (wall - offset)).map some = .ok t := by
  simp only [parseAsOf]
  split
  next h => simp [h]
  next h => simp [h]
  next wall offset h =>
    simp only [h, Option.some.injEq, PyDatetime.mk.injEq]
    split_ifs with hfuture
    · refine ⟨by rintro ⟨⟩, ?_⟩
      rintro ⟨wall', offset', ⟨rfl, h⟩, hle, -⟩
      cases h
      exact absurd hfuture (not_lt.2 hle)
    · refine ⟨fun h => ⟨wall, offset, ⟨rfl, rfl⟩, not_lt.1 hfuture, h⟩, ?_⟩
      rintro ⟨wall', offset', ⟨rfl, h⟩, -, ht⟩
      cases h
      exact ht

/-- A point in time is parsed in the same way at any time, unless it is rejected. -/
theorem parseAsOf_at {raw : Option String} {t t' : Option Timestamp}
    (h : parseAsOf env raw = .ok t) (h' : parseAsOf (env.at n m) raw = .ok t') : t' = t := by
  cases raw with
  | none => exact (Except.ok.inj h').symm.trans (Except.ok.inj h)
  | some raw =>
    obtain ⟨wall, offset, hiso, -, ht⟩ := parseAsOf_some_eq_ok.1 h
    obtain ⟨wall', offset', hiso', -, ht'⟩ := parseAsOf_some_eq_ok.1 h'
    cases hiso.symm.trans hiso'
    exact Except.ok.inj (ht'.symm.trans ht)

/-- What is not in the future is so later. -/
theorem parseAsOf_later {raw : Option String} {t : Option Timestamp}
    (h : parseAsOf env raw = .ok t) (hn : env.now ≤ n) : parseAsOf (env.at n m) raw = .ok t := by
  cases raw with
  | none => exact h
  | some raw =>
    obtain ⟨wall, offset, hiso, hle, ht⟩ := parseAsOf_some_eq_ok.1 h
    refine parseAsOf_some_eq_ok.2 ⟨wall, offset, hiso, hle.trans ?_, ht⟩
    have hround : ∀ a b : ℤ, a ≤ b → a - a % 1000000 + 999999 + clockSkewTolerance ≤
        b - b % 1000000 + 999999 + clockSkewTolerance := by omega
    exact hround _ _ hn

/-- A point in time that is given is the same at another time. -/
theorem parsed_at {raw : Option String} {t t' : Option Timestamp} (hraw : raw.isSome)
    (h : parseAsOf env raw = .ok t) (h' : parseAsOf (env.at n m) raw = .ok t') :
    t' = t ∧ t'.getD (env.at n m).now = t.getD env.now := by
  obtain rfl := parseAsOf_at h h'
  refine ⟨rfl, ?_⟩
  obtain ⟨raw, rfl⟩ := Option.isSome_iff_exists.1 hraw
  obtain ⟨wall, offset, -, -, ht⟩ := parseAsOf_some_eq_ok.1 h
  rcases hz : astimezoneUtc (wall - offset) with e | t
  · rw [hz] at ht
    cases ht
  · rw [hz] at ht
    cases ht
    rfl

/-- What is answered does not depend on the time, but for the policy of the cache. -/
theorem answer_at (hasOf : req.asOf.isSome) (h : answer env enc i p req = .ok a)
    (h' : answer (env.at n m) enc i p req = .ok a') :
    a'.response.data = a.response.data ∧ a'.metadata = a.metadata := by
  obtain ⟨-, h⟩ := answer_eq_ok.1 h
  obtain ⟨-, h'⟩ := answer_eq_ok.1 h'
  cases req with
  | list l =>
    obtain ⟨w, requested, data, hw, hreq, hpage, hr⟩ := listAnswer_eq_ok.1 h
    obtain ⟨w', requested', data', hw', hreq', hpage', hr'⟩ := listAnswer_eq_ok.1 h'
    obtain ⟨hint, r, hparse, hres⟩ := window_eq_ok.1 hw
    obtain ⟨hint', r', hparse', hres'⟩ := window_eq_ok.1 hw'
    obtain ⟨rfl, hnow⟩ := parsed_at hasOf hparse hparse'
    rw [interval_at] at hint'
    have hinterval : w'.interval = w.interval := Except.ok.inj (hint'.symm.trans hint)
    have hresolved : w'.resolved = w.resolved := by rw [hres', hres, hnow]
    have hw : w' = w := congrArg₂ Window.mk hinterval hresolved
    cases hparse.symm.trans hreq
    cases hparse'.symm.trans hreq'
    rw [hw, page_at, hpage] at hpage'
    obtain ⟨hdata, hmeta⟩ := Prod.mk.inj (Except.ok.inj hpage')
    rw [hr, hr', hdata]
    exact ⟨rfl, hmeta.symm⟩
  | identifiersResolve q | getEntity q | getDisclosure q =>
    obtain ⟨requested, data, hparse, hfind, rfl⟩ := answerItem_eq_ok.1 h
    obtain ⟨requested', data', hparse', hfind', rfl⟩ := answerItem_eq_ok.1 h'
    obtain ⟨rfl, hnow⟩ := parsed_at hasOf hparse hparse'
    rw [hnow] at hfind'
    cases hfind.symm.trans hfind'
    exact ⟨rfl, by rw [hnow]; rfl⟩

end AslanCore.Research
