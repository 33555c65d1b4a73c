import AslanCore.Research.Request

/-!
# Endpoints of the research API

The handlers of the research API, as functions of the environment, the request and, for the events,
the principal. Of the envelope only its data is here.

* `setCacheHeaders`: the policy of the cache, which all handlers of data share;
* `redactEventPayload`: what a principal sees of the payload of an event;
* `respond`: the response to a request.
-/

namespace AslanCore.Research

/-! ### Responses -/

/-- The identity of an API key. -/
structure ApiKeyPrincipal where
  keyId : PgUuid
  rateTier : String
  piiUnredacted : Bool
  scopes : List String

structure Response where
  statusCode : ℕ
  data : Data
  cacheControl : Option String

/-- `_IMMUTABLE_THRESHOLD_SECONDS`, in microseconds. -/
def immutableThreshold : ℤ := 5 * 60 * 1000000

def publicCache : String := "public, max-age=31536000, immutable"

def noCache : String := "no-cache, must-revalidate"

/-- The `Cache-Control` of a response as of a point in time. -/
def setCacheHeaders (env : Environment) (asOfResolved : Timestamp) : String :=
  if immutableThreshold ≤ env.headersNow - asOfResolved then publicCache else noCache

/-- A response with an envelope. -/
def envelope (env : Environment) (cacheAsOf : Timestamp) (data : Data) : Response :=
  ⟨200, data, some (setCacheHeaders env cacheAsOf)⟩

/-- `str(value) if value else None`, of a parameter. -/
def uuidFilter (value : Option PgUuid) : Data :=
  (value.map fun u => Data.str (.uuid u)).getD .none

def textFilter (value : Option String) : Data := (value.map Data.text).getD .none

/-- `value.isoformat() if value else None`, of a parameter. -/
def datetimeFilter (value : Option PyDatetime) : Data :=
  (value.map fun d => Data.isoformat (.datetime d)).getD .none

/-- A condition on a column, with its parameter. -/
def uuidCondition (condition name : String) (value : Option PgUuid) : Filter :=
  ⟨condition, name, value.map .uuid⟩

def textCondition (condition name : String) (value : Option String) : Filter :=
  ⟨condition, name, value.map .text⟩

def datetimeCondition (condition name : String) (value : Option PyDatetime) : Filter :=
  ⟨condition, name, value.map .datetime⟩

/-! ### `observations` -/

structure ObservationsRequest extends ListParams where
  seriesId : Option ℤ
  seriesCode : Option String
  tsFrom : Option PyDatetime
  tsTo : Option PyDatetime

/-- `_resolve_series_code`. -/
def resolveSeriesCode (env : Environment) (code : String) : Except HttpError (Option ℤ) := do
  let rows ← env.execute "SELECT series_id FROM ts.series_catalog WHERE series_code = :code"
    [("code", .text code)]
  match rows.head?.map (ResultRow.get · "series_id") with
  | some (.int n) => return some n
  | some _ => throw .internal
  | none => return none

/-- The series of the request: its number, or that of its code. -/
def ObservationsRequest.series (env : Environment) (q : ObservationsRequest) :
    Except HttpError (Option ℤ) :=
  match q.seriesId, q.seriesCode with
  | none, some code => do
    match ← resolveSeriesCode env code with
    | some n => return some n
    | none => throw (intervalInvalid "unknown series code")
  | seriesId, _ => .ok seriesId

def observationItem (r : ResultRow) : Data := .dict [
  ("series_id", .sql (r.get "series_id")),
  ("ts", isoOrNone (r.get "ts")),
  ("as_of", isoOrNone (r.get "as_of")),
  ("value", floatOrNone (r.get "value")),
  ("value_text", .sql (r.get "value_text"))]

def ObservationsRequest.select (env : Environment) (w : Window) (q : ObservationsRequest) :
    Except HttpError Selection := do
  let seriesId ← q.series env
  return w.select "SELECT series_id, ts, as_of, value, value_text"
    (.pit "ts.observation_at(:as_of)" "ts.observation")
    [⟨"series_id = :series_id", "series_id", seriesId.map .int⟩,
      datetimeCondition "ts >= :ts_from" "ts_from" q.tsFrom,
      datetimeCondition "ts <= :ts_to" "ts_to" q.tsTo]
    [("series_id", (seriesId.map fun n => Data.sql (.int n)).getD .none),
      ("ts_from", datetimeFilter q.tsFrom), ("ts_to", datetimeFilter q.tsTo)]
    "ORDER BY series_id, ts, as_of ASC" "ORDER BY series_id, ts DESC"

def observations (env : Environment) (q : ObservationsRequest) : Except HttpError Response := do
  let w ← listWindow env q.toListParams
  let sel ← q.select env w
  let rows ← sel.rows env q.toListParams
  return envelope env w.cacheAsOf (.list (rows.map observationItem))

/-! ### `identifiers_resolve` -/

structure IdentifiersResolveRequest where
  namespace_ : String
  value : String
  asOf : Option String

/-- `v.isoformat()`, which `None` does not have. -/
def isoformat : SqlValue → Except HttpError Data
  | .null => .error .internal
  | v => .ok (.isoformat v)

def IdentifiersResolveRequest.find (env : Environment) (resolved : Timestamp)
    (q : IdentifiersResolveRequest) : Except HttpError Data := do
  let rows ← env.execute ("SELECT entity_id, namespace, value, valid_from, valid_to, " ++
    "       is_primary, source_id FROM ref.identifier_at(:as_of) " ++
    "WHERE namespace = :ns AND value = :val")
    [("as_of", .timestamptz resolved), ("ns", .text q.namespace_), ("val", .text q.value)]
  match rows with
  | [] => throw ⟨404, "BITEMPORAL_PRE_BITEMPORAL_REGION", "No identifier resolves at this as_of"⟩
  | [r] =>
    let validFrom ← isoformat (r.get "valid_from")
    let validTo ← isoformat (r.get "valid_to")
    return .dict [
      ("entity_id", .str (r.get "entity_id")),
      ("namespace", .sql (r.get "namespace")),
      ("value", .sql (r.get "value")),
      ("valid_from", validFrom),
      ("valid_to", validTo),
      ("is_primary", .bool (r.get "is_primary").truthy),
      ("source_id", .sql (r.get "source_id"))]
  | _ => throw ⟨409, "IDENTIFIER_AMBIGUOUS", "Multiple identifiers match"⟩

def identifiersResolve (env : Environment) (q : IdentifiersResolveRequest) :
    Except HttpError Response := do
  let resolved ← resolve env q.asOf
  let data ← q.find env resolved
  return envelope env resolved data

/-! ### `financials_canonical` -/

structure FinancialsCanonicalRequest extends ListParams where
  entityId : PgUuid
  restatementBasis : Option String

def canonicalItem (r : ResultRow) : Except HttpError Data := do
  let periodEnd ← isoformat (r.get "period_end")
  let asOf ← isoformat (r.get "as_of")
  return .dict [
    ("entity_id", .str (r.get "entity_id")),
    ("canonical_code", .sql (r.get "canonical_code")),
    ("period_end", periodEnd),
    ("period_type", .sql (r.get "period_type")),
    ("consolidation", .sql (r.get "consolidation")),
    ("currency_code", .sql (r.get "currency_code")),
    ("accounting_standard", .sql (r.get "accounting_standard")),
    ("restatement_basis", .sql (r.get "restatement_basis")),
    ("value", floatOrNone (r.get "value")),
    ("as_of", asOf),
    ("cpi_base_date", isoOrNone (r.get "cpi_base_date")),
    ("measuring_unit_date", isoOrNone (r.get "measuring_unit_date")),
    ("mapping_version", .sql (r.get "mapping_version"))]

def FinancialsCanonicalRequest.select (w : Window) (q : FinancialsCanonicalRequest) : Selection :=
  w.select
    ("SELECT entity_id, canonical_code, period_end, period_type, " ++
      "       consolidation, currency_code, accounting_standard, " ++
      "       restatement_basis, value, as_of, cpi_base_date, " ++
      "       measuring_unit_date, mapping_version")
    (.pit "ts.canonical_financial_at(:as_of)" "ts.canonical_financial")
    [uuidCondition "entity_id = :entity_id" "entity_id" (some q.entityId),
      textCondition "restatement_basis = :rb" "rb" q.restatementBasis]
    [("entity_id", uuidFilter (some q.entityId)),
      ("restatement_basis", textFilter q.restatementBasis)]
    ("ORDER BY entity_id, canonical_code, period_end, period_type, " ++
      "consolidation, currency_code, accounting_standard, " ++
      "restatement_basis, cpi_base_date, mapping_version, as_of ASC")
    "ORDER BY period_end DESC, canonical_code, restatement_basis"

def financialsCanonical (env : Environment) (q : FinancialsCanonicalRequest) :
    Except HttpError Response := do
  let w ← listWindow env q.toListParams
  let rows ← (q.select w).rows env q.toListParams
  let data ← rows.mapM canonicalItem
  return envelope env w.cacheAsOf (.list data)

/-! ### `financials_line_items` -/

structure FinancialsLineItemsRequest extends ListParams where
  entityId : Option PgUuid
  filingId : Option PgUuid
  statementType : Option String
  lineCode : Option String
  consolidation : Option String
  periodEnd : Option PyDatetime
  periodEndFrom : Option PyDatetime
  periodEndTo : Option PyDatetime
  restatementBasis : Option String

def lineItem (r : ResultRow) : Data := .dict [
  ("entity_id", strOrNone (r.get "entity_id")),
  ("filing_id", strOrNone (r.get "filing_id")),
  ("statement_type", .sql (r.get "statement_type")),
  ("line_code", .sql (r.get "line_code")),
  ("parent_line_code", .sql (r.get "parent_line_code")),
  ("period_start", isoOrNone (r.get "period_start")),
  ("period_end", isoOrNone (r.get "period_end")),
  ("period_type", .sql (r.get "period_type")),
  ("value", floatOrNone (r.get "value")),
  ("currency_code", .sql (r.get "currency_code")),
  ("consolidation", .sql (r.get "consolidation")),
  ("accounting_standard", .sql (r.get "accounting_standard")),
  ("restatement_basis", .sql (r.get "restatement_basis")),
  ("as_of", isoOrNone (r.get "as_of")),
  ("ingestion_run_id", strOrNone (r.get "ingestion_run_id")),
  ("measuring_unit_date", isoOrNone (r.get "measuring_unit_date")),
  ("derivation_reason", .sql (r.get "derivation_reason"))]

def FinancialsLineItemsRequest.select (w : Window) (q : FinancialsLineItemsRequest) : Selection :=
  w.select
    ("SELECT entity_id, filing_id, statement_type, line_code, " ++
      "       parent_line_code, period_start, period_end, period_type, " ++
      "       value, currency_code, consolidation, accounting_standard, " ++
      "       restatement_basis, as_of, ingestion_run_id, " ++
      "       measuring_unit_date, derivation_reason")
    (.pit "ts.financial_line_item_at(:as_of)" "ts.financial_line_item")
    [uuidCondition "entity_id = :entity_id" "entity_id" q.entityId,
      uuidCondition "filing_id = :filing_id" "filing_id" q.filingId,
      textCondition "statement_type = :statement_type" "statement_type" q.statementType,
      textCondition "line_code = :line_code" "line_code" q.lineCode,
      textCondition "consolidation = :consolidation" "consolidation" q.consolidation,
      datetimeCondition "period_end = :period_end" "period_end" q.periodEnd,
      datetimeCondition "period_end >= :period_end_from" "period_end_from" q.periodEndFrom,
      datetimeCondition "period_end <= :period_end_to" "period_end_to" q.periodEndTo,
      textCondition "restatement_basis = :restatement_basis" "restatement_basis"
        q.restatementBasis]
    [("entity_id", uuidFilter q.entityId), ("filing_id", uuidFilter q.filingId),
      ("statement_type", textFilter q.statementType), ("line_code", textFilter q.lineCode),
      ("consolidation", textFilter q.consolidation), ("period_end", datetimeFilter q.periodEnd),
      ("period_end_from", datetimeFilter q.periodEndFrom),
      ("period_end_to", datetimeFilter q.periodEndTo),
      ("restatement_basis", textFilter q.restatementBasis)]
    ("ORDER BY entity_id, filing_id, statement_type, line_code, " ++
      "consolidation, period_end, as_of ASC")
    "ORDER BY period_end DESC, line_code, restatement_basis"

def financialsLineItems (env : Environment) (q : FinancialsLineItemsRequest) :
    Except HttpError Response := do
  let w ← listWindow env q.toListParams
  let rows ← (q.select w).rows env q.toListParams
  return envelope env w.cacheAsOf (.list (rows.map lineItem))

/-! ### `entities` and `get_entity` -/

structure EntitiesRequest extends ListParams where
  kind : Option String

structure GetEntityRequest where
  entityId : PgUuid
  asOf : Option String

/-- `merged_from_list`. -/
def mergedFromList : SqlValue → List Data
  | .null => []
  | .array xs => xs.map .str
  | .json (.arr xs) => xs.map fun x => .str (.json x)
  | v => [.str v]

/-- A uuid is compared with one. -/
def sameUuid : SqlValue → SqlValue → Bool
  | .uuid u, .uuid u' => u = u'
  | .null, .null => true
  | _, _ => false

/-- A text is compared with one. -/
def isText (s : String) : SqlValue → Bool
  | .text s' => s' = s
  | _ => false

/-- The row is a split into the entity. -/
def isSplitInto (entityId : SqlValue) (le : ResultRow) : Bool :=
  isText "split" (le.get "event_kind") && sameUuid (le.get "into_entity_id") entityId

/-- `split_from`: of the first split into the entity. -/
def splitFrom (entityId : SqlValue) (lineageRows : List ResultRow) : Data :=
  match lineageRows.find? (isSplitInto entityId) with
  | some le => strOrNone (le.get "from_entity_id")
  | none => .none

def lineageEvent (le : ResultRow) : Data := .dict [
  ("event_kind", .sql (le.get "event_kind")),
  ("from", strOrNone (le.get "from_entity_id")),
  ("into", strOrNone (le.get "into_entity_id")),
  ("event_at", isoOrNone (le.get "event_at")),
  ("reason", .sql (le.get "reason"))]

/-- An entity with its lineage. -/
def entityItem (r : ResultRow) (lineageRows : List ResultRow) : Data := .dict [
  ("entity_id", .str (r.get "entity_id")),
  ("canonical_name", .sql (r.get "legal_name")),
  ("kind", .sql (r.get "entity_type")),
  ("country", .sql (r.get "country_code")),
  ("merged_from_entity_ids", .list (mergedFromList (r.get "merged_from_entity_ids"))),
  ("split_from_entity_id", splitFrom (r.get "entity_id") lineageRows),
  ("as_of", isoOrNone (r.get "as_of")),
  ("lineage_events", .list (lineageRows.map lineageEvent))]

/-- The lineage of an entity of the list, in an interval as of the version of the row. -/
def entityLineage (env : Environment) (w : Window) (r : ResultRow) :
    Except HttpError (List ResultRow) :=
  env.execute ("SELECT event_kind, from_entity_id, into_entity_id, " ++
    "       event_at, reason FROM ref.entity_lineage_at(:as_of) " ++
    "WHERE from_entity_id = :entity_id OR into_entity_id = :entity_id ORDER BY event_at")
    [("as_of", if w.interval.isSome then r.get "as_of" else .timestamptz w.resolved),
      ("entity_id", r.get "entity_id")]

def EntitiesRequest.select (w : Window) (q : EntitiesRequest) : Selection :=
  w.select
    ("SELECT entity_id, as_of, event_kind, entity_type, legal_name, " ++
      "       country_code, merged_from_entity_ids")
    (.pit "ref.entity_at(:as_of)" "ref.entity_version")
    [textCondition "entity_type = :kind" "kind" (q.kind.filter (· ≠ ""))]
    [("kind", textFilter q.kind)]
    "ORDER BY entity_id, as_of ASC" "ORDER BY legal_name, entity_id"

/-- The entities of the list. -/
def entityItems (env : Environment) (w : Window) (rows : List ResultRow) :
    Except HttpError (List Data) :=
  rows.mapM fun r => do
    let lineageRows ← entityLineage env w r
    return entityItem r lineageRows

def entities (env : Environment) (q : EntitiesRequest) : Except HttpError Response := do
  let w ← listWindow env q.toListParams
  let rows ← (q.select w).rows env q.toListParams
  let data ← entityItems env w rows
  return envelope env w.cacheAsOf (.list data)

def GetEntityRequest.find (env : Environment) (resolved : Timestamp) (q : GetEntityRequest) :
    Except HttpError Data := do
  let params := [("as_of", SqlValue.timestamptz resolved), ("entity_id", .uuid q.entityId)]
  let rows ← env.execute ("SELECT entity_id, as_of, event_kind, entity_type, legal_name, " ++
    "       country_code, merged_from_entity_ids FROM ref.entity_at(:as_of) " ++
    "WHERE entity_id = :entity_id") params
  match rows.head? with
  | none => throw ⟨404, "BITEMPORAL_PRE_BITEMPORAL_REGION", "Entity not found at this as_of"⟩
  | some r =>
    let lineageRows ← env.execute ("SELECT event_kind, from_entity_id, into_entity_id, " ++
      "       event_at, reason FROM ref.entity_lineage_at(:as_of) " ++
      "WHERE (from_entity_id = :entity_id        OR into_entity_id = :entity_id) " ++
      "  AND event_at <= :as_of ORDER BY event_at") params
    return entityItem r lineageRows

def getEntity (env : Environment) (q : GetEntityRequest) : Except HttpError Response := do
  let resolved ← resolve env q.asOf
  let data ← q.find env resolved
  return envelope env resolved data

/-! ### `disclosures` and `get_disclosure` -/

structure DisclosuresRequest extends ListParams where
  entityId : Option PgUuid
  kapCompanyId : Option String
  formType : Option String
  publishedFrom : Option PyDatetime
  publishedTo : Option PyDatetime
  publishedAfter : Option PyDatetime
  publishedBefore : Option PyDatetime
  includePreBitemporal : Bool

structure GetDisclosureRequest where
  disclosureId : String
  asOf : Option String
  includePreBitemporal : Bool

def disclosureItem (r : ResultRow) : Data := .dict [
  ("disclosure_id", strOrNone (r.get "disclosure_id")),
  ("kap_company_id", .sql (r.get "kap_id")),
  ("entity_id", strOrNone (r.get "entity_id")),
  ("form_type", .sql (r.get "category_code")),
  ("title", .sql (r.get "title")),
  ("category_code", .sql (r.get "category_code")),
  ("subcategory_code", .sql (r.get "subcategory_code")),
  ("published_at", isoOrNone (r.get "published_at")),
  ("is_amendment", boolOrNone (r.get "is_amendment")),
  ("body_fetched", boolOrNone (r.get "body_fetched")),
  ("body_fetched_at", isoOrNone (r.get "body_fetched_at")),
  ("republished_as", strOrNone (r.get "parent_disclosure_id")),
  ("as_of", isoOrNone (r.get "as_of")),
  ("as_of_provenance", .sql (r.get "as_of_provenance")),
  ("pre_bitemporal", .bool (isText "pre_bitemporal_unknown" (r.get "as_of_provenance"))),
  ("event_kind", .sql (r.get "event_kind"))]

def disclosureColumns : String :=
  "SELECT disclosure_id, as_of, event_kind, as_of_provenance, " ++
    "       entity_id, kap_id, title, category_code, " ++
    "       subcategory_code, published_at, is_amendment, " ++
    "       body_fetched, body_fetched_at, parent_disclosure_id"

/-- The versions, with those whose `as_of` is not known. -/
def disclosuresPre : String :=
  "(SELECT DISTINCT ON (v.disclosure_id) " ++
    "        v.disclosure_id, v.as_of, v.event_kind, v.as_of_provenance, " ++
    "        v.entity_id, v.kap_id, v.title, v.category_code, " ++
    "        v.subcategory_code, v.published_at, v.is_amendment, " ++
    "        v.body_fetched, v.body_fetched_at, v.parent_disclosure_id " ++
    " FROM kap.disclosures_version v " ++
    " WHERE (v.as_of <= :as_of " ++
    "        OR v.as_of_provenance = 'pre_bitemporal_unknown') " ++
    "   AND v.event_kind <> 'deleted' " ++
    " ORDER BY v.disclosure_id, v.as_of DESC NULLS LAST) AS d"

/-- The interval of the request: rows whose `as_of` is not known are in none. -/
def DisclosuresRequest.interval (env : Environment) (q : DisclosuresRequest) :
    Except HttpError (Option (Timestamp × Timestamp)) := do
  let interval ← listInterval env q.toListParams
  if q.includePreBitemporal ∧ interval.isSome then
    throw (intervalInvalid "include_pre_bitemporal=true requires PIT mode (no as_of_range)")
  return interval

def DisclosuresRequest.select (w : Window) (q : DisclosuresRequest) : Selection :=
  let publishedFrom := q.publishedFrom.or q.publishedAfter
  let publishedTo := q.publishedTo.or q.publishedBefore
  let source := if q.includePreBitemporal ∧ w.interval.isNone then Source.clause disclosuresPre
    else .pit "kap.disclosures_at(:as_of)" "kap.disclosures_version"
  w.select disclosureColumns source
    [uuidCondition "entity_id = :entity_id" "entity_id" q.entityId,
      textCondition "kap_id = :kap_company_id" "kap_company_id" q.kapCompanyId,
      textCondition "category_code = :form_type" "form_type" q.formType,
      datetimeCondition "published_at >= :published_from" "published_from" publishedFrom,
      datetimeCondition "published_at <= :published_to" "published_to" publishedTo]
    [("entity_id", uuidFilter q.entityId), ("kap_company_id", textFilter q.kapCompanyId),
      ("form_type", textFilter q.formType), ("published_from", datetimeFilter publishedFrom),
      ("published_to", datetimeFilter publishedTo),
      ("include_pre_bitemporal", .bool q.includePreBitemporal)]
    "ORDER BY disclosure_id, as_of ASC" "ORDER BY published_at DESC"

def disclosures (env : Environment) (q : DisclosuresRequest) : Except HttpError Response := do
  let interval ← q.interval env
  let resolved ← resolve env q.asOf
  let w : Window := ⟨interval, resolved⟩
  let rows ← (q.select w).rows env q.toListParams
  return envelope env w.cacheAsOf (.list (rows.map disclosureItem))

def GetDisclosureRequest.find (env : Environment) (resolved : Timestamp) (q : GetDisclosureRequest) :
    Except HttpError Data := do
  let sql := if q.includePreBitemporal then
      "SELECT DISTINCT ON (v.disclosure_id) " ++
        "       v.disclosure_id, v.as_of, v.event_kind, " ++
        "       v.as_of_provenance, v.entity_id, v.kap_id, " ++
        "       v.title, v.category_code, v.subcategory_code, " ++
        "       v.published_at, v.is_amendment, v.body_fetched, " ++
        "       v.body_fetched_at, v.parent_disclosure_id " ++
        "FROM kap.disclosures_version v " ++
        "WHERE v.disclosure_id = :disclosure_id " ++
        "  AND (v.as_of <= :as_of " ++
        "       OR v.as_of_provenance = 'pre_bitemporal_unknown') " ++
        "  AND v.event_kind <> 'deleted' " ++
        "ORDER BY v.disclosure_id, v.as_of DESC NULLS LAST"
    else disclosureColumns ++ " FROM kap.disclosures_at(:as_of) WHERE disclosure_id = :disclosure_id"
  let rows ← env.execute sql
    [("as_of", .timestamptz resolved), ("disclosure_id", .text q.disclosureId)]
  match rows.head? with
  | none => throw ⟨404, "BITEMPORAL_PRE_BITEMPORAL_REGION", "Disclosure not found"⟩
  | some r => return disclosureItem r

def getDisclosure (env : Environment) (q : GetDisclosureRequest) : Except HttpError Response := do
  let resolved ← resolve env q.asOf
  let data ← q.find env resolved
  return envelope env resolved data

/-! ### `filings` and `quality_scores` -/

structure FilingsRequest extends ListParams where
  entityId : Option PgUuid
  sourceKind : Option String
  filedFrom : Option PyDatetime
  filedTo : Option PyDatetime
  receivedAfter : Option PyDatetime
  receivedBefore : Option PyDatetime

structure QualityScoresRequest extends ListParams where
  entityId : Option PgUuid
  periodEndFrom : Option PyDatetime
  periodEndTo : Option PyDatetime
  restatementBasis : Option String

/-- A column as it is, but for points in time and ids. -/
def filingColumn : SqlValue → Data
  | .timestamptz t => .isoformat (.timestamptz t)
  | .uuid u => .str (.uuid u)
  | v => .sql v

/-- The same, with decimals as floats. -/
def qualityScoreColumn : SqlValue → Data
  | .numeric unscaled scale => .float (.numeric unscaled scale)
  | v => filingColumn v

/-- A row with all its columns. -/
def recordItem (column : SqlValue → Data) (r : ResultRow) : Data :=
  .dict (r.map fun p => (p.1, column p.2))

/-- The current rows are read, whatever the point in time. -/
def FilingsRequest.select (w : Window) (q : FilingsRequest) : Selection :=
  let filedFrom := q.filedFrom.or q.receivedAfter
  let filedTo := q.filedTo.or q.receivedBefore
  let filters := [uuidCondition "f.entity_id = :entity_id" "entity_id" q.entityId,
    textCondition "s.kind = :source_kind" "source_kind" q.sourceKind,
    datetimeCondition "f.published_at >= :filed_from" "filed_from" filedFrom,
    datetimeCondition "f.published_at <= :filed_to" "filed_to" filedTo]
  { sql := buildFilteredSql "SELECT f.*, s.kind AS source_kind"
      (.clause "doc.filing f JOIN src.source s ON s.source_id = f.source_id") (whereParts filters)
      "ORDER BY f.published_at DESC NULLS LAST" none
    params := filterParams filters
    cursorFilters := w.cursorFilters ++ [("entity_id", uuidFilter q.entityId),
      ("source_kind", textFilter q.sourceKind), ("filed_from", datetimeFilter filedFrom),
      ("filed_to", datetimeFilter filedTo)] }

def filings (env : Environment) (q : FilingsRequest) : Except HttpError Response := do
  let w ← listWindow env q.toListParams
  let rows ← (q.select w).rows env q.toListParams
  return envelope env w.cacheAsOf (.list (rows.map (recordItem filingColumn)))

def QualityScoresRequest.select (w : Window) (q : QualityScoresRequest) : Selection :=
  w.select "SELECT *"
    (.pit "ts.entity_quality_score_at(:as_of)" "ts.entity_quality_score")
    [uuidCondition "entity_id = :entity_id" "entity_id" q.entityId,
      datetimeCondition "period_end >= :period_end_from" "period_end_from" q.periodEndFrom,
      datetimeCondition "period_end <= :period_end_to" "period_end_to" q.periodEndTo,
      textCondition "restatement_basis = :restatement_basis" "restatement_basis"
        q.restatementBasis]
    [("entity_id", uuidFilter q.entityId), ("period_end_from", datetimeFilter q.periodEndFrom),
      ("period_end_to", datetimeFilter q.periodEndTo),
      ("restatement_basis", textFilter q.restatementBasis)]
    ("ORDER BY entity_id, period_end, period_type, consolidation, " ++
      "currency_code, accounting_standard, restatement_basis, " ++
      "cpi_base_date, mapping_version, as_of ASC")
    "ORDER BY period_end DESC"

def qualityScores (env : Environment) (q : QualityScoresRequest) : Except HttpError Response := do
  let w ← listWindow env q.toListParams
  let rows ← (q.select w).rows env q.toListParams
  return envelope env w.cacheAsOf (.list (rows.map (recordItem qualityScoreColumn)))

/-! ### `events` -/

structure EventsRequest extends ListParams where
  entityId : Option PgUuid
  filingId : Option PgUuid
  eventType : Option String
  occurredFrom : Option PyDatetime
  occurredTo : Option PyDatetime
  eventAfter : Option PyDatetime
  eventBefore : Option PyDatetime

/-- `_PII_KEYS`. -/
def piiKeys : List String := ["counterparty_name", "counterparty_address", "signatory_name"]

def redactedValue : Json := .str "<REDACTED:counterparty>"

/-- `principal is not None and principal.pii_unredacted`. -/
def seesPii (principal : Option ApiKeyPrincipal) : Bool :=
  (principal.map (·.piiUnredacted)).getD false

/-- The values of the PII keys are replaced. -/
def redactFields (fields : JsonObject) : JsonObject :=
  fields.map fun f => if f.1 ∈ piiKeys then (f.1, redactedValue) else f

/-- `_redact_event_payload`. -/
def redactEventPayload (payload : SqlValue) (principal : Option ApiKeyPrincipal) : SqlValue :=
  match payload with
  | .json (.obj fields) =>
    if seesPii principal then payload else .json (.obj (redactFields fields))
  | _ => payload

def eventItem (principal : Option ApiKeyPrincipal) (r : ResultRow) : Data := .dict [
  ("event_id", strOrNone (r.get "filing_event_id")),
  ("filing_id", strOrNone (r.get "filing_id")),
  ("source_id", .sql (r.get "source_id")),
  ("source_filing_ref", .sql (r.get "source_filing_ref")),
  ("event_type", .sql (r.get "event_type")),
  ("event_seq", .sql (r.get "event_seq")),
  ("entity_id", strOrNone (r.get "entity_id")),
  ("counterparty_entity_id", strOrNone (r.get "counterparty_entity_id")),
  ("occurred_at", isoOrNone (r.get "event_ts")),
  ("effective_dt", isoOrNone (r.get "effective_dt")),
  ("as_of", isoOrNone (r.get "as_of")),
  ("attributes", .sql (redactEventPayload (r.get "payload") principal)),
  ("primary_confidence", floatOrNone (r.get "primary_confidence")),
  ("final_confidence", floatOrNone (r.get "final_confidence")),
  ("primary_model_version", .sql (r.get "primary_model_version")),
  ("primary_prompt_version", .sql (r.get "primary_prompt_version"))]

def EventsRequest.select (w : Window) (q : EventsRequest) : Selection :=
  let occurredFrom := q.occurredFrom.or q.eventAfter
  let occurredTo := q.occurredTo.or q.eventBefore
  w.select
    ("SELECT filing_event_id, filing_id, source_id, source_filing_ref, " ++
      "       event_type, event_seq, entity_id, counterparty_entity_id, " ++
      "       event_ts, effective_dt, as_of, payload, " ++
      "       primary_confidence, final_confidence, " ++
      "       primary_model_version, primary_prompt_version, " ++
      "       input_text_sha256")
    (.pit "agg.filing_event_at(:as_of)" "agg.filing_event")
    [uuidCondition "entity_id = :entity_id" "entity_id" q.entityId,
      uuidCondition "filing_id = :filing_id" "filing_id" q.filingId,
      textCondition "event_type = :event_type" "event_type" q.eventType,
      datetimeCondition "event_ts >= :occurred_from" "occurred_from" occurredFrom,
      datetimeCondition "event_ts <= :occurred_to" "occurred_to" occurredTo]
    [("entity_id", uuidFilter q.entityId), ("filing_id", uuidFilter q.filingId),
      ("event_type", textFilter q.eventType), ("occurred_from", datetimeFilter occurredFrom),
      ("occurred_to", datetimeFilter occurredTo)]
    "ORDER BY filing_id, event_type, event_seq, as_of ASC" "ORDER BY event_ts DESC, event_seq"

/-- The window of the request, and the rows that its statement selects. -/
def EventsRequest.rows (env : Environment) (q : EventsRequest) :
    Except HttpError (Window × List ResultRow) := do
  let w ← listWindow env q.toListParams
  let rows ← (q.select w).rows env q.toListParams
  return (w, rows)

def events (env : Environment) (principal : Option ApiKeyPrincipal) (q : EventsRequest) :
    Except HttpError Response := do
  let (w, rows) ← q.rows env
  return envelope env w.cacheAsOf (.list (rows.map (eventItem principal)))

/-! ### Endpoints without data of the store -/

/-- The names of the enabled flags. -/
def activeFlags (env : Environment) : List Data :=
  (env.flags.filter (·.2)).map fun f => .text f.1

def healthz : Response := ⟨200, .dict [("status", .text "ok")], none⟩

def version (env : Environment) : Response :=
  ⟨200, .dict [("version", .text "1.0.0-alpha"), ("feature_flags_active", .list (activeFlags env)),
    ("served_at", .isoformat (.timestamptz env.now))], none⟩

/-- The status of the canary, which is never cached. -/
def verifyMoat2 (env : Environment) : Except HttpError Response := do
  let rows ← env.execute ("SELECT value_bool, updated_at, notes " ++
    "FROM aslan_core.feature_flags WHERE flag_name = 'MOAT_2_CANARY_STATUS'") []
  match rows.head? with
  | none => return ⟨503, .dict [("moat_2", .text "unknown"),
      ("reason", .text "canary not yet deployed (Phase 4f pending)"), ("last_run_at", .none)],
      some noCache⟩
  | some r =>
    let body := fun status : String => Data.dict [("moat_2", .text status),
      ("last_run_at", isoOrNone (r.get "updated_at")), ("notes", .sql (r.get "notes"))]
    match r.get "value_bool" with
    | .bool false => return ⟨503, body "red", some noCache⟩
    | _ => return ⟨200, body "green", some noCache⟩

/-! ### Requests -/

inductive Request
  | observations (q : ObservationsRequest)
  | identifiersResolve (q : IdentifiersResolveRequest)
  | financialsCanonical (q : FinancialsCanonicalRequest)
  | financialsLineItems (q : FinancialsLineItemsRequest)
  | entities (q : EntitiesRequest)
  | getEntity (q : GetEntityRequest)
  | disclosures (q : DisclosuresRequest)
  | getDisclosure (q : GetDisclosureRequest)
  | filings (q : FilingsRequest)
  | events (q : EventsRequest)
  | qualityScores (q : QualityScoresRequest)
  | verifyMoat2
  | healthz
  | version

/-- `require_master_flag`, of the endpoints with authentication. -/
def requireMasterFlag (env : Environment) : Except HttpError Unit :=
  if (env.flags.lookup "BITEMPORAL_API_ENABLED").getD false then .ok ()
  else .error ⟨503, "FEATURE_DISABLED", "Bitemporal Research API is disabled"⟩

/-- The response to a request of a principal that may make it. -/
def respond (env : Environment) (principal : Option ApiKeyPrincipal) :
    Request → Except HttpError Response
  | .observations q => do requireMasterFlag env; observations env q
  | .identifiersResolve q => do requireMasterFlag env; identifiersResolve env q
  | .financialsCanonical q => do requireMasterFlag env; financialsCanonical env q
  | .financialsLineItems q => do requireMasterFlag env; financialsLineItems env q
  | .entities q => do requireMasterFlag env; entities env q
  | .getEntity q => do requireMasterFlag env; getEntity env q
  | .disclosures q => do requireMasterFlag env; disclosures env q
  | .getDisclosure q => do requireMasterFlag env; getDisclosure env q
  | .filings q => do requireMasterFlag env; filings env q
  | .events q => do requireMasterFlag env; events env principal q
  | .qualityScores q => do requireMasterFlag env; qualityScores env q
  | .verifyMoat2 => verifyMoat2 env
  | .healthz => .ok healthz
  | .version => .ok (version env)

end AslanCore.Research
