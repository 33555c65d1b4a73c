import AslanCore.Text
import AslanCore.Store.Column

/-!
# Requests of the research API

What the endpoints of the research API have in common: the values that they read and return, how
the points in time of a request are parsed and checked, and how a statement is put together from its
filters. What the standard library makes of a text, and what the database returns for a statement,
are in the `Environment`.
-/

namespace AslanCore.Research

/-! ### Values -/

/-- A `datetime`: the microseconds since the epoch that it shows, and its offset from UTC. -/
structure PyDatetime where
  wall : ℤ
  offset : Option ℤ
  deriving DecidableEq

/-- A value of a statement. -/
inductive SqlValue
  | null
  | bool (b : Bool)
  | int (n : ℤ)
  | float (bits : BitVec 64)
  | numeric (unscaled : ℤ) (scale : ℕ)
  | text (s : String)
  | uuid (u : PgUuid)
  | date (d : Date)
  | timestamptz (t : Timestamp)
  /-- A parameter that is no column. -/
  | datetime (d : PyDatetime)
  | json (j : Json)
  | array (xs : List SqlValue)

/-- `bool(value)`. -/
def SqlValue.truthy : SqlValue → Bool
  | .null => false
  | .bool b => b
  | .int n => n ≠ 0
  | .float bits => bits ≠ 0 ∧ bits ≠ 0x8000000000000000
  | .numeric unscaled _ => unscaled ≠ 0
  | .text s => s ≠ ""
  | .json (.obj fields) => !fields.isEmpty
  | .json (.arr xs) => !xs.isEmpty
  | .json (.str s) => s ≠ ""
  | .json (.int n) => n ≠ 0
  | .json (.bool b) => b
  | .json .null => false
  | .array xs => !xs.isEmpty
  | _ => true

/-- A row of a result, by its columns. -/
abbrev ResultRow := List (String × SqlValue)

/-- `r.column`. -/
def ResultRow.get (r : ResultRow) (column : String) : SqlValue := (r.lookup column).getD .null

/-- The parameters of a statement. -/
abbrev Params := List (String × SqlValue)

/-- What is returned: values, and what is made of them. -/
inductive Data
  | none
  | sql (v : SqlValue)
  /-- `str(v)`. -/
  | str (v : SqlValue)
  /-- `v.isoformat()`. -/
  | isoformat (v : SqlValue)
  /-- `float(v)`. -/
  | float (v : SqlValue)
  | bool (b : Bool)
  | text (s : String)
  | list (xs : List Data)
  | dict (items : List (String × Data))

/-- `v.isoformat() if v else None`. -/
def isoOrNone (v : SqlValue) : Data := if v.truthy then .isoformat v else .none

/-- `str(v) if v else None`. -/
def strOrNone (v : SqlValue) : Data := if v.truthy then .str v else .none

/-- `float(v) if v is not None else None`. -/
def floatOrNone : SqlValue → Data
  | .null => .none
  | v => .float v

/-- `bool(v) if v is not None else None`. -/
def boolOrNone : SqlValue → Data
  | .null => .none
  | v => .bool v.truthy

/-! ### The environment -/

/-- An `HTTPException`. -/
structure HttpError where
  statusCode : ℕ
  code : String
  title : String
  deriving DecidableEq

/-- What is raised otherwise. -/
def HttpError.internal : HttpError := ⟨500, "", "Internal Server Error"⟩

/-- What a handler depends on, besides its request and the principal. -/
structure Environment where
  /-- `datetime.now`, when the request is handled, and when its headers are set. -/
  now : Timestamp
  headersNow : Timestamp
  /-- The enabled flags, by name. -/
  flags : List (String × Bool)
  /-- `datetime.fromisoformat`. -/
  fromisoformat : String → Option PyDatetime
  /-- `json.loads(base64.urlsafe_b64decode(…).decode())`. -/
  loadCursor : String → Option Json
  /-- The hash of the filters, as JSON with sorted keys. -/
  filtersHash : List (String × Data) → String
  /-- What the database returns for a statement. -/
  execute : String → Params → Except HttpError (List ResultRow)

/-! ### Points in time -/

/-- `cs.replace("Z", "+00:00")`. -/
def replaceZ (cs : List Char) : String :=
  String.ofList (cs.flatMap fun c => if c = 'Z' then "+00:00".toList else [c])

/-- The last microsecond before the year 10000, and the first one of the year 1. -/
def datetimeMax : Timestamp := 253402300799999999

def datetimeMin : Timestamp := -62135596800000000

/-- `dt.astimezone(UTC)`, which raises beyond the years of a `datetime`. -/
def astimezoneUtc (t : Timestamp) : Except HttpError Timestamp :=
  if datetimeMin ≤ t ∧ t ≤ datetimeMax then .ok t else .error .internal

/-- `_CLOCK_SKEW_TOLERANCE`. -/
def clockSkewTolerance : ℤ := 60 * 1000000

def parseAsOf (env : Environment) (raw : Option String) : Except HttpError (Option Timestamp) :=
  match raw with
  | none => .ok none
  | some raw =>
    match env.fromisoformat (replaceZ raw.toList) with
    | none => .error ⟨400, "BITEMPORAL_AS_OF_NAIVE", "as_of must be ISO-8601 with timezone"⟩
    | some ⟨_, none⟩ =>
      .error ⟨400, "BITEMPORAL_AS_OF_NAIVE", "as_of has no timezone offset; UTC required"⟩
    | some ⟨wall, some offset⟩ =>
      -- The clock is rounded up to a second.
      if env.now - env.now % 1000000 + 999999 + clockSkewTolerance < wall - offset then
        .error ⟨400, "BITEMPORAL_AS_OF_FUTURE", "as_of must not exceed wall-clock now()+60s"⟩
      else (astimezoneUtc (wall - offset)).map some

/-- An error of an interval. -/
def intervalInvalid (title : String) : HttpError := ⟨400, "BITEMPORAL_INTERVAL_INVALID", title⟩

/-- The two parts of `[T1,T2)`. -/
def splitRange (raw : String) : Except HttpError (List Char × List Char) :=
  let s := strip raw.toList
  if s.length < 5 ∨ s.head? ≠ some '[' ∨ s.getLast? ≠ some ')' then
    .error (intervalInvalid "as_of_range must be the canonical half-open form [T1,T2)")
  else
    let inner := s.tail.dropLast
    if ',' ∉ inner then .error (intervalInvalid "as_of_range missing comma separator")
    else .ok (inner.takeWhile (· ≠ ','), (inner.dropWhile (· ≠ ',')).tail)

def parseAsOfRange (env : Environment) (raw : Option String) :
    Except HttpError (Option (Timestamp × Timestamp)) :=
  match raw with
  | none => .ok none
  | some raw => do
    let (t1Raw, t2Raw) ← splitRange raw
    match env.fromisoformat (replaceZ (strip t1Raw)), env.fromisoformat (replaceZ (strip t2Raw)) with
    | some ⟨wall, some offset⟩, some ⟨wall', some offset'⟩ =>
      let t1 ← astimezoneUtc (wall - offset)
      let t2 ← astimezoneUtc (wall' - offset')
      if t1 < t2 then .ok (some (t1, t2)) else .error (intervalInvalid "as_of_range has T1 >= T2")
    | some _, some _ =>
      .error (intervalInvalid "as_of_range endpoints must carry an explicit timezone")
    | _, _ => .error (intervalInvalid "as_of_range endpoints not ISO-8601")

/-- `_AS_OF_RANGE_MAX_WIDTH`: five years. -/
def asOfRangeMaxWidth : ℤ := 5 * 365 * 86400 * 1000000

/-- `_LIMIT_HARD_CAP`. -/
def limitHardCap : ℤ := 500

def enforceQueryCost (asOfRange : Option (Timestamp × Timestamp)) (limit : ℤ) :
    Except HttpError Unit :=
  if ∃ r ∈ asOfRange, asOfRangeMaxWidth < r.2 - r.1 then
    .error ⟨413, "QUERY_TOO_LARGE", "as_of_range exceeds 5-year cap"⟩
  else if limitHardCap < limit then
    .error ⟨413, "QUERY_TOO_LARGE", "limit exceeds hard cap of 500"⟩
  else .ok ()

def rejectPitWithInterval (asOf asOfRange : Option String) : Except HttpError Unit :=
  if asOf.isSome ∧ asOfRange.isSome then
    .error (intervalInvalid "as_of and as_of_range are mutually exclusive")
  else .ok ()

def gateIntervalFlag (env : Environment) (asOfRange : Option (Timestamp × Timestamp)) :
    Except HttpError Unit :=
  if asOfRange.isSome ∧ (env.flags.lookup "BITEMPORAL_API_INTERVAL_QUERIES").getD true = false then
    .error ⟨503, "FEATURE_DISABLED", "Interval queries are disabled"⟩
  else .ok ()

/-! ### Windows -/

/-- The parameters of a list, besides its filters. -/
structure ListParams where
  asOf : Option String
  asOfRange : Option String
  cursor : Option String
  limit : ℤ

/-- The points in time of a request. -/
structure Window where
  interval : Option (Timestamp × Timestamp)
  resolved : Timestamp

/-- The interval of a list, which is parsed first. -/
def listInterval (env : Environment) (p : ListParams) :
    Except HttpError (Option (Timestamp × Timestamp)) := do
  rejectPitWithInterval p.asOf p.asOfRange
  let interval ← parseAsOfRange env p.asOfRange
  gateIntervalFlag env interval
  enforceQueryCost interval p.limit
  return interval

/-- `requested or now_utc()`. -/
def resolve (env : Environment) (asOf : Option String) : Except HttpError Timestamp := do
  let requested ← parseAsOf env asOf
  return requested.getD env.now

def listWindow (env : Environment) (p : ListParams) : Except HttpError Window := do
  let interval ← listInterval env p
  let resolved ← resolve env p.asOf
  return ⟨interval, resolved⟩

/-- What the freshness of the response depends on. -/
def Window.cacheAsOf (w : Window) : Timestamp := (w.interval.map Prod.snd).getD w.resolved

/-- The parameters of the window. -/
def Window.params (w : Window) : Params :=
  match w.interval with
  | none => [("as_of", .timestamptz w.resolved)]
  | some (lower, upper) => [("as_of_lower", .timestamptz lower), ("as_of_upper", .timestamptz upper)]

/-- The filters for the cursor, of the window. -/
def Window.cursorFilters (w : Window) : List (String × Data) :=
  [("as_of", match w.interval with
      | none => .isoformat (.timestamptz w.resolved)
      | some _ => .none),
    ("as_of_range", match w.interval with
      | none => .none
      | some (lower, upper) =>
        .list [.isoformat (.timestamptz lower), .isoformat (.timestamptz upper)])]

/-! ### Cursors -/

/-- `json == 1`. -/
def isCursorVersion : Option Json → Bool
  | some (.int n) => n = 1
  | some (.bool b) => b
  | some (.float bits) => bits = 0x3FF0000000000000
  | _ => false

/-- A cursor has to be one of the same filters. Where the page starts is not used. -/
def decodeCursor (env : Environment) (cursor : Option String) (filters : List (String × Data)) :
    Except HttpError Unit :=
  match cursor with
  | none => .ok ()
  | some cursor =>
    match env.loadCursor cursor with
    | none => .error (intervalInvalid "Malformed cursor")
    | some (.obj payload) =>
      if !isCursorVersion (payload.lookup "v") then
        .error (intervalInvalid "Unsupported cursor version")
      else
        match payload.lookup "filters_hash" with
        | some (.str s) =>
          if s = env.filtersHash filters then .ok ()
          else .error (intervalInvalid "Cursor filter-set differs from request filters")
        | _ => .error (intervalInvalid "Cursor filter-set differs from request filters")
    -- `payload.get` is none of a list, a string or a number.
    | some _ => .error .internal

/-! ### Statements -/

/-- A filter: its condition and parameter, and its value if it is given. -/
structure Filter where
  condition : String
  name : String
  value : Option SqlValue

/-- `if value is not None: where_parts.append(condition)`. -/
def whereParts (filters : List Filter) : List String :=
  filters.filterMap fun f => f.value.map fun _ => f.condition

/-- `if value is not None: params[name] = value`. -/
def filterParams (filters : List Filter) : Params :=
  filters.filterMap fun f => f.value.map fun v => (f.name, v)

/-- Where rows are read from: a function of a point in time and the table of its versions, or a
    clause. -/
inductive Source
  | pit (call table : String)
  | clause (text : String)

/-- `_build_filtered_sql`, up to its limit. -/
def buildFilteredSql (selectClause : String) (source : Source) (parts : List String)
    (orderBy : String) (asOfRange : Option (Timestamp × Timestamp)) : String :=
  let (source, parts) := match asOfRange, source with
    | some _, .pit _ table => (table, parts ++ ["as_of >= :as_of_lower AND as_of < :as_of_upper"])
    | none, .pit call _ => (call, parts)
    | _, .clause text => (text, parts)
  let whereClause := if parts.isEmpty then "" else "WHERE " ++ " AND ".intercalate parts
  selectClause ++ " FROM " ++ source ++ " " ++ whereClause ++ " " ++ orderBy

/-- The statement with its limit. -/
def limited (sql : String) : String := sql ++ " LIMIT :limit"

/-! ### Lists -/

/-- What a list is asked for: its statement up to the limit with its parameters, and the filters that
    its cursor is bound to. -/
structure Selection where
  sql : String
  params : Params
  cursorFilters : List (String × Data)

/-- The filters of a list in a window. -/
def Window.select (w : Window) (selectClause : String) (source : Source) (filters : List Filter)
    (cursorFilters : List (String × Data)) (intervalOrder pitOrder : String) : Selection where
  sql := buildFilteredSql selectClause source (whereParts filters)
    (if w.interval.isSome then intervalOrder else pitOrder) w.interval
  params := w.params ++ filterParams filters
  cursorFilters := w.cursorFilters ++ cursorFilters

/-- The rows of a page: its cursor is checked, and its statement executed. -/
def Selection.rows (env : Environment) (p : ListParams) (sel : Selection) :
    Except HttpError (List ResultRow) := do
  decodeCursor env p.cursor sel.cursorFilters
  env.execute (limited sel.sql) (("limit", .int p.limit) :: sel.params)

end AslanCore.Research
