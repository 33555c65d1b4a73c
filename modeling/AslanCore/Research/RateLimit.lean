import AslanCore.Research.Endpoints
import AslanCore.Store.Recording

/-!
# Rate limits

A request with an API key is counted in a window of every kind that has a cap: in a row that it
increments, and keeps locked until it commits. If a count exceeds the cap, the request is rejected,
and what it has counted so far is committed.

The sessions are the requests, each of them with its own connection. A row of a window also says,
for the proofs, which requests have counted in it (`Bucket.countedBy`): no program reads that.
-/

namespace AslanCore.Research

/-! ### Windows -/

inductive WindowKind
  | minute
  | hour
  | day
  deriving DecidableEq

def WindowKind.text : WindowKind → String
  | minute => "minute"
  | hour => "hour"
  | day => "day"

/-- `_TIER_LIMITS.get(rate_tier, _TIER_LIMITS["partner"])`: a cap of 0 is none. -/
def tierLimits (rateTier : String) : List (WindowKind × ℕ) :=
  if rateTier = "internal" then [(.minute, 10000), (.hour, 100000), (.day, 0)]
  else if rateTier = "public" then [(.minute, 60), (.hour, 500), (.day, 2000)]
  else [(.minute, 600), (.hour, 5000), (.day, 30000)]

/-- `limits.update`, with the overrides of the kinds that there are. -/
def updateLimits (limits : List (WindowKind × ℕ)) (overrides : List (String × ℕ)) :
    List (WindowKind × ℕ) :=
  limits.map fun (kind, cap) => (kind, (overrides.lookup kind.text).getD cap)

def microsPerSecond : ℤ := 1000000

def microsPerMinute : ℤ := 60 * microsPerSecond

def microsPerHour : ℤ := 60 * microsPerMinute

def microsPerDay : ℤ := 24 * microsPerHour

/-- `_window_start`. -/
def windowStart (now : Timestamp) : WindowKind → Timestamp
  | .minute => now - now % microsPerMinute
  | .hour => now - now % microsPerHour
  | .day => now - now % microsPerDay

/-- `_retry_after_seconds`. -/
def retryAfterSeconds (now : Timestamp) : WindowKind → ℤ
  | .minute => 60 - now / microsPerSecond % 60
  | .hour => 3600 - now / microsPerMinute % 60 * 60 - now / microsPerSecond % 60
  | .day => 86400 - now / microsPerHour % 24 * 3600 - now / microsPerMinute % 60 * 60 -
    now / microsPerSecond % 60

/-! ### Rows -/

/-- A row of `aslan_core.api_key`: the overrides, an object of numbers that are not negative. -/
structure ApiKeyRow where
  rateOverrides : Option (List (String × ℕ))

/-- A row of `aslan_core.api_rate_limit_state`, and the requests `P` that have counted in it, one
    after the other. -/
structure Bucket (P : Type) where
  tokensUsed : ℕ
  countedBy : List P
  tokensUsed_eq : tokensUsed = countedBy.length

/-- The row that is inserted. -/
def Bucket.first {P : Type} (p : P) : Bucket P := ⟨1, [p], rfl⟩

/-- The row that is updated. -/
def Bucket.count {P : Type} (p : P) (b : Bucket P) : Bucket P :=
  ⟨b.tokensUsed + 1, b.countedBy ++ [p], by rw [b.tokensUsed_eq, List.length_append]; rfl⟩

/-- The requests that have counted in a row. -/
def countedIn {P : Type} (row : Option (Bucket P)) : List P := (row.map (·.countedBy)).getD []

/-- The primary key of a row of `aslan_core.api_rate_limit_state`. -/
structure RateWindow where
  apiKeyId : PgUuid
  windowKind : WindowKind
  windowStart : Timestamp
  deriving DecidableEq

/-- What the rows are found under. -/
inductive RateKey
  | apiKey (keyId : PgUuid)
  | bucket (w : RateWindow)
  deriving DecidableEq

abbrev RateKey.Row (P : Type) : RateKey → Type
  | .apiKey _ => ApiKeyRow
  | .bucket _ => Bucket P

/-- What is raised: an `HTTPException`, with the seconds of its `Retry-After`, or what a statement
    raises. -/
inductive RateError
  | http (e : HttpError) (retryAfter : ℤ)
  | sql
  deriving DecidableEq

abbrev RateJournal (P : Type) : Type := Journal P RateKey (RateKey.Row P) Empty

abbrev RateCmd (P : Type) : Type := Journal.Cmd RateKey (RateKey.Row P) Empty

abbrev RateProg (P α : Type) : Type := Prog (RateCmd P) Journal.Reply RateError α

/-! ### The check -/

variable {P : Type} (p : P)

/-- The exception of a request that is over a cap. -/
def rateLimited (principal : ApiKeyPrincipal) (now : Timestamp) (windowKind : WindowKind) : RateError :=
  .http ⟨429, "RATE_LIMITED", "Rate limit exceeded for tier " ++ principal.rateTier ++ " (window=" ++
    windowKind.text ++ ")"⟩ (retryAfterSeconds now windowKind)

/-- `INSERT … ON CONFLICT DO UPDATE … RETURNING tokens_used`: what the request then sees of the row
    that it has locked. -/
def countTokens (w : RateWindow) : RateProg P (Option ℕ) := do
  .perform (Journal.Cmd.upsert (.bucket w) (fun _ => Bucket.first p) (Bucket.count p))
  let bucket ← .perform (Journal.Cmd.select (.bucket w))
  pure (bucket.map (·.tokensUsed))

/-- The window of a request. -/
def ApiKeyPrincipal.window (principal : ApiKeyPrincipal) (now : Timestamp) (windowKind : WindowKind) :
    RateWindow :=
  ⟨principal.keyId, windowKind, windowStart now windowKind⟩

/-- The request is counted in a window, and rejected if the count exceeds the cap. -/
def countRequest (principal : ApiKeyPrincipal) (now : Timestamp) :
    WindowKind × ℕ → RateProg P Unit
  | (windowKind, cap) =>
    if cap = 0 then pure ()
    else do
      let tokensUsed ← countTokens p (principal.window now windowKind)
      if tokensUsed.any (cap < ·) then
        .perform Journal.Cmd.commit
        throw (rateLimited principal now windowKind)
      else pure ()

/-- The caps of a principal, with the overrides of its key. -/
def limitsOf (rateTier : String) (overrideRow : Option ApiKeyRow) : List (WindowKind × ℕ) :=
  updateLimits (tierLimits rateTier) ((overrideRow.bind (·.rateOverrides)).getD [])

/-- `enforce_rate_limit`: a request without a principal is not limited. -/
def enforceRateLimit (principal : Option ApiKeyPrincipal) (now : Timestamp) :
    RateProg P (Option ApiKeyPrincipal) :=
  match principal with
  | none => pure none
  | some principal => do
    let overrideRow ← .perform (Journal.Cmd.select (.apiKey principal.keyId))
    Prog.forEach (countRequest p principal now) (limitsOf principal.rateTier overrideRow)
    .perform Journal.Cmd.commit
    pure (some principal)

/-! ### The system -/

/-- A request, and the time that it reads. -/
structure RateRequest where
  principal : Option ApiKeyPrincipal
  now : Timestamp

/-- The requests `P`. -/
def rateLimits (P : Type) [DecidableEq P] :
    System (RateCmd P) Journal.Reply RateError (Option ApiKeyPrincipal) P RateRequest Fault
      (RateJournal P) :=
  Journal.system .sql fun p request => enforceRateLimit p request.principal request.now

/-- There are keys, and nothing has been counted. -/
def uncounted (P : Type) (keys : PgUuid → Option ApiKeyRow) : RateJournal P :=
  { Journal.empty with
    db := .ofRows fun
      | .apiKey keyId => keys keyId
      | .bucket _ => none }

/-- The requests that are counted in a window, as it is committed. -/
def counted {P : Type} (s : RateJournal P) (w : RateWindow) : List P :=
  countedIn (s.db.committed (.bucket w))

/-- A request that starts is a new one: it has not been counted. -/
def newRequests (P : Type) : Guard (RateCmd P) P RateRequest Fault (RateJournal P) where
  start p _ s := ∀ w, p ∉ counted s w

end AslanCore.Research
