import AslanCore.Research.Endpoints

/-!
# What may be cached for everyone

A response that is public may be served to another principal. All endpoints but one return the same
data to everyone (`respond_eq`). The events have what the principal may see of their payload, and
the policy of the cache does not look at that: a public response is the same for two principals where
they have the same right, or there is nothing to redact, and only there (`cacheable_iff`).
-/

namespace AslanCore.Research

variable {env : Environment} {p p' : Option ApiKeyPrincipal} {req : Request} {q : EventsRequest}

/-- The response may be stored by a shared cache. -/
def Response.IsPublic (r : Response) : Prop := r.cacheControl = some publicCache

/-- If the first principal gets a public response, the second one gets the same data. -/
def Cacheable (env : Environment) (req : Request) (p p' : Option ApiKeyPrincipal) : Prop :=
  ∀ r, respond env p req = .ok r → r.IsPublic →
    ∃ r', respond env p' req = .ok r' ∧ r'.data = r.data

/-- Redaction does not change the payload. -/
def NothingToRedact (payload : SqlValue) : Prop :=
  ∀ fields, payload = .json (.obj fields) → ∀ f ∈ fields, f.1 ∈ piiKeys → f.2 = redactedValue

/-- The events have the same payloads for two principals, or they are not public. -/
def SameForBoth (env : Environment) (p p' : Option ApiKeyPrincipal) : Request → Prop
  | .events q => requireMasterFlag env = .ok () → ∀ w rows, q.rows env = .ok (w, rows) →
    immutableThreshold ≤ env.headersNow - w.cacheAsOf → seesPii p ≠ seesPii p' →
      ∀ r ∈ rows, NothingToRedact (r.get "payload")
  | _ => True

/-- Only the events depend on the principal. -/
theorem respond_eq (h : ∀ q, req ≠ .events q) : respond env p req = respond env p' req := by
  cases req with
  | events q => exact absurd rfl (h q)
  | _ => rfl

/-! ### Payloads -/

theorem redactFields_eq_self {fields : JsonObject} :
    redactFields fields = fields ↔ ∀ f ∈ fields, f.1 ∈ piiKeys → f.2 = redactedValue := by
  have hid : redactFields fields = fields ↔
      fields.map (fun f => if f.1 ∈ piiKeys then (f.1, redactedValue) else f) = fields.map id := by
    rw [List.map_id, redactFields]
  rw [hid, List.map_inj_left]
  refine forall₂_congr fun f _ => ?_
  obtain ⟨k, v⟩ := f
  by_cases hk : k ∈ piiKeys
  · rw [if_pos hk, id, Prod.mk.injEq, and_iff_right rfl, forall_prop_of_true hk, eq_comm]
  · exact iff_of_true (if_neg hk) fun hk' => absurd hk' hk

theorem redactEventPayload_congr (payload : SqlValue) (h : seesPii p = seesPii p') :
    redactEventPayload payload p = redactEventPayload payload p' := by
  rw [redactEventPayload.eq_def, redactEventPayload.eq_def, h]

/-- With different rights, the same is seen where there is nothing to redact. -/
theorem redactEventPayload_eq_iff (payload : SqlValue) (h : seesPii p ≠ seesPii p') :
    redactEventPayload payload p = redactEventPayload payload p' ↔ NothingToRedact payload := by
  by_cases hobj : ∃ fields, payload = .json (.obj fields)
  · obtain ⟨fields, rfl⟩ := hobj
    have hnothing : NothingToRedact (.json (.obj fields)) ↔ redactFields fields = fields := by
      rw [redactFields_eq_self]
      refine ⟨fun h => h fields rfl, fun h fields' heq => ?_⟩
      cases heq
      exact h
    rw [hnothing, redactEventPayload, redactEventPayload]
    cases hp : seesPii p <;> cases hp' : seesPii p'
    · exact absurd (hp.trans hp'.symm) h
    · simp
    · simp [eq_comm]
    · exact absurd (hp.trans hp'.symm) h
  · refine iff_of_true ?_ fun fields heq => absurd ⟨fields, heq⟩ hobj
    rw [redactEventPayload.eq_def, redactEventPayload.eq_def]
    split
    · exact absurd ⟨_, rfl⟩ hobj
    · rfl

theorem eventItem_eq_iff (r : ResultRow) : eventItem p r = eventItem p' r ↔
    redactEventPayload (r.get "payload") p = redactEventPayload (r.get "payload") p' := by
  simp only [eventItem, Data.dict.injEq, List.cons.injEq, Prod.mk.injEq, Data.sql.injEq, true_and,
    and_true]

/-! ### Events -/

theorem isPublic_envelope (cacheAsOf : Timestamp) (data : Data) :
    (envelope env cacheAsOf data).IsPublic ↔ immutableThreshold ≤ env.headersNow - cacheAsOf := by
  have hne : noCache ≠ publicCache := by decide
  rw [Response.IsPublic, envelope, Option.some.injEq, setCacheHeaders]
  split_ifs with h
  · exact iff_of_true rfl h
  · exact iff_of_false hne h

theorem respond_events_eq_ok {r : Response} : respond env p (.events q) = .ok r ↔
    requireMasterFlag env = .ok () ∧ ∃ w rows, q.rows env = .ok (w, rows) ∧
      envelope env w.cacheAsOf (.list (rows.map (eventItem p))) = r := by
  rw [respond, events]
  cases hflag : requireMasterFlag env with
  | error e =>
    constructor
    · intro h
      cases h
    · rintro ⟨h, -⟩
      cases h
  | ok =>
    cases hrows : q.rows env with
    | error e =>
      constructor
      · intro h
        cases h
      · rintro ⟨-, w, rows, h, -⟩
        cases h
    | ok x =>
      obtain ⟨w, rows⟩ := x
      constructor
      · intro h
        exact ⟨rfl, w, rows, rfl, Except.ok.inj h⟩
      · rintro ⟨-, w', rows', h, rfl⟩
        cases h
        rfl

theorem cacheable_events : Cacheable env (.events q) p p' ↔ SameForBoth env p p' (.events q) := by
  constructor
  · intro h hflag w rows hrows hold hsees r hr
    obtain ⟨r', hr', hdata⟩ := h _ (respond_events_eq_ok.2 ⟨hflag, w, rows, hrows, rfl⟩)
      ((isPublic_envelope _ _).2 hold)
    obtain ⟨-, w', rows', hrows', rfl⟩ := respond_events_eq_ok.1 hr'
    rw [hrows] at hrows'
    cases hrows'
    have hitem := List.map_inj_left.1 (Data.list.inj hdata) r hr
    exact (redactEventPayload_eq_iff _ hsees).1 ((eventItem_eq_iff r).1 hitem).symm
  · intro h r hr hpublic
    obtain ⟨hflag, w, rows, hrows, rfl⟩ := respond_events_eq_ok.1 hr
    refine ⟨_, respond_events_eq_ok.2 ⟨hflag, w, rows, hrows, rfl⟩, ?_⟩
    refine congrArg Data.list (List.map_inj_left.2 fun r hr => (eventItem_eq_iff r).2 ?_)
    by_cases hsees : seesPii p = seesPii p'
    · exact (redactEventPayload_congr _ hsees).symm
    · exact ((redactEventPayload_eq_iff _ hsees).2
        (h hflag w rows hrows ((isPublic_envelope _ _).1 hpublic) hsees r hr)).symm

/-- A public response has the same data for two principals exactly where, if it is one of events, they
    have the same right to see PII, or nothing in the events is to be redacted. -/
theorem cacheable_iff (env : Environment) (req : Request) (p p' : Option ApiKeyPrincipal) :
    Cacheable env req p p' ↔ SameForBoth env p p' req := by
  by_cases hevents : ∃ q, req = .events q
  · obtain ⟨q, rfl⟩ := hevents
    exact cacheable_events
  · have hne : ∀ q, req ≠ .events q := fun q heq => hevents ⟨q, heq⟩
    have hsame : SameForBoth env p p' req := by
      cases req with
      | events q => exact absurd rfl (hne q)
      | _ => trivial
    exact iff_of_true (fun r hr _ => ⟨r, (respond_eq hne).symm.trans hr, rfl⟩) hsame

/-! ### A counterparty -/

/-- A store with one event, that has the name of its counterparty. -/
def counterpartyEnvironment : Environment where
  now := 1000000000
  headersNow := 1000000000
  flags := [("BITEMPORAL_API_ENABLED", true)]
  fromisoformat := fun _ => some ⟨0, some 0⟩
  loadCursor := fun _ => none
  filtersHash := fun _ => ""
  execute := fun _ _ => .ok [[("payload", .json (.obj [("counterparty_name", .str "A")]))]]

/-- `GET /v1/research/events?as_of=1970-01-01T00:00:00Z`. -/
def pastEvents : Request :=
  .events ⟨⟨some "1970-01-01T00:00:00Z", none, none, 50⟩, none, none, none, none, none, none, none⟩

def partner (piiUnredacted : Bool) : Option ApiKeyPrincipal :=
  some ⟨if piiUnredacted then 1 else 2, "partner", piiUnredacted, []⟩

/-- The name may be served from the cache to a principal that must not see it. -/
theorem not_cacheable_counterparty :
    ¬Cacheable counterpartyEnvironment pastEvents (partner true) (partner false) := by
  intro h
  obtain ⟨r', hr', hdata⟩ := h (envelope counterpartyEnvironment 0 (.list [eventItem (partner true)
    [("payload", .json (.obj [("counterparty_name", .str "A")]))]])) rfl rfl
  obtain rfl : envelope counterpartyEnvironment 0 (.list [eventItem (partner false)
    [("payload", .json (.obj [("counterparty_name", .str "A")]))]]) = r' := Except.ok.inj hr'
  have hitem := (List.cons.inj (Data.list.inj hdata)).1
  have hpayload := (eventItem_eq_iff _).1 hitem
  have hname : (Json.str "A") = .str "<REDACTED:counterparty>" := by
    injection hpayload with hjson
    injection hjson with hfields
    exact (Prod.mk.inj (List.cons.inj hfields).1).2.symm
  exact absurd (Json.str.inj hname) (by decide)

end AslanCore.Research
