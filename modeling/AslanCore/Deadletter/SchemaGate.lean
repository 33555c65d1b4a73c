import AslanCore.Deadletter.Consuming
import AslanCore.Deadletter.Frame

/-!
# The schema gate

Is every event that a consumer yields in the range of versions that it supports? The event that is
parsed from an entry is; one that comes from the registry of redactions, or from its cache, is not
checked.

* `Passes`: some entry passes the gates with an identifier;
* `RegistryFits` and `CacheFits`: what the registry and the cache offer for such an identifier is
  in range;
* `gateOutline`: then all that is yielded is, as a candidate from the cache is only yielded if there
  is no row in the registry yet;
* `yieldsInRange_iff`: and only then: a consumer that runs alone yields what is offered.
-/

set_option linter.unusedSectionVars false

namespace AslanCore

namespace Deadletter

open AslanCore.System Outline Prog World
open Streams (Uuid KnownStreamEvent ParseEnv)

/-- The schema version of the event is in the supported range. -/
def InRange (min max : ℤ) (e : KnownStreamEvent) : Prop :=
  min ≤ e.toStreamEvent.schemaVersion ∧ e.toStreamEvent.schemaVersion ≤ max

instance (min max : ℤ) : DecidablePred (InRange min max) :=
  fun _ => inferInstanceAs (Decidable (_ ∧ _))

/-- Some entry passes the gates with the identifier. -/
def Passes (env : ParseEnv) (min max : ℤ) (u : Uuid) : Prop :=
  ∃ stream messageId fields event, Streams.parseOrRaise env stream messageId fields = .ok event ∧
    InRange min max event ∧ event.toStreamEvent.eventId = u

/-- The row, of the registry or of the cache, has another event instead of an event: its payload is
    valid, and has its hash and its identifier. -/
def Offers (env : Env) (u : Uuid) (row : RegistryRow) (e : KnownStreamEvent) : Prop :=
  canonicalPayloadHash env row.redactedPayload = some row.redactedPayloadHash ∧
    Streams.validatePython env.parse.codec (.obj row.redactedPayload) = some e ∧
    e.toStreamEvent.eventId = u

/-- What the row offers for an identifier that passes the gates is in range. -/
def RowFits (env : Env) (min max : ℤ) (u : Uuid) (row : RegistryRow) : Prop :=
  Passes env.parse min max u → ∀ e, Offers env u row e → InRange min max e

/-- What the registry offers is in range. -/
def RegistryFits (env : Env) (min max : ℤ) (registry : Uuid → Option RegistryRow) : Prop :=
  ∀ u row, registry u = some row → RowFits env min max u row

/-- What the cache offers is in range, where there is no row in the registry. -/
def CacheFits (env : Env) (min max : ℤ) (registry : Uuid → Option RegistryRow)
    (values : String → Option ByteArray) : Prop :=
  ∀ u raw entry, registry u = none → values (redactionCacheKey env u) = some raw →
    cachedEntry env raw = .ok entry → RowFits env min max u entry.toRegistryRow

/-- The consumers support the versions from `min` to `max`, and the rows that are added to the
    registry offer no others. -/
def supports {P : Type} (env : Env) (min max : ℤ) : Guard Cmd P Job Choice (World P) where
  start _ j _ := match j with
    | .consume c _ _ => c.cfg.minSupported = min ∧ c.cfg.maxSupported = max
    | .redact u row => RowFits env min max u row
    | _ => True

variable {P : Type} [DecidableEq P] {env : Env} {min max : ℤ} {p : P} {c : Consumer}
  {s s' : World P}

/-- An event comes from a row if the row offers it. -/
theorem eventFromRegistry_eq_ok_iff {stream : String} {u : Uuid} {row : RegistryRow}
    {e : KnownStreamEvent} :
    eventFromRegistry env stream u row.redactedPayload row.redactedPayloadHash = .ok e ↔
      Offers env u row e := by
  rw [eventFromRegistry, Offers]
  cases canonicalPayloadHash env row.redactedPayload with
  | none => exact ⟨nofun, nofun⟩
  | some hash =>
    by_cases hhash : hash = row.redactedPayloadHash
    · cases Streams.validatePython env.parse.codec (.obj row.redactedPayload) with
      | none => simp [hhash]
      | some parsed =>
        by_cases hu : parsed.toStreamEvent.eventId = u
        · simp only [hhash, hu, ne_eq, not_true_eq_false, if_false, Except.ok.injEq, true_and,
            Option.some.injEq]
          exact ⟨fun h => ⟨h, h ▸ hu⟩, And.left⟩
        · simp only [hhash, hu, ne_eq, not_true_eq_false, not_false_eq_true, if_false, if_true,
            true_and, Option.some.injEq, reduceCtorEq, false_iff]
          rintro ⟨rfl, h⟩
          exact hu h
    · simp [hhash]

/-! ### The outline -/

/-- What is yielded is in range, and so is what the registry and its cache offer. -/
structure GateInv (env : Env) (min max : ℤ) (s : World P) : Prop where
  yielded : ∀ y ∈ s.yielded, InRange min max y.2
  registry : RegistryFits env min max s.registry
  cache : CacheFits env min max s.registry s.values

/-- Rows are only added to the registry. -/
def Extends (s s' : World P) : Prop := ∀ u row, s.registry u = some row → s'.registry u = some row

/-- What is known of the commands that matter: what is yielded, or registered, is in range, and a
    value is cached for a row of the registry only. -/
def gateOutline (P : Type) [DecidableEq P] (env : Env) (min max : ℤ) :
    Outline Cmd Exn Unit P Job (World P) where
  inv := GateInv env min max
  know _ c s := match c with
    | .yield e => InRange min max e
    | .set key _ => ∃ u, key = redactionCacheKey env u ∧ (s.registry u).isSome
    | .setNx key _ => ∀ u, key ≠ redactionCacheKey env u
    | .redact u row => RowFits env min max u row
    | _ => True
  rely _ := Extends
  idle _ _ := True
  post _ _ _ _ := True

theorem know_of_isPlain {c : Cmd} (hc : c.IsPlain) (p : P) (s : World P) :
    (gateOutline P env min max).know p c s := by
  cases c <;> trivial

/-- Nothing is yielded, and nothing is added to the registry nor to the cache. -/
structure AddsNothing (s s' : World P) : Prop where
  yielded : s'.yielded = s.yielded
  registry : s'.registry = s.registry
  values : ∀ key raw, s'.values key = some raw → s.values key = some raw

theorem AddsNothing.refl (s : World P) : AddsNothing s s := ⟨rfl, rfl, fun _ _ h => h⟩

theorem AddsNothing.of_sameConsumers (h : SameConsumers s s') : AddsNothing s s' :=
  ⟨h.yielded, h.registry, fun key raw hv => by rwa [h.values] at hv⟩

theorem AddsNothing.of_redis {α : Type} {f : Fault} {a x : Except Exn α} {s₁ : World P}
    (h : s.redis f a s₁ = some (x, s')) (hs : AddsNothing s s₁) : AddsNothing s s' := by
  rcases eq_or_eq_of_redis h with rfl | rfl
  · exact .refl _
  · exact hs

/-- A key is deleted. -/
theorem eq_some_of_update_none {values : String → Option ByteArray} {key key' : String}
    {raw : ByteArray} (h : Function.update values key none key' = some raw) :
    values key' = some raw := by
  by_cases hk : key' = key
  · subst hk
    simp at h
  · rwa [Function.update_of_ne hk] at h

/-- A plain command adds nothing. -/
theorem addsNothing_exec {c : Cmd} {o : Choice} {x : Except Exn (Reply c)} (hc : c.IsPlain)
    (h : World.exec env p c o s = some (x, s')) : AddsNothing s s' := by
  by_cases hd : c.OfDeadletters
  · exact .of_sameConsumers (sameConsumers_exec hd h)
  rw [Cmd.OfDeadletters, Bool.not_eq_false] at hd
  cases c <;> simp only [Cmd.ofConsumers, Bool.false_eq_true] at hd
  case xack n g i => exact .of_redis h ⟨rfl, rfl, fun _ _ h => h⟩
  case xautoclaim n g count =>
    simp only [World.exec] at h
    split at h <;> exact .of_redis h (.refl s)
  case xreadgroup n g count =>
    simp only [World.exec] at h
    split at h
    · exact .of_redis h (.refl s)
    · exact .of_redis h ⟨rfl, rfl, fun _ _ h => h⟩
  case sismember key member => exact .of_redis h (.refl s)
  case get key =>
    simp only [World.exec] at h
    split_ifs at h <;> exact .of_redis h (.refl s)
  case time =>
    cases h
    exact .refl _
  case del key => exact .of_redis h ⟨rfl, rfl, fun _ _ h => eq_some_of_update_none h⟩
  case expire key =>
    cases h
    exact ⟨rfl, rfl, fun _ _ h => eq_some_of_update_none h⟩
  case hincrby key field => exact .of_redis h ⟨rfl, rfl, fun _ _ h => h⟩
  case ackScript pk ck n u g i => exact .of_redis h ⟨rfl, rfl, fun _ _ h => eq_some_of_update_none h⟩
  case acquireEventLock r u => exact .of_sameConsumers (sameConsumers_sql h)
  case selectRegistry r u => exact .of_sameConsumers (sameConsumers_sql h)
  all_goals exact absurd hc id

theorem GateInv.of_addsNothing (hs : GateInv env min max s) (h : AddsNothing s s') :
    GateInv env min max s' where
  yielded := h.yielded ▸ hs.yielded
  registry := h.registry ▸ hs.registry
  cache := fun u raw entry hu hv => hs.cache u raw entry (h.registry ▸ hu) (h.values _ _ hv)

/-- A row is registered if there is none yet. -/
theorem registry_redact {u : Uuid} {row : RegistryRow} {o : Choice} {x : Except Exn Unit}
    (h : World.exec env p (.redact u row) o s = some (x, s')) : s' = s ∨ s.registry u = none ∧
      s' = { s with registry := Function.update s.registry u (some row) } := by
  simp only [World.exec] at h
  split at h
  · cases h
  · split at h
    · cases h
      exact .inl rfl
    · rename_i hrow
      cases h
      exact .inr ⟨Option.not_isSome_iff_eq_none.1 fun hs => hrow (.inl hs), rfl⟩

/-- Rows are only added to the registry. -/
theorem extends_exec {c : Cmd} {o : Choice} {x : Except Exn (Reply c)}
    (h : World.exec env p c o s = some (x, s')) : Extends s s' := by
  by_cases hc : c.IsPlain
  · intro u row hu
    rwa [(addsNothing_exec hc h).registry]
  · cases c <;> try exact absurd trivial hc
    case setNx key value =>
      simp only [World.exec] at h
      split_ifs at h <;> rcases eq_or_eq_of_redis h with rfl | rfl <;> exact fun _ _ hu => hu
    case set key value =>
      rcases eq_or_eq_of_redis h with rfl | rfl <;> exact fun _ _ hu => hu
    case redact u row =>
      rcases registry_redact h with rfl | ⟨hrow, rfl⟩
      · exact fun _ _ hu => hu
      · intro v row' hv
        have hne : v ≠ u := by
          rintro rfl
          cases hrow.symm.trans hv
        exact (Function.update_of_ne hne _ _).trans hv
    case yield e =>
      cases h
      exact fun _ _ hu => hu

/-- Two events have different keys in the cache. -/
theorem redactionCacheKey_injective (hinj : Function.Injective env.parse.codec.uuidStr) :
    Function.Injective (redactionCacheKey env) := fun _ _ h =>
  hinj (String.append_right_inj _ |>.1 h)

/-- A command keeps the invariant, given what is known when it is issued. -/
theorem gateInv_exec (hinj : Function.Injective env.parse.codec.uuidStr) {c : Cmd} {o : Choice}
    {x : Except Exn (Reply c)} (hs : GateInv env min max s)
    (hk : (gateOutline P env min max).know p c s)
    (h : World.exec env p c o s = some (x, s')) : GateInv env min max s' := by
  by_cases hc : c.IsPlain
  · exact hs.of_addsNothing (addsNothing_exec hc h)
  · cases c <;> try exact absurd trivial hc
    case setNx key value =>
      simp only [World.exec] at h
      split_ifs at h <;> rcases eq_or_eq_of_redis h with rfl | rfl <;> try exact hs
      exact ⟨hs.yielded, hs.registry, fun u raw entry hu hv =>
        hs.cache u raw entry hu ((Function.update_of_ne (hk u).symm _ _).symm.trans hv)⟩
    case set key value =>
      rcases eq_or_eq_of_redis h with rfl | rfl
      · exact hs
      · -- The value is not looked at without a row, which is there already.
        obtain ⟨v, rfl, hrow⟩ := hk
        refine ⟨hs.yielded, hs.registry, fun u raw entry hu hv => hs.cache u raw entry hu ?_⟩
        have hne : u ≠ v := by
          rintro rfl
          rw [show s.registry u = none from hu] at hrow
          cases hrow
        exact (Function.update_of_ne ((redactionCacheKey_injective hinj).ne hne) _ _).symm.trans hv
    case redact u row =>
      rcases registry_redact h with rfl | ⟨-, rfl⟩
      · exact hs
      · refine ⟨hs.yielded, fun v row' hv => ?_, fun v raw entry hv => ?_⟩
        · by_cases hvu : v = u
          · subst hvu
            cases (Function.update_self _ _ _).symm.trans hv
            exact hk
          · exact hs.registry v row' ((Function.update_of_ne hvu _ _).symm.trans hv)
        · have hvu : v ≠ u := by
            rintro rfl
            cases (Function.update_self _ _ _).symm.trans hv
          exact hs.cache v raw entry ((Function.update_of_ne hvu _ _).symm.trans hv)
    case yield e =>
      cases h
      refine ⟨fun y hy => ?_, hs.registry, hs.cache⟩
      rcases List.mem_append.1 hy with hy | hy
      · exact hs.yielded y hy
      · cases List.mem_singleton.1 hy
        exact hk

/-! ### The programs keep to the outline -/

section

variable {g : Guard Cmd P Job Choice (World P)} {α : Type} {a : World P → Prop}
  (ha : ∀ s s', Extends s s' → a s → a s')
include ha

/-- A program of plain commands is safe, and keeps what does not depend on further rows. -/
theorem safe_plain {m : Program α} (hm : m.Issues Cmd.IsPlain) (h : a s) :
    (gateOutline P env min max).Safe (system env P) g p m (fun _ => a) s := by
  induction m generalizing s with
  | ret x => exact h
  | raise e => exact h
  | call c k ih =>
    exact fun s₁ hr _ => ⟨know_of_isPlain hm.1 p s₁, fun o x s₂ _ hex _ =>
      ih x (hm.2 x) (ha _ _ (extends_exec hex) (ha _ _ hr h))⟩

/-- So is a single command that may be issued at any time. -/
theorem safe_request {c : Cmd} (hc : ∀ s, (gateOutline P env min max).know p c s) (h : a s) :
    (gateOutline P env min max).Safe (system env P) g p (request c) (fun _ => a) s :=
  safe_perform a (fun _ _ hr hs => ha _ _ hr hs) h fun s₁ _ h₁ =>
    ⟨hc s₁, fun _ _ _ _ hex _ => ha _ _ (extends_exec hex) h₁⟩

end

/-- A candidate is in range, unless there is a row for its event. -/
def Candidate (min max : ℤ) (u : Uuid) (candidate : Option KnownStreamEvent) (s : World P) : Prop :=
  ∀ e ∈ candidate, InRange min max e ∨ (s.registry u).isSome

theorem isSome_of_extends {u : Uuid} (h : Extends s s') (hs : (s.registry u).isSome) :
    (s'.registry u).isSome := by
  obtain ⟨row, hrow⟩ := Option.isSome_iff_exists.1 hs
  rw [h u row hrow]
  rfl

theorem candidate_none {u : Uuid} : Candidate min max u none s := by
  rintro e ⟨⟩

theorem Candidate.mono {u : Uuid} {candidate : Option KnownStreamEvent} (s s' : World P)
    (h : Extends s s') (hs : Candidate min max u candidate s) :
    Candidate min max u candidate s' :=
  fun e he => (hs e he).imp id (isSome_of_extends h)

theorem ofExcept_issues {α : Type} {ok : Cmd → Prop} (x : Except Exn α) :
    (ofExcept x).Issues ok := by
  cases x <;> trivial

theorem issues_releaseLock : releaseLock.Issues Cmd.IsPlain :=
  .bind (issues_perform trivial) fun _ => issues_perform trivial

/-- What follows a yield is plain. -/
theorem issues_resume {mid : StreamId} {u : Uuid} {fields : Fields} {released : Bool}
    (r : Resume) : (resume env c mid u fields released r).Issues Cmd.IsPlain := by
  have hrelease : (ensureReleased released).Issues Cmd.IsPlain := by
    rw [ensureReleased]
    split_ifs
    · trivial
    · exact issues_releaseLock
  cases r with
  | next => exact hrelease
  | close => exact .bind hrelease fun _ => trivial
  | throw traceback =>
    refine .bind (.tryCatch (.bind (.bind ?_ fun _ => .bind (issues_perform trivial) fun n => ?_)
      fun _ => issues_releaseLock) fun e => .bind hrelease fun _ => trivial) fun _ => trivial
    · exact issues_ignoringRedisError (fun _ h => h.isPlain) (issues_perform trivial)
    · split_ifs
      · exact issues_route (fun _ h => h.isPlain) trivial
      · trivial

theorem issues_acknowledge {mid : StreamId} {u : Uuid} {isRedacted : Bool} :
    (acknowledge env c mid u isRedacted).Issues Cmd.IsPlain := by
  refine .bind (.tryCatch ?_ fun _ => ?_) fun released => ?_
  · exact .bind (issues_auditRecord fun _ h => h.isPlain) fun _ =>
      .bind (issues_perform trivial) fun _ => .bind (issues_perform trivial) fun _ => trivial
  · trivial
  · split_ifs
    · refine .bind (.tryCatch (issues_perform trivial) fun _ => ?_) fun _ => ?_ <;> trivial
    · trivial

section

variable {g : Guard Cmd P Job Choice (World P)} {u : Uuid} {mid : StreamId} {fields : Fields}
  {event : KnownStreamEvent} {candidate : Option KnownStreamEvent}

/-- What is found before the event is claimed fits, unless there is a row for it. -/
def Found (env : Env) (min max : ℤ) (u : Uuid) (entry : Option RegistryEntry) (s : World P) : Prop :=
  ∀ en ∈ entry, RowFits env min max u en.toRegistryRow ∨ (s.registry u).isSome

theorem Found.mono {entry : Option RegistryEntry} (s s' : World P) (h : Extends s s')
    (hs : Found env min max u entry s) : Found env min max u entry s' :=
  fun en hen => (hs en hen).imp id (isSome_of_extends h)

/-- A session is closed. -/
theorem safe_withSession {α : Type} {r : Role} {body : Program α} {Q : α → World P → Prop}
    (hQ : ∀ x s s', Extends s s' → Q x s → Q x s')
    (h : (gateOutline P env min max).Safe (system env P) g p body
      (outcome Q fun _ _ => True) s) :
    (gateOutline P env min max).Safe (system env P) g p (withSession r body)
      (outcome Q fun _ _ => True) s := by
  refine safe_ensuring.2 (h.mono fun x s₁ hx => ?_)
  have hmono : ∀ s s', Extends s s' → outcome Q (fun (_ : Exn) _ => True) x s →
      outcome Q (fun (_ : Exn) _ => True) x s' := by
    rcases x with e | x
    · exact fun _ _ _ _ => trivial
    · exact hQ x
  have hclose : ∀ s, (gateOutline P env min max).know p (.close r) s := fun _ => trivial
  refine (safe_request hmono hclose hx).mono fun y s₂ hx => ?_
  rcases y with e | _
  · trivial
  · exact hx

/-- What the registry has fits, and it is not in the registry otherwise. -/
theorem safe_fetchRegistryEntry {r : Role} {a : World P → Prop}
    (ha : ∀ s s', Extends s s' → a s → a s') (h : a s) :
    (gateOutline P env min max).Safe (system env P) g p (fetchRegistryEntry r u)
      (outcome (fun entry s₁ => a s₁ ∧ (entry = none → s₁.registry u = none) ∧
        ∀ en ∈ entry, en.eventId = u ∧ RowFits env min max u en.toRegistryRow ∧
          (s₁.registry u).isSome) fun _ _ => True) s := by
  refine safe_bind.2 (safe_perform a (fun _ _ hr hs => ha _ _ hr hs) h
    fun s₁ hinv h₁ => ⟨trivial, fun o x s₂ _ hex hinv₂ => ?_⟩)
  have hex' : World.exec env p (.selectRegistry r u) o s₁ = some (x, s₂) := hex
  have h₂ := ha _ _ (extends_exec hex') h₁
  obtain ⟨⟨x', db⟩, hstmt, hs⟩ := Option.map_eq_some_iff.1 hex'
  cases hs
  rcases x with e | row
  · trivial
  have hrow : row = s₁.registry u := by
    simp only [Database.statement] at hstmt
    split_ifs at hstmt
    · split at hstmt <;> cases hstmt
      rfl
    · cases hstmt
  refine ⟨h₂, ?_, ?_⟩
  · rintro hnone
    rw [← Option.map_eq_none_iff.1 hnone]
    exact hrow.symm
  · rintro en hen
    obtain ⟨row', hrow', rfl⟩ := Option.map_eq_some_iff.1 hen
    exact ⟨rfl, hinv.registry u row' (hrow.symm.trans hrow'), Option.isSome_iff_exists.2
      ⟨row', hrow.symm.trans hrow'⟩⟩

theorem safe_fetchCached (s : World P) : (gateOutline P env min max).Safe (system env P) g p
    (withSession .early (fetchCachedRegistryEntry env .early u))
    (outcome (Found env min max u) fun _ _ => True) s := by
  refine safe_withSession (fun _ => Found.mono) (safe_bind.2 (safe_perform (fun _ => True)
    (fun _ _ _ _ => trivial) trivial fun s₁ hinv _ => ⟨trivial, fun o x s₂ _ hex hinv₂ => ?_⟩))
  -- What is read is in the cache.
  have hget : s₂ = s₁ ∧ ∀ raw, x = .ok raw → raw = s₁.values (redactionCacheKey env u) := by
    simp only [system, World.exec] at hex
    split_ifs at hex <;> unfold World.redis at hex <;> split at hex <;> cases hex <;>
      exact ⟨rfl, fun raw hraw => by first | cases hraw; rfl | cases hraw⟩
  obtain ⟨rfl, hget⟩ := hget
  rcases x with e | _ | text
  · trivial
  · refine safe_bind.2 ((safe_fetchRegistryEntry (fun _ _ _ _ => trivial) trivial).mono ?_)
    rintro (e | _ | entry) s₃ h
    · trivial
    · rintro en ⟨⟩
    · obtain ⟨-, -, hentry⟩ := h
      obtain ⟨rfl, hfits, hsome⟩ := hentry entry rfl
      show (gateOutline P env min max).Safe (system env P) g p (do
        cacheRegistryEntry env entry
        pure (some entry)) _ s₃
      refine safe_bind.2 ?_
      rw [cacheRegistryEntry]
      cases cacheText env entry with
      | none => trivial
      | some text =>
        refine safe_perform (fun s => (s.registry entry.eventId).isSome)
          (fun _ _ hr => isSome_of_extends hr) hsome fun s₄ _ h₄ =>
            ⟨⟨_, rfl, h₄⟩, fun o x s₅ _ hex _ => ?_⟩
        rcases x with e | _
        · trivial
        · rintro en ⟨⟩
          exact .inl hfits
  · have hvalue := (hget _ rfl).symm
    simp only [outcome]
    cases hentry : cachedEntry env text with
    | error e => trivial
    | ok entry =>
      rintro en ⟨⟩
      cases hrow : s₂.registry u with
      | none => exact .inl (hinv.cache u text entry hrow hvalue hentry)
      | some row => exact .inr rfl

/-- What is found of an event under its lock is in range: a candidate is only kept if there is no
    row. -/
theorem safe_lockEvent (hpass : Passes env.parse min max event.toStreamEvent.eventId)
    (hevent : InRange min max event)
    (h : Candidate min max event.toStreamEvent.eventId candidate s) :
    (gateOutline P env min max).Safe (system env P) g p (lockEvent env c event candidate)
      (outcome (fun found _ => InRange min max found.1) fun _ _ => True) s := by
  have hlock : ∀ s, (gateOutline P env min max).know p
      (.acquireEventLock .lock event.toStreamEvent.eventId) s := fun _ => trivial
  refine safe_bind.2 ((safe_request Candidate.mono hlock h).mono ?_)
  rintro (e | _) s₁ h
  · trivial
  refine safe_bind.2 ((safe_fetchRegistryEntry Candidate.mono h).mono ?_)
  rintro (e | _ | entry) s₂ h
  · trivial
  · obtain ⟨hcandidate, hnone, -⟩ := h
    show InRange min max (candidate.getD event)
    cases candidate with
    | none => exact hevent
    | some e =>
      refine (hcandidate e rfl).resolve_right ?_
      rw [hnone rfl]
      exact Bool.false_ne_true
  · obtain ⟨-, -, hentry⟩ := h
    obtain ⟨-, hfits, -⟩ := hentry entry rfl
    show (gateOutline P env min max).Safe (system env P) g p (do
      let event ← ofExcept (eventFromRegistry env c.stream event.toStreamEvent.eventId
        entry.redactedPayload entry.redactedPayloadHash)
      pure (event, true)) _ s₂
    cases he : eventFromRegistry env c.stream event.toStreamEvent.eventId entry.redactedPayload
      entry.redactedPayloadHash with
    | error e => trivial
    | ok e => exact hfits hpass e (eventFromRegistry_eq_ok_iff.1 he)

/-- What is yielded is in range. -/
theorem safe_yieldEvent (hpass : Passes env.parse min max event.toStreamEvent.eventId)
    (hevent : InRange min max event)
    (h : Candidate min max event.toStreamEvent.eventId candidate s) :
    (gateOutline P env min max).Safe (system env P) g p
      (yieldEvent env c mid fields event candidate) (fun _ _ => True) s := by
  have hplain : ∀ {α : Type} {m : Program α} (s : World P), m.Issues Cmd.IsPlain →
      (gateOutline P env min max).Safe (system env P) g p m (fun _ _ => True) s :=
    fun s hm => safe_plain (a := fun _ => True) (fun _ _ _ _ => trivial) hm trivial
  refine safe_bind.2 (safe_tryCatch.2 ((safe_lockEvent hpass hevent h).mono ?_))
  rintro (e | ⟨found, isRedacted⟩) s₁ hfound
  · -- An exception is raised again, after plain commands.
    show (gateOutline P env min max).Safe (system env P) g p (do
      if e.releasesClaim then do
        request (.del (claimKey env c event.toStreamEvent.eventId))
        releaseLock
      throw e) _ s₁
    have hdel : (request (.del (claimKey env c event.toStreamEvent.eventId))).Issues Cmd.IsPlain :=
      issues_perform trivial
    split_ifs
    · refine safe_bind.2 ((hplain s₁ hdel).mono ?_)
      rintro (e' | _) s₂ -
      · trivial
      refine safe_bind.2 ((hplain s₂ issues_releaseLock).mono ?_)
      rintro (e' | _) s₃ - <;> trivial
    · trivial
  · refine safe_bind.2 (safe_perform (fun _ => True) (fun _ _ _ _ => trivial) trivial
      fun s₂ _ _ => ⟨hfound, fun o x s₃ _ _ _ => ?_⟩)
    rcases x with e | r | r
    · trivial
    · exact hplain s₃ (.bind issues_acknowledge fun _ => issues_resume r)
    · exact hplain s₃ (issues_resume r)

/-- An event that passes the gates is yielded in range. -/
theorem safe_claimEvent (hpass : Passes env.parse min max event.toStreamEvent.eventId)
    (hevent : InRange min max event)
    (h : Candidate min max event.toStreamEvent.eventId candidate s) :
    (gateOutline P env min max).Safe (system env P) g p
      (claimEvent env c mid fields event candidate) (fun _ _ => True) s := by
  have htime : ∀ s, (gateOutline P env min max).know p .time s := fun _ => trivial
  have hset : ∀ now s, (gateOutline P env min max).know p
      (.setNx (claimKey env c event.toStreamEvent.eventId) (claimPayload env c mid now)) s :=
    fun _ _ _ => claimKey_ne
  have hget : ∀ s, (gateOutline P env min max).know p
      (.get (claimKey env c event.toStreamEvent.eventId)) s := fun _ => trivial
  refine safe_bind.2 ((safe_request Candidate.mono htime h).mono ?_)
  rintro (e | now) s₁ h
  · trivial
  refine safe_bind.2 ((safe_request Candidate.mono (hset now) h).mono ?_)
  rintro (e | _ | _) s₂ h
  · trivial
  · refine safe_bind.2 ((safe_request Candidate.mono hget h).mono ?_)
    rintro (e | _ | raw) s₃ h
    · trivial
    · trivial
    simp only [outcome]
    split
    · trivial
    · trivial
    · rename_i existing _ _
      rcases ownsClaim env c existing with e | _ | _
      · trivial
      · show (gateOutline P env min max).Safe (system env P) g p (do
          let processed ← request (.sismember (processedKey c)
            (env.parse.codec.uuidStr event.toStreamEvent.eventId))
          if processed then request (.xack c.stream c.group mid) else pure ()) _ s₃
        refine safe_plain (a := fun _ => True) (fun _ _ _ _ => trivial) (.bind
          (issues_perform trivial) fun processed => ?_) trivial
        cases processed
        · trivial
        · exact issues_perform trivial
      · exact safe_yieldEvent hpass hevent h
  · exact safe_yieldEvent hpass hevent h

theorem safe_processEvent (hpass : Passes env.parse min max event.toStreamEvent.eventId)
    (hevent : InRange min max event) (s : World P) :
    (gateOutline P env min max).Safe (system env P) g p (processEvent env c mid fields event)
      (fun _ _ => True) s := by
  -- The steps after the candidate is known.
  have hrest : ∀ candidate s₁, Candidate min max event.toStreamEvent.eventId candidate s₁ →
      (gateOutline P env min max).Safe (system env P) g p (do
        let processed ← request (.sismember (processedKey c)
          (env.parse.codec.uuidStr event.toStreamEvent.eventId))
        if processed then request (.xack c.stream c.group mid)
        else claimEvent env c mid fields event candidate) (fun _ _ => True) s₁ := by
    intro candidate s₁ h
    have hmember : ∀ s, (gateOutline P env min max).know p
        (.sismember (processedKey c) (env.parse.codec.uuidStr event.toStreamEvent.eventId)) s :=
      fun _ => trivial
    refine safe_bind.2 ((safe_request Candidate.mono hmember h).mono ?_)
    rintro (e | _ | _) s₂ h
    · trivial
    · exact safe_claimEvent hpass hevent h
    · exact safe_plain (a := fun _ => True) (fun _ _ _ _ => trivial) (issues_perform trivial)
        trivial
  refine safe_bind.2 ((safe_fetchCached s).mono ?_)
  rintro (e | _ | entry) s₁ h
  · trivial
  · exact hrest none s₁ candidate_none
  · show (gateOutline P env min max).Safe (system env P) g p ((ofExcept (eventFromRegistry env
      c.stream event.toStreamEvent.eventId entry.redactedPayload entry.redactedPayloadHash)).bind
        fun e => do
          let processed ← request (.sismember (processedKey c)
            (env.parse.codec.uuidStr event.toStreamEvent.eventId))
          if processed then request (.xack c.stream c.group mid)
          else claimEvent env c mid fields event (some e)) _ s₁
    cases he : eventFromRegistry env c.stream event.toStreamEvent.eventId entry.redactedPayload
      entry.redactedPayloadHash with
    | error e => trivial
    | ok e =>
      refine hrest (some e) s₁ ?_
      rintro e' ⟨⟩
      exact (h entry rfl).imp (fun hfits => hfits hpass e
        (eventFromRegistry_eq_ok_iff.1 he)) id

/-- An entry is processed: what is yielded of it is in range. -/
theorem safe_processEntry (hmin : c.cfg.minSupported = min) (hmax : c.cfg.maxSupported = max)
    (entry : StreamId × RawFields) (s : World P) :
    (gateOutline P env min max).Safe (system env P) g p (processEntry env c entry)
      (fun _ _ => True) s := by
  rw [processEntry]
  cases decodeFields entry.2 with
  | none => trivial
  | some fields =>
    dsimp only [processMessage]
    cases hgate : Streams.gate env.parse c.cfg c.stream (ridStr entry.1) fields with
    | error e => trivial
    | ok gated =>
      cases gated with
      | deadletter eventId error =>
        exact safe_plain (a := fun _ => True) (fun _ _ _ _ => trivial)
          (issues_route (fun _ h => h.isPlain) trivial) trivial
      | event event =>
        obtain ⟨hparse, hlo, hhi⟩ := Streams.gate_event hgate
        have hevent : InRange min max event := ⟨hmin ▸ hlo, hmax ▸ hhi⟩
        exact safe_processEvent ⟨_, _, _, event, hparse, hevent, rfl⟩ hevent s

theorem safe_consume (hmin : c.cfg.minSupported = min) (hmax : c.cfg.maxSupported = max)
    (count n : ℕ) (s : World P) : (gateOutline P env min max).Safe (system env P) g p
      (consume env c count n) (fun _ _ => True) s := by
  have hloop : ∀ entries s, (gateOutline P env min max).Safe (system env P) g p
      (forEach (processEntry env c) entries) (fun _ _ => True) s := fun entries s =>
    safe_forEach (fun _ _ => True) (fun _ _ => trivial) (fun entry _ s₁ _ =>
      (safe_processEntry hmin hmax entry s₁).mono fun x _ _ => by cases x <;> trivial) trivial
  induction n generalizing s with
  | zero => trivial
  | succ n ih =>
    refine safe_bind.2 ((?_ : (gateOutline P env min max).Safe (system env P) g p
      (consumeOnce env c count) (fun _ _ => True) s).mono ?_)
    · refine safe_bind.2 (Safe.mono (safe_plain (a := fun _ => True) (fun _ _ _ _ => trivial)
        (.tryCatch (issues_perform trivial) fun e => ?_) trivial) ?_)
      · cases e <;> trivial
      rintro (e | claimed) s₁ -
      · trivial
      refine safe_bind.2 ((hloop claimed s₁).mono ?_)
      rintro (e | _) s₂ -
      · trivial
      refine safe_bind.2 (safe_perform (fun _ => True) (fun _ _ _ _ => trivial) trivial
        fun s₃ _ _ => ⟨trivial, fun o x s₄ _ _ _ => ?_⟩)
      rcases x with e | fresh
      · trivial
      · exact hloop fresh s₄
    · rintro (e | _) s₁ -
      · trivial
      · exact ih s₁

end

/-- In every run, what is yielded is in range, if all that is offered is. -/
theorem valid_gateOutline (hinj : Function.Injective env.parse.codec.uuidStr) :
    (gateOutline P env min max).Valid (system env P) (supports env min max) where
  rely_refl _ _ _ _ h := h
  rely_trans _ _ _ _ h h' u row hu := h' u row (h u row hu)
  inv_step _ _ _ _ _ _ hs hk _ hex := gateInv_exec hinj hs hk hex
  rely_step _ _ _ _ _ _ _ _ _ _ _ hex := extends_exec hex
  inv_kill _ _ hs _ := ⟨hs.yielded, hs.registry, hs.cache⟩
  rely_kill _ _ _ _ _ _ _ _ h := h
  idle_kill _ _ _ := trivial
  idle_stable _ _ _ _ _ := trivial
  post_stable _ _ _ _ _ _ _ := trivial
  post_idle _ _ _ _ _ := trivial
  body p j s _ _ hj := by
    have ha : ∀ s s' : World P, Extends s s' → True → True := fun _ _ _ _ => trivial
    cases j with
    | pass3 => exact safe_plain ha (issues_pass3 fun _ h => h.isPlain) trivial
    | pass4 window => exact safe_plain ha (issues_pass4 fun _ h => h.isPlain) trivial
    | consume c count iterations => exact safe_consume hj.1 hj.2 _ _ _
    | redact u row => exact safe_request (c := .redact u row) ha (fun _ => hj) trivial
    | expire key => exact safe_plain ha (issues_perform trivial) trivial

/-! ### Consumers that yield what is offered -/

/-- Some entry with a single field passes the gates, wherever it is. -/
theorem Passes.gate {u : Uuid} (h : Passes env.parse min max u) : ∃ payloadRaw event,
    InRange min max event ∧ event.toStreamEvent.eventId = u ∧
      ∀ (cfg : Streams.ConsumerConfig) (stream messageId : String), cfg.minSupported = min →
        cfg.maxSupported = max → Streams.gate env.parse cfg stream messageId
          [("payload", payloadRaw)] = .ok (.event event) := by
  obtain ⟨stream, messageId, fields, event, hparse, hrange, hu⟩ := h
  simp only [Streams.parseOrRaise] at hparse
  split at hparse
  · cases hparse
  rename_i payloadRaw hp
  split at hparse <;> try cases hparse
  rename_i payload hload
  split at hparse
  · rename_i event' hvalid
    cases hparse
    refine ⟨payloadRaw, event, hrange, hu, fun cfg stream messageId hmin hmax => ?_⟩
    have hparse : Streams.parseOrRaise env.parse stream messageId [("payload", payloadRaw)] =
        .ok event := Streams.parseOrRaise_of_loads rfl hload hvalid
    simp only [Streams.gate, hparse, Streams.checkSchemaVersion, hmin, hmax,
      if_neg (not_lt.2 hrange.1), if_neg (not_lt.2 hrange.2)]
  · cases hparse

/-- A row that offers an event can be cached. -/
theorem Offers.cacheText {u : Uuid} {row : RegistryRow} {e : KnownStreamEvent}
    (h : Offers env u row e) : ∃ text, cacheText env { row with eventId := u } = some text := by
  obtain ⟨hhash, -, -⟩ := h
  rw [canonicalPayloadHash, Json.dumps] at hhash
  split_ifs at hhash with hw
  swap
  · cases hhash
  rw [writable_sortKeys_obj] at hw
  refine ⟨_, if_pos (writable_sortKeys_obj.2 ?_)⟩
  simp only [List.forall_mem_cons, List.not_mem_nil, false_imp_iff, implies_true, and_true]
  exact ⟨rfl, rfl, rfl, writable_sortKeys_obj.2 hw, rfl, rfl⟩

/-- A consumer of a stream. -/
def gateConsumer (min max : ℤ) : Consumer where
  cfg := { maxSupported := max, minSupported := min, ownerId := "consumer:1" }
  ctx := ⟨false, none⟩
  stream := "aslan.kap.filings.new"
  group := "loader"
  consumerName := "consumer:1"

/-- Stores with an entry that is new to every group of consumers. -/
def entryWorld (P : Type) [DecidableEq P] (registry : Uuid → Option RegistryRow)
    (values : String → Option ByteArray) (payloadRaw : String) : World P where
  __ := World.ofRows 0 (fun _ => some (Stream.empty.append (.ofMs 1)
    (encodeFields [("payload", payloadRaw)]) lastId_empty_lt)) fun _ => none
  groups _ _ := some ⟨.zero, []⟩
  registry := registry
  values := values

namespace World

/-- The stores after some keys have expired. -/
def expire (key : String) (s : World P) : World P :=
  { s with
    values := Function.update s.values key none
    sets := Function.update s.sets key fun _ => false }

/-- An event that nobody has claimed is yielded, as it is found in the end. -/
theorem fate_eq_yields {event e : KnownStreamEvent} {candidate : Option KnownStreamEvent}
    (hearly : s.early env c event.toStreamEvent.eventId = .ok candidate)
    (hset : s.sets (processedKey c) (env.parse.codec.uuidStr event.toStreamEvent.eventId) = false)
    (hclaim : s.values (claimKey env c event.toStreamEvent.eventId) = none)
    (hlate : s.late env c event candidate = .ok e) : s.fate env c event = .yields e := by
  have hclaims : s.claims env c event.toStreamEvent.eventId = .ok true := by
    simp only [claims, hclaim]
  simp only [fate, hearly, hset, hclaims, hlate, Fate.ofEvent, Bool.false_eq_true, if_false]

theorem sets_expire {key key' member : String} (hs : s.sets key' member = false) :
    (s.expire key).sets key' member = false := by
  simp only [expire, Function.update_apply]
  split_ifs
  · rfl
  · exact hs

theorem values_expire_self (key : String) : (s.expire key).values key = none :=
  Function.update_self _ _ _

theorem values_expire_of_ne {key key' : String} (h : key' ≠ key) :
    (s.expire key).values key' = s.values key' :=
  Function.update_of_ne h _ _

theorem Quiet.expire (hs : s.Quiet) (key : String) : (s.expire key).Quiet :=
  hs.congr rfl rfl rfl

end World

/-- A key expires. -/
theorem reach_expire {proc : P → Option (Job × Program Unit)}
    (hp : (proc p).all (·.2.done) = true) (key : String) :
    (system env P).Reach (supports env min max).Holds ⟨s, proc⟩
      ⟨s.expire key, Function.update proc p (some (.expire key, .ret ()))⟩ :=
  Reach.of_job (r := .ok ()) hp trivial ⟨{}, .ok (), _, trivial, rfl, rfl, rfl⟩

/-- What a single consumer yields is reached. -/
theorem exists_reach_yields {proc : P → Option (Job × Program Unit)}
    (hp : (proc p).all (·.2.done) = true) (hs : s.Quiet) {payloadRaw : String}
    {event e : KnownStreamEvent}
    (hdel : s.Delivers (gateConsumer min max) ⟨.zero, []⟩
      (.ofMs 1, encodeFields [("payload", payloadRaw)]))
    (hgate : Streams.gate env.parse (gateConsumer min max).cfg (gateConsumer min max).stream
      (ridStr (.ofMs 1)) [("payload", payloadRaw)] = .ok (.event event))
    (hfate : (s.deliver (gateConsumer min max)
      (.ofMs 1, encodeFields [("payload", payloadRaw)])).fate env (gateConsumer min max) event =
        .yields e) :
    ∃ cfg, (system env P).Reach (supports env min max).Holds ⟨s, proc⟩ cfg ∧
      (p, e) ∈ cfg.shared.yielded := by
  have hends : (system env P).Ends (healthyAt none) p
      (Job.program env (.consume (gateConsumer min max) 1 1))
      (fun _ s' => (p, e) ∈ s'.yielded) s := by
    refine ends_bind.2 (ends_consumeOnce hdel Nat.one_pos ?_)
    rw [if_neg not_unreadable_payload, processEntry, decodeFields_payload]
    show (system env P).Ends (healthyAt none) p
      (processMessage env (gateConsumer min max) (.ofMs 1) [("payload", payloadRaw)]) _ _
    rw [processMessage, hgate]
    have hquiet : (s.deliver (gateConsumer min max)
        (.ofMs 1, encodeFields [("payload", payloadRaw)])).Quiet := hs.congr rfl rfl rfl
    refine (ends_processEvent hquiet event).mono fun r s' hr => ?_
    have hmem : (p, e) ∈ s'.yielded := by
      rw [hr.yielded, hfate]
      exact List.mem_append_right _ (List.mem_singleton_self _)
    cases r <;> exact hmem
  obtain ⟨r, s', hruns⟩ := hends.exists_runs
  have hstart : (supports env min max).start p (.consume (gateConsumer min max) 1 1) s := ⟨rfl, rfl⟩
  exact ⟨_, Reach.of_job hp hstart (hruns.mono fun _ _ _ _ => trivial), hends.of_runs hruns⟩

/-! ### The range of what is yielded -/

/-- Whatever consumers that support the versions from `min` to `max` yield is in range, with the
    given registry and cache. -/
def YieldsInRange (P : Type) [DecidableEq P] (env : Env) (min max : ℤ)
    (registry : Uuid → Option RegistryRow) (values : String → Option ByteArray) : Prop :=
  ∀ s₀ : World P, s₀.registry = registry → s₀.values = values → s₀.yielded = [] →
    ∀ cfg, (system env P).Reach (supports env min max).Holds ((system env P).initial s₀) cfg →
      ∀ y ∈ cfg.shared.yielded, InRange min max y.2

section

variable {registry : Uuid → Option RegistryRow} {values : String → Option ByteArray}

/-- What a single consumer would yield, once two keys have expired, is in range. -/
theorem YieldsInRange.of_fate (p : P) (h : YieldsInRange P env min max registry values)
    {payloadRaw : String} {event e : KnownStreamEvent}
    (hgate : Streams.gate env.parse (gateConsumer min max).cfg (gateConsumer min max).stream
      (ridStr (.ofMs 1)) [("payload", payloadRaw)] = .ok (.event event)) (key key' : String)
    (candidate : Option KnownStreamEvent)
    (hearly : (((entryWorld P registry values payloadRaw).expire key).expire key').early env
      (gateConsumer min max) event.toStreamEvent.eventId = .ok candidate)
    (hclaim : (((entryWorld P registry values payloadRaw).expire key).expire key').values
      (claimKey env (gateConsumer min max) event.toStreamEvent.eventId) = none)
    (hlate : (((entryWorld P registry values payloadRaw).expire key).expire key').late env
      (gateConsumer min max) event candidate = .ok e) : InRange min max e := by
  have hquiet : (entryWorld P registry values payloadRaw).Quiet :=
    ⟨Database.idle_ofRows _, Nat.zero_le _, nofun, nofun, nofun⟩
  have hfresh : [(StreamId.ofMs 1, encodeFields [("payload", payloadRaw)])].filter
      (StreamId.zero < ·.1) = [(.ofMs 1, encodeFields [("payload", payloadRaw)])] :=
    List.filter_eq_self.2 fun e he => by
      rw [List.mem_singleton.1 he]
      exact decide_eq_true (show StreamId.zero < StreamId.ofMs 1 by decide)
  have hdone : ∀ (proc : P → Option (Job × Program Unit)) j,
      (Function.update proc p (some (j, .ret ())) p).all (·.2.done) = true := by
    intro proc j
    rw [Function.update_self]
    rfl
  have hset : ∀ key' member, (entryWorld P registry values payloadRaw).sets key' member = false :=
    fun _ _ => rfl
  have hfate := fate_eq_yields hearly (sets_expire (sets_expire (hset _ _))) hclaim hlate
  have hexpire : (system env P).Reach (supports env min max).Holds
      ((system env P).initial (entryWorld P registry values payloadRaw)) _ :=
    (reach_expire (p := p) rfl key).trans (reach_expire (p := p) (hdone _ _) key')
  obtain ⟨cfg, hreach, hmem⟩ := exists_reach_yields (p := p) (hdone _ _)
    ((hquiet.expire key).expire key') ⟨rfl, rfl, hfresh⟩ hgate hfate
  exact h (entryWorld P registry values payloadRaw) rfl rfl rfl cfg (hexpire.trans hreach) _ hmem

/-- What the registry offers is yielded: the claim on the event and the cached row may expire. -/
theorem registryFits_of_yieldsInRange (p : P)
    (h : YieldsInRange P env min max registry values) : RegistryFits env min max registry := by
  intro u row hrow hpass e he
  obtain ⟨payloadRaw, event, -, rfl, hgate⟩ := hpass.gate
  obtain ⟨text, htext⟩ := he.cacheText
  have hfrom : eventFromRegistry env (gateConsumer min max).stream event.toStreamEvent.eventId
      row.redactedPayload row.redactedPayloadHash = .ok e := eventFromRegistry_eq_ok_iff.2 he
  refine h.of_fate p (hgate _ _ _ rfl rfl)
    (claimKey env (gateConsumer min max) event.toStreamEvent.eventId)
    (redactionCacheKey env event.toStreamEvent.eventId) (some e) ?_ ?_ ?_
  · rw [early, look, values_expire_self,
      show World.registry _ event.toStreamEvent.eventId = some row from hrow]
    simp only [htext, hfrom, Except.map]
  · rw [values_expire_of_ne claimKey_ne, values_expire_self]
  · rw [late, show World.registry _ event.toStreamEvent.eventId = some row from hrow]
    exact hfrom

/-- So is what the cache offers, where there is no row. -/
theorem cacheFits_of_yieldsInRange (p : P)
    (h : YieldsInRange P env min max registry values) : CacheFits env min max registry values := by
  intro u raw entry hrow hraw hentry hpass e he
  obtain ⟨payloadRaw, event, -, rfl, hgate⟩ := hpass.gate
  have hfrom : eventFromRegistry env (gateConsumer min max).stream event.toStreamEvent.eventId
      entry.redactedPayload entry.redactedPayloadHash = .ok e := eventFromRegistry_eq_ok_iff.2 he
  refine h.of_fate p (hgate _ _ _ rfl rfl)
    (claimKey env (gateConsumer min max) event.toStreamEvent.eventId)
    (claimKey env (gateConsumer min max) event.toStreamEvent.eventId) (some e) ?_ ?_ ?_
  · rw [early, look, values_expire_of_ne claimKey_ne.symm, values_expire_of_ne claimKey_ne.symm,
      show World.values _ (redactionCacheKey env event.toStreamEvent.eventId) = some raw from hraw]
    simp only [hentry, hfrom, Except.map]
  · exact values_expire_self _
  · rw [late, show World.registry _ event.toStreamEvent.eventId = none from hrow]
    rfl

/-- What consumers yield is in range exactly when what the registry offers is, and what the cache
    offers where there is no row. -/
theorem yieldsInRange_iff (p : P) (hinj : Function.Injective env.parse.codec.uuidStr) :
    YieldsInRange P env min max registry values ↔
      RegistryFits env min max registry ∧ CacheFits env min max registry values := by
  refine ⟨fun h => ⟨registryFits_of_yieldsInRange p h, cacheFits_of_yieldsInRange p h⟩, ?_⟩
  rintro ⟨hregistry, hcache⟩ s₀ rfl rfl hyielded cfg hreach
  have hinv : GateInv env min max s₀ := by
    refine ⟨fun y hy => ?_, hregistry, hcache⟩
    rw [hyielded] at hy
    cases hy
  obtain ⟨h, -⟩ := (valid_gateOutline hinj).safe hinv (fun _ => trivial) hreach
  exact h.yielded

end

theorem injective_uuidStr_plainEnv : Function.Injective plainEnv.parse.codec.uuidStr := by
  intro u v h
  have hu := Streams.Codec.lawful_lastDigit.uuid u
  rw [show Streams.Codec.lastDigit.uuidStr u = Streams.Codec.lastDigit.uuidStr v from h] at hu
  exact Option.some.inj (hu.symm.trans (Streams.Codec.lawful_lastDigit.uuid v))

/-- Without redactions, what is yielded is in range. -/
theorem yieldsInRange_empty : YieldsInRange Unit plainEnv 1 1 (fun _ => none) fun _ => none :=
  (yieldsInRange_iff () injective_uuidStr_plainEnv).2 ⟨nofun, nofun⟩

/-- A filing of the second version. -/
def newerFiling : KnownStreamEvent :=
  (Streams.newFiling 1).setStreamEvent { (Streams.newFiling 1).toStreamEvent with schemaVersion := 2 }

/-- The redaction of an event by another one. -/
def redactionBy (env : Env) (e : KnownStreamEvent) : RegistryRow where
  redactionReason := "privacy request"
  originalStream := "aslan.kap.filings.new"
  redactedPayload := e.modelDump env.parse.codec
  redactedPayloadHash := (canonicalPayloadHash env (e.modelDump env.parse.codec)).getD ""
  originalPayloadHash := ""

theorem passes_newFiling : Passes plainEnv.parse 1 1 1 := by
  refine ⟨"aslan.kap.filings.new", "1-0",
    Streams.entryOf ((Streams.newFiling 1).modelDump .lastDigit ++ []), Streams.newFiling 1, ?_,
    by decide, rfl⟩
  have hload := Streams.loads_newFiling [] (Streams.nodupKeys_modelDump _ _) nofun rfl
  exact Streams.parseOrRaise_of_loads rfl hload
    (Streams.validatePython_modelDump Streams.Codec.lawful_lastDigit (Streams.newFiling 1))

/-- A payload of scalars that can be written has a hash. -/
theorem canonicalPayloadHash_eq_getD {payload : JsonObject}
    (hflat : ∀ f ∈ payload, Streams.IsFlat f.2) (hw : fieldsWritable payload = true) :
    canonicalPayloadHash env payload = some ((canonicalPayloadHash env payload).getD "") := by
  have hsort : ∀ j : Json, Streams.IsFlat j → j.sortKeys = j := by
    rintro j (_ | _ | _ | _) <;> rfl
  have hwritable : (Json.obj payload).sortKeys.writable = true :=
    writable_sortKeys_obj.2 fun f hf => by
      rw [hsort _ (hflat f hf)]
      exact fieldsWritable_iff.1 hw f hf
  have hhash : (canonicalPayloadHash env payload).isSome := by
    rw [canonicalPayloadHash, Json.dumps, if_pos hwritable]
    rfl
  exact (Option.some_get hhash).symm.trans (congrArg some (Option.get_eq_getD _))

theorem offers_newerFiling : Offers plainEnv 1 (redactionBy plainEnv newerFiling) newerFiling :=
  ⟨canonicalPayloadHash_eq_getD (Streams.isFlat_modelDump _ _) rfl,
    Streams.validatePython_modelDump Streams.Codec.lawful_lastDigit newerFiling, rfl⟩

/-- A redaction by an event that is too new is yielded. -/
theorem not_yieldsInRange : ¬YieldsInRange Unit plainEnv 1 1
    (Function.update (fun _ => none) 1 (some (redactionBy plainEnv newerFiling)))
    fun _ => none := by
  intro h
  have hrange := registryFits_of_yieldsInRange () h 1 _ (Function.update_self _ _ _)
    passes_newFiling newerFiling offers_newerFiling
  exact absurd hrange (by decide)

end Deadletter

end AslanCore
