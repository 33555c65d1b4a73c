import Mathlib.Data.Finset.Card
import AslanCore.Research.RateLimit

/-!
# What rate limits let through

A request sees the counts that are committed, and its own (`SessionInv`): while it has a row locked,
no other request counts in it. So the count that it is told is one more than the number of the
requests before it (`Within`, `Over`), in every window it is counted in.

* `valid_rateOutline`: what holds of every request, whatever the others do;
* `throttling_of_reach`: no more requests are let through in a window than its cap, and a request is
  only rejected if at least as many have been counted before it.
-/

set_option linter.unusedSectionVars false

namespace AslanCore.Research

open Journal

variable {P : Type} [DecidableEq P] {p t : P} {keys : PgUuid → Option ApiKeyRow} {w : RateWindow}
  {s s' s'' : RateJournal P} {c : RateCmd P} {fault : Fault}

/-! ### Counts -/

/-- The requests counted in a window, as a session sees them. -/
def seenIn (s : RateJournal P) (t : P) (w : RateWindow) : List P :=
  countedIn (s.db.view t (.bucket w))

/-- What is committed: the keys, and every request is counted once in a window. -/
structure CommittedInv (keys : PgUuid → Option ApiKeyRow) (s : RateJournal P) : Prop where
  apiKey : ∀ keyId, s.db.committed (.apiKey keyId) = keys keyId
  nodup : ∀ w, (counted s w).Nodup

/-- What a session sees: it has only added itself to what is committed. -/
structure SessionInv (keys : PgUuid → Option ApiKeyRow) (t : P) (s : RateJournal P) : Prop where
  apiKey : ∀ keyId, s.db.view t (.apiKey keyId) = keys keyId
  grows : ∀ w, counted s w <+: seenIn s t w
  nodup : ∀ w, (seenIn s t w).Nodup
  own : ∀ w, ∀ q ∈ seenIn s t w, q ∈ counted s w ∨ q = t
  released : s.db.status t ≠ .ready → ∀ k, s.db.owner k ≠ some t

/-- A session that holds no lock sees what is committed. -/
theorem sessionInv_of_released (hs : CommittedInv keys s) (h : ∀ k, s.db.owner k ≠ some t) :
    SessionInv keys t s := by
  have hview : ∀ w, seenIn s t w = counted s w := fun w =>
    congrArg countedIn (Database.view_eq_committed (h (.bucket w)))
  refine ⟨fun keyId => ?_, fun w => ?_, fun w => ?_, fun w q hq => .inl ?_, fun _ => h⟩
  · rw [Database.view_eq_committed (h _), hs.apiKey]
  · rw [hview]
  · rw [hview]
    exact hs.nodup w
  · rwa [hview] at hq

/-- What a session sees is kept by the others. -/
theorem SessionInv.frame (h : SessionInv keys t s) (hs' : CommittedInv keys s')
    (hframe : Database.Frame t s.db s'.db) : SessionInv keys t s' := by
  have hcases : ∀ w, (seenIn s' t w = seenIn s t w ∧ counted s' w = counted s w) ∨
      seenIn s' t w = counted s' w := by
    intro w
    by_cases howner : s.db.owner (.bucket w) = some t
    · exact .inl ⟨congrArg countedIn (hframe.view howner),
        congrArg countedIn (hframe.committed _ howner)⟩
    · have howner' := fun ho => howner ((hframe.owner _).1 ho)
      exact .inr (congrArg countedIn (Database.view_eq_committed howner'))
  refine ⟨fun keyId => ?_, fun w => ?_, fun w => ?_, fun w q hq => ?_, fun hstatus k howner => ?_⟩
  · by_cases howner : s.db.owner (.apiKey keyId) = some t
    · rw [hframe.view howner, h.apiKey]
    · rw [Database.view_eq_committed fun ho => howner ((hframe.owner _).1 ho), hs'.apiKey]
  · rcases hcases w with ⟨hseen, hcounted⟩ | hseen
    · rw [hseen, hcounted]
      exact h.grows w
    · rw [hseen]
  · rcases hcases w with ⟨hseen, -⟩ | hseen
    · rw [hseen]
      exact h.nodup w
    · rw [hseen]
      exact hs'.nodup w
  · rcases hcases w with ⟨hseen, hcounted⟩ | hseen
    · rw [hcounted]
      exact h.own w q (hseen ▸ hq)
    · exact .inl (hseen ▸ hq)
  · exact h.released (hframe.status ▸ hstatus) k ((hframe.owner k).1 howner)

/-! ### Commands -/

/-- What is known of a command: a request adds itself to a window that it has not been counted
    in. -/
def Known (p : P) : RateCmd P → RateJournal P → Prop
  | .select _, _ => True
  | .commit, _ => True
  | .upsert (.bucket w) new set, s =>
    (new = fun _ => Bucket.first p) ∧ set = Bucket.count p ∧ p ∉ seenIn s p w
  | _, _ => False

/-- What a command of a request does to the rows. -/
inductive Counting (p : P) (s s' : RateJournal P) : Prop
  | same (h : s'.db = s.db)
  | count (w : RateWindow) (row : Bucket P) (hlock : s.db.CanLock p (.bucket w) false)
    (hstatus : s.db.status p = .ready) (hnew : p ∉ seenIn s p w)
    (hrow : row.countedBy = seenIn s p w ++ [p])
    (h : s'.db = s.db.put p (.bucket w) (some row) false hlock)
  | undo (st : Status) (h : s'.db = s.db.abort p st)
  | keep (st : Status) (h : s'.db = s.db.commitTx p st)

theorem counting_of_failed
    (h : (∃ st, s' = s.undo p st) ∨ s.db.status p ≠ .ready ∧ s' = s) : Counting p s s' := by
  rcases h with ⟨st, rfl⟩ | ⟨_, rfl⟩
  · exact .undo st rfl
  · exact .same rfl

/-- The row that is counted in. -/
theorem upserted_count :
    (s.upserted p (.bucket w) (fun _ => Bucket.first p) (Bucket.count p)).countedBy =
      seenIn s p w ++ [p] := by
  rw [upserted, seenIn]
  rcases s.db.view p (.bucket w) with _ | b <;> rfl

theorem counting_of_exec {r : Except RateError (Journal.Reply c)} (hknown : Known p c s)
    (h : Journal.exec .sql p c fault s = some (r, s')) : Counting p s s' := by
  rcases c with k | ⟨k, row⟩ | ⟨k, where_, set⟩ | ⟨k, new, set⟩ | e | _ | _ | _
  case select =>
    rcases statement_cases h with ⟨_, a, _, hstmt⟩ | ⟨_, hfailed⟩
    · cases hstmt
      exact .same rfl
    · exact counting_of_failed hfailed
  case upsert =>
    rcases k with keyId | w
    · exact hknown.elim
    obtain ⟨rfl, rfl, hnew⟩ := hknown
    rcases statement_cases h with ⟨hstatus, a, _, hstmt⟩ | ⟨_, hfailed⟩
    · obtain ⟨hlock, rfl⟩ := upsertRow_cases (eq_of_map_ok hstmt)
      exact .count w _ hlock hstatus hnew upserted_count rfl
    · exact counting_of_failed hfailed
  case commit =>
    simp only [exec, commit] at h
    split_ifs at h
    · rcases fault with _ | _ | _ <;> cases h
      · exact .keep .ready rfl
      · exact .undo .gone rfl
      · exact .keep .gone rfl
    · cases h
      exact .same rfl
  all_goals exact hknown.elim

theorem Counting.frame (h : Counting p s s') (ht : t ≠ p) : Database.Frame t s.db s'.db := by
  rcases h with h | ⟨w, row, hlock, _, _, _, h⟩ | ⟨st, h⟩ | ⟨st, h⟩ <;> rw [h]
  · exact .refl t s.db
  · exact Database.frame_put ht
  · exact Database.frame_abort ht
  · exact Database.frame_commitTx ht

theorem Counting.committedInv (h : Counting p s s') (hs : CommittedInv keys s)
    (hp : SessionInv keys p s) : CommittedInv keys s' := by
  rcases h with h | ⟨w, row, hlock, _, _, _, h⟩ | ⟨st, h⟩ | ⟨st, h⟩
  case keep =>
    refine ⟨fun keyId => ?_, fun w => ?_⟩
    · rw [h]
      exact hp.apiKey keyId
    · rw [counted, h]
      exact hp.nodup w
  all_goals
    refine ⟨fun keyId => ?_, fun w => ?_⟩
    · rw [h]
      exact hs.apiKey keyId
    · rw [counted, h]
      exact hs.nodup w

/-- What the session itself sees after a command of it. -/
theorem Counting.sessionInv (h : Counting p s s') (hs' : CommittedInv keys s')
    (hp : SessionInv keys p s) : SessionInv keys p s' := by
  rcases h with h | ⟨w, row, hlock, hstatus, hnew, hrow, h⟩ | ⟨st, h⟩ | ⟨st, h⟩
  · have hcounted : ∀ w, counted s' w = counted s w := fun w => by rw [counted, h]; rfl
    have hseen : ∀ w, seenIn s' p w = seenIn s p w := fun w => by rw [seenIn, h]; rfl
    refine ⟨fun keyId => ?_, fun w => ?_, fun w => ?_, fun w => ?_, ?_⟩
    · rw [h]
      exact hp.apiKey keyId
    · rw [hcounted, hseen]
      exact hp.grows w
    · rw [hseen]
      exact hp.nodup w
    · rw [hcounted, hseen]
      exact hp.own w
    · rw [h]
      exact hp.released
  · have hcounted : ∀ w, counted s' w = counted s w := fun w => by rw [counted, h]; rfl
    have hself : seenIn s' p w = seenIn s p w ++ [p] := by
      rw [seenIn, h, Database.view_put_self, ← hrow]
      rfl
    have hother : ∀ w', w' ≠ w → seenIn s' p w' = seenIn s p w' := by
      intro w' hw
      rw [seenIn, h, Database.view_put_of_ne fun heq => hw (RateKey.bucket.inj heq)]
      rfl
    refine ⟨fun keyId => ?_, fun w' => ?_, fun w' => ?_, fun w' q hq => ?_, fun hstatus' => ?_⟩
    · have hne : RateKey.apiKey keyId ≠ .bucket w := nofun
      rw [h, Database.view_put_of_ne hne]
      exact hp.apiKey keyId
    · rw [hcounted]
      by_cases hw : w' = w
      · rw [hw, hself]
        exact (hp.grows w).trans (List.prefix_append _ _)
      · rw [hother w' hw]
        exact hp.grows w'
    · by_cases hw : w' = w
      · rw [hw, hself]
        refine List.nodup_append.2 ⟨hp.nodup w, List.nodup_singleton p, fun q hq q' hq' heq => ?_⟩
        rw [heq, List.mem_singleton.1 hq'] at hq
        exact hnew hq
      · rw [hother w' hw]
        exact hp.nodup w'
    · rw [hcounted]
      by_cases hw : w' = w
      · rw [hw, hself] at hq
        rcases List.mem_append.1 hq with hq | hq
        · exact hw ▸ hp.own w q hq
        · exact .inr (List.mem_singleton.1 hq)
      · exact hp.own w' q (hother w' hw ▸ hq)
    · rw [h] at hstatus'
      exact absurd hstatus hstatus'
  · exact sessionInv_of_released hs' (by rw [h]; exact fun k => Database.owner_abort_self)
  · exact sessionInv_of_released hs' (by rw [h]; exact fun k => Database.owner_commitTx_self)

/-! ### The outline -/

/-- The requests that were counted in a window before the request. -/
def CountedAfter (p : P) (w : RateWindow) (earlier : List P) (s : RateJournal P) : Prop :=
  earlier ++ [p] <+: counted s w

/-- What a request has found when it ends: it is let through if fewer requests than the cap were
    counted before it, in every window with a cap; and it is rejected if in one of them as many
    were. -/
def Verdict (keys : PgUuid → Option ApiKeyRow) (p : P) (request : RateRequest) :
    Except RateError (Option ApiKeyPrincipal) → RateJournal P → Prop
  | .ok _, s => ∀ principal ∈ request.principal,
      ∀ l ∈ limitsOf principal.rateTier (keys principal.keyId), l.2 ≠ 0 →
        ∃ earlier, CountedAfter p (principal.window request.now l.1) earlier s ∧ earlier.length < l.2
  | .error e, s => e ≠ .sql → ∃ principal ∈ request.principal,
      ∃ l ∈ limitsOf principal.rateTier (keys principal.keyId), l.2 ≠ 0 ∧
        e = rateLimited principal request.now l.1 ∧
        ∃ earlier, CountedAfter p (principal.window request.now l.1) earlier s ∧ l.2 ≤ earlier.length

/-- What the other requests leave alone, and that they do not count for this one. -/
def OthersCount (p : P) (s s' : RateJournal P) : Prop :=
  Database.Frame p s.db s'.db ∧ ∀ w, counted s w <+: counted s' w ∧ (p ∈ counted s' w → p ∈ counted s w)

/-- The outline of the requests. -/
def rateOutline (P : Type) [DecidableEq P] (keys : PgUuid → Option ApiKeyRow) :
    Outline (RateCmd P) RateError (Option ApiKeyPrincipal) P RateRequest (RateJournal P) where
  inv s := CommittedInv keys s ∧ ∀ t, SessionInv keys t s
  know := Known
  rely := OthersCount
  idle p s := ∀ k, s.db.owner k ≠ some p
  post p request r s := (∀ k, s.db.owner k ≠ some p) ∧ Verdict keys p request r s

theorem Counting.others (h : Counting p s s') (hp : SessionInv keys p s) (ht : t ≠ p) :
    OthersCount t s s' := by
  refine ⟨h.frame ht, fun w => ?_⟩
  rcases h with h | ⟨w', row, hlock, _, _, _, h⟩ | ⟨st, h⟩ | ⟨st, h⟩
  case keep =>
    have hcounted : counted s' w = seenIn s p w := by rw [counted, h]; rfl
    rw [hcounted]
    exact ⟨hp.grows w, fun hq => (hp.own w t hq).resolve_right ht⟩
  all_goals
    have hcounted : counted s' w = counted s w := by rw [counted, h]; rfl
    rw [hcounted]
    exact ⟨List.prefix_rfl, id⟩

theorem OthersCount.verdict {request : RateRequest} {r : Except RateError (Option ApiKeyPrincipal)}
    (h : OthersCount p s s') (hs : Verdict keys p request r s) : Verdict keys p request r s' := by
  rcases r with e | _
  · intro he
    obtain ⟨principal, hprincipal, l, hl, hcap, heq, earlier, hearlier, hlength⟩ := hs he
    exact ⟨principal, hprincipal, l, hl, hcap, heq, earlier, hearlier.trans (h.2 _).1, hlength⟩
  · intro principal hprincipal l hl hcap
    obtain ⟨earlier, hearlier, hlength⟩ := hs principal hprincipal l hl hcap
    exact ⟨earlier, hearlier.trans (h.2 _).1, hlength⟩

/-- The request sees who has been counted in a window, itself the last one, and keeps it locked. -/
structure HasCounted (p : P) (w : RateWindow) (earlier : List P) (s : RateJournal P) : Prop where
  seen : seenIn s p w = earlier ++ [p]
  owner : s.db.owner (.bucket w) = some p

theorem HasCounted.others {earlier : List P} (h : HasCounted p w earlier s)
    (hothers : OthersCount p s s') : HasCounted p w earlier s' :=
  ⟨(congrArg countedIn (hothers.1.view h.owner)).trans h.seen, (hothers.1.owner _).2 h.owner⟩

/-- The request has not been counted in a window. -/
def Uncounted (p : P) (w : RateWindow) (s : RateJournal P) : Prop :=
  p ∉ counted s w ∧ p ∉ seenIn s p w

theorem Uncounted.others (h : Uncounted p w s) (hothers : OthersCount p s s') :
    Uncounted p w s' := by
  have hcounted : p ∉ counted s' w := fun hmem => h.1 ((hothers.2 w).2 hmem)
  refine ⟨hcounted, ?_⟩
  by_cases howner : s.db.owner (.bucket w) = some p
  · rw [seenIn, hothers.1.view howner]
    exact h.2
  · have howner' := fun ho => howner ((hothers.1.owner (.bucket w)).1 ho)
    rwa [seenIn, Database.view_eq_committed howner']

/-- A request between its counts: the limits that it has passed, and those that are left. -/
structure Checking (p : P) (principal : ApiKeyPrincipal) (now : Timestamp)
    (passed rest : List (WindowKind × ℕ)) (s : RateJournal P) : Prop where
  passed : ∀ l ∈ passed, l.2 ≠ 0 →
    ∃ earlier, HasCounted p (principal.window now l.1) earlier s ∧ earlier.length < l.2
  rest : ∀ l ∈ rest, Uncounted p (principal.window now l.1) s

theorem Checking.others {principal : ApiKeyPrincipal} {now : Timestamp}
    {passed rest : List (WindowKind × ℕ)} (h : Checking p principal now passed rest s)
    (hothers : OthersCount p s s') : Checking p principal now passed rest s' := by
  refine ⟨fun l hl hcap => ?_, fun l hl => (h.rest l hl).others hothers⟩
  obtain ⟨earlier, hearlier, hlength⟩ := h.passed l hl hcap
  exact ⟨earlier, hearlier.others hothers, hlength⟩

/-- What a count leaves as it is: the other windows. -/
structure CountsIn (p : P) (w : RateWindow) (s s' : RateJournal P) : Prop where
  counted : ∀ w', counted s' w' = counted s w'
  seen : ∀ w', w' ≠ w → seenIn s' p w' = seenIn s p w'
  owner : ∀ w', s.db.owner (.bucket w') = some p → s'.db.owner (.bucket w') = some p

/-- The first of the limits that are left is passed, without a count or with one. -/
theorem Checking.next {principal : ApiKeyPrincipal} {now : Timestamp} {l : WindowKind × ℕ}
    {passed rest : List (WindowKind × ℕ)} (h : Checking p principal now passed (l :: rest) s)
    (hl : l.2 ≠ 0 → ∃ earlier, HasCounted p (principal.window now l.1) earlier s ∧
      earlier.length < l.2) : Checking p principal now (passed ++ [l]) rest s := by
  refine ⟨fun l' hl' hcap => ?_, fun l' hl' => h.rest l' (List.mem_cons_of_mem _ hl')⟩
  rcases List.mem_append.1 hl' with hl' | hl'
  · exact h.passed l' hl' hcap
  · obtain rfl := List.mem_singleton.1 hl'
    exact hl hcap

/-! ### Programs -/

section Programs

variable {Q : Except RateError (Journal.Reply c) → RateJournal P → Prop}

/-- A command that fails releases what the request has locked: what is left to say is what it does
    when it is carried out. -/
theorem safe_request (a : RateJournal P → Prop) (ha : ∀ s s', OthersCount p s s' → a s → a s')
    (h : a s) (hknown : ∀ s, a s → Known p c s)
    (herror : ∀ s', (∀ k, s'.db.owner k ≠ some p) → Q (.error .sql) s')
    (hok : ∀ fault s₁ v s', (rateOutline P keys).inv s₁ → a s₁ →
      exec RateError.sql p c fault s₁ = some (.ok v, s') → Q (.ok v) s') :
    (rateOutline P keys).Safe (rateLimits P) (newRequests P) p (.perform c) Q s := by
  refine Outline.safe_perform a ha h fun s₁ hinv h₁ => ⟨hknown s₁ h₁, ?_⟩
  rintro fault (e | v) s' - hexec -
  · obtain ⟨rfl, howner⟩ := released_of_error (hinv.2 p).released hexec
    exact herror s' howner
  · exact hok fault s₁ v s' hinv h₁ hexec

end Programs

/-- The request counts, and is told how many there are. -/
theorem safe_countTokens {a : RateJournal P → Prop}
    {Q : Except RateError (Option ℕ) → RateJournal P → Prop}
    (ha : ∀ s s', OthersCount p s s' → a s → a s') (hcount : ∀ s s', CountsIn p w s s' → a s → a s')
    (h : a s) (hnew : Uncounted p w s)
    (herror : ∀ s', (∀ k, s'.db.owner k ≠ some p) → Q (.error .sql) s')
    (hok : ∀ s' earlier, a s' → HasCounted p w earlier s' → Q (.ok (some (earlier.length + 1))) s') :
    (rateOutline P keys).Safe (rateLimits P) (newRequests P) p (countTokens p w) Q s := by
  refine Outline.safe_bind.2 (safe_request (fun s => a s ∧ Uncounted p w s)
    (fun s s' ho h => ⟨ha s s' ho h.1, h.2.others ho⟩) ⟨h, hnew⟩
    (fun s h => ⟨rfl, rfl, h.2.2⟩) herror ?_)
  intro fault s₁ _ s₂ _ ⟨h₁, hnew₁⟩ hexec
  obtain ⟨hlock, rfl⟩ := exec_upsert_ok hexec
  have hcounts : CountsIn p w s₁ { s₁.put p (.bucket w)
      (s₁.upserted p (.bucket w) (fun _ => Bucket.first p) (Bucket.count p)) hlock with
      next := s₁.next + 1 } := by
    refine ⟨fun _ => rfl, fun w' hw => ?_, fun w' howner => ?_⟩
    · have hne : RateKey.bucket w' ≠ .bucket w := fun heq => hw (RateKey.bucket.inj heq)
      exact congrArg countedIn (Database.view_put_of_ne hne)
    · change Function.update s₁.db.owner _ _ _ = _
      rw [Function.update_apply]
      split_ifs
      · rfl
      · exact howner
  have hhas : HasCounted p w (seenIn s₁ p w) { s₁.put p (.bucket w)
      (s₁.upserted p (.bucket w) (fun _ => Bucket.first p) (Bucket.count p)) hlock with
      next := s₁.next + 1 } := by
    refine ⟨?_, Function.update_self _ _ _⟩
    change countedIn ((s₁.db.put p (.bucket w) (some _) false hlock).view p (.bucket w)) = _
    rw [Database.view_put_self]
    exact upserted_count
  refine Outline.safe_bind.2 (safe_request (fun s => a s ∧ HasCounted p w (seenIn s₁ p w) s)
    (fun s s' ho h => ⟨ha s s' ho h.1, h.2.others ho⟩) ⟨hcount _ _ hcounts h₁, hhas⟩
    (fun _ _ => trivial) herror ?_)
  intro fault' s₃ v s₄ _ ⟨h₃, hhas₃⟩ hexec'
  obtain ⟨rfl, rfl⟩ := exec_select_ok hexec'
  have htokens : (s₃.db.view p (.bucket w)).map (·.tokensUsed) = some ((seenIn s₁ p w).length + 1) := by
    have hseen := hhas₃.seen
    rw [seenIn] at hseen
    rcases hview : s₃.db.view p (.bucket w) with _ | b
    · rw [hview] at hseen
      exact absurd hseen.symm (List.append_ne_nil_of_right_ne_nil _ (List.cons_ne_nil _ _))
    · rw [hview] at hseen
      have hcountedBy : b.countedBy = seenIn s₁ p w ++ [p] := hseen
      rw [Option.map_some, b.tokensUsed_eq, hcountedBy, List.length_append]
      rfl
  have hmeet : CountsIn p w s₃ (s₃.meet p (.bucket w)) :=
    ⟨fun _ => rfl, fun _ _ => rfl, fun _ => id⟩
  have hdone := hok (s₃.meet p (.bucket w)) (seenIn s₁ p w) (hcount _ _ hmeet h₃) ⟨hhas₃.seen, hhas₃.owner⟩
  rw [← htokens] at hdone
  exact hdone

theorem nodup_limitsOf (rateTier : String) (overrideRow : Option ApiKeyRow) :
    ((limitsOf rateTier overrideRow).map Prod.fst).Nodup := by
  have htier : ((tierLimits rateTier).map Prod.fst).Nodup := by
    unfold tierLimits
    split_ifs <;> decide
  rw [limitsOf, updateLimits, List.map_map]
  exact htier

section Check

variable {principal : ApiKeyPrincipal} {now : Timestamp} {request : RateRequest}

/-- A count in a window leaves the limits of the other kinds as they are. -/
theorem Checking.countsIn {kind : WindowKind} {passed rest : List (WindowKind × ℕ)}
    (h : Checking p principal now passed rest s)
    (hcounts : CountsIn p (principal.window now kind) s s')
    (hkinds : ∀ l ∈ passed ++ rest, l.1 ≠ kind) : Checking p principal now passed rest s' := by
  have hwindow : ∀ l ∈ passed ++ rest,
      principal.window now l.1 ≠ principal.window now kind := fun l hl heq =>
    hkinds l hl (congrArg RateWindow.windowKind heq)
  refine ⟨fun l hl hcap => ?_, fun l hl => ?_⟩
  · obtain ⟨earlier, hearlier, hlength⟩ := h.passed l hl hcap
    exact ⟨earlier, ⟨(hcounts.seen _ (hwindow l (List.mem_append_left _ hl))).trans hearlier.seen,
      hcounts.owner _ hearlier.owner⟩, hlength⟩
  · obtain ⟨hcounted, hseen⟩ := h.rest l hl
    exact ⟨hcounts.counted _ ▸ hcounted,
      hcounts.seen _ (hwindow l (List.mem_append_right _ hl)) ▸ hseen⟩

/-- What is committed when the request commits is what it has seen. -/
theorem HasCounted.countedAfter {earlier : List P} {st : Status} (h : HasCounted p w earlier s) :
    CountedAfter p w earlier (s.keep p st) := by
  have hcounted : counted (s.keep p st) w = seenIn s p w := rfl
  rw [CountedAfter, hcounted, h.seen]

/-- A limit is passed, or the request is rejected. -/
theorem safe_countRequest {l : WindowKind × ℕ} {passed rest : List (WindowKind × ℕ)}
    (hrequest : request = ⟨some principal, now⟩)
    (hlimits : limitsOf principal.rateTier (keys principal.keyId) = passed ++ l :: rest)
    (h : Checking p principal now passed (l :: rest) s) :
    (rateOutline P keys).Safe (rateLimits P) (newRequests P) p (countRequest p principal now l)
      (Outline.outcome (fun _ => Checking p principal now (passed ++ [l]) rest)
        fun e => (rateOutline P keys).post p request (.error e)) s := by
  obtain ⟨kind, cap⟩ := l
  have hkinds : ∀ l ∈ passed ++ rest, l.1 ≠ kind := by
    have hnodup := hlimits ▸ nodup_limitsOf principal.rateTier (keys principal.keyId)
    rw [List.map_append, List.map_cons, (List.perm_middle).nodup_iff, ← List.map_append] at hnodup
    intro l hl heq
    have hmem : l.1 ∈ (passed ++ rest).map Prod.fst := List.mem_map_of_mem hl
    exact (List.nodup_cons.1 hnodup).1 (heq ▸ hmem)
  have hsql : ∀ s' : RateJournal P, (∀ k, s'.db.owner k ≠ some p) →
      (rateOutline P keys).post p request (.error .sql) s' :=
    fun s' howner => ⟨howner, fun hne => absurd rfl hne⟩
  rw [countRequest]
  by_cases hcap : cap = 0
  · rw [if_pos hcap]
    exact h.next fun hne => absurd hcap hne
  rw [if_neg hcap]
  have hrest : Checking p principal now passed rest s :=
    ⟨h.passed, fun l hl => h.rest l (List.mem_cons_of_mem _ hl)⟩
  refine Outline.safe_bind.2 (safe_countTokens (fun s s' ho h => Checking.others h ho)
    (fun s s' hcounts h => h.countsIn hcounts hkinds) hrest (h.rest _ List.mem_cons_self) hsql ?_)
  intro s' earlier hchecking hhas
  simp only [Outline.outcome, Option.any_some]
  by_cases hover : cap < earlier.length + 1
  · -- The count is over the cap: what has been counted is committed.
    rw [if_pos (decide_eq_true hover)]
    refine Outline.safe_bind.2 (safe_request (HasCounted p (principal.window now kind) earlier)
      (fun s s' ho h => h.others ho) hhas (fun _ _ => trivial) hsql ?_)
    intro fault s₁ _ s₂ _ h₁ hexec
    rw [exec_commit_eq hexec]
    refine ⟨fun k => Database.owner_commitTx_self, fun _ => ⟨principal, ?_, (kind, cap), ?_, hcap, ?_,
      earlier, ?_, Nat.lt_succ_iff.1 hover⟩⟩
    · rw [hrequest]
      rfl
    · rw [hlimits]
      exact List.mem_append_right _ List.mem_cons_self
    · rw [hrequest]
    · rw [hrequest]
      exact h₁.countedAfter
  · rw [if_neg (by simpa using hover)]
    refine ⟨fun l hl hne => ?_, hchecking.rest⟩
    rcases List.mem_append.1 hl with hl | hl
    · exact hchecking.passed l hl hne
    · obtain rfl := List.mem_singleton.1 hl
      exact ⟨earlier, hhas, by omega⟩

/-- The check, whatever the others do. -/
theorem safe_enforceRateLimit (hidle : ∀ k, s.db.owner k ≠ some p)
    (hnew : ∀ w, p ∉ counted s w) :
    (rateOutline P keys).Safe (rateLimits P) (newRequests P) p
      (enforceRateLimit p request.principal request.now)
      ((rateOutline P keys).post p request) s := by
  have hsql : ∀ s' : RateJournal P, (∀ k, s'.db.owner k ≠ some p) →
      (rateOutline P keys).post p request (.error .sql) s' :=
    fun s' howner => ⟨howner, fun hne => absurd rfl hne⟩
  obtain ⟨_ | principal, now⟩ := request
  · exact ⟨hidle, nofun⟩
  have huncounted : ∀ w, Uncounted p w s := by
    refine fun w => ⟨hnew w, ?_⟩
    rw [seenIn, Database.view_eq_committed (hidle _)]
    exact hnew w
  refine Outline.safe_bind.2 (safe_request (fun s => ∀ w, Uncounted p w s)
    (fun s s' ho h w => (h w).others ho) huncounted (fun _ _ => trivial) hsql ?_)
  intro fault s₁ overrideRow s₂ hinv h₁ hexec
  obtain ⟨rfl, rfl⟩ := exec_select_ok hexec
  rw [(hinv.2 p).apiKey]
  refine Outline.safe_bind.2 (Outline.safe_forEach
    (fun rest s => ∃ passed, limitsOf principal.rateTier (keys principal.keyId) = passed ++ rest ∧
      Checking p principal now passed rest s) ?_ ?_ ⟨[], rfl, nofun, fun l _ => h₁ _⟩)
  · rintro s₃ ⟨passed, hlimits, h₃⟩
    rw [List.append_nil] at hlimits
    subst hlimits
    refine Outline.safe_bind.2 (safe_request (Checking p principal now _ [])
      (fun s s' ho h => h.others ho) h₃ (fun _ _ => trivial) hsql ?_)
    intro fault' s₄ _ s₅ _ h₄ hexec'
    rw [exec_commit_eq hexec']
    refine ⟨fun k => Database.owner_commitTx_self, ?_⟩
    rintro _ ⟨⟩ l hl hcap
    obtain ⟨earlier, hearlier, hlength⟩ := h₄.passed l hl hcap
    exact ⟨earlier, hearlier.countedAfter, hlength⟩
  · rintro l rest s₃ ⟨passed, hlimits, h₃⟩
    refine (safe_countRequest rfl hlimits h₃).mono fun r s₄ h₄ => ?_
    rcases r with e | _
    · exact h₄
    · exact ⟨passed ++ [l], by rw [hlimits, List.append_assoc]; rfl, h₄⟩

end Check

/-- Every request keeps to the outline. -/
theorem valid_rateOutline (P : Type) [DecidableEq P] (keys : PgUuid → Option ApiKeyRow) :
    (rateOutline P keys).Valid (rateLimits P) (newRequests P) where
  rely_refl p s := ⟨.refl p s.db, fun _ => ⟨List.prefix_rfl, id⟩⟩
  rely_trans p s s' s'' h h' := ⟨h.1.trans h'.1, fun w =>
    ⟨(h.2 w).1.trans (h'.2 w).1, fun hmem => (h.2 w).2 ((h'.2 w).2 hmem)⟩⟩
  inv_step p c o s r s' hinv hknown _ hexec := by
    have hcounting := counting_of_exec hknown hexec
    have hcommitted := hcounting.committedInv hinv.1 (hinv.2 p)
    refine ⟨hcommitted, fun t => ?_⟩
    by_cases ht : t = p
    · exact ht ▸ hcounting.sessionInv hcommitted (hinv.2 p)
    · exact (hinv.2 t).frame hcommitted (hcounting.frame ht)
  rely_step p q c o s r s' hq hinv hknown _ hexec :=
    (counting_of_exec hknown hexec).others (hinv.2 q) hq.symm
  inv_kill p s hinv _ := by
    have hcounting : Counting p s (s.undo p .ready) := .undo .ready rfl
    have hcommitted := hcounting.committedInv hinv.1 (hinv.2 p)
    refine ⟨hcommitted, fun t => ?_⟩
    by_cases ht : t = p
    · exact ht ▸ hcounting.sessionInv hcommitted (hinv.2 p)
    · exact (hinv.2 t).frame hcommitted (hcounting.frame ht)
  rely_kill p q s hq hinv _ :=
    have hcounting : Counting q s (s.undo q .ready) := .undo .ready rfl
    hcounting.others (hinv.2 q) hq.symm
  idle_kill p s _ := fun k => Database.owner_abort_self
  idle_stable p s s' h hidle := fun k howner => hidle k ((h.1.owner k).1 howner)
  post_stable p j r s s' h hpost :=
    ⟨fun k howner => hpost.1 k ((h.1.owner k).1 howner), h.verdict hpost.2⟩
  post_idle p j r s h := h.1
  body p j s _ hidle hstart := safe_enforceRateLimit hidle hstart

/-- What an outline says of a request that has ended. -/
theorem verdict_of_reach
    {cfg : Config (RateCmd P) Journal.Reply RateError (Option ApiKeyPrincipal) P RateRequest
      (RateJournal P)}
    (h : (rateLimits P).Reach (newRequests P).Holds ((rateLimits P).initial (uncounted P keys)) cfg) :
    (∀ w, (counted cfg.shared w).Nodup) ∧ ∀ p request,
      (∀ a, cfg.proc p = some (request, .ret a) → Verdict keys p request (.ok a) cfg.shared) ∧
      ∀ e, cfg.proc p = some (request, .raise e) → Verdict keys p request (.error e) cfg.shared := by
  have hcommitted : CommittedInv keys (uncounted P keys) := ⟨fun _ => rfl, fun _ => List.nodup_nil⟩
  have hidle : ∀ p : P, (rateOutline P keys).idle p (uncounted P keys) := fun p k => nofun
  have hinv : (rateOutline P keys).inv (uncounted P keys) :=
    ⟨hcommitted, fun t => sessionInv_of_released hcommitted (hidle t)⟩
  obtain ⟨hinv, hprocess⟩ := (valid_rateOutline P keys).safe hinv hidle h
  refine ⟨hinv.1.nodup, fun p request => ⟨fun a hp => ?_, fun e hp => ?_⟩⟩
  · have hpost := hprocess p
    rw [hp] at hpost
    exact hpost.2
  · have hpost := hprocess p
    rw [hp] at hpost
    exact hpost.2

/-- In every run of any requests: of those of a key that are let through, no more have a time in a
    window than its cap; and if one is rejected, then, for a kind of windows with a cap, at least as
    many other requests of the key had been counted in the window before. -/
theorem throttling_of_reach (P : Type) [DecidableEq P] (keys : PgUuid → Option ApiKeyRow)
    {cfg : Config (RateCmd P) Journal.Reply RateError (Option ApiKeyPrincipal) P RateRequest
      (RateJournal P)}
    (h : (rateLimits P).Reach (newRequests P).Holds ((rateLimits P).initial (uncounted P keys)) cfg) :
    (∀ w cap, cap ≠ 0 → ∀ letThrough : Finset P,
      (∀ p ∈ letThrough, ∃ principal now, cfg.proc p = some (⟨some principal, now⟩, .ret (some principal)) ∧
        principal.window now w.windowKind = w ∧
        (w.windowKind, cap) ∈ limitsOf principal.rateTier (keys principal.keyId)) →
      letThrough.card ≤ cap) ∧
    ∀ p principal now e retryAfter,
      cfg.proc p = some (⟨some principal, now⟩, .raise (.http e retryAfter)) →
      ∃ kind cap, (kind, cap) ∈ limitsOf principal.rateTier (keys principal.keyId) ∧ cap ≠ 0 ∧
        ∃ earlier : List P, earlier.Nodup ∧ p ∉ earlier ∧ cap ≤ earlier.length ∧
          earlier ++ [p] <+: counted cfg.shared (principal.window now kind) := by
  obtain ⟨hnodup, hverdict⟩ := verdict_of_reach h
  constructor
  · intro w cap hcap letThrough hthrough
    -- The requests have different places among the first `cap` that were counted.
    have hplace : ∀ p ∈ letThrough,
        p ∈ counted cfg.shared w ∧ (counted cfg.shared w).idxOf p < cap := by
      intro p hp
      obtain ⟨principal, now, hproc, hw, hl⟩ := hthrough p hp
      obtain ⟨earlier, hearlier, hlength⟩ := (hverdict p _).1 _ hproc principal rfl _ hl hcap
      rw [CountedAfter, hw] at hearlier
      have hmem : p ∈ earlier ++ [p] := List.mem_append_right _ (List.mem_singleton_self p)
      refine ⟨hearlier.subset hmem, ?_⟩
      obtain ⟨later, hlater⟩ := hearlier
      have hlt := List.idxOf_lt_length_iff.2 hmem
      rw [List.length_append, List.length_singleton] at hlt
      rw [← hlater, List.idxOf_append_of_mem hmem]
      omega
    have hinj : Set.InjOn (fun p => (counted cfg.shared w).idxOf p) letThrough :=
      fun p hp q hq heq => (List.idxOf_inj (hplace p hp).1).1 heq
    refine (Finset.card_le_card_of_injOn _ (fun p hp => ?_) hinj).trans (Finset.card_range cap).le
    exact Finset.mem_range.2 (hplace p hp).2
  · intro p principal now e retryAfter hp
    obtain ⟨principal', ⟨⟩, ⟨kind, cap⟩, hl, hcap, _, earlier, hearlier, hlength⟩ :=
      (hverdict p _).2 _ hp nofun
    have hdistinct := (hnodup _).sublist hearlier.sublist
    obtain ⟨hnodup, _, hne⟩ := List.nodup_append.1 hdistinct
    exact ⟨kind, cap, hl, hcap, earlier, hnodup,
      fun hmem => hne p hmem p (List.mem_singleton_self p) rfl, hlength, hearlier⟩

/-! ### Two requests -/

/-- No request starts any more. -/
def noStarts : Guard (RateCmd Bool) Bool RateRequest Fault (RateJournal Bool) where
  start _ _ _ := False

instance (p : Bool) (request : RateRequest) (s : RateJournal Bool) :
    Decidable (noStarts.start p request s) := isFalse id

instance (p : Bool) (c : RateCmd Bool) (o : Fault) (s : RateJournal Bool) :
    Decidable (noStarts.step p c o s) := isTrue trivial

instance (p : Bool) (s : RateJournal Bool) : Decidable (noStarts.kill p s) := isTrue trivial

/-- A key with one request a minute. -/
def slowKeys (_ : PgUuid) : Option ApiKeyRow := some ⟨some [("minute", 1)]⟩

def slowRequest : RateRequest := ⟨some ⟨7, "partner", false, []⟩, 0⟩

/-- The two requests have started. -/
def slowStart : Config (RateCmd Bool) Journal.Reply RateError (Option ApiKeyPrincipal) Bool RateRequest
    (RateJournal Bool) where
  shared := uncounted Bool slowKeys
  proc := Function.update (Function.update (fun _ => none) false
      (some (slowRequest, (rateLimits Bool).body false slowRequest))) true
    (some (slowRequest, (rateLimits Bool).body true slowRequest))

theorem reach_slowStart : (rateLimits Bool).Reach (newRequests Bool).Holds
    ((rateLimits Bool).initial (uncounted Bool slowKeys)) slowStart := by
  have hnew : ∀ (p : Bool) w, p ∉ counted (uncounted Bool slowKeys) w := fun _ _ => List.not_mem_nil
  exact .step (.start true slowRequest)
    (.step (.start false slowRequest) .init (hnew false) rfl) (hnew true) rfl

/-- A request is let through, and another one rejected. -/
def oneOfTwo (cfg : Config (RateCmd Bool) Journal.Reply RateError (Option ApiKeyPrincipal) Bool
    RateRequest (RateJournal Bool)) : Bool :=
  match cfg.proc false, cfg.proc true with
  | some (_, .ret _), some (⟨some _, _⟩, .raise (.http _ _)) => true
  | _, _ => false

/-- The first request is let through, and the second one is rejected: another one was counted
    before it. -/
theorem throttling_of_slowKeys : ∃ cfg, (rateLimits Bool).Reach (newRequests Bool).Holds
    ((rateLimits Bool).initial (uncounted Bool slowKeys)) cfg ∧ oneOfTwo cfg = true ∧
      ∃ (principal : ApiKeyPrincipal) (now : Timestamp) (kind : WindowKind) (cap : ℕ),
        (kind, cap) ∈ limitsOf principal.rateTier (slowKeys principal.keyId) ∧ cap ≠ 0 ∧ ∃ earlier : List Bool, earlier.Nodup ∧ true ∉ earlier ∧ cap ≤ earlier.length ∧
          earlier ++ [true] <+: counted cfg.shared (principal.window now kind) := by
  have hrun : ((rateLimits Bool).run noStarts.Holds
      (List.replicate 8 (.step false .none) ++ List.replicate 4 (.step true .none)) slowStart).any
      oneOfTwo = true := by decide +kernel
  obtain ⟨cfg, hreach, hone⟩ := System.Reach.exists_of_run hrun
  have hreach := reach_slowStart.trans (hreach.mono fun _ _ h =>
    h.mono (fun _ _ _ => False.elim) (fun _ _ _ _ _ => trivial) fun _ _ _ => trivial)
  refine ⟨cfg, hreach, hone, ?_⟩
  rw [oneOfTwo] at hone
  split at hone
  · rename_i principal now e retryAfter _ hproc
    exact ⟨principal, now, (throttling_of_reach Bool slowKeys hreach).2 true principal now e
      retryAfter hproc⟩
  · cases hone

end AslanCore.Research
