import AslanCore.Timeseries.Writing

/-!
# Observations, one by one

What a call of `write` stands for: its observations are added to those that are stored, one by one
(`WriteCall.apply`), and so for the calls of a transaction (`applyAll`).

* `dedupe_eq_ok`: what is left after phase 0 are the first observations of every key, and those that
  are left out have the same hash;
* `Deduped.apply_eq`: so all observations can be added when those can, and then the counts are those of the
  keys that are new and of those that are not;
* `applyAll_congr`, `applyAll_eq_none_of_below`: only what is stored under the keys of the calls
  matters, and what cannot be added to some rows cannot be added to more.
-/

namespace AslanCore

namespace Timeseries

namespace Writing

open Insertion

/-- What is stored in `ts.observation`. -/
abbrev Rows := ObservationKey → Option ObservationColumns

/-- The rows of a call, one for each observation, unless one of them is not valid. -/
def WriteCall.rows (env : Env) (caller : Caller) (call : WriteCall) :
    Except WriteError (List (ObservationKey × ObservationColumns)) := do
  let validated ← revalidate 0 call.observations
  let os ← validated.mapM (hashed env)
  return os.map fun o => (o.key call.seriesId, o.columns caller)

/-- The counts of a call. -/
def countsOf (attempted : ℕ) (xs : List (ObservationKey × ObservationColumns)) (os : List Outcome) :
    WriteCount :=
  ⟨attempted, os.count .inserted, 0, (xs.map Prod.fst).dedup.length - os.count .inserted⟩

/-- The observations of a call are added to those that are stored, one by one. -/
def WriteCall.apply (env : Env) (caller : Caller) (stored : Rows) (call : WriteCall) :
    Option (WriteCount × Rows) :=
  if env.auditStrict ∧ caller.currentActor = none then none
  else
    match call.rows env caller with
    | .error _ => none
    | .ok xs => (addAll (·.payloadHash) stored xs).map fun (os, stored') =>
      (countsOf call.observations.length xs os, stored')

/-- The calls are made one after the other. -/
def applyAll (env : Env) (caller : Caller) : Rows → List WriteCall → Option (List WriteCount × Rows)
  | stored, [] => some ([], stored)
  | stored, call :: calls => do
    let (count, stored) ← call.apply env caller stored
    let (counts, stored) ← applyAll env caller stored calls
    some (count :: counts, stored)

/-- The keys of a call, if it is valid. -/
def WriteCall.keys (env : Env) (caller : Caller) (call : WriteCall) : List ObservationKey :=
  match call.rows env caller with
  | .error _ => []
  | .ok xs => xs.map Prod.fst

variable {env : Env} {caller : Caller} {call : WriteCall} {calls calls' : List WriteCall}
  {stored stored' stored'' : Rows} {count : WriteCount} {counts counts' : List WriteCount}
  {seriesId : ℤ} {validated : List TimedObservation} {o : Hashed} {os deduped : List Hashed}
  {xs : List (ObservationKey × ObservationColumns)}

/-! ### Slices -/

theorem flatten_slices {α : Type} {n : ℕ} (hn : 0 < n) (zs : List α) :
    (slices n zs).flatten = zs := by
  have htake : ∀ m, ((List.range m).map fun i => (zs.drop (i * n)).take n).flatten
      = zs.take (m * n) := by
    intro m
    induction m with
    | zero => simp
    | succ m ih =>
      rw [List.range_succ, List.map_append, List.flatten_append, ih, List.map_singleton,
        List.flatten_singleton, Nat.succ_mul, List.take_add]
  have hlen : zs.length ≤ (zs.length + n - 1) / n * n := by
    have hdiv := Nat.div_add_mod (zs.length + n - 1) n
    have hmod := Nat.mod_lt (zs.length + n - 1) hn
    rw [Nat.mul_comm] at hdiv
    omega
  rw [slices, htake, List.take_of_length_le hlen]

/-! ### Phase 0 -/

theorem raiseError_ok {α : Type} (a : α) : raiseError (.ok a : Except WriteError α) = .ret a := rfl

/-- The row of an observation. -/
def Hashed.row (caller : Caller) (seriesId : ℤ) (o : Hashed) : ObservationKey × ObservationColumns :=
  (o.key seriesId, o.columns caller)

theorem rows_eq_ok (h : call.rows env caller = .ok xs) : ∃ validated os,
    revalidate 0 call.observations = .ok validated ∧ validated.mapM (hashed env) = .ok os ∧
      xs = os.map (Hashed.row caller call.seriesId) := by
  rw [WriteCall.rows] at h
  cases hv : revalidate 0 call.observations with
  | error e =>
    rw [hv] at h
    cases h
  | ok validated =>
    rw [hv] at h
    cases hos : validated.mapM (hashed env) with
    | error e =>
      simp only [hos, bind, Except.bind] at h
      cases h
    | ok os =>
      simp only [hos, bind, Except.bind, pure, Except.pure] at h
      cases h
      exact ⟨validated, os, rfl, hos, rfl⟩

theorem keys_map_row : (os.map (Hashed.row caller seriesId)).map Prod.fst
    = os.map (Hashed.key seriesId) := by
  rw [List.map_map]
  rfl

/-- Those that are left are the first of every key, and the others have the same hash. -/
theorem dedupe_eq_ok (h : dedupe env seriesId deduped validated = .ok os) :
    ∃ hs, validated.mapM (hashed env) = .ok hs ∧
      os.map (Hashed.row caller seriesId) = firstsFrom (deduped.map (Hashed.row caller seriesId))
        (hs.map (Hashed.row caller seriesId)) ∧ deduped ⊆ os ∧
      ∀ o ∈ hs, ∃ o' ∈ os, o'.key seriesId = o.key seriesId ∧ o'.ph = o.ph := by
  induction validated generalizing deduped with
  | nil =>
    cases h
    exact ⟨[], rfl, rfl, fun _ => id, by simp⟩
  | cons o validated ih =>
    rw [dedupe] at h
    rcases ho : hashed env o with e | o
    · rw [ho] at h
      cases h
    rw [ho] at h
    simp only [bind, Except.bind] at h
    have hkey : (Hashed.row caller seriesId o).1 ∈
        (deduped.map (Hashed.row caller seriesId)).map Prod.fst ↔
        (deduped.find? fun o' => o'.key seriesId = o.key seriesId).isSome := by
      rw [keys_map_row, List.find?_isSome, List.mem_map]
      simp only [decide_eq_true_eq]
      rfl
    cases hfind : deduped.find? fun o' => o'.key seriesId = o.key seriesId with
    | none =>
      rw [hfind] at h hkey
      obtain ⟨hs, hhs, hos, hsub, hsame⟩ := ih h
      refine ⟨o :: hs, ?_, ?_, fun o' ho' => hsub (List.mem_append_left _ ho'), ?_⟩
      · rw [List.mapM_cons, ho, hhs]
        rfl
      · rw [hos, List.map_cons (l := hs), firstsFrom, if_neg fun hk => by simpa using hkey.1 hk,
          List.map_append]
        rfl
      · rintro o' ho'
        rcases List.mem_cons.1 ho' with rfl | ho'
        · exact ⟨o', hsub (List.mem_append_right _ (List.mem_singleton_self _)), rfl, rfl⟩
        · exact hsame o' ho'
    | some first =>
      rw [hfind] at h hkey
      simp only at h
      split_ifs at h with hph
      · obtain ⟨hs, hhs, hos, hsub, hsame⟩ := ih h
        refine ⟨o :: hs, ?_, ?_, hsub, ?_⟩
        · rw [List.mapM_cons, ho, hhs]
          rfl
        · rw [hos, List.map_cons, firstsFrom, if_pos (hkey.2 rfl)]
        · rintro o' ho'
          rcases List.mem_cons.1 ho' with rfl | ho'
          · have hk : first.key seriesId = o'.key seriesId := by simpa using List.find?_some hfind
            exact ⟨first, hsub (List.mem_of_find?_eq_some hfind), hk, hph⟩
          · exact hsame o' ho'

/-- Observations with the same hash, where they have the same key, can be deduplicated. -/
theorem exists_dedupe {hs : List Hashed} (h : validated.mapM (hashed env) = .ok hs)
    (hsame : ∀ o ∈ deduped ++ hs, ∀ o' ∈ deduped ++ hs, o.key seriesId = o'.key seriesId →
      o.ph = o'.ph) : ∃ os, dedupe env seriesId deduped validated = .ok os := by
  induction validated generalizing deduped hs with
  | nil => exact ⟨deduped, rfl⟩
  | cons o validated ih =>
    rw [List.mapM_cons] at h
    rcases ho : hashed env o with e | o
    · rw [ho] at h
      cases h
    rcases hhs : validated.mapM (hashed env) with e | hs'
    · rw [ho, hhs] at h
      cases h
    rw [ho, hhs] at h
    cases h
    rw [dedupe, ho]
    simp only [bind, Except.bind]
    cases hfind : deduped.find? fun o' => o'.key seriesId = o.key seriesId with
    | none =>
      refine ih hhs fun o₁ h₁ o₂ h₂ => hsame o₁ ?_ o₂ ?_
      · rwa [List.append_assoc] at h₁
      · rwa [List.append_assoc] at h₂
    | some first =>
      have hk : first.key seriesId = o.key seriesId := by simpa using List.find?_some hfind
      have hph : first.ph = o.ph := hsame first
        (List.mem_append_left _ (List.mem_of_find?_eq_some hfind)) o
        (List.mem_append_right _ List.mem_cons_self) hk
      simp only [if_pos hph]
      have hsub : ∀ o' ∈ deduped ++ hs', o' ∈ deduped ++ o :: hs' := fun o' ho' =>
        (List.mem_append.1 ho').elim (List.mem_append_left _)
          fun h => List.mem_append_right _ (List.mem_cons_of_mem _ h)
      exact ih hhs fun o₁ h₁ o₂ h₂ => hsame o₁ (hsub o₁ h₁) o₂ (hsub o₂ h₂)

/-! ### Calls -/

/-- What phase 0 leaves of a call. -/
structure Deduped (env : Env) (call : WriteCall) (os : List Hashed) : Prop where
  exists_validated : ∃ validated, revalidate 0 call.observations = .ok validated ∧
    dedupe env call.seriesId [] validated = .ok os

namespace Deduped

/-- What is left stands for all rows of the call, whoever makes it. -/
theorem rows (h : Deduped env call os) (caller : Caller) : ∃ xs, call.rows env caller = .ok xs ∧
    os.map (Hashed.row caller call.seriesId) = firstsFrom [] xs ∧
    ∀ x ∈ xs, ∃ o ∈ os, o.key call.seriesId = x.1 ∧ o.ph = x.2.payloadHash := by
  obtain ⟨validated, hv, hd⟩ := h.exists_validated
  obtain ⟨hs, hhs, hos, -, hsame⟩ := dedupe_eq_ok hd
  refine ⟨hs.map (Hashed.row caller call.seriesId), ?_, hos, fun x hx => ?_⟩
  · rw [WriteCall.rows, hv]
    simp only [bind, Except.bind, hhs]
    rfl
  · obtain ⟨o, ho, rfl⟩ := List.mem_map.1 hx
    exact hsame o ho

theorem nodup (h : Deduped env call os) : (os.map (Hashed.key call.seriesId)).Nodup := by
  have caller : Caller := ⟨none, 0⟩
  obtain ⟨xs, -, hos, -⟩ := h.rows caller
  rw [← keys_map_row, hos]
  exact nodup_firstsFrom List.nodup_nil

/-- All observations can be added when those that are left can. -/
theorem apply_eq (h : Deduped env call os) (hactor : ¬(env.auditStrict ∧ caller.currentActor = none))
    (hagree : ∀ o ∈ os, ∀ v ∈ insertAll stored (os.map (Hashed.row caller call.seriesId))
      (o.key call.seriesId), v.payloadHash = o.ph) {inserted : Finset ObservationKey}
    (hinserted : ∀ k, k ∈ inserted ↔ k ∈ os.map (Hashed.key call.seriesId) ∧ stored k = none) :
    call.apply env caller stored = some (⟨call.observations.length, inserted.card, 0,
      os.length - inserted.card⟩, insertAll stored (os.map (Hashed.row caller call.seriesId))) := by
  obtain ⟨xs, hxs, hos, hsame⟩ := h.rows caller
  have hall : insertAll stored (os.map (Hashed.row caller call.seriesId)) = insertAll stored xs := by
    rw [hos, insertAll_firstsFrom, List.nil_append]
  have hkeys : ∀ k, k ∈ os.map (Hashed.key call.seriesId) ↔ k ∈ xs.map Prod.fst := fun k => by
    rw [← keys_map_row, hos, mem_keys_firstsFrom, List.nil_append]
  have hagrees : Agrees (·.payloadHash) stored xs := fun x hx v hv => by
    obtain ⟨o, ho, hk, hph⟩ := hsame x hx
    exact (hagree o ho v (by rwa [hall, hk])).trans hph
  obtain ⟨outcomes, hadd⟩ := addAll_of_agrees hagrees
  have hcard : outcomes.count .inserted = inserted.card := by
    rw [card_inserted hadd]
    congr 1
    ext k
    rw [Finset.mem_filter, List.mem_toFinset, hinserted, hkeys]
  have hlength : (xs.map Prod.fst).dedup.length = os.length := by
    have hperm : (xs.map Prod.fst).dedup.Perm (os.map (Hashed.key call.seriesId)) := by
      refine (List.perm_ext_iff_of_nodup (List.nodup_dedup _) h.nodup).2 fun k => ?_
      rw [List.mem_dedup, hkeys]
    rw [hperm.length_eq, List.length_map]
  rw [WriteCall.apply, if_neg hactor, hxs]
  simp only [hadd, Option.map_some, countsOf, hcard, hlength, hall]

/-- They cannot where one that is left has another hash than what is there. -/
theorem apply_eq_none (h : Deduped env call os) {o : Hashed} (ho : o ∈ os) {v : ObservationColumns}
    (hv : insertAll stored (os.map (Hashed.row caller call.seriesId)) (o.key call.seriesId) = some v)
    (hne : v.payloadHash ≠ o.ph) : call.apply env caller stored = none := by
  obtain ⟨xs, hxs, hos, -⟩ := h.rows caller
  have hall : insertAll stored (os.map (Hashed.row caller call.seriesId)) = insertAll stored xs := by
    rw [hos, insertAll_firstsFrom, List.nil_append]
  rw [WriteCall.apply, hxs]
  split_ifs with hactor
  · rfl
  have hmem : o.row caller call.seriesId ∈ xs := by
    have hfirst := List.mem_map_of_mem (f := Hashed.row caller call.seriesId) ho
    rw [hos] at hfirst
    exact mem_of_mem_firstsFrom hfirst
  rcases hadd : addAll (·.payloadHash) stored xs with _ | ⟨outcomes, r⟩
  · simp only [hadd, Option.map_none]
  · -- What can be added agrees with what is there in the end.
    have hagrees : Agrees (·.payloadHash) stored xs :=
      addAll_isSome_iff.1 (Option.isSome_iff_exists.2 ⟨_, hadd⟩)
    exact absurd (hagrees _ hmem v (by rwa [← hall])) hne

end Deduped

theorem apply_eq_some_iff {r : Rows} : call.apply env caller stored = some (count, r) ↔
    ¬(env.auditStrict ∧ caller.currentActor = none) ∧ ∃ xs outcomes,
      call.rows env caller = .ok xs ∧ addAll (·.payloadHash) stored xs = some (outcomes, r) ∧
      count = countsOf call.observations.length xs outcomes := by
  rw [WriteCall.apply]
  split_ifs with hactor
  · simp [hactor]
  · rcases hxs : call.rows env caller with e | xs
    · simp
    · simp only [Option.map_eq_some_iff, Prod.mk.injEq, Prod.exists]
      constructor
      · rintro ⟨outcomes, r', hadd, rfl, rfl⟩
        exact ⟨hactor, xs, outcomes, rfl, hadd, rfl⟩
      · rintro ⟨-, xs', outcomes, hxs', hadd, rfl⟩
        cases hxs'
        exact ⟨outcomes, r, hadd, rfl, rfl⟩

theorem keys_of_rows (h : call.rows env caller = .ok xs) :
    call.keys env caller = xs.map Prod.fst := by
  rw [WriteCall.keys, h]

/-- A call that can be made passes phase 0. -/
theorem exists_deduped {r : Rows} (h : call.apply env caller stored = some (count, r)) :
    ∃ os, Deduped env call os := by
  obtain ⟨-, xs, outcomes, hxs, hadd, -⟩ := apply_eq_some_iff.1 h
  obtain ⟨validated, hs, hv, hhs, rfl⟩ := rows_eq_ok hxs
  have hagrees : Agrees (·.payloadHash) stored (hs.map (Hashed.row caller call.seriesId)) :=
    addAll_isSome_iff.1 (Option.isSome_iff_exists.2 ⟨_, hadd⟩)
  have hsame : ∀ o ∈ [] ++ hs, ∀ o' ∈ [] ++ hs, o.key call.seriesId = o'.key call.seriesId →
      o.ph = o'.ph := fun o ho o' ho' hk =>
    hagrees.hash_eq (List.mem_map_of_mem ho) (List.mem_map_of_mem ho') hk
  obtain ⟨os, hos⟩ := exists_dedupe hhs hsame
  exact ⟨os, ⟨validated, hv, hos⟩⟩

section

variable {r : Rows}

/-- A call leaves everything but its keys, and something under each of these. -/
theorem rows_of_apply (h : call.apply env caller stored = some (count, r)) (k : ObservationKey) :
    (∀ v, stored k = some v → r k = some v) ∧ (k ∈ call.keys env caller → (r k).isSome) ∧
      (k ∉ call.keys env caller → r k = stored k) := by
  obtain ⟨-, xs, outcomes, hxs, hadd, -⟩ := apply_eq_some_iff.1 h
  obtain rfl := rows_of_addAll hadd
  rw [keys_of_rows hxs]
  exact ⟨fun v hv => insertAll_of_eq_some hv, isSome_insertAll, insertAll_of_notMem⟩

/-- What is stored under other keys does not matter to a call. -/
theorem apply_congr (h : call.apply env caller stored = some (count, r))
    (hk : ∀ k ∈ call.keys env caller, stored' k = stored k) :
    ∃ r', call.apply env caller stored' = some (count, r') ∧
      ∀ k ∈ call.keys env caller, r' k = r k := by
  obtain ⟨hactor, xs, outcomes, hxs, hadd, rfl⟩ := apply_eq_some_iff.1 h
  rw [keys_of_rows hxs] at hk ⊢
  obtain rfl := rows_of_addAll hadd
  exact ⟨_, apply_eq_some_iff.2 ⟨hactor, xs, outcomes, hxs, addAll_congr hk hadd, rfl⟩,
    fun _ => insertAll_congr hk⟩

/-- The less is stored, the more can be added. -/
theorem apply_isSome_of_below (hbelow : Below (·.payloadHash) stored stored')
    (h : call.apply env caller stored' = some (count, r)) :
    ∃ count' r', call.apply env caller stored = some (count', r') ∧
      Below (·.payloadHash) r' r := by
  obtain ⟨hactor, xs, outcomes, hxs, hadd, rfl⟩ := apply_eq_some_iff.1 h
  obtain rfl := rows_of_addAll hadd
  obtain ⟨hsome, hbelow'⟩ := addAll_isSome_of_below hbelow (Option.isSome_iff_exists.2 ⟨_, hadd⟩)
  obtain ⟨outcomes', hadd'⟩ := addAll_of_agrees (addAll_isSome_iff.1 hsome)
  exact ⟨_, _, apply_eq_some_iff.2 ⟨hactor, xs, outcomes', hxs, hadd', rfl⟩, hbelow'⟩

/-! ### Transactions -/

theorem applyAll_cons_eq_some : applyAll env caller stored (call :: calls) = some (counts, r) ↔
    ∃ count counts' stored', call.apply env caller stored = some (count, stored') ∧
      applyAll env caller stored' calls = some (counts', r) ∧ counts = count :: counts' := by
  constructor
  · intro h
    obtain ⟨⟨count, stored'⟩, hcall, h⟩ := Option.bind_eq_some_iff.1 h
    obtain ⟨⟨counts', r'⟩, hcalls, h⟩ := Option.bind_eq_some_iff.1 h
    cases h
    exact ⟨count, counts', stored', hcall, hcalls, rfl⟩
  · rintro ⟨count, counts', stored', hcall, hcalls, rfl⟩
    exact Option.bind_eq_some_iff.2 ⟨_, hcall, Option.bind_eq_some_iff.2 ⟨_, hcalls, rfl⟩⟩

theorem applyAll_concat {r' : Rows} (h : applyAll env caller stored calls = some (counts, r))
    (h' : call.apply env caller r = some (count, r')) :
    applyAll env caller stored (calls ++ [call]) = some (counts ++ [count], r') := by
  induction calls generalizing stored counts with
  | nil =>
    cases h
    exact applyAll_cons_eq_some.2 ⟨count, [], r', h', rfl, rfl⟩
  | cons call₁ calls ih =>
    obtain ⟨count₁, counts', stored', hcall, hcalls, rfl⟩ := applyAll_cons_eq_some.1 h
    exact applyAll_cons_eq_some.2 ⟨count₁, counts' ++ [count], stored', hcall, ih hcalls, rfl⟩

/-- The first call that fails makes all fail. -/
theorem applyAll_eq_none (h : applyAll env caller stored calls = some (counts, r))
    (h' : call.apply env caller r = none) :
    applyAll env caller stored (calls ++ call :: calls') = none := by
  induction calls generalizing stored counts with
  | nil =>
    cases h
    rw [List.nil_append, applyAll, h']
    rfl
  | cons call₁ calls ih =>
    obtain ⟨count₁, counts', stored', hcall, hcalls, rfl⟩ := applyAll_cons_eq_some.1 h
    rw [List.cons_append, applyAll, hcall]
    simp only [Option.bind_eq_bind, Option.bind_some, ih hcalls]
    rfl

/-- The keys of the calls. -/
def keysOf (env : Env) (caller : Caller) (calls : List WriteCall) : List ObservationKey :=
  calls.flatMap (WriteCall.keys env caller)

theorem rows_of_applyAll (h : applyAll env caller stored calls = some (counts, r))
    (k : ObservationKey) : (∀ v, stored k = some v → r k = some v) ∧
      (k ∈ keysOf env caller calls → (r k).isSome) ∧
      (k ∉ keysOf env caller calls → r k = stored k) := by
  induction calls generalizing stored counts with
  | nil =>
    cases h
    exact ⟨fun _ => id, by rintro ⟨⟩, fun _ => rfl⟩
  | cons call calls ih =>
    obtain ⟨count, counts', stored', hcall, hcalls, rfl⟩ := applyAll_cons_eq_some.1 h
    obtain ⟨hkeep, hmem, hnot⟩ := rows_of_apply hcall k
    obtain ⟨hkeep', hmem', hnot'⟩ := ih hcalls
    refine ⟨fun v hv => hkeep' v (hkeep v hv), fun hk => ?_, fun hk => ?_⟩
    · rw [keysOf, List.flatMap_cons, List.mem_append] at hk
      rcases hk with hk | hk
      · obtain ⟨v, hv⟩ := Option.isSome_iff_exists.1 (hmem hk)
        rw [hkeep' v hv]
        rfl
      · exact hmem' hk
    · rw [keysOf, List.flatMap_cons, List.mem_append, not_or] at hk
      rw [hnot' hk.2, hnot hk.1]

/-- What is stored under other keys does not matter to the calls. -/
theorem applyAll_congr (h : applyAll env caller stored calls = some (counts, r))
    (hk : ∀ k ∈ keysOf env caller calls, stored' k = stored k) :
    ∃ r', applyAll env caller stored' calls = some (counts, r') ∧
      ∀ k ∈ keysOf env caller calls, r' k = r k := by
  induction calls generalizing stored stored' counts with
  | nil =>
    cases h
    exact ⟨stored', rfl, by rintro k ⟨⟩⟩
  | cons call calls ih =>
    obtain ⟨count, counts', stored₁, hcall, hcalls, rfl⟩ := applyAll_cons_eq_some.1 h
    have hmem : ∀ k, k ∈ keysOf env caller (call :: calls) ↔
        k ∈ call.keys env caller ∨ k ∈ keysOf env caller calls := fun k => by
      rw [keysOf, List.flatMap_cons, List.mem_append]
      rfl
    obtain ⟨r₁, hcall', hr₁⟩ := apply_congr hcall fun k hk' => hk k ((hmem k).2 (.inl hk'))
    have hstored : ∀ k ∈ keysOf env caller calls, r₁ k = stored₁ k := fun k hk' => by
      by_cases hcallk : k ∈ call.keys env caller
      · exact hr₁ k hcallk
      · rw [(rows_of_apply hcall' k).2.2 hcallk, hk k ((hmem k).2 (.inr hk')),
          (rows_of_apply hcall k).2.2 hcallk]
    obtain ⟨r', hcalls', hr'⟩ := ih hcalls hstored
    refine ⟨r', applyAll_cons_eq_some.2 ⟨_, _, _, hcall', hcalls', rfl⟩, fun k hk' => ?_⟩
    by_cases hcallsk : k ∈ keysOf env caller calls
    · exact hr' k hcallsk
    · have hcallk := ((hmem k).1 hk').resolve_right hcallsk
      rw [(rows_of_applyAll hcalls' k).2.2 hcallsk, hr₁ k hcallk,
        (rows_of_applyAll hcalls k).2.2 hcallsk]

/-- What cannot be added to some rows cannot be added to more of them. -/
theorem applyAll_eq_none_of_below (hbelow : Below (·.payloadHash) stored stored')
    (h : applyAll env caller stored calls = none) : applyAll env caller stored' calls = none := by
  have hsome : ∀ {counts r stored stored'}, Below (·.payloadHash) stored stored' →
      applyAll env caller stored' calls = some (counts, r) →
      (applyAll env caller stored calls).isSome := by
    clear hbelow h
    induction calls with
    | nil => exact fun _ _ => rfl
    | cons call calls ih =>
      intro counts r stored stored' hbelow h
      obtain ⟨count, counts', stored₁, hcall, hcalls, rfl⟩ := applyAll_cons_eq_some.1 h
      obtain ⟨count', r', hcall', hbelow'⟩ := apply_isSome_of_below hbelow hcall
      obtain ⟨⟨counts'', r''⟩, hcalls'⟩ := Option.isSome_iff_exists.1 (ih hbelow' hcalls)
      exact Option.isSome_iff_exists.2
        ⟨_, applyAll_cons_eq_some.2 ⟨_, _, _, hcall', hcalls', rfl⟩⟩
  rcases h' : applyAll env caller stored' calls with _ | ⟨counts, r⟩
  · rfl
  · have := hsome hbelow h'
    rw [h] at this
    cases this

end

end Writing

end Timeseries

end AslanCore
