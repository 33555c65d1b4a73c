import AslanCore.Process.Outline
import AslanCore.Timeseries.WriteSteps

/-!
# Calls amid other writers

What a writer knows after each part of a call of `ObservationWriter.write`, whatever the others do.

* `Amid`: it has inserted the first observations, and has seen that those that were there have the
  same hashes;
* `safe_writeChunk`, `safe_writeChunks`: so it has after each statement, and after the last;
* `safe_emitWriteBatchAudit`: then it records the batch, and with its last key the call is done;
* `safe_write`: a call is made on what its transaction sees, or cannot be made.
-/

set_option linter.unusedSectionVars false

namespace AslanCore

namespace Timeseries

namespace Writing

open Insertion Database Outline

/-- The database has what a job refers to, and its columns admit what it writes. -/
structure Storable (env : Env) (rows : (k : Key) → Option (RowOf k)) (job : WriteJob) : Prop where
  seriesId : ∀ call ∈ job.calls, -2 ^ 63 ≤ call.seriesId ∧ call.seriesId < 2 ^ 63
  series : ∀ call ∈ job.calls, (rows (.series call.seriesId)).isSome
  ingestionRun : (rows (.ingestionRun job.caller.ingestionRunId)).isSome
  admits : ∀ call ∈ job.calls, ∀ xs, call.rows env job.caller = .ok xs → ∀ x ∈ xs,
    env.admits x.2 = true

/-- Where a run is healthy, no statement fails, and jobs are storable. -/
structure Careful {P : Type} (g : Guard Cmd P WriteJob Choice (World P)) (healthy : Prop) (env : Env)
    (rows : (k : Key) → Option (RowOf k)) : Prop where
  fault : healthy → ∀ {p c o s}, g.step p c o s → o.fault = .none
  start : healthy → ∀ {p job s}, g.start p job s → Storable env rows job

/-- The hashes of observations, under their keys. -/
def hashesOf (seriesId : ℤ) (os : List Hashed) : List (ObservationKey × String) :=
  os.map fun o => (o.key seriesId, o.ph)

section

variable {P : Type} [DecidableEq P] {env : Env} {rows : (k : Key) → Option (RowOf k)} {first : ℕ}
  {healthy : Prop} {g : Guard Cmd P WriteJob Choice (World P)} {p : P} {s s' : World P} {c : Cmd}
  {job : WriteJob} {call : WriteCall} {done rest : List WriteCall} {os pre chunk : List Hashed}
  {counts : List WriteCount} {batches : List Batch} {inserted : Finset ObservationKey}
  {db db' : Database P Key RowOf}

/-! ### Loops without commands -/

/-- The checks of a set: one of them fails, or all pass. -/
theorem foldlM_raiseError {f : ObservationKey → Except WriteError Unit} (ks : List ObservationKey)
    (acc : Finset ObservationKey) :
    (∃ k ∈ ks, ∃ e, f k = .error e ∧ ks.foldlM (fun keys k => do
      raiseError (f k)
      return insert k keys) acc = (.raise e : Program (Finset ObservationKey))) ∨
    ((∀ k ∈ ks, f k = .ok ()) ∧ ks.foldlM (fun keys k => do
      raiseError (f k)
      return insert k keys) acc = (.ret (acc ∪ ks.toFinset) : Program (Finset ObservationKey))) := by
  induction ks generalizing acc with
  | nil =>
    right
    refine ⟨by simp, ?_⟩
    simp [pure]
  | cons k ks ih =>
    rw [List.foldlM_cons]
    rcases hk : f k with e | _
    · exact .inl ⟨k, List.mem_cons_self, e, hk, rfl⟩
    · rcases ih (insert k acc) with ⟨k', hk', e, he, heq⟩ | ⟨hall, heq⟩
      · exact .inl ⟨k', List.mem_cons_of_mem _ hk', e, he, heq⟩
      · refine .inr ⟨fun k' hk' => ?_, ?_⟩
        · rcases List.mem_cons.1 hk' with rfl | hk'
          · exact hk
          · exact hall k' hk'
        · refine heq.trans (congrArg Prog.ret ?_)
          rw [List.toFinset_cons, Finset.insert_union, Finset.union_insert]

theorem lookup_filterMap {α : Type} {f : ObservationKey → Option α} {ks : List ObservationKey}
    {k : ObservationKey} {a : α} (hk : k ∈ ks) (hf : f k = some a) :
    (ks.filterMap fun k => (f k).map fun a => (k, a)).lookup k = some a := by
  induction ks with
  | nil => cases hk
  | cons k' ks ih =>
    by_cases hkk : k = k'
    · subst hkk
      simp [hf]
    · have hmem := (List.mem_cons.1 hk).resolve_left hkk
      rcases hf' : f k' with _ | a'
      · simp only [List.filterMap_cons, hf', Option.map_none, ih hmem]
      · simp only [List.filterMap_cons, hf', Option.map_some, List.lookup_cons]
        rw [beq_false_of_ne hkk]
        exact ih hmem

/-- What `checkStored` finds is another hash than the one that was read back. -/
theorem checkStored_eq_error {existing : List (ObservationKey × String)} {seriesId : ℤ}
    {k : ObservationKey} {ph : String} {e : WriteError} (hph : existing.lookup k = some ph)
    (h : checkStored chunk seriesId existing k = .error e) :
    ∃ o ∈ chunk, o.key seriesId = k ∧ ph ≠ o.ph := by
  rw [checkStored] at h
  rcases hfind : chunk.find? fun o => o.key seriesId = k with _ | o
  · rw [hfind] at h
    cases h
  · rw [hfind] at h
    simp only [hph] at h
    split_ifs at h with hne
    exact ⟨o, List.mem_of_find?_eq_some hfind, by simpa using List.find?_some hfind, hne⟩

/-- What it passes has the hash that was read back. -/
theorem checkStored_eq_ok {existing : List (ObservationKey × String)} {seriesId : ℤ}
    {o : Hashed} {ph : String} (hph : existing.lookup (o.key seriesId) = some ph)
    (hnodup : (chunk.map (Hashed.key seriesId)).Nodup) (ho : o ∈ chunk)
    (h : checkStored chunk seriesId existing (o.key seriesId) = .ok ()) : ph = o.ph := by
  rw [checkStored] at h
  rcases hfind : chunk.find? fun o' => o'.key seriesId = o.key seriesId with _ | o'
  · exact absurd (decide_eq_true rfl) (List.find?_eq_none.1 hfind o ho)
  · have hkey : o'.key seriesId = o.key seriesId := by simpa using List.find?_some hfind
    obtain rfl := List.inj_on_of_nodup_map hnodup (List.mem_of_find?_eq_some hfind) ho hkey
    rw [hfind] at h
    simp only [hph] at h
    split_ifs at h with heq
    exact heq

/-- The keys that are recorded of a batch. -/
def batchKeys (seriesId : ℤ) (occurredAt : Timestamp) (inserted : Finset ObservationKey)
    (os : List Hashed) : List (ObservationKey × BatchKeyColumns) :=
  os.map fun o => (o.key seriesId,
    ⟨occurredAt, o.ph, if o.key seriesId ∈ inserted then .inserted else .unchanged⟩)

theorem mapM_actionOf {seriesId : ℤ} {occurredAt : Timestamp}
    {insertedKeys unchangedKeys : Finset ObservationKey}
    (h : ∀ o ∈ os, o.key seriesId ∈ insertedKeys ∨ o.key seriesId ∈ unchangedKeys) :
    (os.mapM fun o => do
      let action ← actionOf seriesId insertedKeys unchangedKeys o
      return (o.key seriesId, (⟨occurredAt, o.ph, action⟩ : BatchKeyColumns))) =
      .ok (batchKeys seriesId occurredAt insertedKeys os) := by
  induction os with
  | nil => rfl
  | cons o os ih =>
    rw [List.mapM_cons, ih fun o' ho' => h o' (List.mem_cons_of_mem _ ho'), batchKeys, batchKeys,
      List.map_cons, actionOf]
    by_cases hin : o.key seriesId ∈ insertedKeys
    · simp only [if_pos hin]
      rfl
    · simp only [if_neg hin, if_pos ((h o List.mem_cons_self).resolve_left hin)]
      rfl

theorem keys_batchKeys {seriesId : ℤ} {occurredAt : Timestamp} :
    (batchKeys seriesId occurredAt inserted os).map Prod.fst = os.map (Hashed.key seriesId) := by
  rw [batchKeys, List.map_map]
  rfl

/-- The batch inserts what is said of it. -/
theorem inserts_batchKeys {seriesId : ℤ} {occurredAt : Timestamp} {n : ℕ} {event : WriteBatchEvent}
    (hinserted : ∀ k ∈ inserted, k ∈ os.map (Hashed.key seriesId)) (k : ObservationKey) :
    k ∈ inserted ↔
      Batch.Inserts ⟨n, event, batchKeys seriesId occurredAt inserted os⟩ k := by
  constructor
  · intro hk
    obtain ⟨o, ho, rfl⟩ := List.mem_map.1 (hinserted k hk)
    exact ⟨_, List.mem_map_of_mem ho, if_pos hk⟩
  · rintro ⟨c, hc, hact⟩
    obtain ⟨o, -, heq⟩ := List.mem_map.1 hc
    cases heq
    by_contra hk
    rw [if_neg hk] at hact
    cases hact

/-- As many members of a list are in a set of them as the set has elements. -/
theorem countP_mem {α : Type} [DecidableEq α] {l : List α} (hl : l.Nodup) {t : Finset α}
    (ht : ∀ a ∈ t, a ∈ l) : (l.countP fun a => a ∈ t) = t.card := by
  have heq : (l.filter fun a => a ∈ t).toFinset = t := by
    ext a
    rw [List.mem_toFinset, List.mem_filter, decide_eq_true_eq]
    exact and_iff_right_of_imp (ht a)
  rw [List.countP_eq_length_filter, ← List.toFinset_card_of_nodup (hl.filter _), heq]

/-- The keys are those of the event, if the hashes are seen. -/
theorem describes_batchKeys {caller : Caller} {seriesId : ℤ} {attempted : ℕ} {o : Hashed}
    {os : List Hashed} {hash : String} {insertedKeys unchangedKeys : Finset ObservationKey} {occurredAt : Timestamp}
    {n : ℕ} (hnodup : ((o :: os).map (Hashed.key seriesId)).Nodup)
    (hinserted : ∀ k ∈ insertedKeys, k ∈ (o :: os).map (Hashed.key seriesId))
    (hunchanged : ∀ k, k ∈ unchangedKeys ↔
      k ∈ (o :: os).map (Hashed.key seriesId) ∧ k ∉ insertedKeys)
    (hsees : Sees p (hashesOf seriesId (o :: os)) db) :
    Batch.Describes ⟨n, writeBatchEvent caller seriesId attempted o os hash insertedKeys.card
      unchangedKeys.card occurredAt, batchKeys seriesId occurredAt insertedKeys (o :: os)⟩
      (Writing.observations (db.view p)) := by
  refine ⟨?_, ?_, ?_, ?_, fun x hx => ?_⟩
  · rwa [keys_batchKeys]
  · exact (List.length_map _).symm
  · rw [← countP_mem hnodup hinserted, batchKeys, List.countP_map, List.countP_map]
    refine List.countP_congr fun o' _ => ?_
    simp only [Function.comp_apply, decide_eq_true_eq]
    split_ifs with hin <;> simp [hin]
  · rw [← countP_mem hnodup fun k hk => ((hunchanged k).1 hk).1, batchKeys, List.countP_map,
      List.countP_map]
    refine List.countP_congr fun o' ho' => ?_
    simp only [Function.comp_apply, decide_eq_true_eq, hunchanged,
      and_iff_right (List.mem_map_of_mem (f := Hashed.key seriesId) ho')]
    split_ifs with hin <;> simp [hin]
  · obtain ⟨o', ho', rfl⟩ := List.mem_map.1 hx
    exact ⟨rfl, rfl, hsees _ (List.mem_map_of_mem ho')⟩

/-! ### Programs -/

/-- A command that does not end a transaction is safe. -/
theorem safe_request {Q : Except WriteError (Reply c) → World P → Prop}
    (hg : Careful g healthy env rows) (a : Database P Key RowOf → Prop)
    (ha : ∀ {db db'}, Frame p db db' → Keeps db db' → a db → a db') (h : a s.db)
    (hknow : ∀ s : World P, a s.db → (writeOutline P env rows first healthy).know p c s)
    (hc : ∀ o r (s₁ s₂ : World P), Inv env rows first s₁ → a s₁.db → (healthy → o.fault = .none) →
      World.exec env p c o s₁ = some (r, s₂) → Q r s₂) :
    (writeOutline P env rows first healthy).Safe (system env P) g p (request c) Q s :=
  safe_perform (fun s => a s.db) (fun _ _ hr h => ha hr.1 hr.2.1 h) h fun s₁ hi ha =>
    ⟨hknow s₁ ha, fun o r s₂ ho hex _ => hc o r s₁ s₂ hi ha (fun hh => hg.fault hh ho) hex⟩

/-- What a writer knows amid a call: it has inserted `pre`, or checked it. -/
def Amid (env : Env) (first : ℕ) (job : WriteJob) (p : P) (call : WriteCall) (done : List WriteCall)
    (counts : List WriteCount) (batches : List Batch) (os : List Hashed)
    (inserted : Finset ObservationKey) (current : Option Batch) (hashed : List Hashed)
    (db : Database P Key RowOf) : Prop :=
  Working env first job.caller p done counts batches (os.map (Hashed.row job.caller call.seriesId))
    inserted current db ∧ Sees p (hashesOf call.seriesId hashed) db

theorem Amid.stable {current : Option Batch} {hashed : List Hashed}
    (h : Amid env first job p call done counts batches os inserted current hashed db)
    (hf : Frame p db db') (hk : Keeps db db') :
    Amid env first job p call done counts batches os inserted current hashed db' :=
  ⟨h.1.stable hf hk, h.2.stable hf hk⟩

/-- A row with another hash is there: the calls cannot be made. -/
theorem raises_of_differs {e : WriteError} {o : Hashed} {row : ObservationColumns}
    (hjob : job.calls = done ++ call :: rest) (hos : Deduped env call os) (ho : o ∈ os)
    (h : Applied env job.caller p done counts (pre.map (Hashed.row job.caller call.seriesId)) inserted
      s.db) (hpre : o.key call.seriesId ∈ pre.map (Hashed.key call.seriesId))
    (hnew : o.key call.seriesId ∉ inserted)
    (hrow : Writing.observations (s.db.view p) (o.key call.seriesId) = some row)
    (hne : row.payloadHash ≠ o.ph) : Raises env healthy job e s := by
  obtain ⟨before, happly, hseen, hinserted⟩ := h
  refine .inr (.inr ?_)
  rw [hjob]
  refine applyAll_eq_none happly ?_
  -- The row was there before the call.
  rcases hbefore : before (o.key call.seriesId) with _ | row'
  · exact absurd ((hinserted _).2 ⟨by rwa [keys_map_row], hbefore⟩) hnew
  · rw [hseen, insertAll_of_eq_some hbefore] at hrow
    cases hrow
    exact hos.apply_eq_none ho (insertAll_of_eq_some hbefore) hne

/-! ### Statements -/

/-- What a writer knows amid a statement of `_write_chunk`: it has inserted the rows `ins` of the
    chunk, after those of `pre`, and those under `keys` are new. -/
structure Inserting (env : Env) (first : ℕ) (job : WriteJob) (p : P) (call : WriteCall)
    (done : List WriteCall) (counts : List WriteCount) (batches : List Batch) (pre ins : List Hashed)
    (inserted keys : Finset ObservationKey) (db : Database P Key RowOf) : Prop where
  amid : Amid env first job p call done counts batches (pre ++ ins) (inserted ∪ keys) none pre db
  subset : ∀ k ∈ keys, k ∈ ins.map (Hashed.key call.seriesId)
  sees : ∀ o ∈ ins, o.key call.seriesId ∈ keys → Sees p [(o.key call.seriesId, o.ph)] db

theorem Inserting.stable {ins : List Hashed} {keys : Finset ObservationKey}
    (h : Inserting env first job p call done counts batches pre ins inserted keys db)
    (hf : Frame p db db') (hk : Keeps db db') :
    Inserting env first job p call done counts batches pre ins inserted keys db' :=
  ⟨h.amid.stable hf hk, h.subset, fun o ho hkey => (h.sees o ho hkey).stable hf hk⟩

/-- The hashes of the chunk are seen when those of the keys that were there are. -/
theorem Inserting.amid_all {keys : Finset ObservationKey}
    (h : Inserting env first job p call done counts batches pre chunk inserted keys db)
    (hrest : ∀ o ∈ chunk, o.key call.seriesId ∉ keys → Sees p [(o.key call.seriesId, o.ph)] db) :
    Amid env first job p call done counts batches (pre ++ chunk) (inserted ∪ keys) none (pre ++ chunk)
      db := by
  refine ⟨h.amid.1, fun x hx => ?_⟩
  rw [hashesOf, List.map_append, List.mem_append] at hx
  rcases hx with hx | hx
  · exact h.amid.2 x hx
  · obtain ⟨o, ho, rfl⟩ := List.mem_map.1 hx
    by_cases hk : o.key call.seriesId ∈ keys
    · exact h.sees o ho hk _ (List.mem_singleton_self _)
    · exact hrest o ho hk _ (List.mem_singleton_self _)

/-- The keys of a chunk are different, and other ones than those before. -/
theorem Deduped.nodup_chunk {post : List Hashed} (hos : Deduped env call os)
    (hsplit : os = pre ++ (chunk ++ post)) : (chunk.map (Hashed.key call.seriesId)).Nodup ∧
      (pre.map (Hashed.key call.seriesId)).Disjoint (chunk.map (Hashed.key call.seriesId)) := by
  have hnodup := hos.nodup
  rw [hsplit, List.map_append, List.map_append, ← List.append_assoc] at hnodup
  have hfront := (List.nodup_append'.1 hnodup).1
  exact ⟨(List.nodup_append'.1 hfront).2.1, List.disjoint_of_nodup_append hfront⟩

/-- What was inserted before a chunk is under other keys. -/
theorem Amid.notMem_inserted {post : List Hashed} (hos : Deduped env call os)
    (hsplit : os = pre ++ (chunk ++ post))
    (h : Amid env first job p call done counts batches pre inserted none pre db) {k : ObservationKey}
    (hk : k ∈ chunk.map (Hashed.key call.seriesId)) : k ∉ inserted := by
  obtain ⟨before, -, -, hinserted⟩ := h.1.applied
  intro hin
  have hpre := ((hinserted k).1 hin).1
  rw [keys_map_row] at hpre
  exact (hos.nodup_chunk hsplit).2 hpre hk

/-- The rows of a call are storable when its job is. -/
theorem Storable.columns (h : Storable env rows job) (hcall : call ∈ job.calls)
    (hos : Deduped env call os) {o : Hashed} (ho : o ∈ os) :
    env.admits (o.columns job.caller) = true ∧ (rows (.series (o.key call.seriesId).1)).isSome ∧
      (rows (.ingestionRun (o.columns job.caller).ingestionRunId)).isSome := by
  obtain ⟨xs, hxs, hfirst, -⟩ := hos.rows job.caller
  have hmem := List.mem_map_of_mem (f := Hashed.row job.caller call.seriesId) ho
  rw [hfirst] at hmem
  exact ⟨h.admits call hcall xs hxs _ (mem_of_mem_firstsFrom hmem), h.series call hcall,
    h.ingestionRun⟩

section

variable (hg : Careful g healthy env rows) (hjob : job.calls = done ++ call :: rest)
  (hos : Deduped env call os) (hstorable : healthy → Storable env rows job)

include hg hjob hos hstorable

/-- One row of the statement. -/
theorem safe_insertOne {ins post : List Hashed} {o : Hashed} {keys : Finset ObservationKey}
    (hsplit : os = pre ++ (ins ++ o :: post))
    (h : Inserting env first job p call done counts batches pre ins inserted keys s.db) :
    (writeOutline P env rows first healthy).Safe (system env P) g p (do
      let inserted ← request (.insertObservation (o.key call.seriesId) (o.columns job.caller))
      return if inserted then insert (o.key call.seriesId) keys else keys : Program _)
      (outcome (fun keys s' => Inserting env first job p call done counts batches pre (ins ++ [o])
        inserted keys s'.db) fun e s' => Raises env healthy job e s') s := by
  have hcall : call ∈ job.calls := hjob ▸ List.mem_append_right _ List.mem_cons_self
  have ho : o ∈ os := hsplit ▸ List.mem_append_right _
    (List.mem_append_right _ List.mem_cons_self)
  -- The key is not among those of the rows that have been inserted.
  have hnew : o.key call.seriesId ∉ (pre ++ ins).map (Hashed.key call.seriesId) := by
    have hnodup := hos.nodup
    rw [hsplit, ← List.append_assoc, List.map_append, List.map_cons] at hnodup
    exact fun hmem => (List.disjoint_of_nodup_append hnodup) hmem List.mem_cons_self
  refine safe_bind.2 (safe_request hg
    (Inserting env first job p call done counts batches pre ins inserted keys)
    (fun hf hk h => h.stable hf hk) h (fun _ _ => trivial) fun c r s₁ s₂ hi h₁ hfault hex => ?_)
  rcases exec_insertObservation hi h₁.amid.1 hfault rfl hex (by rwa [keys_map_row])
    (fun hh => (hstorable hh).columns hcall hos ho) with ⟨b, rfl, hw, hsees, hself⟩ | ⟨rfl, hh⟩
  · refine ⟨⟨?_, hsees _ h₁.amid.2⟩, fun k hk => ?_, fun o' ho' hk => ?_⟩
    · rw [← List.append_assoc, List.map_append]
      rcases b with _ | _
      · exact hw
      · rw [if_pos rfl, Finset.union_insert]
        exact hw
    · rw [List.map_append, List.mem_append]
      rcases b with _ | _
      · exact .inl (h₁.subset k hk)
      · rcases Finset.mem_insert.1 hk with rfl | hk
        · exact .inr (List.mem_singleton_self _)
        · exact .inl (h₁.subset k hk)
    · rcases List.mem_append.1 ho' with ho' | ho'
      · -- Its key is another one, so it was among the keys before.
        have hkey : o'.key call.seriesId ∈ keys := by
          rcases b with _ | _
          · exact hk
          · refine (Finset.mem_insert.1 hk).resolve_left fun heq => hnew ?_
            exact heq ▸ List.mem_map_of_mem (List.mem_append_right _ ho')
        exact hsees _ (h₁.sees o' ho' hkey)
      · obtain rfl := List.mem_singleton.1 ho'
        rcases b with _ | _
        · exact absurd (List.mem_append_right _ (h₁.subset _ hk)) (by rwa [List.map_append] at hnew)
        · exact hself rfl
  · exact .inl ⟨rfl, hh⟩

omit hjob hos hstorable in
/-- What is read back of the keys that were there. -/
theorem safe_readBack {chunk : List Hashed} {keys : Finset ObservationKey}
    {conflicted : List ObservationKey} (hsub : conflicted ⊆ chunk.map (Hashed.key call.seriesId))
    (h : Inserting env first job p call done counts batches pre chunk inserted keys s.db) :
    (writeOutline P env rows first healthy).Safe (system env P) g p (request (.readBack conflicted))
      (outcome (fun existing s' =>
        Inserting env first job p call done counts batches pre chunk inserted keys s'.db ∧
          ∀ k ∈ conflicted, ∃ ph, existing.lookup k = some ph ∧ Sees p [(k, ph)] s'.db)
        fun e s' => Raises env healthy job e s') s := by
  refine safe_request hg
    (Inserting env first job p call done counts batches pre chunk inserted keys)
    (fun hf hk h => h.stable hf hk) h (fun _ _ => trivial) fun c r s₁ s₂ hi h₁ hfault hex => ?_
  rcases exec_quiet h₁.amid.1 hfault hex (fun a db' ha => by
    cases ha
    exact ⟨.refl _ _, rfl⟩) (by rintro e ⟨⟩) with ⟨existing, db', rfl, ha, hw, hstays⟩ | ⟨rfl, hh⟩
  · cases ha
    -- A statement that only reads leaves the view as it is, and so what is known of the rows.
    have hview : s₂.db.view p = s₁.db.view p := by
      funext key
      rw [Database.view, Database.view, hstays.pending, hstays.committed]
    have hsees : ∀ hashes, Sees p hashes s₁.db → Sees p hashes s₂.db := fun hashes h => by
      rwa [Sees, hview]
    refine ⟨⟨⟨hw, hsees _ h₁.amid.2⟩, h₁.subset, fun o ho hk => hsees _ (h₁.sees o ho hk)⟩,
      fun k hk => ?_⟩
    -- The row of every key that was given is there now.
    obtain ⟨before, -, hseen, -⟩ := h₁.amid.1.applied
    have hmem : k ∈ ((pre ++ chunk).map (Hashed.row job.caller call.seriesId)).map Prod.fst := by
      rw [keys_map_row, List.map_append]
      exact List.mem_append_right _ (hsub hk)
    have hsome : (Writing.observations (s₁.db.view p) k).isSome := by
      rw [hseen]
      exact isSome_insertAll hmem
    obtain ⟨row, hrow⟩ := Option.isSome_iff_exists.1 hsome
    have hrow' : (s₁.db.view p (.observation k)).map (fun row => row.payloadHash)
        = some row.payloadHash := congrArg (Option.map fun row => row.payloadHash) hrow
    refine ⟨row.payloadHash, ?_, hsees _ ?_⟩
    · have hlookup := lookup_filterMap
        (f := fun k => (s₁.db.view p (.observation k)).map fun row => row.payloadHash) hk hrow'
      simpa only [Option.map_map, Function.comp_def] using hlookup
    · rintro x hx
      obtain rfl := List.mem_singleton.1 hx
      exact ⟨row, hrow, rfl⟩
  · exact .inl ⟨rfl, hh⟩

/-- The statement of a chunk. -/
theorem safe_insertChunk {post : List Hashed} (hsplit : os = pre ++ (chunk ++ post))
    (h : Amid env first job p call done counts batches pre inserted none pre s.db) :
    (writeOutline P env rows first healthy).Safe (system env P) g p
      (chunk.foldlM (fun keys o => do
        let inserted ← request (.insertObservation (o.key call.seriesId) (o.columns job.caller))
        return if inserted then insert (o.key call.seriesId) keys else keys)
        (∅ : Finset ObservationKey))
      (outcome (fun keys s' => Inserting env first job p call done counts batches pre chunk inserted
        keys s'.db) fun e s' => Raises env healthy job e s') s := by
  -- The loop has inserted what is before the rows that are left.
  refine safe_foldlM (fun keys todo s => ∃ ins, chunk = ins ++ todo ∧
    Inserting env first job p call done counts batches pre ins inserted keys s.db)
    (fun keys s' hend => ?_) (fun keys o todo s' hloop => ?_) ⟨[], rfl, ?_⟩
  · obtain ⟨ins, heq, h⟩ := hend
    rw [List.append_nil] at heq
    exact heq ▸ h
  · obtain ⟨ins, heq, h⟩ := hloop
    have hsplit' : os = pre ++ (ins ++ o :: (todo ++ post)) := by
      rw [hsplit, heq, List.append_assoc, List.cons_append]
    refine (safe_insertOne hg hjob hos hstorable hsplit' h).mono ?_
    rintro (e | keys) s₁ h₁
    · exact h₁
    · exact ⟨ins ++ [o], by rw [heq, List.append_assoc, List.singleton_append], h₁⟩
  · refine ⟨?_, by simp, by simp⟩
    rwa [List.append_nil, Finset.union_empty]

/-- What a writer knows of a chunk in the end: its keys are new or have the same hashes. -/
theorem safe_writeChunk {post : List Hashed} (hsplit : os = pre ++ (chunk ++ post))
    (h : Amid env first job p call done counts batches pre inserted none pre s.db) :
    (writeOutline P env rows first healthy).Safe (system env P) g p
      (writeChunk env job.caller call.seriesId chunk)
      (outcome (fun keys s' => Amid env first job p call done counts batches (pre ++ chunk)
          (inserted ∪ keys.1) none (pre ++ chunk) s'.db ∧
        (∀ k ∈ keys.1, k ∈ chunk.map (Hashed.key call.seriesId)) ∧
        ∀ k, k ∈ keys.2 ↔ k ∈ chunk.map (Hashed.key call.seriesId) ∧ k ∉ inserted ∪ keys.1)
        fun e s' => Raises env healthy job e s') s := by
  have hchunk := (hos.nodup_chunk hsplit).1
  have hmem : ∀ {o}, o ∈ chunk → o ∈ os := fun ho => by
    rw [hsplit]
    exact List.mem_append_right _ (List.mem_append_left _ ho)
  unfold writeChunk
  refine safe_bind.2 ((safe_insertChunk hg hjob hos hstorable hsplit h).mono ?_)
  rintro (e | keys) s₁ h₁
  · exact h₁
  simp only [outcome]
  generalize hconflicted : (chunk.map (Hashed.key call.seriesId)).filter (· ∉ keys) = conflicted
  have hiff : ∀ k, k ∈ conflicted ↔
      k ∈ chunk.map (Hashed.key call.seriesId) ∧ k ∉ inserted ∪ keys := by
    intro k
    rw [← hconflicted, List.mem_filter, decide_eq_true_eq, Finset.notMem_union]
    exact and_congr_right fun hk => (and_iff_right (h.notMem_inserted hos hsplit hk)).symm
  have hconflict : ∀ {o}, o ∈ chunk → o.key call.seriesId ∉ keys →
      o.key call.seriesId ∈ conflicted := fun ho hk => by
    rw [← hconflicted, List.mem_filter, decide_eq_true_eq]
    exact ⟨List.mem_map_of_mem ho, hk⟩
  by_cases hnil : conflicted = []
  · -- All keys were new: nothing is read back.
    rw [if_pos hnil]
    refine ⟨h₁.amid_all fun o ho hk => ?_, h₁.subset, fun k => ?_⟩
    · have hmem := hconflict ho hk
      rw [hnil] at hmem
      cases hmem
    · rw [← hiff, hnil]
      simp
  · rw [if_neg hnil]
    refine safe_bind.2 ((safe_readBack hg (fun k hk => ((hiff k).1 hk).1) h₁).mono ?_)
    rintro (e | existing) s₂ h₂
    · exact h₂
    obtain ⟨h₂, hread⟩ := h₂
    refine safe_bind.2 ?_
    rcases foldlM_raiseError (f := checkStored chunk call.seriesId existing)
      (env.setOrder conflicted) ∅ with ⟨k, hk, e, he, heq⟩ | ⟨hall, heq⟩
    · -- A row that was there before has another hash.
      rw [heq]
      have hk' := (env.setOrder_perm conflicted).mem_iff.1 hk
      obtain ⟨ph, hph, hsee⟩ := hread k hk'
      obtain ⟨o, ho, rfl, hne⟩ := checkStored_eq_error hph he
      obtain ⟨row, hrow, rfl⟩ := hsee _ (List.mem_singleton_self _)
      obtain ⟨hkey, hnew⟩ := (hiff _).1 hk'
      refine raises_of_differs hjob hos (hmem ho) h₂.amid.1.applied ?_ hnew hrow hne
      rw [List.map_append]
      exact List.mem_append_right _ hkey
    · -- The rows that were there before have the hashes of the chunk.
      rw [heq]
      refine ⟨h₂.amid_all fun o ho hk => ?_, h₂.subset, fun k => ?_⟩
      · obtain ⟨ph, hph, hsee⟩ := hread _ (hconflict ho hk)
        rwa [← checkStored_eq_ok hph hchunk ho
          (hall _ ((env.setOrder_perm conflicted).mem_iff.2 (hconflict ho hk)))]
      · rw [← hiff, Finset.empty_union, List.mem_toFinset]
        exact (env.setOrder_perm conflicted).mem_iff

end

/-! ### The audit of a call -/

/-- All observations of a call have been inserted, or have been there with the same hashes. -/
theorem Applied.finish {caller : Caller} {unchangedKeys : Finset ObservationKey}
    (hos : Deduped env call os) (hactor : ¬(env.auditStrict ∧ caller.currentActor = none))
    (h : Applied env caller p done counts (os.map (Hashed.row caller call.seriesId)) inserted db)
    (hsees : Sees p (hashesOf call.seriesId os) db)
    (hunchanged : ∀ k, k ∈ unchangedKeys ↔
      k ∈ os.map (Hashed.key call.seriesId) ∧ k ∉ inserted) :
    Applied env caller p (done ++ [call])
      (counts ++ [⟨call.observations.length, inserted.card, 0, unchangedKeys.card⟩]) [] ∅ db := by
  obtain ⟨before, happly, hseen, hinserted⟩ := h
  rw [keys_map_row] at hinserted
  have hcard : unchangedKeys.card = os.length - inserted.card := by
    have heq : unchangedKeys = (os.map (Hashed.key call.seriesId)).toFinset \ inserted := by
      ext k
      rw [hunchanged, Finset.mem_sdiff, List.mem_toFinset]
    have hsub : inserted ⊆ (os.map (Hashed.key call.seriesId)).toFinset := fun k hk =>
      List.mem_toFinset.2 ((hinserted k).1 hk).1
    rw [heq, Finset.card_sdiff_of_subset hsub, List.toFinset_card_of_nodup hos.nodup,
      List.length_map]
  refine ⟨_, applyAll_concat happly ?_, hseen, by simp⟩
  rw [hcard]
  refine hos.apply_eq hactor (fun o ho v hv => ?_) hinserted
  obtain ⟨row, hrow, hph⟩ := hsees _ (List.mem_map_of_mem ho)
  rw [hseen, hv] at hrow
  cases hrow
  exact hph

section

variable {hashed : List Hashed} {event : WriteBatchEvent} (hg : Careful g healthy env rows)

include hg

theorem safe_now
    (h : Amid env first job p call done counts batches os inserted none hashed s.db) :
    (writeOutline P env rows first healthy).Safe (system env P) g p (request .now)
      (outcome (fun _ s' => Amid env first job p call done counts batches os inserted none hashed s'.db)
        fun e s' => Raises env healthy job e s') s := by
  refine safe_request hg (Amid env first job p call done counts batches os inserted none hashed)
    (fun hf hk h => h.stable hf hk) h (fun _ _ => trivial) fun c r s₁ s₂ hi h₁ hfault hex => ?_
  cases hex
  exact h₁

theorem safe_insertEvent
    (h : Amid env first job p call done counts batches os inserted none hashed s.db) :
    (writeOutline P env rows first healthy).Safe (system env P) g p (request (.insertEvent event))
      (outcome (fun n s' => Amid env first job p call done counts batches os inserted
        (some ⟨n, event, []⟩) hashed s'.db) fun e s' => Raises env healthy job e s') s := by
  refine safe_request hg (Amid env first job p call done counts batches os inserted none hashed)
    (fun hf hk h => h.stable hf hk) h (fun _ _ => trivial) fun c r s₁ s₂ hi h₁ hfault hex => ?_
  rcases exec_insertEvent hi h₁.1 hfault rfl hex with ⟨n, rfl, hw, hsees⟩ | ⟨rfl, hh⟩
  · exact ⟨hw, hsees _ h₁.2⟩
  · exact .inl ⟨rfl, hh⟩

/-- The keys of an event are recorded, one after the other. -/
theorem safe_insertBatchKeys {n : ℕ} {keys : List (ObservationKey × BatchKeyColumns)}
    (hnodup : (keys.map Prod.fst).Nodup)
    (h : Amid env first job p call done counts batches os inserted (some ⟨n, event, []⟩) hashed s.db) :
    (writeOutline P env rows first healthy).Safe (system env P) g p
      (Prog.forEach (fun params => request (.insertBatchKey n params.1 params.2)) keys)
      (outcome (fun _ s' => Amid env first job p call done counts batches os inserted
        (some ⟨n, event, keys⟩) hashed s'.db) fun e s' => Raises env healthy job e s') s := by
  refine safe_forEach (fun todo s => ∃ keys', keys = keys' ++ todo ∧
    Amid env first job p call done counts batches os inserted (some ⟨n, event, keys'⟩) hashed s.db)
    (fun s' hend => ?_) (fun x todo s' hloop => ?_) ⟨[], rfl, h⟩
  · obtain ⟨keys', heq, h⟩ := hend
    rw [List.append_nil] at heq
    exact heq ▸ h
  · obtain ⟨keys', heq, h⟩ := hloop
    have hnew : x.1 ∉ keys'.map Prod.fst := by
      rw [heq, List.map_append, List.map_cons] at hnodup
      exact fun hmem => List.disjoint_of_nodup_append hnodup hmem List.mem_cons_self
    refine safe_request hg (Amid env first job p call done counts batches os inserted
      (some ⟨n, event, keys'⟩) hashed) (fun hf hk h => h.stable hf hk) h (fun _ _ => trivial)
      fun c r s₁ s₂ hi h₁ hfault hex => ?_
    rcases exec_insertBatchKey hi h₁.1 hfault rfl hex hnew with ⟨rfl, hw, hsees⟩ | ⟨rfl, hh⟩
    · exact ⟨keys' ++ [x], by rw [heq, List.append_assoc, List.singleton_append], hw,
        hsees _ h₁.2⟩
    · exact .inl ⟨rfl, hh⟩

end

/-- The event of a call is recorded, and then all its keys: the call is done. -/
theorem safe_emitWriteBatchAudit {o : Hashed} {os : List Hashed}
    {unchangedKeys : Finset ObservationKey} (hg : Careful g healthy env rows)
    (hjob : job.calls = done ++ call :: rest) (hos : Deduped env call (o :: os))
    (hactor : ¬(env.auditStrict ∧ job.caller.currentActor = none))
    (hunchanged : ∀ k, k ∈ unchangedKeys ↔
      k ∈ (o :: os).map (Hashed.key call.seriesId) ∧ k ∉ inserted)
    (h : Amid env first job p call done counts batches (o :: os) inserted none (o :: os) s.db) :
    (writeOutline P env rows first healthy).Safe (system env P) g p
      (emitWriteBatchAudit env job.caller call.seriesId call.observations.length o os inserted
        unchangedKeys)
      (outcome (fun _ s' => ∃ batches', Working env first job.caller p (done ++ [call])
        (counts ++ [⟨call.observations.length, inserted.card, 0, unchangedKeys.card⟩]) batches' [] ∅
        none s'.db) fun e s' => Raises env healthy job e s') s := by
  have hinserted : ∀ k ∈ inserted, k ∈ (o :: os).map (Hashed.key call.seriesId) := by
    obtain ⟨before, -, -, hinserted⟩ := h.1.applied
    intro k hk
    rw [← keys_map_row]
    exact ((hinserted k).1 hk).1
  unfold emitWriteBatchAudit
  rcases hbytes : batchBytes env.nfc env.sha256 call.seriesId
    ((o :: os).map (·.toTimedObservation)) with _ | bytes
  · rw [hbytes]
    exact .inr (.inl ⟨call, hjob ▸ List.mem_append_right _ List.mem_cons_self, _, hos, hbytes⟩)
  rw [hbytes]
  refine safe_bind.2 ((safe_now hg h).mono ?_)
  rintro (e | occurredAt) s₁ h₁
  · exact h₁
  refine safe_bind.2 ((safe_insertEvent hg h₁).mono ?_)
  rintro (e | n) s₂ h₂
  · exact h₂
  dsimp only [outcome]
  rw [mapM_actionOf fun o' ho' => ?_, raiseError_ok]
  · refine (safe_insertBatchKeys hg (keys_batchKeys ▸ hos.nodup) h₂).mono ?_
    rintro (e | _) s₃ h₃
    · exact h₃
    · obtain ⟨⟨hready, happlied, haudited⟩, hsees⟩ := h₃
      refine ⟨_, hready, happlied.finish hos hactor hsees hunchanged, haudited.complete
        (describes_batchKeys hos.nodup hinserted hunchanged hsees)
        (inserts_batchKeys hinserted)⟩
  · by_cases hin : o'.key call.seriesId ∈ inserted
    · exact .inl hin
    · exact .inr ((hunchanged _).2 ⟨List.mem_map_of_mem ho', hin⟩)

/-! ### Calls -/

/-- A call that does not pass phase 0 cannot be made. -/
theorem raises_of_not_deduped {e : WriteError} {xs : List (ObservationKey × ObservationColumns)}
    (hjob : job.calls = done ++ call :: rest)
    (h : Applied env job.caller p done counts xs inserted s.db)
    (hno : (env.auditStrict ∧ job.caller.currentActor = none) ∨ ∀ os, ¬Deduped env call os) :
    Raises env healthy job e s := by
  obtain ⟨before, happly, -, -⟩ := h
  refine .inr (.inr ?_)
  rw [hjob]
  refine applyAll_eq_none happly ?_
  rcases hcall : call.apply env job.caller before with _ | ⟨count, r⟩
  · rfl
  · rcases hno with hactor | hno
    · exact absurd hactor (apply_eq_some_iff.1 hcall).1
    · obtain ⟨os, hos⟩ := exists_deduped hcall
      exact absurd hos (hno os)

section

variable (hg : Careful g healthy env rows) (hjob : job.calls = done ++ call :: rest)
  (hstorable : healthy → Storable env rows job)

include hg hjob hstorable

theorem safe_selectSourceId
    (h : Working env first job.caller p done counts batches [] ∅ none s.db) :
    (writeOutline P env rows first healthy).Safe (system env P) g p
      (request (.selectSourceId call.seriesId))
      (outcome (fun _ s' => Working env first job.caller p done counts batches [] ∅ none s'.db)
        fun e s' => Raises env healthy job e s') s := by
  have hcall : call ∈ job.calls := hjob ▸ List.mem_append_right _ List.mem_cons_self
  refine safe_request hg (Working env first job.caller p done counts batches [] ∅ none)
    (fun hf hk h => h.stable hf hk) h (fun _ _ => trivial) fun c r s₁ s₂ hi h₁ hfault hex => ?_
  rcases exec_quiet h₁ hfault hex (fun a db' ha => by
    split_ifs at ha <;> cases ha
    exact ⟨.refl _ _, rfl⟩) (fun e he => by
    split_ifs at he with hbounds <;> cases he
    exact ⟨rfl, fun hh => hbounds ((hstorable hh).seriesId call hcall)⟩)
    with ⟨a, db', rfl, -, hw, -⟩ | ⟨rfl, hh⟩
  · exact hw
  · exact .inl ⟨rfl, hh⟩

omit hjob hstorable in
theorem safe_advisoryLock (h : Working env first job.caller p done counts batches [] ∅ none s.db) :
    (writeOutline P env rows first healthy).Safe (system env P) g p
      (request (.advisoryLock call.seriesId))
      (outcome (fun _ s' => Working env first job.caller p done counts batches [] ∅ none s'.db)
        fun e s' => Raises env healthy job e s') s := by
  refine safe_request hg (Working env first job.caller p done counts batches [] ∅ none)
    (fun hf hk h => h.stable hf hk) h (fun _ _ => trivial) fun c r s₁ s₂ hi h₁ hfault hex => ?_
  rcases exec_quiet h₁ hfault hex (fun a db' ha => by
    split_ifs at ha
    cases ha
    exact ⟨stays_lockRow, rfl⟩) (fun e he => by
    split_ifs at he
    cases he) with ⟨a, db', rfl, -, hw, -⟩ | ⟨rfl, hh⟩
  · exact hw
  · exact .inl ⟨rfl, hh⟩

/-- The chunks of a call, one after the other. -/
theorem safe_writeChunks (hos : Deduped env call os)
    (h : Working env first job.caller p done counts batches [] ∅ none s.db) :
    (writeOutline P env rows first healthy).Safe (system env P) g p
      ((slices 500 os).foldlM (fun total chunk => do
        let keys ← writeChunk env job.caller call.seriesId chunk
        return (total.1 ∪ keys.1, total.2 ∪ keys.2))
        ((∅, ∅) : Finset ObservationKey × Finset ObservationKey))
      (outcome (fun total s' =>
        Amid env first job p call done counts batches os total.1 none os s'.db ∧
        ∀ k, k ∈ total.2 ↔ k ∈ os.map (Hashed.key call.seriesId) ∧ k ∉ total.1)
        fun e s' => Raises env healthy job e s') s := by
  refine safe_foldlM (fun (total : Finset ObservationKey × Finset ObservationKey) todo
    (s : World P) =>
    ∃ pre, os = pre ++ todo.flatten ∧
    Amid env first job p call done counts batches pre total.1 none pre s.db ∧
    ∀ k, k ∈ total.2 ↔ k ∈ pre.map (Hashed.key call.seriesId) ∧ k ∉ total.1)
    (fun total s' hend => ?_) (fun total chunk todo s' hloop => ?_)
    ⟨[], ?_, ⟨h, by rintro x ⟨⟩⟩, by simp⟩
  · obtain ⟨pre, heq, h, hiff⟩ := hend
    rw [List.flatten_nil, List.append_nil] at heq
    exact heq ▸ ⟨h, hiff⟩
  · obtain ⟨pre, heq, h, hiff⟩ := hloop
    have hsplit : os = pre ++ (chunk ++ todo.flatten) := by rw [heq, List.flatten_cons]
    refine safe_bind.2 ((safe_writeChunk hg hjob hos hstorable hsplit h).mono ?_)
    rintro (e | keys) s₁ h₁
    · exact h₁
    obtain ⟨h₁, hsub, hkeys⟩ := h₁
    refine ⟨pre ++ chunk, by rw [heq, List.flatten_cons, List.append_assoc], h₁, fun k => ?_⟩
    have hpre : k ∈ pre.map (Hashed.key call.seriesId) → k ∉ keys.1 := fun hk hin =>
      (hos.nodup_chunk hsplit).2 hk (hsub k hin)
    rw [Finset.mem_union, hiff, hkeys, List.map_append, List.mem_append, Finset.notMem_union]
    constructor
    · rintro (⟨hk, hnot⟩ | ⟨hk, hnot⟩)
      · exact ⟨.inl hk, hnot, hpre hk⟩
      · exact ⟨.inr hk, hnot⟩
    · rintro ⟨hk | hk, hnot⟩
      · exact .inl ⟨hk, hnot.1⟩
      · exact .inr ⟨hk, hnot⟩
  · rw [flatten_slices (by decide), List.nil_append]

/-- A call is made on what its transaction sees, or cannot be made. -/
theorem safe_write (h : Working env first job.caller p done counts batches [] ∅ none s.db) :
    (writeOutline P env rows first healthy).Safe (system env P) g p (write env job.caller call)
      (outcome (fun count s' => ∃ batches', Working env first job.caller p (done ++ [call])
        (counts ++ [count]) batches' [] ∅ none s'.db) fun e s' => Raises env healthy job e s') s := by
  unfold write
  by_cases hactor : env.auditStrict ∧ job.caller.currentActor = none
  · rw [if_pos hactor]
    exact raises_of_not_deduped hjob h.applied (.inl hactor)
  rw [if_neg hactor]
  refine safe_bind.2 ?_
  rcases hv : revalidate 0 call.observations with e | validated
  · refine raises_of_not_deduped hjob h.applied (.inr fun os hos => ?_)
    obtain ⟨validated, hv', -⟩ := hos.exists_validated
    cases hv.symm.trans hv'
  refine safe_bind.2 ?_
  rcases hd : dedupe env call.seriesId [] validated with e | os
  · refine raises_of_not_deduped hjob h.applied (.inr fun os hos => ?_)
    obtain ⟨validated', hv', hd'⟩ := hos.exists_validated
    cases hv.symm.trans hv'
    cases hd.symm.trans hd'
  have hos : Deduped env call os := ⟨validated, hv, hd⟩
  rcases os with _ | ⟨o, os⟩
  · -- Nothing is written, and nothing is recorded.
    have hnone : ∀ k, k ∈ (∅ : Finset ObservationKey) ↔
        k ∈ ([] : List Hashed).map (Hashed.key call.seriesId) ∧ k ∉ (∅ : Finset ObservationKey) := by
      simp
    exact ⟨batches, h.ready, h.applied.finish hos hactor (by rintro x ⟨⟩) hnone, h.audited⟩
  refine safe_bind.2 ((safe_selectSourceId hg hjob hstorable h).mono ?_)
  rintro (e | _) s₁ h₁
  · exact h₁
  refine safe_bind.2 ((safe_advisoryLock hg h₁).mono ?_)
  rintro (e | _) s₂ h₂
  · exact h₂
  refine safe_bind.2 ((safe_writeChunks hg hjob hstorable hos h₂).mono ?_)
  rintro (e | total) s₃ h₃
  · exact h₃
  refine safe_bind.2 ((safe_emitWriteBatchAudit hg hjob hos hactor h₃.2 h₃.1).mono ?_)
  rintro (e | _) s₄ h₄
  · exact h₄
  · exact h₄

end

end

end Writing

end Timeseries

end AslanCore
