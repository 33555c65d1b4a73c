import AslanCore.Process.Outline
import AslanCore.Store.Appending
import AslanCore.Timeseries.OneByOne

/-!
# What writers know

While a transaction of `write` runs, others commit theirs. What it sees is what its calls make of
the rows that are committed, at any time, as these only become more.

* `Applied`: the calls that are done, and the rows of the one that is not;
* `Audited`: the batches that are recorded;
* `Working`: both, while the session of the writer is ready, and `Working.stable`: the others leave
  it true;
* `Serial`: the transactions that are committed, one after the other;
* `Trail`: every event has as many keys as it says, and every observation that was not there before
  is inserted by just one of them;
* `Serial.commit_working`, `Trail.commit`: both hold of what is committed (`Inv`).
-/

set_option linter.unusedSectionVars false

namespace AslanCore

namespace Timeseries

namespace Writing

open Insertion Database

/-- The observations in a view of the database. -/
def observations (view : (k : Key) → Option (RowOf k)) : Rows := fun k => view (.observation k)

/-- A batch that is recorded: its event, and the keys of the event. -/
structure Batch where
  eventId : ℕ
  event : WriteBatchEvent
  keys : List (ObservationKey × BatchKeyColumns)

/-- The keys of the batch are those of its event, and have the hashes of the observations. -/
structure Batch.Describes (b : Batch) (rows : Rows) : Prop where
  nodup : (b.keys.map Prod.fst).Nodup
  batchSize : b.event.batchSize = b.keys.length
  inserted : b.event.inserted = b.keys.countP fun x => x.2.action = .inserted
  unchanged : b.event.unchanged = b.keys.countP fun x => x.2.action = .unchanged
  key : ∀ x ∈ b.keys, x.1.1 = b.event.seriesId ∧ x.2.occurredAt = b.event.occurredAt ∧
    ∃ row, rows x.1 = some row ∧ row.payloadHash = x.2.payloadHash

/-- The batch inserts the observation. -/
def Batch.Inserts (b : Batch) (k : ObservationKey) : Prop :=
  ∃ c, (k, c) ∈ b.keys ∧ c.action = .inserted

/-- What is recorded of the observations, from the event with the number `first` on: they are those
    that were there before, and one for each key that says so. -/
structure Trail (first : ℕ) (before : Rows) (view : (k : Key) → Option (RowOf k)) : Prop where
  event_of_key : ∀ {n k c}, first ≤ n → view (.batchKey n k) = some c → (view (.event n)).isSome
  describes : ∀ {n e}, first ≤ n → view (.event n) = some e → ∃ keys,
    Batch.Describes ⟨n, e, keys⟩ (observations view) ∧
      ∀ k c, view (.batchKey n k) = some c ↔ (k, c) ∈ keys
  inserted : ∀ k, ((view (.observation k)).isSome ∧ before k = none) ↔
    ∃ n c, first ≤ n ∧ view (.batchKey n k) = some c ∧ c.action = .inserted
  unique : ∀ {n n' k c c'}, first ≤ n → first ≤ n' → view (.batchKey n k) = some c →
    c.action = .inserted → view (.batchKey n' k) = some c' → c'.action = .inserted → n = n'

/-- The jobs are done one after the other, on what is stored. -/
inductive Serial (env : Env) (before : Rows) : List (WriteJob × List WriteCount) → Rows → Prop
  | nil : Serial env before [] before
  | commit {history : List (WriteJob × List WriteCount)} {stored stored' : Rows} {job : WriteJob}
      {counts : List WriteCount} : Serial env before history stored →
    applyAll env job.caller stored job.calls = some (counts, stored') →
    Serial env before (history ++ [(job, counts)]) stored'

section

variable {P : Type} [DecidableEq P]

/-- What a writer has done to the observations: it has made the calls of `done`, and inserted the
    rows `xs` of another one, of which those under the keys of `inserted` are new. -/
def Applied (env : Env) (caller : Caller) (p : P) (done : List WriteCall) (counts : List WriteCount)
    (xs : List (ObservationKey × ObservationColumns)) (inserted : Finset ObservationKey)
    (db : Database P Key RowOf) : Prop :=
  ∃ before, applyAll env caller (observations db.committed) done = some (counts, before) ∧
    observations (db.view p) = insertAll before xs ∧
    ∀ k, k ∈ inserted ↔ k ∈ xs.map Prod.fst ∧ before k = none

/-- What a writer has recorded: the batches of the calls that are done, and at most one more, which
    is not complete. -/
structure Audited (first : ℕ) (p : P) (batches : List Batch) (current : Option Batch)
    (inserted : Finset ObservationKey) (db : Database P Key RowOf) : Prop where
  event : ∀ n e, db.pending p (.event n) = some (some e) ↔
    ∃ b ∈ batches ++ current.toList, b.eventId = n ∧ b.event = e
  key : ∀ n k c, db.pending p (.batchKey n k) = some (some c) ↔
    ∃ b ∈ batches ++ current.toList, b.eventId = n ∧ (k, c) ∈ b.keys
  le : ∀ b ∈ batches ++ current.toList, first ≤ b.eventId
  nodup : ((batches ++ current.toList).map Batch.eventId).Nodup
  describes : ∀ b ∈ batches, b.Describes (observations (db.view p))
  observation : ∀ k, (db.pending p (.observation k)).isSome ↔
    k ∈ inserted ∨ ∃ b ∈ batches, b.Inserts k
  unique : ∀ b ∈ batches, ∀ b' ∈ batches, ∀ k, b.Inserts k → b'.Inserts k → b.eventId = b'.eventId
  disjoint : ∀ k ∈ inserted, ∀ b ∈ batches, ¬b.Inserts k

/-- What a writer knows amid a transaction. -/
structure Working (env : Env) (first : ℕ) (caller : Caller) (p : P) (done : List WriteCall)
    (counts : List WriteCount) (batches : List Batch)
    (xs : List (ObservationKey × ObservationColumns)) (inserted : Finset ObservationKey)
    (current : Option Batch) (db : Database P Key RowOf) : Prop where
  ready : db.status p = .ready
  applied : Applied env caller p done counts xs inserted db
  audited : Audited first p batches current inserted db

/-- The writer sees these hashes. -/
def Sees (p : P) (hashes : List (ObservationKey × String)) (db : Database P Key RowOf) : Prop :=
  ∀ x ∈ hashes, ∃ row, observations (db.view p) x.1 = some row ∧ row.payloadHash = x.2

/-- The number of an event is below that of the next one. -/
def Numbered (next : ℕ) : (k : Key) → Option (RowOf k) → Prop
  | .event n, _ => n < next
  | _, _ => True

/-- What holds of the database, where `rows` were there before, and no event from `first` on. -/
structure Inv (env : Env) (rows : (k : Key) → Option (RowOf k)) (first : ℕ) (s : World P) :
    Prop where
  unsaved : s.db.Unsaved
  fresh : s.db.Fresh
  kept : ∀ k v, rows k = some v → s.db.committed k = some v
  le : first ≤ s.nextEventId
  numbered : s.db.All (Numbered s.nextEventId)
  serial : Serial env (observations rows) s.history (observations s.db.committed)
  trail : Trail first (observations rows) s.db.committed

/-- The observations of one of the calls have no batch hash. -/
def Unhashable (env : Env) (job : WriteJob) : Prop :=
  ∃ call ∈ job.calls, ∃ os, Deduped env call os ∧
    batchBytes env.nfc env.sha256 call.seriesId (os.map (·.toTimedObservation)) = none

/-- What a job raises: an error of the database, if it is not `healthy`, or because its calls cannot
    be made on what is stored, or one of them has no batch hash. -/
def Raises (env : Env) (healthy : Prop) (job : WriteJob) (e : WriteError) (s : World P) : Prop :=
  (e = .sql ∧ ¬healthy) ∨ Unhashable env job ∨
    applyAll env job.caller (observations s.db.committed) job.calls = none

/-- What is known before a transaction is committed, and when it has ended. -/
def writeOutline (P : Type) [DecidableEq P] (env : Env) (rows : (k : Key) → Option (RowOf k))
    (first : ℕ) (healthy : Prop) :
    Outline Cmd WriteError (List WriteCount) P WriteJob (World P) where
  inv := Inv env rows first
  know p c s := match c with
    | .commit job counts => ∃ batches,
      Working env first job.caller p job.calls counts batches [] ∅ none s.db
    | _ => True
  rely p s s' := Frame p s.db s'.db ∧ Keeps s.db s'.db ∧ s.history <+: s'.history
  idle p s := s.db.status p = .ready ∧ s.db.pending p = fun _ => none
  post p job r s := (s.db.status p = .ready ∧ s.db.pending p = fun _ => none) ∧ match r with
    | .ok counts => (job, counts) ∈ s.history
    | .error e => Raises env healthy job e s

variable {env : Env} {rows : (k : Key) → Option (RowOf k)} {first : ℕ} {healthy : Prop}
  {caller : Caller} {p q : P} {done : List WriteCall} {counts : List WriteCount}
  {batches : List Batch} {xs : List (ObservationKey × ObservationColumns)}
  {inserted : Finset ObservationKey} {current : Option Batch} {db db' : Database P Key RowOf}
  {s s' : World P} {hashes : List (ObservationKey × String)} {k : ObservationKey}

/-! ### Interference -/

theorem observations_of_keeps (hk : Keeps db db') (hf : Frame p db db')
    (h : (observations (db.view p) k).isSome) :
    observations (db'.view p) k = observations (db.view p) k ∧
      observations db'.committed k = observations db.committed k :=
  ⟨hk.view_eq hf h, hk.committed_eq hf h⟩

theorem Applied.stable (h : Applied env caller p done counts xs inserted db) (hf : Frame p db db')
    (hk : Keeps db db') : Applied env caller p done counts xs inserted db' := by
  obtain ⟨before, happly, hseen, hinserted⟩ := h
  have hdone := rows_of_applyAll happly
  -- What the writer has touched is as it was, for itself and in the database.
  have hsome : ∀ k, k ∈ keysOf env caller done ∨ k ∈ xs.map Prod.fst →
      (observations (db.view p) k).isSome := by
    rintro k hk
    rw [hseen]
    by_cases hkx : k ∈ xs.map Prod.fst
    · exact isSome_insertAll hkx
    · rw [insertAll_of_notMem hkx]
      exact (hdone k).2.1 (hk.resolve_right hkx)
  obtain ⟨before', happly', hbefore'⟩ := applyAll_congr happly fun k hk' =>
    (observations_of_keeps hk hf (hsome k (.inl hk'))).2
  have hdone' := rows_of_applyAll happly'
  have htouched : ∀ k, k ∈ xs.map Prod.fst → before' k = before k := fun k hkx => by
    by_cases hkd : k ∈ keysOf env caller done
    · exact hbefore' k hkd
    · rw [(hdone' k).2.2 hkd, (hdone k).2.2 hkd,
        (observations_of_keeps hk hf (hsome k (.inr hkx))).2]
  refine ⟨before', happly', funext fun k => ?_, fun k => ?_⟩
  · by_cases hkx : k ∈ xs.map Prod.fst
    · rw [(observations_of_keeps hk hf (hsome k (.inr hkx))).1, hseen,
        insertAll_congr htouched hkx]
    · rw [insertAll_of_notMem hkx]
      by_cases hkd : k ∈ keysOf env caller done
      · rw [(observations_of_keeps hk hf (hsome k (.inl hkd))).1, hseen, insertAll_of_notMem hkx,
          hbefore' k hkd]
      · rw [(hdone' k).2.2 hkd]
        refine hf.view_eq_committed ?_
        have hk' := congrFun hseen k
        rwa [insertAll_of_notMem hkx, (hdone k).2.2 hkd] at hk'
  · rw [hinserted]
    refine and_congr_right fun hkx => ?_
    rw [htouched k hkx]

theorem Batch.Describes.mono {b : Batch} {r r' : Rows} (h : b.Describes r)
    (hr : ∀ k row, r k = some row → r' k = some row) : b.Describes r' where
  nodup := h.nodup
  batchSize := h.batchSize
  inserted := h.inserted
  unchanged := h.unchanged
  key x hx := by
    obtain ⟨hseries, hat, row, hrow, hph⟩ := h.key x hx
    exact ⟨hseries, hat, row, hr _ _ hrow, hph⟩

/-- What is recorded depends on what the writer has written, and on the rows that it sees. -/
theorem Audited.congr (h : Audited first p batches current inserted db)
    (hpending : db'.pending p = db.pending p)
    (hseen : ∀ k row, observations (db.view p) k = some row →
      observations (db'.view p) k = some row) :
    Audited first p batches current inserted db' where
  event := hpending ▸ h.event
  key := hpending ▸ h.key
  le := h.le
  nodup := h.nodup
  describes b hb := (h.describes b hb).mono hseen
  observation := hpending ▸ h.observation
  unique := h.unique
  disjoint := h.disjoint

theorem observations_stable (hk : Keeps db db') (hf : Frame p db db') {row : ObservationColumns}
    (h : observations (db.view p) k = some row) : observations (db'.view p) k = some row := by
  rw [(observations_of_keeps hk hf (by rw [h]; rfl)).1, h]

theorem Working.stable (h : Working env first caller p done counts batches xs inserted current db)
    (hf : Frame p db db') (hk : Keeps db db') :
    Working env first caller p done counts batches xs inserted current db' where
  ready := hf.status.trans h.ready
  applied := h.applied.stable hf hk
  audited := h.audited.congr hf.pending fun _ _ => observations_stable hk hf

theorem Sees.stable (h : Sees p hashes db) (hf : Frame p db db') (hk : Keeps db db') :
    Sees p hashes db' := fun x hx => by
  obtain ⟨row, hrow, hph⟩ := h x hx
  exact ⟨row, observations_stable hk hf hrow, hph⟩

/-- What cannot be done on what is stored can never be done. -/
theorem Raises.stable {job : WriteJob} {e : WriteError} (h : Raises env healthy job e s)
    (hk : Keeps s.db s'.db) : Raises env healthy job e s' :=
  h.imp_right <| Or.imp_right <| applyAll_eq_none_of_below <| .of_eq_some fun k v hv =>
    hk (.observation k) v hv

/-! ### The end of a transaction -/

theorem view_cases {k : Key} {v : RowOf k} (h : db.view p k = some v) :
    db.pending p k = some (some v) ∨ db.pending p k = none ∧ db.committed k = some v := by
  rcases hp : db.pending p k with _ | w
  · exact .inr ⟨rfl, by rwa [view, hp, Option.getD_none] at h⟩
  · rw [view_of_pending hp] at h
    exact .inl (by rw [h])

namespace Audited

variable {n : ℕ} {c : BatchKeyColumns} {e : WriteBatchEvent}

theorem exists_of_event (h : Audited first p batches none inserted db)
    (hp : db.pending p (.event n) = some (some e)) :
    ∃ b ∈ batches, b.eventId = n ∧ b.event = e := by
  simpa using (h.event n e).1 hp

theorem exists_of_key (h : Audited first p batches none inserted db)
    (hp : db.pending p (.batchKey n k) = some (some c)) :
    ∃ b ∈ batches, b.eventId = n ∧ (k, c) ∈ b.keys := by
  simpa using (h.key n k c).1 hp

theorem pending_event (h : Audited first p batches none inserted db) {b : Batch}
    (hb : b ∈ batches) : db.pending p (.event b.eventId) = some (some b.event) :=
  (h.event _ _).2 ⟨b, List.mem_append_left _ hb, rfl, rfl⟩

theorem pending_key (h : Audited first p batches none inserted db) {b : Batch} (hb : b ∈ batches)
    (hc : (k, c) ∈ b.keys) : db.pending p (.batchKey b.eventId k) = some (some c) :=
  (h.key _ _ _).2 ⟨b, List.mem_append_left _ hb, rfl, hc⟩

theorem eq_of_eventId (h : Audited first p batches none inserted db) {b b' : Batch}
    (hb : b ∈ batches) (hb' : b' ∈ batches) (hid : b.eventId = b'.eventId) : b = b' := by
  have hnodup := h.nodup
  rw [Option.toList_none, List.append_nil] at hnodup
  exact List.inj_on_of_nodup_map hnodup hb hb' hid

end Audited

/-- What is committed, and what a writer has recorded completely, is what it leaves. -/
theorem Trail.commit (h : Trail first (observations rows) db.committed) (hfresh : db.Fresh)
    (hkept : ∀ k v, rows k = some v → db.committed k = some v)
    (ha : Audited first p batches none ∅ db) :
    Trail first (observations rows) (db.view p) := by
  -- An event that the writer has recorded has no keys yet, as it is not committed.
  have hnew : ∀ {b}, b ∈ batches → ∀ k c, db.committed (.batchKey b.eventId k) ≠ some c := by
    intro b hb k c hc
    have hevent := h.event_of_key (ha.le b (List.mem_append_left _ hb)) hc
    rw [(hfresh _ _ _ (ha.pending_event hb)).2] at hevent
    cases hevent
  have hobservation : ∀ {b}, b ∈ batches → ∀ k, b.Inserts k →
      (db.view p (.observation k)).isSome ∧ db.committed (.observation k) = none := by
    intro b hb k hk
    obtain ⟨w, hw⟩ := Option.isSome_iff_exists.1 ((ha.observation k).2 (.inr ⟨b, hb, hk⟩))
    exact ⟨by rw [view_of_pending hw]; exact (hfresh _ _ _ hw).1, (hfresh _ _ _ hw).2⟩
  refine ⟨fun {n k c} hn hc => ?_, fun {n e} hn he => ?_, fun k => ⟨?_, ?_⟩,
    fun {n n' k c c'} hn hn' hc hact hc' hact' => ?_⟩
  · rcases view_cases hc with hp | ⟨-, hp⟩
    · obtain ⟨b, hb, rfl, -⟩ := ha.exists_of_key hp
      rw [view_of_pending (ha.pending_event hb)]
      rfl
    · obtain ⟨e, he⟩ := Option.isSome_iff_exists.1 (h.event_of_key hn hp)
      rw [hfresh.view_of_committed he]
      rfl
  · rcases view_cases he with hp | ⟨hnone, hp⟩
    · obtain ⟨b, hb, rfl, rfl⟩ := ha.exists_of_event hp
      refine ⟨b.keys, ha.describes b hb, fun k c => ⟨fun hc => ?_, fun hc => ?_⟩⟩
      · rcases view_cases hc with hc | ⟨-, hc⟩
        · obtain ⟨b', hb', hid, hmem⟩ := ha.exists_of_key hc
          rwa [ha.eq_of_eventId hb' hb hid] at hmem
        · exact absurd hc (hnew hb k c)
      · exact view_of_pending (ha.pending_key hb hc)
    · obtain ⟨keys, hdesc, hkeys⟩ := h.describes hn hp
      refine ⟨keys, hdesc.mono fun k row hrow => hfresh.view_of_committed hrow,
        fun k c => ⟨fun hc => ?_, fun hc => hfresh.view_of_committed ((hkeys k c).2 hc)⟩⟩
      rcases view_cases hc with hc | ⟨-, hc⟩
      · obtain ⟨b, hb, rfl, -⟩ := ha.exists_of_key hc
        rw [ha.pending_event hb] at hnone
        cases hnone
      · exact (hkeys k c).1 hc
  · rintro ⟨hsome, hbefore⟩
    obtain ⟨row, hrow⟩ := Option.isSome_iff_exists.1 hsome
    rcases view_cases hrow with hp | ⟨-, hp⟩
    · obtain hk | ⟨b, hb, c, hc, hact⟩ := (ha.observation k).1 (by rw [hp]; rfl)
      · cases hk
      · exact ⟨b.eventId, c, ha.le b (List.mem_append_left _ hb),
          view_of_pending (ha.pending_key hb hc), hact⟩
    · obtain ⟨n, c, hn, hc, hact⟩ := (h.inserted k).1 ⟨by rw [hp]; rfl, hbefore⟩
      exact ⟨n, c, hn, hfresh.view_of_committed hc, hact⟩
  · rintro ⟨n, c, hn, hc, hact⟩
    rcases view_cases hc with hp | ⟨-, hp⟩
    · obtain ⟨b, hb, rfl, hmem⟩ := ha.exists_of_key hp
      obtain ⟨hsome, hnone⟩ := hobservation hb k ⟨c, hmem, hact⟩
      refine ⟨hsome, ?_⟩
      rcases hrow : observations rows k with _ | row
      · rfl
      · cases hnone.symm.trans (hkept _ _ hrow)
    · obtain ⟨hsome, hbefore⟩ := (h.inserted k).2 ⟨n, c, hn, hp, hact⟩
      obtain ⟨row, hrow⟩ := Option.isSome_iff_exists.1 hsome
      exact ⟨by rw [hfresh.view_of_committed hrow]; rfl, hbefore⟩
  · -- Not one is committed and the other pending, as the observation would be both.
    have hmixed : ∀ {n n' k c c'}, first ≤ n' → db.pending p (.batchKey n k) = some (some c) →
        c.action = .inserted → db.committed (.batchKey n' k) = some c' → c'.action = .inserted →
        False := by
      intro n n' k c c' hn' hp hact hp' hact'
      obtain ⟨b, hb, -, hmem⟩ := ha.exists_of_key hp
      obtain ⟨hsome, -⟩ := (h.inserted k).2 ⟨n', c', hn', hp', hact'⟩
      rw [(hobservation hb k ⟨c, hmem, hact⟩).2] at hsome
      cases hsome
    rcases view_cases hc with hp | ⟨-, hp⟩ <;> rcases view_cases hc' with hp' | ⟨-, hp'⟩
    · obtain ⟨b, hb, rfl, hmem⟩ := ha.exists_of_key hp
      obtain ⟨b', hb', rfl, hmem'⟩ := ha.exists_of_key hp'
      exact ha.unique b hb b' hb' k ⟨c, hmem, hact⟩ ⟨c', hmem', hact'⟩
    · exact absurd (hmixed hn' hp hact hp' hact') id
    · exact absurd (hmixed hn hp' hact' hp hact) id
    · exact h.unique hn hn' hp hact hp' hact'

/-- What a complete transaction leaves has been done after all others. -/
theorem Serial.commit_working {job : WriteJob}
    (h : Serial env (observations rows) s.history (observations s.db.committed))
    (hw : Working env first job.caller p job.calls counts batches [] ∅ none s.db) :
    Serial env (observations rows) (s.history ++ [(job, counts)]) (observations (s.db.view p)) := by
  obtain ⟨before, happly, hseen, -⟩ := hw.applied
  rw [hseen]
  exact .commit h happly

end

end Writing

end Timeseries

end AslanCore
