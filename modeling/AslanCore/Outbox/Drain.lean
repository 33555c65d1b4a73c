import AslanCore.Outbox.Batch

/-!
# The drainers keep to the outline

Every command of a drainer is issued with what the outline says it knows, whatever the
other processes do meanwhile, and whatever fails (`outline_valid`).

A row of a batch is appended to its stream past the lower bound of the search that
follows a failure (`Below`), so the search finds its entry; and in clean runs it is
appended once, as nothing was before.
-/

set_option linter.unusedSectionVars false

namespace AslanCore

namespace Outbox

open Database Prog Outline

variable {P Payload : Type} [DecidableEq P] {env : Env Payload} {M : Mode P Payload}
  {p q : P} {s s' : World P Payload} {ρ : Role} {done todo rows : List (Row Payload)}
  {row : Row Payload} {lacking : StreamId × Fields → Prop} {lower rid : StreamId}

/-- No entry of the stream has an identifier past those drawn, and below `lower`. -/
def Below (stream : String) (lower : StreamId) (s : World P Payload) : Prop :=
  ∀ rid, (s.streams.get stream).lastId < rid → lower ≤ rid

theorem Below.of_grows {stream : String} (h : Below stream lower s) (hg : Grows s s') :
    Below stream lower s' :=
  fun rid hr => h rid ((Stream.lastId_le_of_subset (hg.appended stream)).trans_lt hr)

/-- No identifier that is still to be drawn is below the bound captured. -/
theorem keeps_captureStreamLowerBound (a : World P Payload → Prop) {n : String}
    (ha : ∀ s s', Rely p s s' → a s → a s') (h : a s) :
    Keeps env M p (captureStreamLowerBound n)
      (outcome (fun lower s => a s ∧ Below n lower s) fun _ _ => False) s := by
  have hzero : ∀ s : World P Payload, Below n StreamId.zero s := fun s rid _ => StreamId.zero_le rid
  rw [captureStreamLowerBound, keeps_tryCatch, keeps_bind]
  refine keeps_request a ha h fun s₁ hi h₁ => ⟨trivial, fun o r s₂ _ hex _ => ?_⟩
  have hread := exec_read hex (.inl ⟨_, rfl⟩)
  subst hread
  rcases World.redis_cases hex with ⟨rfl, _⟩ | ⟨rfl, _⟩
  · show Keeps env M p _ _ _
    cases hl : (s₂.streams.get n).entries.getLast? with
    | none => exact ⟨h₁, hzero s₂⟩
    | some l =>
      have hle := (s₂.streams.get n).le_lastId (Stream.mem_appended_of_mem (List.mem_of_getLast? hl))
      simp only [Option.map_some]
      split_ifs
      · exact ⟨h₁, hzero s₂⟩
      · refine ⟨h₁, fun rid hlt => ?_⟩
        rw [redisIdIncrement_eq, ← StreamId.lt_iff_succ_le]
        exact hle.trans_lt hlt
  · exact ⟨h₁, hzero s₂⟩

/-! ### The entry of a row -/

/-- A row that is about to be appended. -/
structure Appending (M : Mode P Payload) (p : P) (done todo : List (Row Payload))
    (row : Row Payload) (s : World P Payload) : Prop where
  inSavepoint : InSavepoint M p done todo row (fun _ => False) s
  unwritten : Unwritten p s
  progress : Progress M p done (row :: todo) s
  others : Others p s

/-- A row that is appended, under the identifier `rid`, which the lookup table may lack
    yet. -/
structure Appended (env : Env Payload) (M : Mode P Payload) (p : P) (done todo : List (Row Payload))
    (row : Row Payload) (lower rid : StreamId) (s : World P Payload) : Prop where
  inSavepoint : InSavepoint M p done todo row (fun e => e.1 = rid ∧ lower ≤ e.1) s
  ready : s.db.status (p, .batch) = .ready
  progress : Progress M p done todo s
  once : M.steady → M.healthy row.eventId ∧ (s.entriesOf row).length = 1
  entry : (rid, xaddFields env row) ∈ (s.streams.get row.streamName).appended
  scan : Rest p .scan s
  gauge : Rest p .gauge s

theorem Appending.of_rely (h : Appending M p done todo row s) (hr : Rely p s s') :
    Appending M p done todo row s' := by
  have ha := hr.apart .index
  refine ⟨h.inSavepoint.of_apart ha (by decide), h.unwritten.of_frame (hr.frame .batch),
    h.progress.of_apart h.inSavepoint.live (fun row' hr' => ?_) ha (by decide), h.others.of_rely hr⟩
  exact List.perm_middle.subset hr'

theorem independent_appended : Independent .index p (Appended env M p done todo row lower rid) := by
  intro s s' ha h
  have hf := ha.frame .batch (by decide)
  refine ⟨h.inSavepoint.of_apart ha (by decide), hf.status.trans h.ready,
    h.progress.of_apart h.inSavepoint.live (fun _ => List.mem_cons_of_mem _) ha (by decide),
    fun hs => ?_, ha.appended _ h.entry, h.scan.of_frame (ha.frame _ (by decide)),
    h.gauge.of_frame (ha.frame _ (by decide))⟩
  rw [h.inSavepoint.live.entries ha List.mem_cons_self]
  exact h.once hs

theorem Appended.unlocked (h : Appended env M p done todo row lower rid s) (hi : Invariant env M s)
    (hs : M.steady) : Unlocked p .index (.index row.eventId row.streamName rid) s := by
  intro ρ hk
  cases ρ with
  | index => rfl
  | scan => exact absurd hk (h.scan.owner _)
  | gauge => exact absurd hk (h.gauge.owner _)
  | batch =>
    exact absurd hk (h.progress.owner_index_ne h.inSavepoint.live h.inSavepoint.distinct hi hs _ _)

/-- The row fails with its entry appended: the search will find it. -/
theorem Appended.failed (h : Appended env M p done todo row lower rid s) (hrest : Rest p .index s)
    (hs : ¬M.steady) : Failed M p done todo row (fun e => lower ≤ e.1) s :=
  ⟨fun h => absurd h hs, fun h => absurd h hs, .inr (h.inSavepoint.mono fun _ he => he.2),
    h.progress, others_of_rest hrest h.scan h.gauge⟩

/-- The entry of a row is appended, under an identifier past those of the stream. -/
theorem Appending.xadd (h : Appending M p done todo row s) (hi : Invariant env M s)
    (hdb : s'.db = s.db) (hother : ∀ n' ≠ row.streamName, s'.streams.get n' = s.streams.get n')
    (happ : (s'.streams.get row.streamName).appended =
      (s.streams.get row.streamName).appended ++ [(rid, xaddFields env row)]) (hlower : lower ≤ rid) :
    InSavepoint M p done todo row (fun e => e.1 = rid ∧ lower ≤ e.1) s' ∧
      Progress M p done todo s' := by
  have hlive := h.inSavepoint.live
  have hself := entriesOf_xadd_self hother happ rfl rfl
  have hent : ∀ row' ∈ done ++ todo, s'.entriesOf row' = s.entriesOf row' := fun row' hr =>
    entriesOf_xadd_of_ne hother happ rfl
      (hlive.ne_eventId hi (List.mem_cons_of_mem _ hr) List.mem_cons_self
        (ne_of_nodup_cons h.inSavepoint.distinct hr))
  have hidx : ∀ row' e, s'.Indexed row' e ↔ s.Indexed row' e := fun row' e => by
    rw [World.Indexed, World.Indexed, hdb]
  refine ⟨⟨⟨fun row' hr => ?_, ?_, fun i hi' => hlive.only i ?_⟩, h.inSavepoint.distinct, ?_,
    fun hl row' hr e he => ?_, fun hl e he => ?_⟩, fun hs row' hr hh => ?_, fun hs row' hr hh => ?_,
    fun hs k hk => h.progress.keys hs k (by rwa [hdb] at hk)⟩
  · rw [World.Owns, hdb]
    exact hlive.owns row' hr
  · rw [hdb]
    exact hlive.cols
  · rwa [World.Owns, hdb] at hi'
  · rw [hdb]
    exact h.inSavepoint.kept
  · rw [hent row' hr] at he
    exact (hidx _ _).2 (h.inSavepoint.settled hl row' hr e he)
  · rw [hself, List.mem_append, List.mem_singleton] at he
    rcases he with he | rfl
    · exact .inl ((hidx _ _).2 ((h.inSavepoint.lacks hl).settled e he))
    · exact .inr ⟨rfl, hlower⟩
  · rw [hent row' (List.mem_append_left _ hr), Published, hdb]
    exact h.progress.finished hs row' hr hh
  · rw [hent row' (List.mem_append_right _ hr)]
    exact h.progress.fresh hs row' (List.mem_cons_of_mem _ hr) hh

/-! ### The publication of a row -/

/-- What holds once the entry of the row is in the lookup table. -/
structure Indexing (env : Env Payload) (M : Mode P Payload) (p : P) (done todo : List (Row Payload))
    (row : Row Payload) (rid : StreamId) (s : World P Payload) : Prop where
  inSavepoint : InSavepoint M p done todo row (fun _ => False) s
  ready : s.db.status (p, .batch) = .ready
  progress : Progress M p done todo s
  once : M.steady → M.healthy row.eventId ∧ (s.entriesOf row).length = 1
  entry : (rid, xaddFields env row) ∈ (s.streams.get row.streamName).appended
  others : Others p s

/-- What holds once the row is marked published. -/
structure Marked (M : Mode P Payload) (p : P) (done todo : List (Row Payload)) (row : Row Payload)
    (s : World P Payload) : Prop where
  inSavepoint : InSavepoint M p done todo row (fun _ => False) s
  ready : s.db.status (p, .batch) = .ready
  progress : Progress M p (row :: done) todo s
  others : Others p s

theorem Appended.indexing (h : Appended env M p done todo row lower rid s)
    (hrest : Rest p .index s)
    (hidx : (s.db.committed (.index row.eventId row.streamName rid)).isSome) :
    Indexing env M p done todo row rid s := by
  obtain ⟨hlive, hd, hkept, hset, hlacks⟩ := h.inSavepoint
  refine ⟨⟨hlive, hd, hkept, hset, fun hl e he => ?_⟩, h.ready, h.progress, h.once, h.entry,
    others_of_rest hrest h.scan h.gauge⟩
  rcases hlacks hl e he with hx | ⟨rfl, _⟩
  · exact .inl hx
  · exact .inl hidx

theorem InSavepoint.clear (h : InSavepoint M p done todo row (fun _ => False) s)
    (hl : M.lossless) : Clear p s :=
  h.live.clear fun _ hr => (List.mem_cons.1 hr).elim (fun he => he ▸ (h.lacks hl).settled)
    (h.settled hl _)

theorem InSavepoint.of_local (h : InSavepoint M p done todo row lacking s)
    (ha : Apart .batch p s s') (hl : Local p new s s') (hnew : ∀ i, ¬new (.outbox i))
    (hsaved : s'.db.saved = s.db.saved) : InSavepoint M p done todo row lacking s' where
  live := h.live.of_local hl hnew
  distinct := h.distinct
  kept := by
    rw [hsaved]
    exact h.kept
  settled hm row' hr :=
    ha.settled (h.live.entries ha (List.mem_cons_of_mem _ hr)) (h.settled hm row' hr)
  lacks hm := (h.lacks hm).of_grows ha.toGrows (h.live.entries ha List.mem_cons_self)

theorem Indexing.of_rely (h : Indexing env M p done todo row rid s) (hr : Rely p s s') :
    Indexing env M p done todo row rid s' := by
  have ha := hr.apart .index
  refine ⟨h.inSavepoint.of_apart ha (by decide), (hr.frame .batch).status.trans h.ready,
    h.progress.of_apart h.inSavepoint.live (fun _ => List.mem_cons_of_mem _) ha (by decide),
    fun hs => ?_, hr.appended _ h.entry, h.others.of_rely hr⟩
  rw [h.inSavepoint.live.entries ha List.mem_cons_self]
  exact h.once hs

theorem Marked.of_rely (h : Marked M p done todo row s) (hr : Rely p s s') :
    Marked M p done todo row s' :=
  ⟨h.inSavepoint.of_apart (hr.apart .index) (by decide), (hr.frame .batch).status.trans h.ready,
    h.progress.of_apart h.inSavepoint.live (fun _ => id) (hr.apart .index) (by decide),
    h.others.of_rely hr⟩

theorem Marked.of_local (h : Marked M p done todo row s) (ha : Apart .batch p s s')
    (hl : Local p new s s') (hsaved : s'.db.saved = s.db.saved)
    (hnew : ∀ k, new k → ∃ n rid, k = .index row.eventId n rid) : Marked M p done todo row s' := by
  refine ⟨h.inSavepoint.of_local ha hl (fun i hi => ?_) hsaved, by rw [hl.status]; exact h.ready,
    h.progress.of_local h.inSavepoint.live (fun _ => id) ha hl fun k hk => ?_,
    h.others.of_apart ha⟩
  · obtain ⟨n, rid, he⟩ := hnew _ hi
    cases he
  · exact .inr ⟨row, List.mem_cons_self, hnew k hk⟩

/-- A row whose savepoint is released is done. -/
theorem Marked.batch (h : Marked M p done todo row s) (ha : Apart .batch p s s')
    (hl : Local p (fun _ => False) s s') : Batch M p (row :: done) todo s' where
  live := h.inSavepoint.live.of_local hl fun _ => id
  ready := by
    rw [hl.status]
    exact h.ready
  distinct := h.inSavepoint.distinct
  settled hm row' hr := ha.settled (h.inSavepoint.live.entries ha hr)
    ((h.inSavepoint.clear hm).settled h.inSavepoint.live hr)
  progress := h.progress.of_local h.inSavepoint.live (fun _ => id) ha hl fun _ => False.elim
  others := h.others.of_apart ha

section Effects

variable {o : Choice} {i : ℕ}

theorem local_insertIndex {e n : String}
    (h : World.exec p (.insertIndex .batch e n rid) o s = some (.ok (), s')) :
    Local p (· = .index e n rid) s s' ∧ s'.db.saved = s.db.saved := by
  obtain ⟨_, hs⟩ := World.sql_ok h
  obtain ⟨⟨b, db⟩, hx, heq⟩ := Option.map_eq_some_iff.1 hs
  have hdb : db = s'.db := congrArg Prod.snd (Except.ok.inj heq)
  subst hdb
  refine ⟨local_insertNew hx (by simp), ?_⟩
  rcases insertNew_cases hx with ⟨_, hdb, _⟩ | ⟨_, _, _, hdb⟩ <;> rw [hdb]
  rfl

theorem local_markPublished
    (h : World.exec p (.markPublished rid i) o s = some (.ok (), s')) (hown : s.Owns p i)
    (hsome : (s.db.view (p, .batch) (.outbox i)).isSome) :
    Local p (fun _ => False) s s' ∧ s'.db.saved = s.db.saved ∧ Published p i s' := by
  obtain ⟨_, hs⟩ := World.sql_ok h
  obtain ⟨⟨b, db⟩, hx, heq⟩ := Option.map_eq_some_iff.1 hs
  have hdb : db = s'.db := congrArg Prod.snd (Except.ok.inj heq)
  subst hdb
  refine ⟨local_updateRow hx hown fun _ _ => rfl, ?_⟩
  rcases updateRow_cases hx with ⟨_, _, hno⟩ | ⟨_, v, hv, _, _, hdb⟩
  · obtain ⟨v, hv⟩ := Option.isSome_iff_exists.1 hsome
    exact absurd (hno v hv) (by simp)
  · rw [Published, hdb, view_put_self]
    exact ⟨rfl, _, rfl, rfl⟩

end Effects

/-- The row is marked published, its savepoint released, and it is done. -/
theorem keeps_markPublished (h : Indexing env M p done todo row rid s) :
    Keeps env M p (do
        request (.markPublished rid row.outboxId)
        request (.insertIndex .batch row.eventId row.streamName rid)
        request .releaseSavepoint)
      (outcome (fun _ => Batch M p (row :: done) todo)
        fun _ => Failed M p done todo row fun e => lower ≤ e.1) s := by
  have hfalse : ∀ e : StreamId × Fields, False → lower ≤ e.1 := fun _ => False.elim
  rw [keeps_bind]
  refine keeps_request (Indexing env M p done todo row rid) (fun _ _ hr h => h.of_rely hr) h
    fun s₁ hi h₁ => ?_
  have hlive := h₁.inSavepoint.live
  obtain ⟨w, hw, hrow⟩ := hlive.cols row List.mem_cons_self
  have hk : Know env M p (.markPublished rid row.outboxId) s₁ :=
    ⟨fun hl => (h₁.inSavepoint.clear hl).covered, hlive.owns row List.mem_cons_self, w, hw,
      by rw [hrow]; exact fun hs => (h₁.once hs).1, by rw [hrow]; exact h₁.entry⟩
  refine ⟨hk, fun o r s₂ hg hex _ => ?_⟩
  cases r with
  | error e =>
    exact (h₁.inSavepoint.mono hfalse).failed_of_error h₁.ready h₁.others hi hk hg trivial hex
  | ok u =>
  have ha : Apart .batch p s₁ s₂ := Cmd.InBatch.apart (by trivial) hi hk hex
  obtain ⟨v, hv, _⟩ := hi.exists_view (p, .batch) hw
  obtain ⟨hloc, hsaved, hpub⟩ := local_markPublished hex (hlive.owns row List.mem_cons_self)
    (by rw [hv]; rfl)
  have h₂ : Marked M p done todo row s₂ := by
    refine ⟨h₁.inSavepoint.of_local ha hloc (fun _ => id) hsaved, by rw [hloc.status]; exact h₁.ready,
      (h₁.progress.of_local hlive (fun _ => List.mem_cons_of_mem _) ha hloc
        fun _ => False.elim).cons fun hs _ => ⟨?_, hpub⟩, h₁.others.of_apart ha⟩
    rw [hlive.entries ha List.mem_cons_self]
    exact (h₁.once hs).2
  show Keeps env M p _ _ _
  rw [keeps_bind]
  refine keeps_request (Marked M p done todo row) (fun _ _ hr h => h.of_rely hr) h₂
    fun s₃ hi₃ h₃ => ?_
  have hk₃ : Know env M p (.insertIndex .batch row.eventId row.streamName rid) s₃ :=
    ⟨fun _ hl => (h₃.inSavepoint.clear hl).covered, fun _ => h₃.others.unlocked _⟩
  refine ⟨hk₃, fun o r s₄ hg hex _ => ?_⟩
  cases r with
  | error e =>
    exact (h₃.inSavepoint.mono hfalse).failed_of_error h₃.ready h₃.others hi₃ hk₃ hg trivial hex
  | ok u =>
  have ha₃ : Apart .batch p s₃ s₄ := Cmd.InBatch.apart (by trivial) hi₃ hk₃ hex
  obtain ⟨hloc₃, hsaved₃⟩ := local_insertIndex hex
  have h₄ : Marked M p done todo row s₄ :=
    h₃.of_local ha₃ hloc₃ hsaved₃ fun k hk => ⟨_, _, hk⟩
  refine keeps_request (Marked M p done todo row) (fun _ _ hr h => h.of_rely hr) h₄
    fun s₅ hi₅ h₅ => ?_
  have hk₅ : Know env M p .releaseSavepoint s₅ := fun hl => (h₅.inSavepoint.clear hl).covered
  refine ⟨hk₅, fun o r s₆ hg hex _ => ?_⟩
  cases r with
  | error e =>
    exact (h₅.inSavepoint.mono hfalse).failed_of_error h₅.ready h₅.others hi₅ hk₅ hg trivial hex
  | ok u => exact h₅.batch (Cmd.InBatch.apart (by trivial) hi₅ hk₅ hex) (local_releaseSavepoint hex)

/-- The row is published, or its savepoint is left to be undone. -/
theorem keeps_publishRow {maxlen : ℕ} (h : Appending M p done todo row s)
    (hbelow : Below row.streamName lower s) :
    Keeps env M p (publishRow env maxlen row)
      (outcome (fun _ => Batch M p (row :: done) todo)
        fun _ => Failed M p done todo row fun e => lower ≤ e.1) s := by
  rw [publishRow, keeps_bind]
  refine keeps_request (fun s => Appending M p done todo row s ∧ Below row.streamName lower s)
    (fun _ _ hr h => ⟨h.1.of_rely hr, h.2.of_grows hr.toGrows⟩) ⟨h, hbelow⟩ fun s₁ hi ⟨h₁, hb₁⟩ => ?_
  have hlive := h₁.inSavepoint.live
  have hnone : M.steady → M.healthy row.eventId → s₁.entriesOf row = [] := fun hs hh =>
    h₁.progress.fresh hs row List.mem_cons_self hh
  obtain ⟨w, hw, hrow⟩ := hlive.cols row List.mem_cons_self
  refine ⟨⟨row.outboxId, w, hlive.owns row List.mem_cons_self, hw, by rw [hrow], by rw [hrow],
    by rw [hrow]; exact hnone⟩, fun o r s₂ hg hex hi₂ => ?_⟩
  -- In steady runs, what fails is not healthy.
  have hun : o.fault ≠ .none → M.steady → ¬M.healthy row.eventId := fun hf hs => by
    obtain ⟨n, f, m, e, hc, he, hh⟩ := (M.steady_step hs p _ o s₁ hg).1 hf
    cases hc
    cases Option.some.inj ((lookup_xaddFields row).symm.trans he)
    exact hh
  have hprog : ∀ {s}, Progress M p done (row :: todo) s → Progress M p done todo s := fun h =>
    ⟨h.finished, fun hs row' hr => h.fresh hs row' (List.mem_cons_of_mem _ hr), h.keys⟩
  rcases exec_xadd hex with ⟨rfl, hf, rfl⟩ | ⟨hr, hdb, _, hid, hother, happ⟩
  · exact ⟨hun hf, fun _ => h₁.unwritten, .inr (h₁.inSavepoint.mono fun _ => False.elim),
      hprog h₁.progress, h₁.others⟩
  · have hframe : ∀ ρ, Frame (p, ρ) s₁.db s₂.db := fun ρ => by
      rw [hdb]
      exact .refl _ _
    have hrest : ∀ ρ ≠ .batch, Rest p ρ s₂ := fun ρ hρ => (h₁.others ρ hρ).of_frame (hframe ρ)
    obtain ⟨hin, hp⟩ := h₁.xadd hi hdb hother happ (hb₁ _ hid)
    rcases hr with ⟨rfl, hf⟩ | ⟨rfl, hf⟩
    · have h₂ : Appended env M p done todo row lower o.id s₂ := by
        refine ⟨hin, by rw [hdb]; exact h₁.unwritten.ready, hp, fun hs => ?_, ?_,
          hrest _ (by decide), hrest _ (by decide)⟩
        · have hh : M.healthy row.eventId := by
            by_contra hh
            exact (M.steady_step hs p _ o s₁ hg).2 ⟨_, _, _, _, rfl, rfl, hh⟩ hf
          rw [entriesOf_xadd_self hother happ rfl rfl, hnone hs hh]
          exact ⟨hh, rfl⟩
        · rw [happ]
          exact List.mem_append_right _ (List.mem_singleton_self _)
      show Keeps env M p _ _ _
      rw [keeps_bind]
      refine (safe_indexEntry (by decide) independent_appended h₂ (hrest _ (by decide))
        fun _ hi h hs => h.unlocked hi hs).mono fun r s₃ hr => ?_
      cases r with
      | ok u => exact keeps_markPublished (hr.1.1.indexing hr.1.2 hr.2)
      | error e => exact hr.1.1.failed hr.1.2 hr.2.1
    · exact ⟨hun hf, fun _ => h₁.unwritten.of_frame (hframe .batch),
        .inr (hin.mono fun _ he => he.2), hp, hrest⟩

/-! ### The rows of a batch -/

theorem mem_middle {row' : Row Payload} :
    row' ∈ row :: (done ++ todo) ↔ row' ∈ done ++ row :: todo := by
  simp only [List.mem_cons, List.mem_append]
  tauto

/-- The savepoint of the next row is set. -/
theorem Batch.appending (h : Batch M p done (row :: todo) s) (ha : Apart .batch p s s')
    (hdb : s'.db = s.db.savepoint (p, .batch)) (hl : Local p (fun _ => False) s s') :
    Appending M p done todo row s' := by
  have h' := h.of_local ha hl
  have hlive : Live p (row :: (done ++ todo)) s' := h'.live.congr fun _ => mem_middle
  have hsaved : s'.db.saved (p, .batch) =
      some ⟨s.db.pending (p, .batch), fun k => s.db.owner k = some (p, .batch)⟩ := by
    rw [hdb]
    exact Function.update_self _ _ _
  refine ⟨⟨hlive, (List.perm_middle.map _).nodup_iff.1 h.distinct, ⟨_, hsaved, fun row' hr => ?_⟩,
    fun hm row' hr => h'.settled hm row' (mem_middle.1 (List.mem_cons_of_mem _ hr)),
    fun hm => lacks_of_settled (h'.settled hm row (mem_middle.1 List.mem_cons_self))⟩,
    ⟨h'.ready, _, hsaved, by rw [hdb]; rfl⟩, h'.progress, h'.others⟩
  exact decide_eq_true (h.live.owns row' (mem_middle.1 hr))

/-- A row of a batch is done, whether it is published or not, or an exception ends the
    batch. -/
theorem keeps_drainRow {maxlen : ℕ} {acc : ℕ × ℕ} (h : Batch M p done (row :: todo) s) :
    Keeps env M p (drainRow env maxlen acc row)
      (outcome (fun _ => Batch M p (row :: done) todo) fun _ => Adrift M p) s := by
  rw [drainRow, keeps_bind]
  refine keeps_request (Batch M p done (row :: todo)) (fun _ _ hr h => h.of_rely hr) h
    fun s₁ hi h₁ => ?_
  have hk : Know env M p .beginNested s₁ := fun hl => (h₁.clear hl).covered
  refine ⟨hk, fun o r s₂ hg hex _ => ?_⟩
  cases r with
  | error e =>
    exact adrift_of_error hi hk hg trivial hex h₁.others h₁.clear fun _ => h₁.ready
  | ok u =>
  have h₂ := h₁.appending (Cmd.InBatch.apart (by trivial) hi hk hex) (exec_beginNested_ok hex).2
    (local_beginNested hex)
  show Keeps env M p _ _ _
  rw [keeps_bind]
  refine (keeps_captureStreamLowerBound (Appending M p done todo row)
    (fun _ _ hr h => h.of_rely hr) h₂).mono fun r s₃ h₃ => ?_
  cases r with
  | error e => exact h₃.elim
  | ok lower =>
  obtain ⟨h₃, hbelow⟩ := h₃
  show Keeps env M p _ _ _
  rw [keeps_tryCatch, keeps_bind]
  refine (keeps_publishRow h₃ hbelow).mono fun r s₄ h₄ => ?_
  cases r with
  | ok u => exact h₄
  | error e =>
    show Keeps env M p _ _ _
    rw [keeps_bind]
    refine (keeps_recoverRow h₄).mono fun r s₅ h₅ => ?_
    cases r with
    | ok u => exact h₅
    | error e => exact h₅

/-! ### A batch -/

theorem Idle.of_rely (h : Idle p s) (hr : Rely p s s') : Idle p s' :=
  fun ρ => (h ρ).of_frame (hr.frame ρ)

theorem Idle.others (h : Idle p s) : Others p s := fun ρ _ => h ρ

theorem eq_map_of_forall₂ {α β : Type} {R : α → β → Prop} {f : β → α} {xs : List α} {ys : List β}
    (h : List.Forall₂ R xs ys) (hf : ∀ x y, R x y → f y = x) :
    xs = ys.map f ∧ ∀ y ∈ ys, R (f y) y := by
  induction h with
  | nil => exact ⟨rfl, fun y hy => by cases hy⟩
  | @cons x y xs ys hxy _ ih =>
    cases hf x y hxy
    refine ⟨congrArg _ ih.1, fun z hz => ?_⟩
    rcases List.mem_cons.1 hz with rfl | hz
    · exact hxy
    · exact ih.2 z hz

/-- The rows selected are those now locked, and nothing was appended for them yet. -/
theorem batch_of_selectPending {n : ℕ} {o : Choice} {rows : List (Row Payload)}
    (hi : Invariant env M s) (h : Idle p s)
    (hex : World.exec p (.selectPending n) o s = some (.ok rows, s')) :
    Batch M p [] rows s' ∧ IsTop (s.createdAt (p, .batch)) n (s.available (p, .batch)) o.rows ∧
      o.rows = rows.map (·.outboxId) := by
  have hk : Know env M p (.selectPending n) s := h .batch
  have ha : Apart .batch p s s' := Cmd.InBatch.apart (by trivial) hi hk hex
  have hst := (exec_quiet (by trivial) hex).1
  obtain ⟨hready, hs⟩ := World.sql_ok hex
  split_ifs at hs with htop
  obtain ⟨⟨rows', db⟩, hlock, heq⟩ := Option.map_eq_some_iff.1 hs
  have hrows' : rows' = rows := congrArg Prod.fst (Except.ok.inj heq)
  have hdb' : db = s'.db := congrArg Prod.snd (Except.ok.inj heq)
  subst hrows' hdb'
  obtain ⟨hcom, _, hstatus, _, hown, hrows⟩ := World.lockRows_spec hlock
  have hd : Does (p, .batch) (fun k => k ∈ o.rows.map Key.outbox) (fun _ => False)
      (fun _ _ => False) s.db s'.db :=
    World.lockRows_does hlock fun i hm => List.mem_map_of_mem hm
  -- The rows are those of the identifiers, as they are committed.
  have hrow : List.Forall₂ (fun i row => row.outboxId = i ∧
      ∃ c, s.db.committed (.outbox i) = some c ∧ c.toRow = row) o.rows rows' := by
    refine hrows.imp fun i row h' => ?_
    obtain ⟨c, hc, hcr⟩ := h'
    rw [view_eq_committed ((h .batch).owner _)] at hc
    exact ⟨by rw [← hcr]; exact (hi.rows _ _ (.committed hc)).1, c, hc, hcr⟩
  obtain ⟨hids, hcols⟩ := eq_map_of_forall₂ hrow fun _ _ h => h.1
  have hmem : ∀ i, i ∈ o.rows ↔ ∃ row ∈ rows', row.outboxId = i := fun i => by
    rw [hids, List.mem_map]
  -- A row that is available is free: what the invariant says of such rows is known of it.
  have hfree : ∀ row ∈ rows', (M.steady → M.healthy row.eventId → s.entriesOf row = []) ∧
      (M.lossless → s.Settled row) := by
    intro row hr
    obtain ⟨_, c, hc, hcr⟩ := hcols row hr
    have hav := htop.subset _ ((hmem _).2 ⟨row, hr, rfl⟩)
    simp only [World.available, List.mem_filter, decide_eq_true_eq, World.Pending,
      view_eq_committed ((h .batch).owner _), hc, Option.any_some] at hav
    have hnone : s.db.owner (.outbox row.outboxId) = none := by
      cases ho : s.db.owner (.outbox row.outboxId) with
      | none => rfl
      | some t =>
        have ht := hav.2.2.1 t ho
        exact absurd (ht ▸ ho) ((h .batch).owner _)
    obtain ⟨hfresh, hls⟩ := hi.free _ c hc hnone
    rw [hcr] at hfresh hls
    exact ⟨fun hs hh => hfresh hs hh (Option.isNone_iff_eq_none.1 hav.2.1), hls⟩
  have hgrow : Grows s s' := .of_committed hst hcom (exec_quiet (by trivial) hex).2.2
  have honly : ∀ k, s'.db.owner k = some (p, .batch) → ∃ i ∈ o.rows, k = .outbox i := by
    intro k hk
    rcases hd.owner_or hk with h' | ⟨_, h'⟩
    · exact absurd h' ((h .batch).owner _)
    · obtain ⟨j, hj, hjk⟩ := List.mem_map.1 h'
      exact ⟨j, hj, hjk.symm⟩
  refine ⟨⟨⟨fun row hr => ?_, fun row hr => ?_, fun i hi => ?_⟩, by rw [hstatus]; exact hready, ?_,
    fun hl row hr => ?_, ⟨fun _ row hr => (List.not_mem_nil hr).elim, fun hs row hr hh => ?_,
      fun _ k hk => ?_⟩, h.others.of_apart ha⟩, htop, hids⟩
  · exact hown _ (.inl (List.mem_map_of_mem ((hmem _).2 ⟨row, hr, rfl⟩)))
  · rw [hcom]
    exact (hcols row hr).2
  · obtain ⟨j, hj, hji⟩ := honly _ hi
    cases hji
    exact (hmem i).1 hj
  · rw [List.nil_append, ← hids]
    exact htop.nodup
  · exact hgrow.settled (entriesOf_congr hst row) ((hfree row hr).2 hl)
  · rw [entriesOf_congr hst]
    exact (hfree row hr).1 hs hh
  · obtain ⟨i, _, rfl⟩ := honly k hk
    exact .inl ⟨i, rfl⟩

/-- The rows of a batch are done one after the other, or an exception ends it. -/
theorem keeps_drainRows {maxlen : ℕ} {acc : ℕ × ℕ} (h : Batch M p [] rows s) :
    Keeps env M p (rows.foldlM (drainRow env maxlen) acc)
      (outcome (fun _ => Batch M p rows.reverse []) fun _ => Adrift M p) s := by
  refine safe_foldlM (fun _ todo s => ∃ done, done.reverse ++ todo = rows ∧ Batch M p done todo s)
    ?_ ?_ ⟨[], rfl, h⟩
  · rintro _ s' ⟨done, rfl, hs⟩
    rw [List.append_nil, List.reverse_reverse]
    exact hs
  · rintro acc row todo s' ⟨done, hrows, hs⟩
    refine (keeps_drainRow hs).mono fun r s'' hr => ?_
    cases r with
    | ok => exact ⟨row :: done, by simpa using hrows, hr⟩
    | error e => exact hr

/-- A batch is drained, or an exception ends it. -/
theorem keeps_drainOneBatch {args : DrainArgs} (h : Idle p s) :
    Keeps env M p (drainOneBatch env args)
      (outcome (fun _ s => ∃ done, Batch M p done [] s) fun _ => Adrift M p) s := by
  rw [drainOneBatch, keeps_bind]
  refine keeps_request (Idle p) (fun _ _ hr h => h.of_rely hr) h fun s₁ hi h₁ => ?_
  have hk : Know env M p (.selectPending args.batchSize) s₁ := h₁ .batch
  refine ⟨hk, fun o r s₂ hg hex _ => ?_⟩
  cases r with
  | error e =>
    exact adrift_of_error hi hk hg trivial hex h₁.others
      (fun _ i _ hown => absurd hown ((h₁ .batch).owner _)) fun _ => (h₁ .batch).ready
  | ok rows =>
  have h₂ := (batch_of_selectPending hi h₁ hex).1
  show Keeps env M p _ _ _
  cases rows with
  | nil => exact ⟨[], h₂⟩
  | cons row rest =>
    simp only
    rw [keeps_bind]
    refine keeps_request (Batch M p [] (row :: rest)) (fun _ _ hr h => h.of_rely hr) h₂
      fun s₃ _ h₃ => ⟨trivial, fun o r s₄ _ hex _ => ?_⟩
    cases hex
    show Keeps env M p _ _ _
    rw [keeps_bind]
    refine (keeps_drainRows h₃).mono fun r s' hr => ?_
    cases r with
    | ok acc => exact ⟨_, hr⟩
    | error e => exact hr

/-! ### The end of a batch -/

/-- The batch is about to be committed. -/
structure Drained (M : Mode P Payload) (p : P) (done : List (Row Payload)) (s : World P Payload) :
    Prop where
  live : Live p done s
  ready : s.db.status (p, .batch) = .ready
  settled : M.lossless → ∀ row ∈ done, s.Settled row
  finished : M.steady → ∀ row ∈ done, M.healthy row.eventId →
    (s.entriesOf row).length = 1 ∧ Published p row.outboxId s
  others : Others p s

/-- The batch is about to be closed. -/
structure Closing (M : Mode P Payload) (p : P) (s : World P Payload) : Prop where
  clear : M.lossless → Clear p s
  free : M.steady → ∀ i, ¬s.Owns p i
  others : Others p s

theorem Adrift.closing (h : Adrift M p s) : Closing M p s :=
  ⟨h.clear, fun hs => absurd hs h.failed, h.others⟩

theorem Closing.of_rely (h : Closing M p s) (hr : Rely p s s') : Closing M p s' :=
  ⟨fun hl => (h.clear hl).of_apart (hr.apart .index) (by decide),
    fun hs i hown => h.free hs i (((hr.frame .batch).owner _).1 hown), h.others.of_rely hr⟩

theorem Drained.of_rely (h : Drained M p done s) (hr : Rely p s s') : Drained M p done s' := by
  have hf := hr.frame .batch
  have hent : ∀ row ∈ done, s'.entriesOf row = s.entriesOf row := fun row hrow =>
    h.live.entries (hr.apart .index) hrow
  refine ⟨h.live.of_frame hf, hf.status.trans h.ready,
    fun hl row hrow => hr.settled (hent row hrow) (h.settled hl row hrow), fun hs row hrow hh => ?_,
    h.others.of_rely hr⟩
  rw [hent row hrow, Published, hf.view (h.live.owns row hrow)]
  exact h.finished hs row hrow hh

theorem Batch.drained (h : Batch M p done [] s) : Drained M p done s := by
  obtain ⟨hlive, hready, _, hset, hprog, ho⟩ := h
  rw [List.append_nil] at hlive hset
  exact ⟨hlive, hready, hset, hprog.finished, ho⟩

theorem Drained.of_local (h : Drained M p done s) (ha : Apart .batch p s s') (hl : Local p new s s')
    (hnew : ∀ i, ¬new (.outbox i)) : Drained M p done s' where
  live := h.live.of_local hl hnew
  ready := by
    rw [hl.status]
    exact h.ready
  settled hm row hr := ha.settled (h.live.entries ha hr) (h.settled hm row hr)
  finished hs row hr hh := by
    rw [h.live.entries ha hr]
    exact (h.finished hs row hr hh).imp_right (hl.published _)
  others := h.others.of_apart ha

theorem Drained.clear (h : Drained M p done s) (hl : M.lossless) : Clear p s :=
  h.live.clear (h.settled hl)

/-- The healthy rows of the batch are published in its transaction. -/
theorem Drained.known (h : Drained M p done s) (hi : Invariant env M s) (hs : M.steady) :
    Finished M p s := by
  intro i hown
  obtain ⟨row, hr, rfl⟩ := h.live.only i hown
  obtain ⟨w, hw, hrow⟩ := h.live.cols row hr
  obtain ⟨v, hv, hrow'⟩ := hi.exists_view (p, .batch) hw
  have hvr : v.toRow = row := hrow'.trans hrow
  refine ⟨v, hv, fun hh => ?_⟩
  rw [hvr] at hh
  obtain ⟨hlen, v', hv', hpub⟩ := h.finished hs row hr hh
  cases Option.some.inj (hv.symm.trans hv')
  exact ⟨hpub, by rw [hvr]; exact hlen⟩

theorem local_insertAudit {e : AuditEvent} {o : Choice}
    (h : World.exec p (.insertAudit e) o s = some (.ok (), s')) :
    Local p (· = .audit s.nextAuditId) s s' := by
  obtain ⟨⟨x, s₁⟩, hx, heq⟩ := Option.map_eq_some_iff.1 h
  cases heq
  obtain ⟨_, hs⟩ := World.sql_ok hx
  obtain ⟨⟨b, db⟩, hins, heq⟩ := Option.map_eq_some_iff.1 hs
  have hdb : db = s₁.db := congrArg Prod.snd (Except.ok.inj heq)
  subst hdb
  obtain ⟨h₁, h₂, h₃, h₄, h₅⟩ := local_insertNew hins (by simp)
  exact ⟨h₁, h₂, h₃, h₄, h₅⟩

/-- A batch that is committed is over, whatever the reply. -/
theorem keeps_commitBatch (h : Drained M p done s) :
    Keeps env M p (request (.commit .batch)) (fun _ => Closing M p) s := by
  refine keeps_request (Drained M p done) (fun _ _ hr h => h.of_rely hr) h fun s₁ hi h₁ => ?_
  have hk : Know env M p (.commit .batch) s₁ :=
    ⟨fun hl => (h₁.clear hl).covered, h₁.known hi⟩
  refine ⟨hk, fun o r s₂ _ hex _ => ?_⟩
  have ha : Apart .batch p s₁ s₂ := apart_step hi hk hex (by cases hex; rfl) (by simp)
  have hfree : ∀ i, ¬s₂.Owns p i := by
    cases hex
    intro i hown
    have hcases : s₁.db.commit (p, .batch) o.fault Exn.sql = (_, _) := rfl
    rcases commit_cases hcases with ⟨_, ⟨_, hn⟩ | ⟨hdb, _⟩ | ⟨hdb, _⟩⟩ | ⟨_, hdb, _⟩
    · exact hn h₁.ready
    · rw [World.Owns, hdb] at hown
      exact owner_abort_self hown
    · rw [World.Owns, hdb] at hown
      exact owner_commitTx_self hown
    · rw [World.Owns, hdb] at hown
      exact owner_commitTx_self hown
  exact ⟨fun _ i _ hown => absurd hown (hfree i), fun _ => hfree, h₁.others.of_apart ha⟩

/-- A closed session is not in use, and neither are the others. -/
theorem keeps_close (a : World P Payload → Prop) (ha : ∀ s s', Rely p s s' → a s → a s') (h : a s)
    (hk : ∀ s, a s → Know env M p (.close ρ) s) (ho : ∀ s, a s → ∀ ρ' ≠ ρ, Rest p ρ' s) :
    Keeps env M p (request (.close ρ)) (fun _ => Idle p) s := by
  refine keeps_request a ha h fun s₁ hi h₁ => ⟨hk s₁ h₁, fun o r s₂ _ hex _ ρ' => ?_⟩
  have hap := apart_step hi (hk s₁ h₁) hex (exec_quiet (by trivial) hex).1 (by simp)
  by_cases hρ : ρ' = ρ
  · subst hρ
    cases hex
    exact rest_of_abort (close_cases rfl).1
  · exact (ho s₁ h₁ ρ' hρ).of_frame (hap.frame ρ' hρ)

/-- The number of pending rows is counted in a session of its own. -/
theorem keeps_countPending (h : Idle p s) :
    Keeps env M p (withSession .gauge (request .countPending)) (fun _ => Idle p) s := by
  rw [keeps_withSession]
  refine keeps_request (Idle p) (fun _ _ hr h => h.of_rely hr) h
    fun s₁ hi h₁ => ⟨trivial, fun o r s₂ _ hex _ => ?_⟩
  have ha := apart_step hi (by trivial) hex (exec_quiet (by trivial) hex).1 (by simp)
  have hrest : ∀ ρ ≠ .gauge, Rest p ρ s₂ := fun ρ hρ => (h₁ ρ).of_frame (ha.frame ρ hρ)
  have hclose : Keeps env M p (request (.close .gauge)) (fun _ => Idle p) s₂ :=
    keeps_close (fun s => ∀ ρ ≠ Role.gauge, Rest p ρ s)
      (fun _ _ hr hs ρ hρ => (hs ρ hρ).of_frame (hr.frame ρ)) hrest (fun _ _ => trivial)
      fun _ hs => hs
  exact hclose.mono fun x _ hx => by cases x <;> exact hx

/-- The session of a batch is closed in the end. -/
theorem keeps_closeBatch (h : Closing M p s) :
    Keeps env M p (request (.close .batch)) (fun _ => Idle p) s :=
  keeps_close (Closing M p) (fun _ _ hr h => h.of_rely hr) h
    (fun _ h => ⟨fun hl => (h.clear hl).covered, h.free⟩) fun _ h => h.others

/-- An iteration of a drainer. -/
theorem keeps_drainOutbox {args : DrainArgs} (h : Idle p s) :
    Keeps env M p (drainOutbox env args) (fun _ => Idle p) s := by
  rw [drainOutbox, keeps_bind, keeps_withSession, keeps_bind]
  refine (keeps_drainOneBatch h).mono fun r s₁ h₁ => ?_
  cases r with
  | error e =>
    exact (keeps_closeBatch h₁.closing).mono fun x _ hx => by cases x <;> exact hx
  | ok acc =>
  obtain ⟨done, h₁⟩ := h₁
  -- What follows the transaction of the batch.
  have hcount : ∀ s, Idle p s → Keeps env M p (do
      let _ ← withSession .gauge (request .countPending)) (fun _ => Idle p) s := fun s hs => by
    rw [keeps_bind]
    exact (keeps_countPending hs).mono fun x _ hx => by cases x <;> exact hx
  have hclose : ∀ (x : Except Exn Unit) s, Closing M p s →
      Keeps env M p (request (.close .batch)) (outcome (fun _ => outcome
        (fun _ => Keeps env M p (do
          let _ ← withSession .gauge (request .countPending)) (fun _ => Idle p))
        (fun _ => Idle p) x) fun _ => Idle p) s := fun x s hs =>
    (keeps_closeBatch hs).mono fun y s' hy => by
      cases y with
      | error e => exact hy
      | ok u => cases x with
        | error e => exact hy
        | ok u => exact hcount s' hy
  have hcommit : ∀ s, Drained M p done s → Keeps env M p (request (.commit .batch))
      (fun x => Keeps env M p (request (.close .batch)) (outcome (fun _ => outcome
        (fun _ => Keeps env M p (do
          let _ ← withSession .gauge (request .countPending)) (fun _ => Idle p))
        (fun _ => Idle p) x) fun _ => Idle p)) s := fun s hs =>
    (keeps_commitBatch hs).mono fun x s' hx => hclose x s' hx
  show Keeps env M p _ _ _
  obtain ⟨drained, failures, oldestAge, newestAge⟩ := acc
  simp only
  split_ifs
  · rw [keeps_bind]
    refine keeps_request (Batch M p done []) (fun _ _ hr h => h.of_rely hr) h₁ fun s₂ hi h₂ => ?_
    have hk : Know env M p (.insertAudit
        { drainedRecord drained failures oldestAge newestAge with actor := drainerActor }) s₂ := by
      refine ⟨fun hl => (h₂.clear hl).covered, fun hs ρ hk => h₂.others.unlocked _ ρ hk⟩
    refine ⟨hk, fun o x s₃ hg hex _ => ?_⟩
    cases x with
    | ok u =>
      exact hcommit s₃ (h₂.drained.of_local (Cmd.InBatch.apart (by trivial) hi hk hex)
        (local_insertAudit hex) (by simp))
    | error e =>
      exact hclose (.error e) s₃ (adrift_of_error hi hk hg trivial hex h₂.others h₂.clear
        fun _ => h₂.ready).closing
  · exact hcommit s₁ h₁.drained

/-- A producer's transaction. -/
theorem keeps_publish (h : Idle p s) :
    Keeps env M p (request (.publish row)) (fun _ => Idle p) s := by
  refine keeps_request (Idle p) (fun _ _ hr h => h.of_rely hr) h
    fun s₁ hi h₁ => ⟨h₁ .batch, fun o r s₂ _ hex _ ρ => ?_⟩
  rcases exec_publish hi (h₁ .batch) hex with rfl | ⟨_, _, _, _, hl, hdb⟩
  · exact h₁ ρ
  by_cases hρ : ρ = .batch
  · subst hρ
    refine ⟨?_, ?_, fun k => ?_⟩ <;> rw [hdb]
    · exact status_commitTx_self
    · exact saved_commitTx_self
    · exact owner_commitTx_self
  · refine (h₁ ρ).of_frame ?_
    rw [hdb]
    have ht : (p, ρ) ≠ (p, Role.batch) := fun he => hρ (congrArg Prod.snd he)
    exact (frame_put ht).trans (frame_commitTx ht)

/-! ### The outline is valid -/

theorem Rely.refl (p : P) (s : World P Payload) : Rely p s s :=
  ⟨.refl s, fun _ => .refl _ _, fun _ _ _ _ => rfl⟩

theorem Rely.trans {s'' : World P Payload} (h : Rely p s s') (h' : Rely p s' s'') :
    Rely p s s'' := by
  refine ⟨h.toGrows.trans h'.toGrows, fun ρ => (h.frame ρ).trans (h'.frame ρ),
    fun i o hown ho => ?_⟩
  rw [h'.entries i o (((h.frame .batch).owner _).2 hown)
    (((h.frame .batch).committed _ hown).trans ho), h.entries i o hown ho]

theorem Invariant.abort (hi : Invariant env M s)
    (hk : ρ = .batch → (M.steady → s.Unappended p) ∧ (M.lossless → s.Covered p)) :
    Invariant env M (s.abort p ρ) := by
  refine hi.of_release rfl rfl rfl (.abort _ _) fun i hown hrel => ?_
  by_cases hρ : ρ = .batch
  · exact hk hρ
  · have ht : (p, Role.batch) ≠ (p, ρ) := fun he => hρ (congrArg Prod.snd he).symm
    exact absurd (((frame_abort ht).owner _).2 hown) hrel

theorem rely_abort (hq : q ≠ p) (ρ : Role) (s : World P Payload) : Rely q s (s.abort p ρ) :=
  ⟨.of_committed rfl rfl rfl, fun _ => frame_abort fun he => hq (congrArg Prod.fst he),
    fun _ _ _ _ => rfl⟩

theorem rest_abort (p : P) (ρ : Role) (s : World P Payload) : Rest p ρ (s.abort p ρ) :=
  ⟨status_abort_self, saved_abort_self, fun _ => owner_abort_self⟩

theorem Rest.abort (h : Rest p ρ s) (ρ' : Role) : Rest p ρ (s.abort p ρ') := by
  by_cases hρ : ρ = ρ'
  · subst hρ
    exact rest_abort p ρ s
  · exact h.of_frame (frame_abort fun he => hρ (congrArg Prod.snd he))

/-- A process that is killed has no session in use. -/
theorem idle_kill (p : P) (s : World P Payload) : Idle p (s.kill p) := by
  intro ρ
  cases ρ with
  | batch => exact (((rest_abort p .batch s).abort .index).abort .scan).abort .gauge
  | index => exact ((rest_abort p .index _).abort .scan).abort .gauge
  | scan => exact (rest_abort p .scan _).abort .gauge
  | gauge => exact rest_abort p .gauge _

/-- The outline of the drainers is valid, in the runs of any mode. -/
theorem outline_valid (env : Env Payload) (M : Mode P Payload) :
    (outline env M).Valid (system env P) M.guard where
  rely_refl := Rely.refl
  rely_trans _ _ _ _ := Rely.trans
  inv_step _ _ _ _ _ _ hi hk hg h := invariant_step hi hk hg h
  rely_step _ _ _ _ _ _ _ hq hi hk _ h := rely_step hq.symm hi hk h
  inv_kill p s hi hg := by
    have hk : (M.steady → s.Unappended p) ∧ (M.lossless → s.Covered p) :=
      ⟨fun hs => M.steady_kill hs p s hg, fun hl => M.lossless_kill hl p s hg⟩
    have hne : ∀ {ρ : Role} {s : World P Payload}, ρ ≠ .batch → ρ = .batch →
        (M.steady → s.Unappended p) ∧ (M.lossless → s.Covered p) := fun hn he => absurd he hn
    exact (((hi.abort fun _ => hk).abort (hne (by decide))).abort (hne (by decide))).abort
      (hne (by decide))
  rely_kill p q s hq _ _ := by
    have hp := Ne.symm hq
    exact (((rely_abort hp .batch _).trans (rely_abort hp .index _)).trans
      (rely_abort hp .scan _)).trans (rely_abort hp .gauge _)
  idle_kill p s _ := idle_kill p s
  idle_stable _ _ _ hr h := h.of_rely hr
  post_stable _ _ _ _ _ hr h := Idle.of_rely h hr
  post_idle _ _ _ _ h := h
  body p j s _ h _ := by
    cases j with
    | drain args => exact keeps_drainOutbox h
    | publish row => exact keeps_publish h

end Outbox

end AslanCore
