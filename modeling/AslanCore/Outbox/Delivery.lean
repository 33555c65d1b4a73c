import AslanCore.Outbox.Drain

/-!
# Delivery

A row of the outbox is published only when it names an entry appended for it, whatever
fails; and in runs where nothing fails it is appended once (`outbox_delivery`).
-/

set_option linter.unusedSectionVars false

namespace AslanCore

namespace Outbox

open Database

variable {P Payload : Type} [DecidableEq P] {env : Env Payload} {M : Mode P Payload}

/-! ### The initial state -/

theorem committed_ofContents {c : Contents Payload} {i : ℕ} {o : OutboxRow Payload}
    (h : (World.ofContents c : World P Payload).db.committed (.outbox i) = some o) :
    ∃ o₀, c.rows[i]? = some o₀ ∧ o = { o₀ with outboxId := i } := by
  obtain ⟨o₀, ho, rfl⟩ := Option.map_eq_some_iff.1 h
  exact ⟨o₀, ho, rfl⟩

theorem invariant_ofContents (c : Contents Payload) :
    Invariant env M (World.ofContents c : World P Payload) := by
  have hnone : ∀ row, (World.ofContents c : World P Payload).entriesOf row = [] := fun row => rfl
  refine ⟨fun k w hw => ?_, fun _ _ => List.not_mem_nil, fun i j a b ha hb hab => ?_, fun n e he => ?_, fun i t ht => ?_,
    fun _ i o ho _ => ?_, fun i o ho _ => ⟨fun _ _ _ => hnone _, fun _ e he => ?_⟩⟩
  · cases hw with
    | pending h => cases h
    | saved h => cases h
    | @committed v h =>
      cases k with
      | outbox i =>
        obtain ⟨o₀, ho, rfl⟩ := committed_ofContents h
        obtain ⟨hlt, _⟩ := List.getElem?_eq_some_iff.1 ho
        refine ⟨rfl, hlt, ⟨_, h, rfl⟩, fun hpub => ?_⟩
        have := c.pending o₀ (List.mem_of_getElem? ho)
        simp [this] at hpub
      | index => cases h
      | audit => cases h
  · obtain ⟨a₀, ha₀, rfl⟩ := committed_ofContents ha
    obtain ⟨b₀, hb₀, rfl⟩ := committed_ofContents hb
    obtain ⟨hi, hai⟩ := List.getElem?_eq_some_iff.1 ha₀
    obtain ⟨hj, hbj⟩ := List.getElem?_eq_some_iff.1 hb₀
    have hi' : i < (c.rows.map (·.eventId)).length := by simpa using hi
    have hj' : j < (c.rows.map (·.eventId)).length := by simpa using hj
    have heq : (c.rows.map (·.eventId))[i] = (c.rows.map (·.eventId))[j] := by
      simpa [hai, hbj] using hab
    exact (List.Nodup.getElem_inj_iff c.unique).1 heq
  · cases he
  · cases ht
  · obtain ⟨o₀, ho₀, rfl⟩ := committed_ofContents ho
    have hpub := c.pending o₀ (List.mem_of_getElem? ho₀)
    rw [hnone]
    exact ⟨Nat.zero_le _, fun h => by simp [hpub] at h⟩
  · rw [hnone] at he
    cases he

theorem idle_ofContents (c : Contents Payload) (p : P) :
    Idle p (World.ofContents c : World P Payload) :=
  fun _ => ⟨rfl, rfl, fun _ => nofun⟩

/-! ### Runs without failures -/

/-- Every request to Redis and to Postgres is carried out. A process may be killed, but
    not with the transaction of a batch in which an entry was appended: Postgres would
    fail to commit it. -/
abbrev noFailure : Guard (Cmd Payload) P (Job Payload) Choice (World P Payload) where
  step _ _ o _ := o.fault = .none
  kill p s := s.Unappended p

/-- The runs where anything may fail. -/
def anyRun : Mode P Payload where
  guard := {}
  steady := False
  healthy _ := True
  lossless := False
  steady_step h := h.elim
  steady_kill h := h.elim
  lossless_step h := h.elim
  lossless_kill h := h.elim

/-- The runs where nothing fails. -/
def smoothRun : Mode P Payload where
  guard := noFailure
  steady := True
  healthy _ := True
  lossless := False
  steady_step _ _ _ _ _ hg := by
    refine ⟨fun hf => absurd hg hf, ?_⟩
    rintro ⟨_, _, _, _, _, _, hh⟩
    exact absurd trivial hh
  steady_kill _ _ _ hg := hg
  lossless_step h := h.elim
  lossless_kill h := h.elim

/-- Whatever fails, and whoever is killed, a published row names an entry appended for
    it. Where nothing fails, no row is appended twice, and a row is appended once when it
    is published; a row that is pending, and in no batch, was not appended. -/
theorem outbox_delivery (P : Type) [DecidableEq P] (env : Env Payload) (c : Contents Payload) :
    (∀ cfg, (system env P).Reach (Guard.Holds {}) ((system env P).initial (.ofContents c)) cfg →
      ∀ i o, cfg.shared.db.committed (.outbox i) = some o → o.publishedAt.isSome →
        ∃ rid, o.redisMessageId = some rid ∧
          (rid, xaddFields env o.toRow) ∈ (cfg.shared.streams.get o.streamName).appended) ∧
    ∀ cfg, (system env P).Reach noFailure.Holds ((system env P).initial (.ofContents c)) cfg →
      ∀ i o, cfg.shared.db.committed (.outbox i) = some o →
        (cfg.shared.entriesOf o.toRow).length ≤ 1 ∧
        (o.publishedAt.isSome → (cfg.shared.entriesOf o.toRow).length = 1) ∧
        (o.publishedAt = none → cfg.shared.db.owner (.outbox i) = none →
          cfg.shared.entriesOf o.toRow = []) := by
  constructor
  · intro cfg hreach i o ho hpub
    have hinv := ((outline_valid env anyRun).safe (invariant_ofContents c) (idle_ofContents c)
      hreach).1
    exact ((hinv.rows _ _ (.committed ho)).2.2.2 hpub).1
  · intro cfg hreach i o ho
    have hinv := ((outline_valid env smoothRun).safe (invariant_ofContents c) (idle_ofContents c)
      hreach).1
    obtain ⟨hle, heq⟩ := hinv.once trivial i o ho trivial
    exact ⟨hle, heq, fun hpub hown => (hinv.free i o ho hown).1 trivial trivial hpub⟩

/-! A run of two drainers. Each publishes a row, while the other has locked its own. -/

/-- Nothing is computed of the payloads. -/
def plainEnv : Env Unit where
  dumps _ := "{}"
  getStr _ _ := ""
  formatExc _ := ""

/-- A pending row. -/
def pendingRow (eventId : String) (createdAt : ℕ) : OutboxRow Unit where
  outboxId := 0
  streamName := "s"
  eventId := eventId
  schemaVersion := 1
  payload := ()
  createdAt := createdAt
  publishedAt := none
  redisMessageId := none
  publishAttempts := 0
  lastAttemptAt := none
  lastError := none

/-- Two pending rows. -/
def twoRows : Contents Unit where
  rows := [pendingRow "e" 1, pendingRow "f" 2]
  pending := by decide
  unique := by decide

/-- The steps of a drainer that publishes a row under the identifier `ms-0`. -/
def publishSteps (p : Bool) (ms : ℕ) : List (Event Bool (Job Unit) Choice) :=
  .step p {} :: .step p {} :: .step p {} :: .step p { id := .ofMs ms } ::
    List.replicate 11 (.step p {})

/-- Both drainers select a row, and publish it. -/
def twoDrainers : List (Event Bool (Job Unit) Choice) :=
  [.start false (.drain ⟨1, 100⟩), .step false { rows := [0] },
    .start true (.drain ⟨1, 100⟩), .step true { rows := [1] }] ++
  publishSteps true 1 ++ publishSteps false 2

/-- Both rows are published at the end of the run, and each was appended once. -/
theorem outbox_delivery_twoDrainers :
    ∃ cfg, (system plainEnv Bool).Reach noFailure.Holds
        ((system plainEnv Bool).initial (.ofContents twoRows)) cfg ∧
      ∀ i < 2, ∃ o, cfg.shared.db.committed (.outbox i) = some o ∧ o.publishedAt.isSome ∧
        (cfg.shared.entriesOf o.toRow).length = 1 ∧ ∃ rid, o.redisMessageId = some rid ∧
          (rid, xaddFields plainEnv o.toRow) ∈ (cfg.shared.streams.get o.streamName).appended := by
  have hrun : ((system plainEnv Bool).run noFailure.Holds twoDrainers
      ((system plainEnv Bool).initial (.ofContents twoRows))).any (fun cfg =>
        (List.range 2).all fun i =>
          (cfg.shared.db.committed (.outbox i)).any (·.publishedAt.isSome)) = true := by
    decide +kernel
  obtain ⟨cfg, hreach, hgood⟩ := System.Reach.exists_of_run hrun
  refine ⟨cfg, hreach, fun i hi => ?_⟩
  obtain ⟨o, ho, hpub⟩ := (Option.any_eq_true _ _).1 (List.all_eq_true.1 hgood i (by simpa using hi))
  have hany := hreach.mono fun cfg e _ => Guard.holds_trivial cfg e
  exact ⟨o, ho, hpub, ((outbox_delivery Bool plainEnv twoRows).2 cfg hreach i o ho).2.1 hpub,
    (outbox_delivery Bool plainEnv twoRows).1 cfg hany i o ho hpub⟩

end Outbox

end AslanCore
