import AslanCore.Outbox.Delivery

/-!
# The lookup table

The table `streams.event_id_to_redis` is how the entries of an event are found again. It
has every entry appended for a published row as long as no drainer loses one
(`lookup_complete`): an entry is recorded after it is appended, in a transaction of its
own, and searched for when this fails. A drainer that is killed in between does neither,
and no other drainer does it instead (`not_lookup_complete`).
-/

set_option linter.unusedSectionVars false

namespace AslanCore

namespace Outbox

variable {P Payload : Type} [DecidableEq P] {env : Env Payload}

/-- No drainer loses an entry: while the lookup table lacks one of those appended for the
    rows it has locked, a drainer is not killed, and what follows the failure to record it
    does not fail. -/
abbrev keepsEntries : Guard (Cmd Payload) P (Job Payload) Choice (World P Payload) where
  step := Lossless
  kill p s := s.Covered p

/-- The runs where no entry is lost. -/
def losslessRun : Mode P Payload where
  guard := keepsEntries
  steady := False
  healthy _ := True
  lossless := True
  steady_step h := h.elim
  steady_kill h := h.elim
  lossless_step _ _ _ _ _ hg := hg
  lossless_kill _ _ _ hg := hg

/-- Where no drainer loses an entry, the lookup table has every entry that was appended
    to the stream of a published row and carries its event. -/
theorem lookup_complete (P : Type) [DecidableEq P] (env : Env Payload) (c : Contents Payload)
    {cfg : Config (Cmd Payload) (Reply Payload) Exn Unit P (Job Payload) (World P Payload)}
    (h : (system env P).Reach keepsEntries.Holds ((system env P).initial (.ofContents c)) cfg)
    {i : ℕ} {o : OutboxRow Payload} (ho : cfg.shared.db.committed (.outbox i) = some o)
    (hpub : o.publishedAt.isSome) {rid : StreamId} {f : Fields}
    (he : (rid, f) ∈ (cfg.shared.streams.get o.streamName).appended)
    (hf : f.lookup "event_id" = some o.eventId) :
    (cfg.shared.db.committed (.index o.eventId o.streamName rid)).isSome := by
  have hinv := ((outline_valid env losslessRun).safe (invariant_ofContents c) (idle_ofContents c)
    h).1
  -- A published row is in no batch.
  have hfree : cfg.shared.db.owner (.outbox i) = none := by
    cases hown : cfg.shared.db.owner (.outbox i) with
    | none => rfl
    | some t =>
      obtain ⟨_, o', ho', hnone⟩ := hinv.locked i t hown
      cases Option.some.inj (ho.symm.trans ho')
      simp [hnone] at hpub
  refine (hinv.free i o ho hfree).2 trivial (rid, f) (List.mem_filter.2 ⟨he, ?_⟩)
  exact decide_eq_true hf

/-! The reply to `XADD` is lost, and the search finds the entry. -/

/-- A pending row. -/
def oneRow : Contents Unit where
  rows := [pendingRow "e" 1]
  pending := by decide
  unique := by decide

/-- The reply to the first `XADD` is lost. The row is appended again by the next batch. -/
def lostReply : List (Event Bool (Job Unit) Choice) :=
  [.start false (.drain ⟨1, 100⟩), .step false { rows := [0] }, .step false {}, .step false {},
    .step false {}, .step false { fault := .lost, id := .ofMs 1 }] ++
  List.replicate 14 (.step false {}) ++
  [.start false (.drain ⟨1, 100⟩), .step false { rows := [0] }] ++ publishSteps false 2

/-- Both entries are in the lookup table at the end of the run. -/
theorem lookup_complete_lostReply :
    ∃ cfg, (system plainEnv Bool).Reach keepsEntries.Holds
        ((system plainEnv Bool).initial (.ofContents oneRow)) cfg ∧
      (cfg.shared.db.committed (.index "e" "s" (.ofMs 1))).isSome ∧
      (cfg.shared.db.committed (.index "e" "s" (.ofMs 2))).isSome := by
  have hrun : ((system plainEnv Bool).run keepsEntries.Holds lostReply
      ((system plainEnv Bool).initial (.ofContents oneRow))).any (fun cfg =>
        (cfg.shared.db.committed (.outbox 0)).any (fun o => o.publishedAt.isSome &&
          o.streamName = "s" && o.eventId = "e") &&
        (cfg.shared.streams.get "s").appended.map (·.1) = [.ofMs 1, .ofMs 2] &&
        (cfg.shared.streams.get "s").appended.all (·.2.lookup "event_id" = some "e")) = true := by
    decide +kernel
  obtain ⟨cfg, hreach, hgood⟩ := System.Reach.exists_of_run hrun
  refine ⟨cfg, hreach, ?_⟩
  simp only [Bool.and_eq_true, decide_eq_true_eq, Option.any_eq_true, List.all_eq_true] at hgood
  obtain ⟨⟨⟨o, ho, ⟨hpub, hs⟩, heid⟩, hids⟩, hev⟩ := hgood
  have hidx : ∀ rid ∈ [StreamId.ofMs 1, StreamId.ofMs 2],
      (cfg.shared.db.committed (.index "e" "s" rid)).isSome := by
    intro rid hrid
    rw [← hids] at hrid
    obtain ⟨e, he, rfl⟩ := List.mem_map.1 hrid
    have := lookup_complete Bool plainEnv oneRow hreach ho hpub (by rw [hs]; exact he)
      (by rw [heid]; exact hev e he)
    rwa [hs, heid] at this
  exact ⟨hidx _ (by simp), hidx _ (by simp)⟩

/-! The drainer is killed after `XADD`, and the row is published by another one. -/

/-- A drainer is killed before it records the entry it has appended. -/
def killedDrainer : List (Event Bool (Job Unit) Choice) :=
  [.start false (.drain ⟨1, 100⟩), .step false { rows := [0] }, .step false {}, .step false {},
    .step false {}, .step false { id := .ofMs 1 }, .kill false,
    .start true (.drain ⟨1, 100⟩), .step true { rows := [0] }] ++ publishSteps true 2

/-- The row is published, and the lookup table lacks the entry of the drainer that was
    killed. -/
theorem not_lookup_complete :
    ∃ cfg, (system plainEnv Bool).Reach (Guard.Holds {})
        ((system plainEnv Bool).initial (.ofContents oneRow)) cfg ∧
      ∃ o, cfg.shared.db.committed (.outbox 0) = some o ∧ o.publishedAt.isSome ∧
        ∃ e ∈ (cfg.shared.streams.get o.streamName).appended,
          e.2.lookup "event_id" = some o.eventId ∧
          cfg.shared.db.committed (.index o.eventId o.streamName e.1) = none := by
  have hrun : ((system plainEnv Bool).run (fun _ _ => True) killedDrainer
      ((system plainEnv Bool).initial (.ofContents oneRow))).any (fun cfg =>
        (cfg.shared.db.committed (.outbox 0)).any fun o => o.publishedAt.isSome &&
          (cfg.shared.streams.get o.streamName).appended.any fun e =>
            e.2.lookup "event_id" = some o.eventId &&
            (cfg.shared.db.committed (.index o.eventId o.streamName e.1)).isNone) = true := by
    decide +kernel
  obtain ⟨cfg, hreach, hgood⟩ := System.Reach.exists_of_run hrun
  simp only [Bool.and_eq_true, decide_eq_true_eq, Option.any_eq_true, List.any_eq_true,
    Option.isNone_iff_eq_none] at hgood
  exact ⟨cfg, hreach.mono fun cfg e _ => Guard.holds_trivial cfg e, hgood⟩

end Outbox

end AslanCore
