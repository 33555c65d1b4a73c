import AslanCore.Outbox.Drainer
import AslanCore.Process.Outline
import AslanCore.Store.Isolation

/-!
# The outline of the drainers

What a drainer knows when it issues a command, and what holds of the outbox and its
streams in every state.

* `Invariant`: every version of a published row names an entry appended for it, every
  entry was appended for a row, and only pending rows are locked, by a batch.
* `Know`: what a drainer knows. It holds the lock of the row it works on, so no other
  drainer appends an entry for it (`Rely.entries`).

Two things are known in some runs only, and the outline is for runs of any kind
(`Mode`). In the *steady* ones `XADD` fails for the events that are not
*healthy*, and nothing else does, and no transaction is lost after an entry was appended in it: a drainer then
knows how many entries were appended for the rows of its batch that carry healthy
events. In the *lossless* ones a failure does not keep a drainer from the entries it has
appended (`Lossless`): it then knows that the entries appended for the rows it releases
are in the lookup table.
-/

namespace AslanCore

namespace Outbox

variable {P Payload : Type} [DecidableEq P]

namespace World

variable (s : World P Payload)

/-- The entries appended to the stream of a row that carry its event. -/
def entriesOf (row : Row Payload) : List (StreamId × Fields) :=
  (s.streams.get row.streamName).appended.filter fun e => e.2.lookup "event_id" = some row.eventId

/-- The lookup table has the entry `rid` of a row. -/
def Indexed (row : Row Payload) (rid : StreamId) : Prop :=
  (s.db.committed (.index row.eventId row.streamName rid)).isSome

instance (row : Row Payload) (rid : StreamId) : Decidable (s.Indexed row rid) :=
  inferInstanceAs (Decidable (_ = true))

/-- The lookup table has every entry appended for a row. -/
def Settled (row : Row Payload) : Prop := ∀ e ∈ s.entriesOf row, s.Indexed row e.1

instance (row : Row Payload) : Decidable (s.Settled row) :=
  inferInstanceAs (Decidable (∀ e ∈ s.entriesOf row, s.Indexed row e.1))

/-- The row of the outbox is locked by the batch of `p`. -/
def Owns (p : P) (i : ℕ) : Prop := s.db.owner (.outbox i) = some (p, .batch)

instance (p : P) (i : ℕ) : Decidable (s.Owns p i) :=
  inferInstanceAs (Decidable (s.db.owner (.outbox i) = some (p, .batch)))

/-- The lookup table has every entry appended for the rows that `p` has locked. -/
def Covered (p : P) : Prop :=
  ∀ i < s.nextOutboxId, s.Owns p i → ∀ o ∈ s.db.committed (.outbox i), s.Settled o.toRow

instance (p : P) : Decidable (s.Covered p) :=
  inferInstanceAs (Decidable (∀ i < s.nextOutboxId, s.Owns p i →
    ∀ o ∈ s.db.committed (.outbox i), s.Settled o.toRow))

/-- The entries appended for a row are still in its stream, unless the lookup table has
    them. -/
def Findable (row : Row Payload) : Prop :=
  ∀ e ∈ s.entriesOf row, s.Indexed row e.1 ∨ e ∈ (s.streams.get row.streamName).entries

instance (row : Row Payload) : Decidable (s.Findable row) :=
  inferInstanceAs (Decidable (∀ e ∈ s.entriesOf row, s.Indexed row e.1 ∨ e ∈ _))

/-- The entries appended for the rows that `p` has locked can be found. -/
def Present (p : P) : Prop :=
  ∀ i < s.nextOutboxId, s.Owns p i → ∀ o ∈ s.db.committed (.outbox i), s.Findable o.toRow

instance (p : P) : Decidable (s.Present p) :=
  inferInstanceAs (Decidable (∀ i < s.nextOutboxId, s.Owns p i →
    ∀ o ∈ s.db.committed (.outbox i), s.Findable o.toRow))

/-- No entry was appended for the rows that `p` has locked. -/
def Unappended (p : P) : Prop :=
  ∀ i < s.nextOutboxId, s.Owns p i → ∀ o ∈ s.db.committed (.outbox i), s.entriesOf o.toRow = []

instance (p : P) : Decidable (s.Unappended p) :=
  inferInstanceAs (Decidable (∀ i < s.nextOutboxId, s.Owns p i →
    ∀ o ∈ s.db.committed (.outbox i), s.entriesOf o.toRow = []))

end World

/-- A step that does not keep `p` from finding the entries it has appended: while the
    lookup table lacks one of them, the statements that undo the publication of the row,
    and search for its entries, do not fail (but for the reply to the commit that makes
    the table complete), and the entries are there to be found. -/
def Lossless (p : P) (c : Cmd Payload) (o : Choice) (s : World P Payload) : Prop :=
  match c with
  | .rollbackToSavepoint => s.Covered p ∨ o.fault = .none
  | .xinfoStream _ | .xrange _ _ _ _ => s.Covered p ∨ o.fault = .none ∧ s.Present p
  | .insertIndex .scan _ _ _ | .close .scan => s.Covered p ∨ o.fault = .none
  | .commit .scan => s.Covered p ∨ o.fault = .none ∨
      o.fault = .lost ∧ { s with db := s.db.commitTx (p, .scan) .gone }.Covered p
  | _ => True

instance (p : P) (c : Cmd Payload) (o : Choice) (s : World P Payload) :
    Decidable (Lossless p c o s) := by
  unfold Lossless
  split <;> infer_instance

/-- The kind of the runs considered: the condition on their events, and whether it
    makes them steady, or lossless. -/
structure Mode (P Payload : Type) [DecidableEq P] where
  guard : Guard (Cmd Payload) P (Job Payload) Choice (World P Payload)
  steady : Prop
  /-- The events for which `XADD` does not fail in steady runs: for the others it does. -/
  healthy : String → Prop
  lossless : Prop
  steady_step : steady → ∀ p c o s, guard.step p c o s → (o.fault ≠ .none ↔
    ∃ n f m e, c = .xadd n f m ∧ f.lookup "event_id" = some e ∧ ¬healthy e)
  steady_kill : steady → ∀ p s, guard.kill p s → s.Unappended p
  lossless_step : lossless → ∀ p c o s, guard.step p c o s → Lossless p c o s
  lossless_kill : lossless → ∀ p s, guard.kill p s → s.Covered p

variable (env : Env Payload) (M : Mode P Payload)

/-- The row names an entry appended for it. -/
def World.Delivered (s : World P Payload) (o : OutboxRow Payload) : Prop :=
  ∃ rid, o.redisMessageId = some rid ∧
    (rid, xaddFields env o.toRow) ∈ (s.streams.get o.streamName).appended

/-- What holds of every version of every row: only the state of the publication of an
    outbox row is ever written, and no row is ever deleted. -/
def World.RowOk (s : World P Payload) : (k : Key) → Option (RowOf Payload k) → Prop
  | _, none => False
  | .outbox i, some o => o.outboxId = i ∧ i < s.nextOutboxId ∧
      (∃ c, s.db.committed (.outbox i) = some c ∧ c.toRow = o.toRow) ∧
      (o.publishedAt.isSome → s.Delivered env o ∧ (M.steady → M.healthy o.eventId))
  | _, some _ => True

/-- What holds in every state. -/
structure Invariant (s : World P Payload) : Prop where
  rows : s.db.All (s.RowOk env M)
  refs : ∀ k t, t ∉ s.db.refs k
  unique : ∀ i j a b, s.db.committed (.outbox i) = some a → s.db.committed (.outbox j) = some b →
    a.eventId = b.eventId → i = j
  origin : ∀ n, ∀ e ∈ (s.streams.get n).appended, ∃ i o, s.db.committed (.outbox i) = some o ∧
    o.streamName = n ∧ e.2 = xaddFields env o.toRow
  locked : ∀ i t, s.db.owner (.outbox i) = some t → t.2 = .batch ∧
    ∃ o, s.db.committed (.outbox i) = some o ∧ o.publishedAt = none
  once : M.steady → ∀ i o, s.db.committed (.outbox i) = some o → M.healthy o.eventId →
    (s.entriesOf o.toRow).length ≤ 1 ∧
      (o.publishedAt.isSome → (s.entriesOf o.toRow).length = 1)
  free : ∀ i o, s.db.committed (.outbox i) = some o → s.db.owner (.outbox i) = none →
    (M.steady → M.healthy o.eventId → o.publishedAt = none → s.entriesOf o.toRow = []) ∧
      (M.lossless → s.Settled o.toRow)

/-- The session of `p` is not in use. -/
structure Rest (p : P) (r : Role) (s : World P Payload) : Prop where
  ready : s.db.status (p, r) = .ready
  saved : s.db.saved (p, r) = none
  owner : ∀ k, s.db.owner k ≠ some (p, r)

/-- The rows that `p` has locked, and that carry a healthy event, are published in its
    transaction, and one entry was appended for each. -/
def Finished (p : P) (s : World P Payload) : Prop :=
  ∀ i, s.Owns p i → ∃ o, s.db.view (p, .batch) (.outbox i) = some o ∧
    (M.healthy o.eventId → o.publishedAt.isSome ∧ (s.entriesOf o.toRow).length = 1)

/-- No session of `p`, but `ρ`, has locked the row. -/
def Unlocked (p : P) (ρ : Role) (k : Key) (s : World P Payload) : Prop :=
  ∀ ρ', s.db.owner k = some (p, ρ') → ρ' = ρ

/-- What `p` knows when it issues a command. -/
def Know (p : P) (c : Cmd Payload) (s : World P Payload) : Prop :=
  match c with
  | .selectPending _ | .publish _ => Rest p .batch s
  | .beginNested | .releaseSavepoint => M.lossless → s.Covered p
  | .insertAudit _ => (M.lossless → s.Covered p) ∧
      (M.steady → Unlocked p .batch (.audit s.nextAuditId) s)
  | .xadd n f _ => ∃ i o, s.Owns p i ∧ s.db.committed (.outbox i) = some o ∧
      n = o.streamName ∧ f = xaddFields env o.toRow ∧
      (M.steady → M.healthy o.eventId → s.entriesOf o.toRow = [])
  | .insertIndex ρ e n rid => (ρ = .batch → M.lossless → s.Covered p) ∧
      (M.steady → Unlocked p ρ (.index e n rid) s)
  | .markPublished rid i => (M.lossless → s.Covered p) ∧ s.Owns p i ∧
      ∃ o, s.db.committed (.outbox i) = some o ∧ (M.steady → M.healthy o.eventId) ∧
        (rid, xaddFields env o.toRow) ∈ (s.streams.get o.streamName).appended
  | .rollbackToSavepoint => ∀ sp, s.db.saved (p, .batch) = some sp →
      ∀ i, s.Owns p i → sp.owned (.outbox i) = true
  | .recordFailure _ i | .selectAttempts i => (M.lossless → s.Covered p) ∧ s.Owns p i
  | .commit .batch => (M.lossless → s.Covered p) ∧ (M.steady → Finished M p s)
  | .close .batch => (M.lossless → s.Covered p) ∧ (M.steady → ∀ i, ¬s.Owns p i)
  | _ => True

/-- What no step undoes: rows keep their columns, and entries their place. -/
structure Grows (s s' : World P Payload) : Prop where
  rows : ∀ i o, s.db.committed (.outbox i) = some o →
    ∃ o', s'.db.committed (.outbox i) = some o' ∧ o'.toRow = o.toRow
  index : ∀ e n rid, (s.db.committed (.index e n rid)).isSome →
    (s'.db.committed (.index e n rid)).isSome
  appended : ∀ n, (s.streams.get n).appended ⊆ (s'.streams.get n).appended
  next : s.nextOutboxId ≤ s'.nextOutboxId

/-- What `p` relies on the others to leave unchanged. -/
structure Rely (p : P) (s s' : World P Payload) : Prop extends Grows s s' where
  frame : ∀ ρ, Database.Frame (p, ρ) s.db s'.db
  entries : ∀ i o, s.Owns p i → s.db.committed (.outbox i) = some o →
    s'.entriesOf o.toRow = s.entriesOf o.toRow

/-- No session of `p` is in use. -/
def Idle (p : P) (s : World P Payload) : Prop := ∀ r, Rest p r s

/-- The outline of the drainers, in the runs of a mode. -/
def outline : Outline (Cmd Payload) Exn Unit P (Job Payload) (World P Payload) where
  inv := Invariant env M
  know := Know env M
  rely := Rely
  idle := Idle
  post p _ _ := Idle p

end Outbox

end AslanCore
