import AslanCore.Store.Stream

/-!
# Arithmetic of Redis identifiers

The helpers that walk the identifiers `<ms>-<seq>` of a stream. They are the order of
identifiers (`redisIdCompare_pos`) and the successor in it (`redisIdIncrement_eq`).
-/

namespace AslanCore

/-- The next identifier: `<ms>-<seq + 1>`, or `<ms + 1>-0` after the last sequence number. -/
def redisIdIncrement (rid : StreamId) : StreamId :=
  if h : rid.seq < 2 ^ 64 - 1 then ⟨rid.ms, rid.seq + 1, by omega⟩ else ⟨rid.ms + 1, 0, StreamId.zero_lt⟩

/-- The numeric order of identifiers: `-1`, `0` or `1`. -/
def redisIdCompare (a b : StreamId) : ℤ :=
  if a.ms ≠ b.ms then if a.ms < b.ms then -1 else 1
  else if a.seq ≠ b.seq then if a.seq < b.seq then -1 else 1
  else 0

theorem redisIdIncrement_eq (rid : StreamId) : redisIdIncrement rid = rid.succ := by
  have h := rid.seq_lt
  rw [redisIdIncrement, StreamId.succ]
  split_ifs <;> first | rfl | omega

theorem redisIdCompare_pos {a b : StreamId} : 0 < redisIdCompare a b ↔ b < a := by
  have ha := a.seq_lt
  have hb := b.seq_lt
  rw [StreamId.lt_iff, StreamId.toNat, StreamId.toNat, redisIdCompare]
  split_ifs <;> omega

end AslanCore
