import Mathlib.Logic.Function.Basic
import Mathlib.Tactic.Common

/-!
# Transactional databases

A database is a collection of rows, under keys, shared by the transactions of any
number of sessions at the isolation level *read committed*: a statement sees what
is committed when it is executed, and what its own transaction has written.

* A transaction that writes a row, or selects it for update, holds its lock until
  it ends, and no other transaction can write it: what is pending is always locked
  (`Database.owner_of_pending`), so two transactions never write the same row.
* A row that others refer to is kept from being deleted, or selected for update, by
  the transactions inserting these references (`Database.refs`).
* A statement may have to wait for another transaction: it is then not possible.
* A statement that fails ends its transaction, or undoes it up to its savepoint,
  and the session refuses statements until it is rolled back (`Database.statement`).

What is known about a database that is used by others meanwhile is the subject of
`AslanCore.Store.Isolation`.
-/

namespace AslanCore

/-- The state of a session: ready for a statement, refusing statements until it is
    rolled back, or disconnected. -/
inductive Status
  | ready
  | failed
  | gone
  deriving DecidableEq

/-- What may go wrong with a request to a store: nothing, a request that is not
    carried out, or a connection lost, after an end of transaction was carried out. -/
inductive Fault
  | none
  | refused
  | lost
  deriving DecidableEq

/-- A savepoint: the rows written, and locked, before it. -/
structure Savepoint (K : Type) (V : K → Type) where
  pending : (k : K) → Option (Option (V k))
  owned : K → Bool

/-- A database of rows `V k`, under keys `k`, used by sessions `T`. A row that a
    transaction has written is pending: its new value, or `none` if it is deleted. -/
structure Database (T K : Type) (V : K → Type) where
  committed : (k : K) → Option (V k)
  pending : T → (k : K) → Option (Option (V k))
  owner : K → Option T
  forUpdate : K → Bool
  refs : K → List T
  saved : T → Option (Savepoint K V)
  status : T → Status
  owner_of_pending : ∀ t k, (pending t k).isSome → owner k = some t
  owner_of_saved : ∀ t sp, saved t = some sp → ∀ k, (sp.pending k).isSome →
    owner k = some t ∧ sp.owned k = true

namespace Database

variable {T K : Type} {V : K → Type} [DecidableEq T] [DecidableEq K] (db : Database T K V)

/-- The database of the given rows, not in use. -/
def ofRows (rows : (k : K) → Option (V k)) : Database T K V where
  committed := rows
  pending _ _ := none
  owner _ := none
  forUpdate _ := false
  refs _ := []
  saved _ := none
  status _ := .ready
  owner_of_pending _ _ h := by simp at h
  owner_of_saved _ _ h := by simp at h

/-- The row under the key `k`, as seen by the session `t`. -/
def view (t : T) (k : K) : Option (V k) := (db.pending t k).getD (db.committed k)

/-- No transaction of another session keeps `t` from locking the row, or from
    selecting it for update if `fu`. -/
def CanLock (t : T) (k : K) (fu : Bool) : Prop :=
  (∀ t' ∈ db.owner k, t' = t) ∧ (fu = true → ∀ t' ∈ db.refs k, t' = t)

instance (t : T) (k : K) (fu : Bool) : Decidable (db.CanLock t k fu) :=
  inferInstanceAs (Decidable (_ ∧ _))

/-- Another transaction than that of `t` has written the row. -/
def Contended (t : T) (k : K) : Prop := ∃ t' ∈ db.owner k, t' ≠ t ∧ (db.pending t' k).isSome

instance (t : T) (k : K) : Decidable (db.Contended t k) :=
  decidable_of_iff (((db.owner k).any fun t' => t' ≠ t ∧ (db.pending t' k).isSome) = true) <| by
    simp [Contended, Option.any_eq_true]

/-! ### What statements do -/

/-- The row is locked by `t`. -/
def lockRow (t : T) (k : K) (fu : Bool) (h : db.CanLock t k fu) : Database T K V where
  committed := db.committed
  pending := db.pending
  owner := Function.update db.owner k (some t)
  forUpdate := Function.update db.forUpdate k (fu || (db.owner k).isSome && db.forUpdate k)
  refs := db.refs
  saved := db.saved
  status := db.status
  owner_of_pending t' k' hk := by
    have := db.owner_of_pending t' k' hk
    by_cases hkk : k' = k
    · subst hkk
      rw [Function.update_self, h.1 t' this]
    · rwa [Function.update_of_ne hkk]
  owner_of_saved t' sp hsp k' hk := by
    obtain ⟨ho, hs⟩ := db.owner_of_saved t' sp hsp k' hk
    refine ⟨?_, hs⟩
    by_cases hkk : k' = k
    · subst hkk
      rw [Function.update_self, h.1 t' ho]
    · rwa [Function.update_of_ne hkk]

/-- The row is written by `t`, who has locked it. -/
def write (t : T) (k : K) (v : Option (V k)) (h : db.owner k = some t) : Database T K V where
  committed := db.committed
  pending := Function.update db.pending t (Function.update (db.pending t) k (some v))
  owner := db.owner
  forUpdate := db.forUpdate
  refs := db.refs
  saved := db.saved
  status := db.status
  owner_of_pending t' k' hk := by
    by_cases ht : t' = t
    · subst ht
      rw [Function.update_self] at hk
      by_cases hkk : k' = k
      · subst hkk
        exact h
      · rw [Function.update_of_ne hkk] at hk
        exact db.owner_of_pending t' k' hk
    · rw [Function.update_of_ne ht] at hk
      exact db.owner_of_pending t' k' hk
  owner_of_saved := db.owner_of_saved

/-- The row is locked and written by `t`. -/
def put (t : T) (k : K) (v : Option (V k)) (fu : Bool) (h : db.CanLock t k fu) :
    Database T K V :=
  (db.lockRow t k fu h).write t k v (by simp [lockRow])

/-- A reference to the row is inserted by `t`. -/
def addRef (t : T) (k : K) : Database T K V :=
  { db with refs := Function.update db.refs k (t :: db.refs k) }

/-- The transaction of `t` ends, leaving `rows` committed: its locks are released. -/
def finish (t : T) (rows : (k : K) → Option (V k)) (st : Status) : Database T K V where
  committed := rows
  pending := Function.update db.pending t fun _ => none
  owner k := if db.owner k = some t then none else db.owner k
  forUpdate := db.forUpdate
  refs k := (db.refs k).filter (· ≠ t)
  saved := Function.update db.saved t none
  status := Function.update db.status t st
  owner_of_pending t' k hk := by
    by_cases ht : t' = t
    · subst ht
      simp at hk
    · rw [Function.update_of_ne ht] at hk
      rw [db.owner_of_pending t' k hk, if_neg (by simpa using ht)]
  owner_of_saved t' sp hsp k hk := by
    by_cases ht : t' = t
    · subst ht
      simp at hsp
    · rw [Function.update_of_ne ht] at hsp
      obtain ⟨ho, hs⟩ := db.owner_of_saved t' sp hsp k hk
      exact ⟨by rw [ho, if_neg (by simpa using ht)], hs⟩

/-- The transaction of `t` is committed. -/
def commitTx (t : T) (st : Status) : Database T K V := db.finish t (db.view t) st

/-- The transaction of `t` is undone. -/
def abort (t : T) (st : Status) : Database T K V := db.finish t db.committed st

/-- A savepoint is set by `t`. -/
def savepoint (t : T) : Database T K V where
  committed := db.committed
  pending := db.pending
  owner := db.owner
  forUpdate := db.forUpdate
  refs := db.refs
  saved := Function.update db.saved t (some ⟨db.pending t, fun k => db.owner k = some t⟩)
  status := db.status
  owner_of_pending := db.owner_of_pending
  owner_of_saved t' sp hsp k hk := by
    by_cases ht : t' = t
    · subst ht
      rw [Function.update_self] at hsp
      cases hsp
      have := db.owner_of_pending t' k hk
      exact ⟨this, by simpa using this⟩
    · rw [Function.update_of_ne ht] at hsp
      exact db.owner_of_saved t' sp hsp k hk

/-- The savepoint of `t` is forgotten: what follows it is part of the transaction. -/
def release (t : T) : Database T K V where
  committed := db.committed
  pending := db.pending
  owner := db.owner
  forUpdate := db.forUpdate
  refs := db.refs
  saved := Function.update db.saved t none
  status := db.status
  owner_of_pending := db.owner_of_pending
  owner_of_saved t' sp hsp k hk := by
    by_cases ht : t' = t
    · subst ht
      simp at hsp
    · rw [Function.update_of_ne ht] at hsp
      exact db.owner_of_saved t' sp hsp k hk

/-- What `t` did since its savepoint is undone, and the locks it took released. -/
def undoTo (t : T) (sp : Savepoint K V) (hsp : db.saved t = some sp) (st : Status) :
    Database T K V where
  committed := db.committed
  pending := Function.update db.pending t sp.pending
  owner k := if db.owner k = some t ∧ sp.owned k = false then none else db.owner k
  forUpdate := db.forUpdate
  refs := db.refs
  saved := db.saved
  status := Function.update db.status t st
  owner_of_pending t' k hk := by
    by_cases ht : t' = t
    · subst ht
      rw [Function.update_self] at hk
      obtain ⟨ho, hs⟩ := db.owner_of_saved t' sp hsp k hk
      rw [if_neg (by simp [hs]), ho]
    · rw [Function.update_of_ne ht] at hk
      have ho := db.owner_of_pending t' k hk
      rw [if_neg (by simp [ho, ht]), ho]
  owner_of_saved t' sp' hsp' k hk := by
    obtain ⟨ho, hs⟩ := db.owner_of_saved t' sp' hsp' k hk
    by_cases ht : t' = t
    · subst ht
      cases Option.some.inj (hsp.symm.trans hsp')
      exact ⟨by rw [if_neg (by simp [hs]), ho], hs⟩
    · exact ⟨by rw [if_neg (by simp [ho, ht]), ho], hs⟩

/-- The transaction of `t` fails: it is undone, up to its savepoint if it has one. -/
def fail (t : T) : Database T K V :=
  match h : db.saved t with
  | some sp => db.undoTo t sp h .failed
  | none => db.abort t .failed

/-! ### Statements

A statement is `none` when it has to wait for another transaction, an exception
when it is in error, and else its answer and the database after it. -/

/-- `INSERT … ON CONFLICT DO NOTHING`: whether the row was inserted. It waits for a
    transaction that has written the row, to know whether it is there. -/
def insertNew (t : T) (k : K) (v : V k) : Option (Bool × Database T K V) :=
  if db.Contended t k then none
  else if (db.view t k).isSome then some (false, db)
  else if h : db.CanLock t k false then some (true, db.put t k (some v) false h) else none

/-- `UPDATE … WHERE`: whether the row was updated. -/
def updateRow (t : T) (k : K) (where_ : V k → Bool) (f : V k → V k) :
    Option (Bool × Database T K V) :=
  match db.view t k with
  | none => some (false, db)
  | some v =>
    if where_ v then
      if h : db.CanLock t k false then some (true, db.put t k (some (f v)) false h) else none
    else some (false, db)

/-- `DELETE … WHERE`: whether the row was deleted. -/
def deleteRow (t : T) (k : K) (where_ : V k → Bool) : Option (Bool × Database T K V) :=
  match db.view t k with
  | none => some (false, db)
  | some v =>
    if where_ v then
      if h : db.CanLock t k true then some (true, db.put t k none true h) else none
    else some (false, db)

/-- `SELECT … FOR UPDATE`: the row, now locked. -/
def selectForUpdate (t : T) (k : K) : Option (Option (V k) × Database T K V) :=
  match db.view t k with
  | none => some (none, db)
  | some v => if h : db.CanLock t k true then some (some v, db.lockRow t k true h) else none

/-- The row may be referred to by a row that `t` inserts: no other transaction has
    selected it for update. -/
def CanRefer (t : T) (k : K) : Prop := ∀ t' ∈ db.owner k, t' = t ∨ db.forUpdate k = false

instance (t : T) (k : K) : Decidable (db.CanRefer t k) :=
  inferInstanceAs (Decidable (∀ t' ∈ db.owner k, _))

variable {ε α : Type}

/-- The execution of a statement of the session `t`, which raises `e` if it fails. -/
def statement (t : T) (fault : Fault) (e : ε) (stmt : Option (Except ε (α × Database T K V))) :
    Option (Except ε α × Database T K V) :=
  if db.status t = .ready then
    match fault with
    | .none => stmt.map fun
      | .ok (a, db') => (.ok a, db')
      | .error e' => (.error e', db.fail t)
    | .refused => some (.error e, db.fail t)
    | .lost => some (.error e, db.abort t .gone)
  else some (.error e, db)

/-- `COMMIT`: it may be refused, or its reply be lost. -/
def commit (t : T) (fault : Fault) (e : ε) : Except ε Unit × Database T K V :=
  if db.status t = .ready then
    match fault with
    | .none => (.ok (), db.commitTx t .ready)
    | .refused => (.error e, db.abort t .gone)
    | .lost => (.error e, db.commitTx t .gone)
  else (.error e, db)

/-- `ROLLBACK`, which ends the transaction whatever goes wrong. -/
def rollback (t : T) (fault : Fault) (e : ε) : Except ε Unit × Database T K V :=
  match fault with
  | .none => (.ok (), db.abort t .ready)
  | _ => (.error e, db.abort t .gone)

/-- The session is closed, and the next one is a fresh one. -/
def close (t : T) (fault : Fault) (e : ε) : Except ε Unit × Database T K V :=
  match fault with
  | .none => (.ok (), db.abort t .ready)
  | _ => (.error e, db.abort t .ready)

/-- `ROLLBACK TO SAVEPOINT`: the transaction goes on from its savepoint. -/
def rollbackTo (t : T) (fault : Fault) (e : ε) : Except ε Unit × Database T K V :=
  match h : db.saved t, fault with
  | some sp, .none => (.ok (), (db.undoTo t sp h .ready).release t)
  | none, .none => (.ok (), db)
  | _, _ => (.error e, db.abort t .gone)

end Database

end AslanCore
