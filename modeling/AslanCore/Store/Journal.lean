import Mathlib.Data.List.Forall2
import AslanCore.Store.Database
import AslanCore.Process.Outline

/-!
# Journals

A journal is a database in which the sessions also record what they write: the records of a
transaction are committed with its rows (`Journal`). Beside the database, there are its
histories: for every row, what the writes of it have met, and what they have left (`Overwrite`), of
the transactions that are committed, and of those that are open. No program reads them.

* A write of a row meets what the one before it has left (`Leads`): the histories lead to the rows
  that are committed, and to those that a session sees (`Journal.Sound`). This holds in every run
  of any programs, as a row is locked by the session that has written it.
* What the sessions record of their writes is another matter: it is what they say. If they only
  commit what they have recorded, then the records that are committed are those of the histories
  (`Journal.Recorded`, `Journal.recorded_of_reach`).
-/

namespace AslanCore

/-- A write of a row: what it has met, and what it has left. -/
structure Overwrite (α : Type) where
  met : Option α
  row : α

/-- The writes lead from one state of a row to another: each of them meets what the one before it
    has left. -/
def Leads {α : Type} : Option α → List (Overwrite α) → Option α → Prop
  | a, [], b => b = a
  | a, w :: ws, b => w.met = a ∧ Leads (some w.row) ws b

section Leads

variable {α β : Type} {a b c : Option α} {ws ws' : List (Overwrite α)}

theorem Leads.append (h : Leads a ws b) (h' : Leads b ws' c) : Leads a (ws ++ ws') c := by
  induction ws generalizing a with
  | nil => exact Eq.subst (motive := fun b => Leads b ws' c) h h'
  | cons w ws ih => exact ⟨h.1, ih h.2⟩

/-- A write of what the writes lead to. -/
theorem Leads.concat (h : Leads a ws b) (row : α) : Leads a (ws ++ [⟨b, row⟩]) (some row) :=
  h.append ⟨rfl, rfl⟩

/-- What the writes lead to is what the last one has left. -/
theorem Leads.eq_getLast (h : Leads a ws b) :
    b = match ws.getLast? with
      | none => a
      | some w => some w.row := by
  induction ws generalizing a with
  | nil => exact h
  | cons w ws ih =>
    rw [ih h.2, List.getLast?_cons]
    cases ws.getLast? <;> rfl

/-- The same of a column. -/
def Overwrite.map (f : α → β) (w : Overwrite α) : Overwrite β := ⟨w.met.map f, f w.row⟩

theorem Leads.map (f : α → β) (h : Leads a ws b) :
    Leads (a.map f) (ws.map (Overwrite.map f)) (b.map f) := by
  induction ws generalizing a with
  | nil => exact congrArg (Option.map f) h
  | cons w ws ih => exact ⟨congrArg (Option.map f) h.1, ih h.2⟩

end Leads

/-- A database, what is recorded in it, and its histories. -/
structure Journal (T K : Type) (V : K → Type) (E : Type) where
  db : Database T K V
  /-- The records, in the order of the commits. -/
  events : List E
  pendingEvents : T → List E
  writes : (k : K) → List (Overwrite (V k))
  pendingWrites : T → (k : K) → List (Overwrite (V k))
  /-- What the last statement of a session on a row has met. -/
  seen : T → (k : K) → Option (V k)
  /-- The next number of the sequence: it is never drawn twice. -/
  next : ℕ

namespace Journal

variable {T K : Type} {V : K → Type} {E ε α : Type} [DecidableEq T] [DecidableEq K]

/-- There are no rows, and no records. -/
def empty : Journal T K V E where
  db := .ofRows fun _ => none
  events := []
  pendingEvents _ := []
  writes _ := []
  pendingWrites _ _ := []
  seen _ _ := none
  next := 1

section Effects

variable (s : Journal T K V E) (t : T)

/-- A statement of the session has met the row. -/
def meet (k : K) : Journal T K V E :=
  { s with seen := Function.update s.seen t (Function.update (s.seen t) k (s.db.view t k)) }

/-- The session writes the row. -/
def put (k : K) (row : V k) (h : s.db.CanLock t k false) : Journal T K V E :=
  { s.meet t k with
    db := s.db.put t k (some row) false h
    pendingWrites := Function.update s.pendingWrites t (Function.update (s.pendingWrites t) k
      (s.pendingWrites t k ++ [⟨s.db.view t k, row⟩])) }

def record (e : E) : Journal T K V E :=
  { s with pendingEvents := Function.update s.pendingEvents t (s.pendingEvents t ++ [e]) }

/-- The transaction of the session is undone. -/
def undo (st : Status) : Journal T K V E :=
  { s with
    db := s.db.abort t st
    pendingEvents := Function.update s.pendingEvents t []
    pendingWrites := Function.update s.pendingWrites t fun _ => [] }

/-- The transaction of the session is committed. -/
def keep (st : Status) : Journal T K V E :=
  { s with
    db := s.db.commitTx t st
    events := s.events ++ s.pendingEvents t
    pendingEvents := Function.update s.pendingEvents t []
    writes := fun k => s.writes k ++ s.pendingWrites t k
    pendingWrites := Function.update s.pendingWrites t fun _ => [] }

/-! ### Statements -/

/-- `INSERT … ON CONFLICT DO NOTHING`: whether the row was inserted. -/
def insertNew (k : K) (row : V k) : Option (Bool × Journal T K V E) :=
  if s.db.Contended t k then none
  else if (s.db.view t k).isSome then some (false, s.meet t k)
  else if h : s.db.CanLock t k false then some (true, s.put t k row h) else none

/-- `UPDATE … WHERE`: whether the row was updated. -/
def updateRow (k : K) (where_ : V k → Bool) (set : V k → V k) : Option (Bool × Journal T K V E) :=
  match s.db.view t k with
  | none => some (false, s.meet t k)
  | some v =>
    if where_ v then
      if h : s.db.CanLock t k false then some (true, s.put t k (set v) h) else none
    else some (false, s.meet t k)

/-- The row that an upsert leaves. -/
def upserted (k : K) (new : ℕ → V k) (set : V k → V k) : V k :=
  match s.db.view t k with
  | none => new s.next
  | some v => set v

/-- `INSERT … ON CONFLICT DO UPDATE`. The number of a new row is drawn before it is known whether
    there is one. -/
def upsertRow (k : K) (new : ℕ → V k) (set : V k → V k) : Option (Unit × Journal T K V E) :=
  if h : s.db.CanLock t k false then
    some ((), { s.put t k (s.upserted t k new set) h with next := s.next + 1 })
  else none

/-- The execution of a statement of the session, which raises `x` if it fails. -/
def statement (fault : Fault) (x : ε) (stmt : Option (Except ε (α × Journal T K V E))) :
    Option (Except ε α × Journal T K V E) :=
  if s.db.status t = .ready then
    match fault with
    | .none => stmt.map fun
      | .ok (a, s') => (.ok a, s')
      | .error x' => (.error x', s.undo t .failed)
    | .refused => some (.error x, s.undo t .failed)
    | .lost => some (.error x, s.undo t .gone)
  else some (.error x, s)

/-- `COMMIT`: it may be refused, or its reply be lost. -/
def commit (fault : Fault) (x : ε) : Except ε Unit × Journal T K V E :=
  if s.db.status t = .ready then
    match fault with
    | .none => (.ok (), s.keep t .ready)
    | .refused => (.error x, s.undo t .gone)
    | .lost => (.error x, s.keep t .gone)
  else (.error x, s)

/-- `ROLLBACK`, which ends the transaction whatever goes wrong. -/
def rollback (fault : Fault) (x : ε) : Except ε Unit × Journal T K V E :=
  match fault with
  | .none => (.ok (), s.undo t .ready)
  | _ => (.error x, s.undo t .gone)

end Effects

/-- The commands of a session. -/
inductive Cmd (K : Type) (V : K → Type) (E : Type)
  | select (k : K)
  | insertNew (k : K) (row : V k)
  | update (k : K) (where_ : V k → Bool) (set : V k → V k)
  | upsert (k : K) (new : ℕ → V k) (set : V k → V k)
  | record (e : E)
  /-- A statement with a value that no column holds. -/
  | reject
  | commit
  | rollback

abbrev Reply : Cmd K V E → Type
  | .select k => Option (V k)
  | .insertNew _ _ | .update _ _ _ => Bool
  | .reject => Empty
  | _ => Unit

/-- The effect of a command. -/
def exec (x : ε) (t : T) (c : Cmd K V E) (fault : Fault) (s : Journal T K V E) :
    Option (Except ε (Reply c) × Journal T K V E) :=
  match c with
  | .select k => s.statement t fault x (some (.ok (s.db.view t k, s.meet t k)))
  | .insertNew k row => s.statement t fault x ((s.insertNew t k row).map .ok)
  | .update k where_ set => s.statement t fault x ((s.updateRow t k where_ set).map .ok)
  | .upsert k new set => s.statement t fault x ((s.upsertRow t k new set).map .ok)
  | .record e => s.statement t fault x (some (.ok ((), s.record t e)))
  | .reject => s.statement t fault x (some (.error x))
  | .commit => some (s.commit t fault x)
  | .rollback => some (s.rollback t fault x)

/-- A statement that is rejected. -/
def reject : Prog (Cmd K V E) Reply ε α := (Prog.perform .reject).bind Empty.elim

/-- A command with values: the columns hold them, or the statement is rejected. -/
def performIf (storable : Bool) (c : Cmd K V E) : Prog (Cmd K V E) Reply ε (Reply c) :=
  if storable then .perform c else reject

/-- The sessions that run the given programs. -/
def system {A J : Type} (x : ε) (body : T → J → Prog (Cmd K V E) Reply ε A) :
    System (Cmd K V E) Reply ε A T J Fault (Journal T K V E) where
  body := body
  exec := exec x
  kill t s := s.undo t .ready

end Journal

end AslanCore
