import Mathlib.Logic.Basic

/-!
# One transaction

What runs in one transaction, and may raise (`Tx`), when no other one comes in between. Where a
statement fails, the transaction is aborted, and every further statement fails, until it ends.

* `Tx.Ends`: how a program ends, with a rule for each construct;
* `ends_execute`: what a statement does;
* `ends_forM`: what a loop keeps, when every turn of it does.
-/

namespace AslanCore

/-- The tables in a transaction. -/
structure TxState (T : Type) where
  /-- What the others see. -/
  committed : T
  /-- What its statements see. -/
  current : T
  /-- A statement has failed since it began. -/
  aborted : Bool

/-- A program in a transaction on the tables `T`, which may raise: what it returns or raises, and
    what it leaves. -/
def Tx (T ε α : Type) : Type := TxState T → Except ε α × TxState T

variable {T ε α β : Type}

namespace TxState

/-- The transaction after a change of its own. -/
def put (s : TxState T) (t : T) : TxState T := { s with current := t }

/-- The transaction after a failure. -/
def fail (s : TxState T) : TxState T := { s with aborted := true }

@[simp] theorem put_current (s : TxState T) (t : T) : (s.put t).current = t := rfl
@[simp] theorem put_committed (s : TxState T) (t : T) : (s.put t).committed = s.committed := rfl
@[simp] theorem put_aborted (s : TxState T) (t : T) : (s.put t).aborted = s.aborted := rfl
@[simp] theorem fail_current (s : TxState T) : s.fail.current = s.current := rfl
@[simp] theorem fail_committed (s : TxState T) : s.fail.committed = s.committed := rfl
@[simp] theorem fail_aborted (s : TxState T) : s.fail.aborted = true := rfl
theorem put_current_self (s : TxState T) : s.put s.current = s := rfl

end TxState

namespace Tx

instance : Monad (Tx T ε) where
  pure a := fun s => (.ok a, s)
  bind m f := fun s =>
    match m s with
    | (.ok a, s') => f a s'
    | (.error e, s') => (.error e, s')

instance : MonadExceptOf ε (Tx T ε) where
  throw e := fun s => (.error e, s)
  tryCatch m h := fun s =>
    match m s with
    | (.ok a, s') => (.ok a, s')
    | (.error e, s') => h e s'

/-- A statement: it fails with `dead` in an aborted transaction. -/
def execute (dead : ε) (stmt : T → Except ε (α × T)) : Tx T ε α := fun s =>
  if s.aborted then (.error dead, s)
  else
    match stmt s.current with
    | .ok (a, t) => (.ok a, s.put t)
    | .error e => (.error e, s.fail)

/-- A statement that only reads. -/
def select (dead : ε) (f : T → Except ε α) : Tx T ε α :=
  execute dead fun t => (f t).map fun a => (a, t)

/-- The transaction is committed, unless it is aborted. -/
def commit : Tx T ε Unit := fun s =>
  let t := if s.aborted then s.committed else s.current
  (.ok (), ⟨t, t, false⟩)

/-- How the program ends from `s`. -/
def Ends (m : Tx T ε α) (s : TxState T) (Q : Except ε α → TxState T → Prop) : Prop :=
  Q (m s).1 (m s).2

variable {m : Tx T ε α} {s : TxState T} {Q Q' : Except ε α → TxState T → Prop}

theorem Ends.mono (h : m.Ends s Q) (hQ : ∀ r s', Q r s' → Q' r s') : m.Ends s Q' := hQ _ _ h

theorem Ends.and (h : m.Ends s Q) (h' : m.Ends s Q') : m.Ends s fun r s' => Q r s' ∧ Q' r s' :=
  ⟨h, h'⟩

@[simp] theorem ends_pure {a : α} : Ends (pure a : Tx T ε α) s Q ↔ Q (.ok a) s := Iff.rfl

@[simp] theorem ends_throw {e : ε} : Ends (throw e : Tx T ε α) s Q ↔ Q (.error e) s := Iff.rfl

theorem ends_bind {f : α → Tx T ε β} {Q : Except ε β → TxState T → Prop} :
    Ends (m >>= f) s Q ↔ m.Ends s fun r s' =>
      match r with
      | .ok a => (f a).Ends s' Q
      | .error e => Q (.error e) s' := by
  have hbind : (m >>= f) s = match m s with
    | (.ok a, s') => f a s'
    | (.error e, s') => (.error e, s') := rfl
  unfold Ends
  rw [hbind]
  rcases m s with ⟨_ | _, _⟩ <;> rfl

theorem ends_tryCatch {h : ε → Tx T ε α} :
    Ends (tryCatch m h) s Q ↔ m.Ends s fun r s' =>
      match r with
      | .ok a => Q (.ok a) s'
      | .error e => (h e).Ends s' Q := by
  have hcatch : tryCatch m h s = match m s with
    | (.ok a, s') => (.ok a, s')
    | (.error e, s') => h e s' := rfl
  unfold Ends
  rw [hcatch]
  rcases m s with ⟨_ | _, _⟩ <;> rfl

theorem ends_execute {dead : ε} {stmt : T → Except ε (α × T)} (hs : s.aborted = false) :
    Ends (execute dead stmt) s Q ↔
      match stmt s.current with
      | .ok (a, t) => Q (.ok a) (s.put t)
      | .error e => Q (.error e) s.fail := by
  unfold Ends execute
  simp only [hs, Bool.false_eq_true, if_false]
  rcases stmt s.current with e | ⟨a, t⟩ <;> rfl

theorem ends_execute_aborted {dead : ε} {stmt : T → Except ε (α × T)} (hs : s.aborted = true) :
    Ends (execute dead stmt) s Q ↔ Q (.error dead) s := by
  unfold Ends execute
  simp only [hs, if_true]

theorem ends_select {dead : ε} {f : T → Except ε α} (hs : s.aborted = false) :
    Ends (select dead f) s Q ↔
      match f s.current with
      | .ok a => Q (.ok a) s
      | .error e => Q (.error e) s.fail := by
  rw [select, ends_execute hs]
  rcases f s.current with e | a <;> rfl

/-- A loop keeps what each turn keeps: `I` is what holds when `xs` is left. -/
theorem ends_forM {body : β → Tx T ε PUnit} {Q : Except ε PUnit → TxState T → Prop}
    (I : List β → TxState T → Prop)
    (hbody : ∀ x xs s, I (x :: xs) s → (body x).Ends s fun r s' =>
      match r with
      | .ok _ => I xs s'
      | .error e => Q (.error e) s')
    (hend : ∀ s, I [] s → Q (.ok ⟨⟩) s) (xs : List β) (hI : I xs s) :
    Ends (xs.forM body) s Q := by
  induction xs generalizing s with
  | nil => exact hend s hI
  | cons x xs ih =>
    refine ends_bind.2 ((hbody x xs s hI).mono fun r s' h => ?_)
    rcases r with e | _
    · exact h
    · exact ih h

end Tx

end AslanCore
