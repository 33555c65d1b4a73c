import Mathlib.Logic.Basic

/-!
# Programs

A program issues *commands*, one at a time, to a world it shares with other
programs, and goes on with the outcome of each: an answer, or an exception. What
a command does is not said here (`AslanCore.Process.System`): a program is only
the tree of its commands and of what it does with their outcomes. So the same
program can be run alone, or interleaved, command by command, with others.

Programs are a monad with exceptions, with the loops and the clean-up blocks of
the usual imperative languages:

* `Prog.perform`: a single command, whose exception is raised;
* `Prog.ensuring`: a clean-up block, run whether the body returns or raises;
* `Prog.forEach`: a loop over a list;
* `Prog.inl`: a program over some commands, as a program over more commands.
-/

namespace AslanCore

/-- A program issuing commands `C`, where a command `c` answers in `R c`, that
    returns in `α` or raises an exception in `E`. -/
inductive Prog (C : Type) (R : C → Type) (E α : Type) : Type
  | ret (a : α)
  | raise (e : E)
  | call (c : C) (k : Except E (R c) → Prog C R E α)

namespace Prog

variable {C : Type} {R : C → Type} {E α β : Type}

/-- The program `f` run on what `m` returns. -/
def bind : Prog C R E α → (α → Prog C R E β) → Prog C R E β
  | ret a, f => f a
  | raise e, _ => raise e
  | call c k, f => call c fun r => (k r).bind f

/-- The program `m`, where an exception it raises is handled by `h`. -/
def tryCatch : Prog C R E α → (E → Prog C R E α) → Prog C R E α
  | ret a, _ => ret a
  | raise e, h => h e
  | call c k, h => call c fun r => (k r).tryCatch h

/-- The program `m` and then the clean-up block `f`, run also when `m` raises:
    an exception of `f` replaces the outcome of `m`. -/
def ensuring : Prog C R E α → Prog C R E Unit → Prog C R E α
  | ret a, f => f.bind fun _ => ret a
  | raise e, f => f.bind fun _ => raise e
  | call c k, f => call c fun r => (k r).ensuring f

instance : Monad (Prog C R E) where
  pure := ret
  bind := bind

instance : MonadExceptOf E (Prog C R E) where
  throw := raise
  tryCatch := tryCatch

/-- The program issuing the single command `c`. -/
def perform (c : C) : Prog C R E (R c) :=
  call c fun
    | .ok a => ret a
    | .error e => raise e

/-- The loop running `body` on each element of the list, in order. -/
def forEach (body : β → Prog C R E Unit) : List β → Prog C R E Unit
  | [] => ret ()
  | x :: xs => (body x).bind fun _ => forEach body xs

/-- The program has ended: it has returned or raised. -/
def done : Prog C R E α → Bool
  | ret _ | raise _ => true
  | call _ _ => false

/-- A program over the commands `C`, as a program over the commands `C` and `D`. -/
def inl {D : Type} {RD : D → Type} : Prog C R E α → Prog (C ⊕ D) (Sum.elim R RD) E α
  | ret a => ret a
  | raise e => raise e
  | call c k => call (.inl c) fun r => (k r).inl

end Prog

end AslanCore
