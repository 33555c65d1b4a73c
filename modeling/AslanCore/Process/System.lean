import Mathlib.Logic.Function.Basic
import Mathlib.Tactic.Common
import AslanCore.Process.Prog

/-!
# Systems of processes

A system runs any number of processes over a shared state. A process runs *jobs*,
one after the other: the program of a job issues its commands one by one, and
every command is an atomic action on the shared state. Between two commands of a
process, any number of commands of other processes may be executed, and a process
may be killed. Whatever an action leaves open (its failure, an identifier drawn
by the store, an order left unspecified) is a *choice*, made by the scheduler.

* `System.next`: the configuration after an event, if the event is possible;
* `System.Reach`: the configurations reached by the runs whose events all satisfy
  a condition, in the configuration they happen in;
* `System.run`: the run of a given list of events, if they are possible and
  satisfy the condition, as a computation (`Reach.of_run`).
-/

namespace AslanCore

/-- A system of processes `P` running jobs `J` over a shared state `σ`. -/
structure System (C : Type) (R : C → Type) (E A P J O σ : Type) where
  /-- The program of a job of a process. -/
  body : P → J → Prog C R E A
  /-- The effect of a command of a process, given the choice of the scheduler:
      its outcome and the next shared state, if it is possible (a command that
      waits for another process is not). -/
  exec : P → (c : C) → O → σ → Option (Except E (R c) × σ)
  /-- The shared state after a process is killed. -/
  kill : P → σ → σ

/-- A configuration: the shared state, and the job of every running process with
    what remains of its program. -/
structure Config (C : Type) (R : C → Type) (E A P J σ : Type) where
  shared : σ
  proc : P → Option (J × Prog C R E A)

/-- An event: a process starts a job, executes its next command, or is killed. -/
inductive Event (P J O : Type)
  | start (p : P) (j : J)
  | step (p : P) (o : O)
  | kill (p : P)

namespace System

variable {C : Type} {R : C → Type} {E A P J O σ : Type} [DecidableEq P]
  (S : System C R E A P J O σ)

/-- The initial configuration on a shared state: no process is running. -/
def initial (_ : System C R E A P J O σ) (s : σ) : Config C R E A P J σ where
  shared := s
  proc _ := none

/-- The configuration after an event, if it is possible. A process only starts a
    job when it is not running, or has ended its previous job. -/
def next (cfg : Config C R E A P J σ) : Event P J O → Option (Config C R E A P J σ)
  | .start p j =>
    if (cfg.proc p).all (·.2.done) then
      some { cfg with proc := Function.update cfg.proc p (some (j, S.body p j)) }
    else none
  | .step p o =>
    match cfg.proc p with
    | some (j, .call c k) =>
      (S.exec p c o cfg.shared).map fun (r, s) =>
        { shared := s, proc := Function.update cfg.proc p (some (j, k r)) }
    | _ => none
  | .kill p => some { shared := S.kill p cfg.shared, proc := Function.update cfg.proc p none }

/-- The configurations reached from `cfg₀` by the runs whose events satisfy `ok`
    in the configuration they happen in. -/
inductive Reach (ok : Config C R E A P J σ → Event P J O → Prop)
    (cfg₀ : Config C R E A P J σ) : Config C R E A P J σ → Prop
  | init : Reach ok cfg₀ cfg₀
  | step {cfg cfg' : Config C R E A P J σ} (e : Event P J O) :
    Reach ok cfg₀ cfg → ok cfg e → S.next cfg e = some cfg' → Reach ok cfg₀ cfg'

/-- The run of a list of events that satisfy `ok`. -/
def run (ok : Config C R E A P J σ → Event P J O → Prop) [∀ cfg e, Decidable (ok cfg e)] :
    List (Event P J O) → Config C R E A P J σ → Option (Config C R E A P J σ)
  | [], cfg => some cfg
  | e :: es, cfg => if ok cfg e then (S.next cfg e).bind (run ok es) else none

variable {S} {ok ok' : Config C R E A P J σ → Event P J O → Prop}
  {cfg₀ cfg cfg' : Config C R E A P J σ}

/-- A weaker condition allows more runs. -/
theorem Reach.mono (h : S.Reach ok cfg₀ cfg) (hok : ∀ cfg e, ok cfg e → ok' cfg e) :
    S.Reach ok' cfg₀ cfg := by
  induction h with
  | init => exact .init
  | step e _ he hn ih => exact .step e ih (hok _ _ he) hn

theorem Reach.trans (h : S.Reach ok cfg₀ cfg) (h' : S.Reach ok cfg cfg') :
    S.Reach ok cfg₀ cfg' := by
  induction h' with
  | init => exact h
  | step e _ he hn ih => exact .step e ih he hn

/-- What the commands keep of the shared state holds in every run. -/
theorem Reach.invariant {I : σ → Prop} (h : S.Reach ok cfg₀ cfg) (h₀ : I cfg₀.shared)
    (hstep : ∀ p c o s r s', I s → S.exec p c o s = some (r, s') → I s')
    (hkill : ∀ p s, I s → I (S.kill p s)) : I cfg.shared := by
  induction h with
  | init => exact h₀
  | step e _ _ hn ih =>
    cases e with
    | start p j =>
      simp only [next] at hn
      split_ifs at hn
      cases hn
      exact ih
    | step p o =>
      simp only [next] at hn
      split at hn <;> try contradiction
      obtain ⟨⟨r, s'⟩, hex, rfl⟩ := Option.map_eq_some_iff.1 hn
      exact hstep p _ o _ r s' ih hex
    | kill p =>
      cases hn
      exact hkill p _ ih

/-- The end of a computed run is reached. -/
theorem Reach.of_run [∀ cfg e, Decidable (ok cfg e)] {es : List (Event P J O)}
    (h : S.run ok es cfg₀ = some cfg) : S.Reach ok cfg₀ cfg := by
  induction es generalizing cfg₀ with
  | nil => exact Option.some.inj h ▸ .init
  | cons e es ih =>
    rw [run] at h
    split_ifs at h with he
    obtain ⟨cfg₁, h₁, h⟩ := Option.bind_eq_some_iff.1 h
    exact (Reach.step e .init he h₁).trans (ih h)

/-- A property of the end of a computed run holds of a reached configuration. -/
theorem Reach.exists_of_run [∀ cfg e, Decidable (ok cfg e)] {es : List (Event P J O)}
    {good : Config C R E A P J σ → Bool} (h : (S.run ok es cfg₀).any good = true) :
    ∃ cfg, S.Reach ok cfg₀ cfg ∧ good cfg = true := by
  cases hr : S.run ok es cfg₀ with
  | none => simp [hr] at h
  | some cfg => exact ⟨cfg, .of_run hr, by simpa [hr] using h⟩

end System

end AslanCore
