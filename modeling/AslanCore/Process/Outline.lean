import AslanCore.Process.System

/-!
# Proof outlines of systems

How to prove something about every run of a system: annotate the programs of its
jobs once, and derive every property from the annotation.

An *outline* (`Outline`) says, for each command a process may issue, what the
process *knows* at that point: the part of the shared state it owns, what it has
read and what it has written before, as far as the steps of the other processes
leave it true (its *rely*). An outline is *valid* (`Outline.Valid`) when the
programs establish what it says, against any interference of the others
(`Outline.Safe`): this is rely-guarantee reasoning, where the guarantee of a
process is that each of its commands is issued with what the outline says it knows.

A valid outline then holds in every run (`Valid.safe`): every command is issued
knowing what the outline says (`Valid.know`), every job ends as it says
(`Valid.post`), and a property of the shared state is invariant as soon as the
commands keep it, *given* what is known when they are issued (`Valid.invariant`):
no further property needs to look at the programs again.
-/

namespace AslanCore

variable {C : Type} {R : C → Type} {E A P J O σ : Type}

/-- A condition on the events of a run: on the jobs that start, on the commands
    that are executed, with the choice of the scheduler, and on the processes that
    are killed, given the shared state before the event. -/
structure Guard (C P J O σ : Type) where
  start : P → J → σ → Prop := fun _ _ _ => True
  step : P → C → O → σ → Prop := fun _ _ _ _ => True
  kill : P → σ → Prop := fun _ _ => True

namespace Guard

/-- The event satisfies the condition in the configuration it happens in. -/
def Holds (g : Guard C P J O σ) (cfg : Config C R E A P J σ) : Event P J O → Prop
  | .start p j => g.start p j cfg.shared
  | .step p o =>
    match cfg.proc p with
    | some (_, .call c _) => g.step p c o cfg.shared
    | _ => True
  | .kill p => g.kill p cfg.shared

/-- Nothing is asked of the events of a run. -/
theorem holds_trivial (cfg : Config C R E A P J σ) (e : Event P J O) :
    (Guard.mk (fun _ _ _ => True) (fun _ _ _ _ => True) (fun _ _ => True) :
      Guard C P J O σ).Holds cfg e := by
  cases e with
  | start p j => trivial
  | kill p => trivial
  | step p o =>
    simp only [Holds]
    split <;> trivial

/-- A weaker condition holds of more events. -/
theorem Holds.mono {g g' : Guard C P J O σ} {cfg : Config C R E A P J σ} {e : Event P J O}
    (h : g.Holds cfg e) (hstart : ∀ p j s, g.start p j s → g'.start p j s)
    (hstep : ∀ p c o s, g.step p c o s → g'.step p c o s)
    (hkill : ∀ p s, g.kill p s → g'.kill p s) : g'.Holds cfg e := by
  rcases e with ⟨p, j⟩ | ⟨p, o⟩ | p
  · exact hstart p j _ h
  · simp only [Holds] at h ⊢
    split at h
    · exact hstep p _ o _ h
    · trivial
  · exact hkill p _ h

instance (g : Guard C P J O σ) [∀ p j s, Decidable (g.start p j s)]
    [∀ p c o s, Decidable (g.step p c o s)] [∀ p s, Decidable (g.kill p s)]
    (cfg : Config C R E A P J σ) (e : Event P J O) : Decidable (g.Holds cfg e) :=
  match e with
  | .start p j => inferInstanceAs (Decidable (g.start p j cfg.shared))
  | .step p o =>
    match h : cfg.proc p with
    | some (_, .call c _) =>
      decidable_of_iff (g.step p c o cfg.shared) (by simp only [Holds, h])
    | none => isTrue (by simp only [Holds, h])
    | some (_, .ret _) => isTrue (by simp only [Holds, h])
    | some (_, .raise _) => isTrue (by simp only [Holds, h])
  | .kill p => inferInstanceAs (Decidable (g.kill p cfg.shared))

end Guard

/-- An outline of a system: what holds of every shared state, what a process knows
    when it issues a command, what it relies on the others to do, what holds of it
    between jobs, and what holds when a job of it ends. -/
structure Outline (C : Type) (E A P J σ : Type) where
  inv : σ → Prop
  know : P → C → σ → Prop
  rely : P → σ → σ → Prop
  idle : P → σ → Prop
  post : P → J → Except E A → σ → Prop

namespace Outline

variable (S : System C R E A P J O σ) (g : Guard C P J O σ) (D : Outline C E A P J σ)

/-- The process `p` running `m` from `s`, whatever the others do between its
    commands, issues every command knowing what the outline says, and ends with `Q`. -/
def Safe {α : Type} (p : P) : Prog C R E α → (Except E α → σ → Prop) → σ → Prop
  | .ret a, Q, s => Q (.ok a) s
  | .raise e, Q, s => Q (.error e) s
  | .call c k, Q, s => ∀ s₁, D.rely p s s₁ → D.inv s₁ → D.know p c s₁ ∧
      ∀ o r s₂, g.step p c o s₁ → S.exec p c o s₁ = some (r, s₂) → D.inv s₂ →
        Safe p (k r) Q s₂

/-- The postcondition given by one for each outcome. -/
def outcome {α : Type} (ok : α → σ → Prop) (error : E → σ → Prop) : Except E α → σ → Prop
  | .ok a => ok a
  | .error e => error e

/-- An assertion that the steps of the processes other than `p` keep. -/
def Stable (p : P) (a : σ → Prop) : Prop :=
  ∀ s s', D.rely p s s' → a s → a s'

/-- The outline holds of the programs of the system. -/
structure Valid [DecidableEq P] : Prop where
  rely_refl : ∀ p s, D.rely p s s
  rely_trans : ∀ p s s' s'', D.rely p s s' → D.rely p s' s'' → D.rely p s s''
  inv_step : ∀ p c o s r s', D.inv s → D.know p c s → g.step p c o s →
    S.exec p c o s = some (r, s') → D.inv s'
  rely_step : ∀ p q c o s r s', q ≠ p → D.inv s → D.know q c s → g.step q c o s →
    S.exec q c o s = some (r, s') → D.rely p s s'
  inv_kill : ∀ p s, D.inv s → g.kill p s → D.inv (S.kill p s)
  rely_kill : ∀ p q s, q ≠ p → D.inv s → g.kill q s → D.rely p s (S.kill q s)
  idle_kill : ∀ p s, D.inv s → D.idle p (S.kill p s)
  idle_stable : ∀ p, D.Stable p (D.idle p)
  post_stable : ∀ p j r, D.Stable p (D.post p j r)
  post_idle : ∀ p j r s, D.post p j r s → D.idle p s
  body : ∀ p j s, D.inv s → D.idle p s → g.start p j s → D.Safe S g p (S.body p j) (D.post p j) s

variable {S g D} {p : P} {α β : Type} {s : σ}

/-! ### Rules for programs -/

theorem Safe.mono {m : Prog C R E α} {Q Q' : Except E α → σ → Prop} (h : D.Safe S g p m Q s)
    (hQ : ∀ r s', Q r s' → Q' r s') : D.Safe S g p m Q' s := by
  induction m generalizing s with
  | ret a => exact hQ _ _ h
  | raise e => exact hQ _ _ h
  | call c k ih =>
    intro s₁ hr hi
    obtain ⟨hk, hs⟩ := h s₁ hr hi
    exact ⟨hk, fun o r s₂ ho he hi₂ => ih _ (hs o r s₂ ho he hi₂)⟩

/-- A sequence is safe when its first part is, ending where the second is safe. -/
theorem safe_bind {m : Prog C R E α} {f : α → Prog C R E β} {Q : Except E β → σ → Prop} :
    D.Safe S g p (m.bind f) Q s ↔ D.Safe S g p m
      (outcome (fun a => D.Safe S g p (f a) Q) fun e => Q (.error e)) s := by
  induction m generalizing s with
  | ret a => exact Iff.rfl
  | raise e => exact Iff.rfl
  | call c k ih => simp only [Prog.bind, Safe, ih]

theorem safe_tryCatch {m : Prog C R E α} {h : E → Prog C R E α} {Q : Except E α → σ → Prop} :
    D.Safe S g p (m.tryCatch h) Q s ↔ D.Safe S g p m
      (outcome (fun a => Q (.ok a)) fun e => D.Safe S g p (h e) Q) s := by
  induction m generalizing s with
  | ret a => exact Iff.rfl
  | raise e => exact Iff.rfl
  | call c k ih => simp only [Prog.tryCatch, Safe, ih]

theorem safe_ensuring {m : Prog C R E α} {f : Prog C R E Unit} {Q : Except E α → σ → Prop} :
    D.Safe S g p (m.ensuring f) Q s ↔ D.Safe S g p m
      (fun r => D.Safe S g p f (outcome (fun _ => Q r) fun e => Q (.error e))) s := by
  induction m generalizing s with
  | ret a => exact safe_bind
  | raise e => exact safe_bind
  | call c k ih => simp only [Prog.ensuring, Safe, ih]

/-- A command is safe, under an assertion the others keep, when the assertion
    gives what the outline says is known, and its outcome the postcondition. -/
theorem safe_perform {c : C} {Q : Except E (R c) → σ → Prop} (a : σ → Prop)
    (ha : D.Stable p a) (h : a s) (hc : ∀ s₁, D.inv s₁ → a s₁ → D.know p c s₁ ∧
      ∀ o r s₂, g.step p c o s₁ → S.exec p c o s₁ = some (r, s₂) → D.inv s₂ → Q r s₂) :
    D.Safe S g p (.perform c) Q s := by
  intro s₁ hr hi
  obtain ⟨hk, hs⟩ := hc s₁ hi (ha s s₁ hr h)
  refine ⟨hk, fun o r s₂ ho he hi₂ => ?_⟩
  cases r <;> exact hs o _ s₂ ho he hi₂

/-- A loop is safe when its body keeps an assertion on what is left of the list,
    whether it raises or not. -/
theorem safe_forEach {body : β → Prog C R E Unit} {Q : Except E Unit → σ → Prop}
    (a : List β → σ → Prop) (hQ : ∀ s', a [] s' → Q (.ok ()) s')
    (hb : ∀ x xs s', a (x :: xs) s' →
      D.Safe S g p (body x) (outcome (fun _ => a xs) fun e => Q (.error e)) s')
    {xs : List β} (h : a xs s) : D.Safe S g p (.forEach body xs) Q s := by
  induction xs generalizing s with
  | nil => exact hQ s h
  | cons x xs ih =>
    rw [Prog.forEach, safe_bind]
    refine (hb x xs s h).mono fun r s' hr => ?_
    cases r with
    | ok => exact ih hr
    | error e => exact hr

/-- A loop with an accumulator. -/
theorem safe_foldlM {body : α → β → Prog C R E α} {Q : Except E α → σ → Prop}
    (a : α → List β → σ → Prop) (hQ : ∀ acc s', a acc [] s' → Q (.ok acc) s')
    (hb : ∀ acc x xs s', a acc (x :: xs) s' →
      D.Safe S g p (body acc x) (outcome (fun acc' => a acc' xs) fun e => Q (.error e)) s')
    {acc : α} {xs : List β} (h : a acc xs s) : D.Safe S g p (xs.foldlM body acc) Q s := by
  induction xs generalizing s acc with
  | nil => exact hQ acc s h
  | cons x xs ih =>
    rw [List.foldlM_cons]
    refine safe_bind.2 ((hb acc x xs s h).mono fun r s' hr => ?_)
    cases r with
    | ok acc' => exact ih hr
    | error e => exact hr

/-! ### Soundness -/

/-- What the outline says of a process: it is safe in what remains of its job. -/
def Process (S : System C R E A P J O σ) (g : Guard C P J O σ) (D : Outline C E A P J σ) (p : P)
    (s : σ) : Option (J × Prog C R E A) → Prop
  | none => D.idle p s
  | some (j, m) => D.Safe S g p m (D.post p j) s

variable [DecidableEq P]

/-- What the outline says of a process is kept by the steps of the others. -/
theorem Valid.process_stable (hD : D.Valid S g) {s' : σ} {m : Option (J × Prog C R E A)}
    (h : Process S g D p s m) (hr : D.rely p s s') : Process S g D p s' m := by
  match m, h with
  | none, h => exact hD.idle_stable p _ _ hr h
  | some (j, .ret a), h => exact hD.post_stable p j _ _ _ hr h
  | some (j, .raise e), h => exact hD.post_stable p j _ _ _ hr h
  | some (j, .call c k), h => exact fun s₁ hr₁ => h s₁ (hD.rely_trans _ _ _ _ hr hr₁)

/-- A process that has ended its job is idle. -/
theorem Valid.idle_of_done (hD : D.Valid S g) {m : Option (J × Prog C R E A)}
    (h : Process S g D p s m) (hm : m.all (·.2.done) = true) : D.idle p s := by
  match m, h with
  | none, h => exact h
  | some (j, .ret a), h => exact hD.post_idle _ _ _ _ h
  | some (j, .raise e), h => exact hD.post_idle _ _ _ _ h
  | some (j, .call c k), _ => simp [Prog.done] at hm

variable {cfg cfg' : Config C R E A P J σ} {s₀ : σ}

/-- A valid outline holds in every run from a configuration of which it holds. -/
theorem Valid.safe_of (hD : D.Valid S g) {cfg₀ : Config C R E A P J σ} (hi : D.inv cfg₀.shared)
    (hproc : ∀ p, Process S g D p cfg₀.shared (cfg₀.proc p)) (h : S.Reach g.Holds cfg₀ cfg) :
    D.inv cfg.shared ∧ ∀ p, Process S g D p cfg.shared (cfg.proc p) := by
  induction h with
  | init => exact ⟨hi, hproc⟩
  | @step cfg cfg' e _ he hn ih =>
    obtain ⟨hinv, hproc⟩ := ih
    cases e with
    | start p j =>
      simp only [System.next] at hn
      split_ifs at hn with hdone
      cases hn
      refine ⟨hinv, fun q => ?_⟩
      by_cases hq : q = p
      · subst hq
        simpa [Process] using hD.body q j _ hinv (hD.idle_of_done (hproc q) hdone) he
      · simpa [hq] using hproc q
    | step p o =>
      simp only [System.next] at hn
      split at hn <;> try contradiction
      rename_i j c k hp
      obtain ⟨⟨r, s'⟩, hex, rfl⟩ := Option.map_eq_some_iff.1 hn
      have hsafe := hproc p
      rw [hp] at hsafe
      simp only [Guard.Holds, hp] at he
      obtain ⟨hk, hs⟩ := hsafe _ (hD.rely_refl _ _) hinv
      have hinv' := hD.inv_step p c o _ r s' hinv hk he hex
      refine ⟨hinv', fun q => ?_⟩
      by_cases hq : q = p
      · subst hq
        simpa [Process] using hs o r s' he hex hinv'
      · simpa [hq] using hD.process_stable (hproc q)
          (hD.rely_step q p c o _ r s' (Ne.symm hq) hinv hk he hex)
    | kill p =>
      cases hn
      refine ⟨hD.inv_kill p _ hinv he, fun q => ?_⟩
      by_cases hq : q = p
      · subst hq
        simpa [Process] using hD.idle_kill q _ hinv
      · simpa [hq] using hD.process_stable (hproc q) (hD.rely_kill q p _ (Ne.symm hq) hinv he)

/-- A valid outline holds in every run. -/
theorem Valid.safe (hD : D.Valid S g) (hi : D.inv s₀) (hidle : ∀ p, D.idle p s₀)
    (h : S.Reach g.Holds (S.initial s₀) cfg) :
    D.inv cfg.shared ∧ ∀ p, Process S g D p cfg.shared (cfg.proc p) :=
  have hproc : ∀ p, Process S g D p (S.initial s₀).shared ((S.initial s₀).proc p) := hidle
  hD.safe_of hi hproc h

/-- Every command is issued knowing what the outline says. -/
theorem Valid.know (hD : D.Valid S g) (hi : D.inv s₀) (hidle : ∀ p, D.idle p s₀)
    (h : S.Reach g.Holds (S.initial s₀) cfg) {j : J} {c : C} {k : Except E (R c) → Prog C R E A}
    (hp : cfg.proc p = some (j, .call c k)) : D.know p c cfg.shared := by
  obtain ⟨hinv, hproc⟩ := hD.safe hi hidle h
  have hsafe := hproc p
  rw [hp] at hsafe
  exact (hsafe _ (hD.rely_refl _ _) hinv).1

/-- Every job ends as the outline says. -/
theorem Valid.post (hD : D.Valid S g) (hi : D.inv s₀) (hidle : ∀ p, D.idle p s₀)
    (h : S.Reach g.Holds (S.initial s₀) cfg) {j : J} {a : A}
    (hp : cfg.proc p = some (j, .ret a)) : D.post p j (.ok a) cfg.shared := by
  have hsafe := (hD.safe hi hidle h).2 p
  rwa [hp] at hsafe

/-- A property of the shared state that the commands keep, given what is known
    when they are issued, holds in every run. -/
theorem Valid.invariant (hD : D.Valid S g) (hi : D.inv s₀) (hidle : ∀ p, D.idle p s₀)
    {I : σ → Prop} (h₀ : I s₀)
    (hstep : ∀ p c o s r s', D.inv s → D.know p c s → g.step p c o s →
      S.exec p c o s = some (r, s') → D.inv s' → I s → I s')
    (hkill : ∀ p s, D.inv s → I s → I (S.kill p s))
    (h : S.Reach g.Holds (S.initial s₀) cfg) : I cfg.shared := by
  induction h with
  | init => exact h₀
  | @step cfg cfg' e hreach he hn ih =>
    have hinv := (hD.safe hi hidle hreach).1
    have hinv' := (hD.safe hi hidle (.step e hreach he hn)).1
    cases e with
    | start p j =>
      simp only [System.next] at hn
      split_ifs at hn
      cases hn
      exact ih
    | step p o =>
      simp only [System.next] at hn
      split at hn <;> try contradiction
      rename_i j c k hp
      obtain ⟨⟨r, s'⟩, hex, rfl⟩ := Option.map_eq_some_iff.1 hn
      have hk := hD.know hi hidle hreach hp
      simp only [Guard.Holds, hp] at he
      exact hstep p c o _ r s' hinv hk he hex hinv' ih
    | kill p =>
      cases hn
      exact hkill p _ hinv ih

end Outline

end AslanCore
