import AslanCore.Process.Outline

/-!
# Processes that are alone

The runs of a program from its start to its end, when no other process takes a step in
between (`System.Runs`), and those of a job that is repeated (`System.Repeats`). They are
runs of the system (`Reach.of_runs`).

A valid outline holds in them: a program that keeps to it ends as it says
(`Valid.of_runs`), and it does end, when what a process knows is enough for its commands
to be possible (`Valid.exists_runs`). What is said of the commands of a program may be
limited to those that it issues (`Prog.Issues`). The rules of outlines are also there for a
program whose runs with others are not in question (`alone`, `Safe.of_runs`).

Without an outline, `System.Ends` says of a program that runs alone that it ends, and how:
there is a rule for each construct, and the runs are as it says (`Ends.of_runs`). What the
commands that it issues leave alone, it leaves alone (`Ends.frame`).
-/

namespace AslanCore

variable {C : Type} {R : C → Type} {E A P J O σ : Type}

namespace Prog

variable {α β : Type} {ok : C → Prop}

/-- Every command that the program issues satisfies `ok`. -/
def Issues (ok : C → Prop) : Prog C R E α → Prop
  | ret _ | raise _ => True
  | call c k => ok c ∧ ∀ r, (k r).Issues ok

theorem issues_perform {c : C} (h : ok c) : (perform c : Prog C R E (R c)).Issues ok := by
  refine ⟨h, fun r => ?_⟩
  cases r <;> trivial

theorem Issues.mono {ok' : C → Prop} {m : Prog C R E α} (h : m.Issues ok)
    (hok : ∀ c, ok c → ok' c) : m.Issues ok' := by
  induction m with
  | ret a => trivial
  | raise e => trivial
  | call c k ih => exact ⟨hok c h.1, fun r => ih r (h.2 r)⟩

theorem Issues.bind {m : Prog C R E α} {f : α → Prog C R E β} (h : m.Issues ok)
    (hf : ∀ a, (f a).Issues ok) : (m >>= f).Issues ok := by
  induction m with
  | ret a => exact hf a
  | raise e => trivial
  | call c k ih => exact ⟨h.1, fun r => ih r (h.2 r)⟩

theorem Issues.tryCatch {m : Prog C R E α} {f : E → Prog C R E α} (h : m.Issues ok)
    (hf : ∀ e, (f e).Issues ok) : (m.tryCatch f).Issues ok := by
  induction m with
  | ret a => trivial
  | raise e => exact hf e
  | call c k ih => exact ⟨h.1, fun r => ih r (h.2 r)⟩

theorem Issues.ensuring {m : Prog C R E α} {f : Prog C R E Unit} (h : m.Issues ok)
    (hf : f.Issues ok) : (m.ensuring f).Issues ok := by
  induction m with
  | ret a => exact Issues.bind hf fun _ => trivial
  | raise e => exact Issues.bind hf fun _ => trivial
  | call c k ih => exact ⟨h.1, fun r => ih r (h.2 r)⟩

theorem issues_forEach {body : β → Prog C R E Unit} (h : ∀ x, (body x).Issues ok) (xs : List β) :
    (forEach body xs).Issues ok := by
  induction xs with
  | nil => trivial
  | cons x xs ih => exact Issues.bind (h x) fun _ => ih

theorem issues_foldlM {body : α → β → Prog C R E α} (h : ∀ a x, (body a x).Issues ok) (a : α)
    (xs : List β) : (xs.foldlM body a).Issues ok := by
  induction xs generalizing a with
  | nil => trivial
  | cons x xs ih =>
    rw [List.foldlM_cons]
    exact Issues.bind (h a x) fun a' => ih a'

end Prog

namespace System

variable (S : System C R E A P J O σ) (g : Guard C P J O σ) (p : P)

/-- The process `p`, running `m` alone from `s`, ends with the outcome `r` in `s'`. -/
def Runs {α : Type} : Prog C R E α → σ → Except E α → σ → Prop
  | .ret a, s, r, s' => r = .ok a ∧ s' = s
  | .raise e, s, r, s' => r = .error e ∧ s' = s
  | .call c k, s, r, s' => ∃ o x s₁, g.step p c o s ∧ S.exec p c o s = some (x, s₁) ∧
      Runs (k x) s₁ r s'

/-- The states after `p`, alone, has run the job `j` to its end a number of times. -/
inductive Repeats (j : J) (s : σ) : ℕ → σ → Prop
  | zero : Repeats j s 0 s
  | succ {n : ℕ} {s' s'' : σ} {r : Except E A} : Repeats j s n s' →
    S.Runs g p (S.body p j) s' r s'' → Repeats j s (n + 1) s''

variable {S g p} {α β : Type} {s s' : σ}

theorem runs_perform {c : C} {r : Except E (R c)} :
    S.Runs g p (.perform c) s r s' ↔ ∃ o, g.step p c o s ∧ S.exec p c o s = some (r, s') := by
  constructor
  · rintro ⟨o, x, s₁, ho, hex, hr⟩
    cases x <;> obtain ⟨rfl, rfl⟩ := hr <;> exact ⟨o, ho, hex⟩
  · rintro ⟨o, ho, hex⟩
    refine ⟨o, r, s', ho, hex, ?_⟩
    cases r <;> exact ⟨rfl, rfl⟩

/-- A sequence runs one part after the other. -/
theorem runs_bind {m : Prog C R E α} {f : α → Prog C R E β} {r : Except E β} :
    S.Runs g p (m.bind f) s r s' ↔ ∃ x s₁, S.Runs g p m s x s₁ ∧
      Outline.outcome (fun a s₁ => S.Runs g p (f a) s₁ r s')
        (fun e s₁ => r = .error e ∧ s' = s₁) x s₁ := by
  induction m generalizing s with
  | ret a =>
    constructor
    · exact fun h => ⟨.ok a, s, ⟨rfl, rfl⟩, h⟩
    · rintro ⟨x, s₁, ⟨rfl, rfl⟩, h⟩
      exact h
  | raise e =>
    constructor
    · exact fun h => ⟨.error e, s, ⟨rfl, rfl⟩, h⟩
    · rintro ⟨x, s₁, ⟨rfl, rfl⟩, h⟩
      exact h
  | call c k ih =>
    constructor
    · rintro ⟨o, y, s₂, ho, hex, h⟩
      obtain ⟨x, s₁, hm, hf⟩ := (ih y).1 h
      exact ⟨x, s₁, ⟨o, y, s₂, ho, hex, hm⟩, hf⟩
    · rintro ⟨x, s₁, ⟨o, y, s₂, ho, hex, hm⟩, hf⟩
      exact ⟨o, y, s₂, ho, hex, (ih y).2 ⟨x, s₁, hm, hf⟩⟩

theorem Runs.bind {m : Prog C R E α} {f : α → Prog C R E β} {r : Except E β}
    (h : S.Runs g p (m.bind f) s r s') : ∃ x s₁, S.Runs g p m s x s₁ ∧
      Outline.outcome (fun a s₁ => S.Runs g p (f a) s₁ r s')
        (fun e s₁ => r = .error e ∧ s' = s₁) x s₁ :=
  runs_bind.1 h

/-- An exception is handled where it is raised. -/
theorem runs_tryCatch {m : Prog C R E α} {f : E → Prog C R E α} {r : Except E α} :
    S.Runs g p (m.tryCatch f) s r s' ↔ ∃ x s₁, S.Runs g p m s x s₁ ∧
      Outline.outcome (fun a s₁ => r = .ok a ∧ s' = s₁)
        (fun e s₁ => S.Runs g p (f e) s₁ r s') x s₁ := by
  induction m generalizing s with
  | ret a =>
    constructor
    · exact fun h => ⟨.ok a, s, ⟨rfl, rfl⟩, h⟩
    · rintro ⟨x, s₁, ⟨rfl, rfl⟩, h⟩
      exact h
  | raise e =>
    constructor
    · exact fun h => ⟨.error e, s, ⟨rfl, rfl⟩, h⟩
    · rintro ⟨x, s₁, ⟨rfl, rfl⟩, h⟩
      exact h
  | call c k ih =>
    constructor
    · rintro ⟨o, y, s₂, ho, hex, h⟩
      obtain ⟨x, s₁, hm, hf⟩ := (ih y).1 h
      exact ⟨x, s₁, ⟨o, y, s₂, ho, hex, hm⟩, hf⟩
    · rintro ⟨x, s₁, ⟨o, y, s₂, ho, hex, hm⟩, hf⟩
      exact ⟨o, y, s₂, ho, hex, (ih y).2 ⟨x, s₁, hm, hf⟩⟩

/-- A clean-up block runs in the end. -/
theorem Runs.ensuring {m : Prog C R E α} {f : Prog C R E Unit} {r : Except E α}
    (h : S.Runs g p (m.ensuring f) s r s') : ∃ x s₁, S.Runs g p m s x s₁ ∧
      ∃ y, S.Runs g p f s₁ y s' ∧ (y = .ok () → r = x) := by
  induction m generalizing s with
  | ret a =>
    obtain ⟨y, s₁, hf, hy⟩ := Runs.bind h
    cases y with
    | ok u =>
      obtain ⟨rfl, rfl⟩ := hy
      exact ⟨.ok a, s, ⟨rfl, rfl⟩, .ok u, hf, fun _ => rfl⟩
    | error e =>
      obtain ⟨rfl, rfl⟩ := hy
      exact ⟨.ok a, s, ⟨rfl, rfl⟩, .error e, hf, nofun⟩
  | raise e =>
    obtain ⟨y, s₁, hf, hy⟩ := Runs.bind h
    cases y with
    | ok u =>
      obtain ⟨rfl, rfl⟩ := hy
      exact ⟨.error e, s, ⟨rfl, rfl⟩, .ok u, hf, fun _ => rfl⟩
    | error e' =>
      obtain ⟨rfl, rfl⟩ := hy
      exact ⟨.error e, s, ⟨rfl, rfl⟩, .error e', hf, nofun⟩
  | call c k ih =>
    obtain ⟨o, y, s₂, ho, hex, h⟩ := h
    obtain ⟨x, s₁, hm, hf⟩ := ih y h
    exact ⟨x, s₁, ⟨o, y, s₂, ho, hex, hm⟩, hf⟩

/-- A sequence that returns runs its parts, and both return. -/
theorem Runs.bind_ok {m : Prog C R E α} {f : α → Prog C R E β} {b : β}
    (h : S.Runs g p (m >>= f) s (.ok b) s') :
    ∃ a s₁, S.Runs g p m s (.ok a) s₁ ∧ S.Runs g p (f a) s₁ (.ok b) s' := by
  obtain ⟨x, s₁, hm, hf⟩ := Runs.bind h
  cases x with
  | ok a => exact ⟨a, s₁, hm, hf⟩
  | error e => cases hf.1

/-- The run of a program alone, with the given choices. -/
def runAlone (S : System C R E A P J O σ) (p : P) {α : Type} :
    Prog C R E α → List O → σ → Option (Except E α × σ)
  | .ret a, _, s => some (.ok a, s)
  | .raise e, _, s => some (.error e, s)
  | .call _ _, [], _ => none
  | .call c k, o :: os, s => (S.exec p c o s).bind fun (x, s₁) => runAlone S p (k x) os s₁

theorem Runs.of_runAlone {m : Prog C R E α} {os : List O} {r : Except E α}
    (h : S.runAlone p m os s = some (r, s')) (hg : ∀ c o s, g.step p c o s) :
    S.Runs g p m s r s' := by
  induction m generalizing os s with
  | ret a =>
    cases h
    exact ⟨rfl, rfl⟩
  | raise e =>
    cases h
    exact ⟨rfl, rfl⟩
  | call c k ih =>
    cases os with
    | nil => cases h
    | cons o os =>
      obtain ⟨⟨x, s₁⟩, hex, hrun⟩ := Option.bind_eq_some_iff.1 h
      exact ⟨o, x, s₁, hg c o s, hex, ih x hrun⟩

/-- What every command does, the program does too. -/
theorem Runs.rel {ok : C → Prop} {rel : σ → σ → Prop} {m : Prog C R E α} {r : Except E α}
    (h : S.Runs g p m s r s') (hm : m.Issues ok) (hrefl : ∀ s, rel s s)
    (htrans : ∀ s s' s'', rel s s' → rel s' s'' → rel s s'')
    (hstep : ∀ c o s x s', ok c → S.exec p c o s = some (x, s') → rel s s') : rel s s' := by
  induction m generalizing s with
  | ret a => exact h.2 ▸ hrefl _
  | raise e => exact h.2 ▸ hrefl _
  | call c k ih =>
    obtain ⟨o, x, s₁, -, hex, hr⟩ := h
    exact htrans _ _ _ (hstep c o s x s₁ hm.1 hex) (ih x hr (hm.2 x))

/-- What is left of a program that has ended. -/
def ended : Except E A → Prog C R E A
  | .ok a => .ret a
  | .error e => .raise e

theorem Runs.mono {g' : Guard C P J O σ} {m : Prog C R E α} {r : Except E α}
    (h : S.Runs g p m s r s') (hg : ∀ c o s, g.step p c o s → g'.step p c o s) :
    S.Runs g' p m s r s' := by
  induction m generalizing s with
  | ret a => exact h
  | raise e => exact h
  | call c k ih =>
    obtain ⟨o, x, s₁, ho, hex, hr⟩ := h
    exact ⟨o, x, s₁, hg c o s ho, hex, ih x hr⟩

/-- A process that runs alone is a run of the system. -/
theorem Reach.of_runs [DecidableEq P] {m : Prog C R E A} {j : J} {r : Except E A}
    {proc : P → Option (J × Prog C R E A)} (h : S.Runs g p m s r s')
    (hp : proc p = some (j, m)) :
    S.Reach g.Holds ⟨s, proc⟩ ⟨s', Function.update proc p (some (j, ended r))⟩ := by
  induction m generalizing s proc with
  | ret a =>
    obtain ⟨rfl, rfl⟩ := h
    rw [show Function.update proc p (some (j, ended (.ok a))) = proc from
      Function.update_eq_self_iff.2 hp.symm]
    exact .init
  | raise e =>
    obtain ⟨rfl, rfl⟩ := h
    rw [show Function.update proc p (some (j, ended (.error e))) = proc from
      Function.update_eq_self_iff.2 hp.symm]
    exact .init
  | call c k ih =>
    obtain ⟨o, x, s₁, ho, hex, h⟩ := h
    have hrest := ih x h (Function.update_self p (some (j, k x)) proc)
    rw [Function.update_idem] at hrest
    refine (Reach.step (.step p o) .init ?_ ?_).trans hrest
    · simpa only [Guard.Holds, hp] using ho
    · simp only [System.next, hp, hex, Option.map_some]

/-- A process that is not running a job starts one, and runs it alone to its end. -/
theorem Reach.of_job [DecidableEq P] {j : J} {r : Except E A}
    {proc : P → Option (J × Prog C R E A)} (hp : (proc p).all (·.2.done) = true)
    (hj : g.start p j s) (h : S.Runs g p (S.body p j) s r s') :
    S.Reach g.Holds ⟨s, proc⟩ ⟨s', Function.update proc p (some (j, ended r))⟩ := by
  have hstart : S.next ⟨s, proc⟩ (.start p j) =
      some ⟨s, Function.update proc p (some (j, S.body p j))⟩ := by
    simp only [System.next, hp, if_true]
  have hrest := Reach.of_runs h (Function.update_self p (some (j, S.body p j)) proc)
  rw [Function.update_idem] at hrest
  exact (Reach.step (.start p j) .init hj hstart).trans hrest

end System

namespace Outline

variable {S : System C R E A P J O σ} {g : Guard C P J O σ} {D : Outline C E A P J σ}
  {p : P} {α : Type} {s s' : σ} [DecidableEq P]

omit [DecidableEq P] in
/-- A program is safe when all that it issues may be issued at any time. -/
theorem safe_of_issues {ok : C → Prop} {m : Prog C R E α} (hm : m.Issues ok)
    (hok : ∀ c s, ok c → D.know p c s) : D.Safe S g p m (fun _ _ => True) s := by
  induction m generalizing s with
  | ret a => trivial
  | raise e => trivial
  | call c k ih => exact fun s₁ _ _ => ⟨hok c s₁ hm.1, fun o r s₂ _ _ _ => ih r (hm.2 r)⟩

omit [DecidableEq P] in
/-- A program keeps an assertion that the others keep, when all that it issues keeps it. -/
theorem safe_keeps {ok : C → Prop} {a : σ → Prop} {m : Prog C R E α} (hm : m.Issues ok)
    (ha : D.Stable p a) (hok : ∀ c s, ok c → D.know p c s)
    (hstep : ∀ c o s r s', ok c → D.inv s → a s → S.exec p c o s = some (r, s') → a s') (h : a s) :
    D.Safe S g p m (fun _ => a) s := by
  induction m generalizing s with
  | ret x => exact h
  | raise e => exact h
  | call c k ih =>
    intro s₁ hr hi
    have h₁ := ha s s₁ hr h
    exact ⟨hok c s₁ hm.1, fun o r s₂ _ he _ => ih r (hm.2 r) (hstep c o s₁ r s₂ hm.1 hi h₁ he)⟩

/-- A program that keeps to a valid outline ends as it says when it runs alone. -/
theorem Valid.of_runs (hD : D.Valid S g) {m : Prog C R E α} {Q : Except E α → σ → Prop}
    {r : Except E α} (h : D.Safe S g p m Q s) (hi : D.inv s) (hr : S.Runs g p m s r s') :
    Q r s' ∧ D.inv s' := by
  induction m generalizing s with
  | ret a =>
    obtain ⟨rfl, rfl⟩ := hr
    exact ⟨h, hi⟩
  | raise e =>
    obtain ⟨rfl, rfl⟩ := hr
    exact ⟨h, hi⟩
  | call c k ih =>
    obtain ⟨o, x, s₁, ho, hex, hr⟩ := hr
    obtain ⟨hk, hs⟩ := h s (hD.rely_refl p s) hi
    have hi₁ := hD.inv_step p c o s x s₁ hi hk ho hex
    exact ih x (hs o x s₁ ho hex hi₁) hi₁ hr

/-- What every command does, the program does too. -/
theorem Valid.rel_of_runs (hD : D.Valid S g) (rel : σ → σ → Prop) (hrefl : ∀ s, rel s s)
    (htrans : ∀ s s' s'', rel s s' → rel s' s'' → rel s s'') {ok : C → Prop}
    (hstep : ∀ c o s x s', ok c → D.inv s → D.know p c s → g.step p c o s →
      S.exec p c o s = some (x, s') → rel s s')
    {m : Prog C R E α} {Q : Except E α → σ → Prop} {r : Except E α} (hm : m.Issues ok)
    (h : D.Safe S g p m Q s) (hi : D.inv s) (hr : S.Runs g p m s r s') : rel s s' := by
  induction m generalizing s with
  | ret a =>
    obtain ⟨rfl, rfl⟩ := hr
    exact hrefl _
  | raise e =>
    obtain ⟨rfl, rfl⟩ := hr
    exact hrefl _
  | call c k ih =>
    obtain ⟨o, x, s₁, ho, hex, hr⟩ := hr
    obtain ⟨hk, hs⟩ := h s (hD.rely_refl p s) hi
    have hi₁ := hD.inv_step p c o s x s₁ hi hk ho hex
    exact htrans _ _ _ (hstep c o s x s₁ hm.1 hi hk ho hex)
      (ih x (hm.2 x) (hs o x s₁ ho hex hi₁) hi₁ hr)

/-- A program ends when it runs alone, as its commands are possible. -/
theorem Valid.exists_runs (hD : D.Valid S g) {ok : C → Prop}
    (hex : ∀ c s, ok c → D.inv s → D.know p c s →
      ∃ o x s', g.step p c o s ∧ S.exec p c o s = some (x, s'))
    {m : Prog C R E α} {Q : Except E α → σ → Prop} (hm : m.Issues ok) (h : D.Safe S g p m Q s)
    (hi : D.inv s) : ∃ r s', S.Runs g p m s r s' := by
  induction m generalizing s with
  | ret a => exact ⟨.ok a, s, rfl, rfl⟩
  | raise e => exact ⟨.error e, s, rfl, rfl⟩
  | call c k ih =>
    obtain ⟨hk, hs⟩ := h s (hD.rely_refl p s) hi
    obtain ⟨o, x, s₁, ho, hx⟩ := hex c s hm.1 hi hk
    have hi₁ := hD.inv_step p c o s x s₁ hi hk ho hx
    obtain ⟨r, s', hr⟩ := ih x (hm.2 x) (hs o x s₁ ho hx hi₁) hi₁
    exact ⟨r, s', o, x, s₁, ho, hx, hr⟩

section

omit [DecidableEq P]

/-- The outline of a process that is alone: nothing is said of the others. -/
def alone (C : Type) (E A P J σ : Type) : Outline C E A P J σ where
  inv _ := True
  know _ _ _ := True
  rely _ s s' := s' = s
  idle _ _ := True
  post _ _ _ _ := True

theorem stable_alone (p : P) (a : σ → Prop) : (alone C E A P J σ).Stable p a := by
  rintro s s' rfl h
  exact h

/-- A process that is alone ends as it is said. -/
theorem Safe.of_runs {m : Prog C R E α} {Q : Except E α → σ → Prop} {r : Except E α}
    (h : (alone C E A P J σ).Safe S g p m Q s) (hr : S.Runs g p m s r s') : Q r s' := by
  induction m generalizing s with
  | ret a =>
    obtain ⟨rfl, rfl⟩ := hr
    exact h
  | raise e =>
    obtain ⟨rfl, rfl⟩ := hr
    exact h
  | call c k ih =>
    obtain ⟨o, x, s₁, ho, hex, hr⟩ := hr
    exact ih x ((h s rfl trivial).2 o x s₁ ho hex trivial) hr

end

end Outline

/-! ### Programs that end -/

namespace System

variable (S : System C R E A P J O σ) (g : Guard C P J O σ) (p : P)

/-- The process `p`, running `m` alone from `s`, is never stuck, and ends with `Q`. -/
def Ends {α : Type} : Prog C R E α → (Except E α → σ → Prop) → σ → Prop
  | .ret a, Q, s => Q (.ok a) s
  | .raise e, Q, s => Q (.error e) s
  | .call c k, Q, s => (∃ o x s₁, g.step p c o s ∧ S.exec p c o s = some (x, s₁)) ∧
      ∀ o x s₁, g.step p c o s → S.exec p c o s = some (x, s₁) → Ends (k x) Q s₁

variable {S g p} {α β : Type} {s s' : σ}

theorem Ends.mono {m : Prog C R E α} {Q Q' : Except E α → σ → Prop} (h : S.Ends g p m Q s)
    (hQ : ∀ r s', Q r s' → Q' r s') : S.Ends g p m Q' s := by
  induction m generalizing s with
  | ret a => exact hQ _ _ h
  | raise e => exact hQ _ _ h
  | call c k ih => exact ⟨h.1, fun o x s₁ ho hx => ih x (h.2 o x s₁ ho hx)⟩

/-- A run of a program that ends with `Q` does so. -/
theorem Ends.of_runs {m : Prog C R E α} {Q : Except E α → σ → Prop} {r : Except E α}
    (h : S.Ends g p m Q s) (hr : S.Runs g p m s r s') : Q r s' := by
  induction m generalizing s with
  | ret a =>
    obtain ⟨rfl, rfl⟩ := hr
    exact h
  | raise e =>
    obtain ⟨rfl, rfl⟩ := hr
    exact h
  | call c k ih =>
    obtain ⟨o, x, s₁, ho, hx, hr⟩ := hr
    exact ih x (h.2 o x s₁ ho hx) hr

/-- A program that ends has a run. -/
theorem Ends.exists_runs {m : Prog C R E α} {Q : Except E α → σ → Prop}
    (h : S.Ends g p m Q s) : ∃ r s', S.Runs g p m s r s' := by
  induction m generalizing s with
  | ret a => exact ⟨.ok a, s, rfl, rfl⟩
  | raise e => exact ⟨.error e, s, rfl, rfl⟩
  | call c k ih =>
    obtain ⟨o, x, s₁, ho, hx⟩ := h.1
    obtain ⟨r, s', hr⟩ := ih x (h.2 o x s₁ ho hx)
    exact ⟨r, s', o, x, s₁, ho, hx, hr⟩

/-- What every command that is issued does, the program does too. -/
theorem Ends.frame {ok : C → Prop} (rel : σ → σ → Prop) (hrefl : ∀ s, rel s s)
    (htrans : ∀ s s' s'', rel s s' → rel s' s'' → rel s s'')
    (hstep : ∀ c o s x s', ok c → S.exec p c o s = some (x, s') → rel s s')
    {m : Prog C R E α} {Q : Except E α → σ → Prop} (h : S.Ends g p m Q s) (hm : m.Issues ok) :
    S.Ends g p m (fun r s' => Q r s' ∧ rel s s') s := by
  suffices ∀ s₀, rel s₀ s → S.Ends g p m (fun r s' => Q r s' ∧ rel s₀ s') s from this s (hrefl s)
  intro s₀ hs₀
  induction m generalizing s with
  | ret a => exact ⟨h, hs₀⟩
  | raise e => exact ⟨h, hs₀⟩
  | call c k ih =>
    exact ⟨h.1, fun o x s₁ ho hx => ih x (h.2 o x s₁ ho hx) (hm.2 x)
      (htrans _ _ _ hs₀ (hstep c o s x s₁ hm.1 hx))⟩

theorem ends_pure {a : α} {Q : Except E α → σ → Prop} :
    S.Ends g p (pure a) Q s ↔ Q (.ok a) s := Iff.rfl

theorem ends_bind {m : Prog C R E α} {f : α → Prog C R E β} {Q : Except E β → σ → Prop} :
    S.Ends g p (m.bind f) Q s ↔ S.Ends g p m
      (Outline.outcome (fun a => S.Ends g p (f a) Q) fun e => Q (.error e)) s := by
  induction m generalizing s with
  | ret a => exact Iff.rfl
  | raise e => exact Iff.rfl
  | call c k ih => simp only [Prog.bind, Ends, ih]

theorem ends_tryCatch {m : Prog C R E α} {h : E → Prog C R E α} {Q : Except E α → σ → Prop} :
    S.Ends g p (m.tryCatch h) Q s ↔ S.Ends g p m
      (Outline.outcome (fun a => Q (.ok a)) fun e => S.Ends g p (h e) Q) s := by
  induction m generalizing s with
  | ret a => exact Iff.rfl
  | raise e => exact Iff.rfl
  | call c k ih => simp only [Prog.tryCatch, Ends, ih]

theorem ends_ensuring {m : Prog C R E α} {f : Prog C R E Unit} {Q : Except E α → σ → Prop} :
    S.Ends g p (m.ensuring f) Q s ↔ S.Ends g p m
      (fun r => S.Ends g p f (Outline.outcome (fun _ => Q r) fun e => Q (.error e))) s := by
  induction m generalizing s with
  | ret a => exact ends_bind
  | raise e => exact ends_bind
  | call c k ih => simp only [Prog.ensuring, Ends, ih]

/-- A command ends a program when it is possible, and leads to `Q`. -/
theorem ends_perform {c : C} {Q : Except E (R c) → σ → Prop} :
    S.Ends g p (.perform c) Q s ↔ (∃ o x s₁, g.step p c o s ∧ S.exec p c o s = some (x, s₁)) ∧
      ∀ o x s₁, g.step p c o s → S.exec p c o s = some (x, s₁) → Q x s₁ := by
  refine and_congr_right fun _ => forall_congr' fun o => forall_congr' fun x => ?_
  cases x <;> exact Iff.rfl

/-- A loop ends when its body keeps an assertion on what is left of the list, whether it
    raises or not. -/
theorem ends_forEach {body : β → Prog C R E Unit} {Q : Except E Unit → σ → Prop}
    (a : List β → σ → Prop) (hQ : ∀ s', a [] s' → Q (.ok ()) s')
    (hb : ∀ x xs s', a (x :: xs) s' →
      S.Ends g p (body x) (Outline.outcome (fun _ => a xs) fun e => Q (.error e)) s')
    {xs : List β} (h : a xs s) : S.Ends g p (.forEach body xs) Q s := by
  induction xs generalizing s with
  | nil => exact hQ s h
  | cons x xs ih =>
    rw [Prog.forEach, ends_bind]
    refine (hb x xs s h).mono fun r s' hr => ?_
    rcases r with e | u
    · exact hr
    · exact ih hr

/-- A job that ends, and keeps `I`, is repeated any number of times. -/
theorem exists_repeats {j : J} {I : σ → Prop}
    (hb : ∀ s, I s → S.Ends g p (S.body p j) (fun _ s' => I s') s) (hs : I s) (n : ℕ) :
    ∃ s', S.Repeats g p j s n s' ∧ I s' := by
  induction n with
  | zero => exact ⟨s, .zero, hs⟩
  | succ n ih =>
    obtain ⟨s₁, hr, hi⟩ := ih
    obtain ⟨r, s₂, h⟩ := (hb s₁ hi).exists_runs
    exact ⟨s₂, .succ hr h, (hb s₁ hi).of_runs h⟩

end System

end AslanCore
