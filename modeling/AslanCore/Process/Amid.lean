import AslanCore.Process.Prog

/-!
# Programs amid others

The runs of one program while others use the shared state as well: before each command of the
program, they take any steps that a relation allows (`Prog.RunsAmid`). A run comes with the *steps*
of the program itself, the pairs of the states before and after each of its commands: what a program
does, and how many commands it needs, is said of these.

There is a rule for each construct, which takes a run apart.
-/

namespace AslanCore

namespace Prog

variable {C : Type} {R : C → Type} {E O σ α β : Type}

section

variable (exec : (c : C) → O → σ → Option (Except E (R c) × σ)) (rely : σ → σ → Prop)

/-- The program, run from `s` while the others do what `rely` allows, takes the given steps and ends
    with the outcome `r` in `s'`. -/
def RunsAmid {α : Type} : Prog C R E α → σ → List (σ × σ) → Except E α → σ → Prop
  | .ret a, s, steps, r, s' => steps = [] ∧ r = .ok a ∧ s' = s
  | .raise e, s, steps, r, s' => steps = [] ∧ r = .error e ∧ s' = s
  | .call c k, s, steps, r, s' => ∃ s₁ o x s₂ rest, rely s s₁ ∧ exec c o s₁ = some (x, s₂) ∧
      steps = (s₁, s₂) :: rest ∧ RunsAmid (k x) s₂ rest r s'

end

variable {exec : (c : C) → O → σ → Option (Except E (R c) × σ)} {rely : σ → σ → Prop} {s s' : σ}
  {steps : List (σ × σ)}

theorem runsAmid_perform {c : C} {r : Except E (R c)} :
    (perform c : Prog C R E (R c)).RunsAmid exec rely s steps r s' ↔
      ∃ s₁ o, rely s s₁ ∧ exec c o s₁ = some (r, s') ∧ steps = [(s₁, s')] := by
  constructor
  · rintro ⟨s₁, o, x, s₂, rest, hrely, hexec, rfl, hend⟩
    rcases x with e | a <;> obtain ⟨rfl, rfl, rfl⟩ := hend <;> exact ⟨s₁, o, hrely, hexec, rfl⟩
  · rintro ⟨s₁, o, hrely, hexec, rfl⟩
    refine ⟨s₁, o, r, s', [], hrely, hexec, rfl, ?_⟩
    rcases r with e | a <;> exact ⟨rfl, rfl, rfl⟩

/-- A sequence takes the steps of its first part, and, if it returns, those of its second. -/
theorem RunsAmid.bind {m : Prog C R E α} {f : α → Prog C R E β} {r : Except E β}
    (h : (m >>= f).RunsAmid exec rely s steps r s') :
    (∃ e, m.RunsAmid exec rely s steps (.error e) s' ∧ r = .error e) ∨
      ∃ a s₁ first rest, m.RunsAmid exec rely s first (.ok a) s₁ ∧
        (f a).RunsAmid exec rely s₁ rest r s' ∧ steps = first ++ rest := by
  induction m generalizing s steps with
  | ret a => exact .inr ⟨a, s, [], steps, ⟨rfl, rfl, rfl⟩, h, rfl⟩
  | raise e =>
    obtain ⟨rfl, rfl, rfl⟩ := h
    exact .inl ⟨e, ⟨rfl, rfl, rfl⟩, rfl⟩
  | call c k ih =>
    obtain ⟨s₁, o, x, s₂, rest, hrely, hexec, rfl, h⟩ := h
    rcases ih x h with ⟨e, hm, rfl⟩ | ⟨a, s₃, first, rest', hm, hf, rfl⟩
    · exact .inl ⟨e, ⟨s₁, o, x, s₂, rest, hrely, hexec, rfl, hm⟩, rfl⟩
    · exact .inr ⟨a, s₃, (s₁, s₂) :: first, rest', ⟨s₁, o, x, s₂, first, hrely, hexec, rfl, hm⟩, hf,
        rfl⟩

/-- An exception is handled where it is raised. -/
theorem RunsAmid.tryCatch {m : Prog C R E α} {f : E → Prog C R E α} {r : Except E α}
    (h : (m.tryCatch f).RunsAmid exec rely s steps r s') :
    (∃ a, m.RunsAmid exec rely s steps (.ok a) s' ∧ r = .ok a) ∨
      ∃ e s₁ first rest, m.RunsAmid exec rely s first (.error e) s₁ ∧
        (f e).RunsAmid exec rely s₁ rest r s' ∧ steps = first ++ rest := by
  induction m generalizing s steps with
  | ret a =>
    obtain ⟨rfl, rfl, rfl⟩ := h
    exact .inl ⟨a, ⟨rfl, rfl, rfl⟩, rfl⟩
  | raise e => exact .inr ⟨e, s, [], steps, ⟨rfl, rfl, rfl⟩, h, rfl⟩
  | call c k ih =>
    obtain ⟨s₁, o, x, s₂, rest, hrely, hexec, rfl, h⟩ := h
    rcases ih x h with ⟨a, hm, rfl⟩ | ⟨e, s₃, first, rest', hm, hf, rfl⟩
    · exact .inl ⟨a, ⟨s₁, o, x, s₂, rest, hrely, hexec, rfl, hm⟩, rfl⟩
    · exact .inr ⟨e, s₃, (s₁, s₂) :: first, rest', ⟨s₁, o, x, s₂, first, hrely, hexec, rfl, hm⟩, hf,
        rfl⟩

/-- A clean-up block runs in the end, and the outcome is that of the body unless it raises. -/
theorem RunsAmid.ensuring {m : Prog C R E α} {f : Prog C R E Unit} {r : Except E α}
    (h : (m.ensuring f).RunsAmid exec rely s steps r s') :
    ∃ x s₁ first y rest, m.RunsAmid exec rely s first x s₁ ∧ f.RunsAmid exec rely s₁ rest y s' ∧
      steps = first ++ rest ∧ ∀ a, r = .ok a → x = .ok a := by
  induction m generalizing s steps with
  | ret a =>
    rcases RunsAmid.bind h with ⟨e, hf, rfl⟩ | ⟨u, s₁, first, rest, hf, ⟨rfl, rfl, rfl⟩, rfl⟩
    · exact ⟨.ok a, s, [], .error e, steps, ⟨rfl, rfl, rfl⟩, hf, rfl, nofun⟩
    · exact ⟨.ok a, s, [], .ok u, first, ⟨rfl, rfl, rfl⟩, hf, List.append_nil _, fun _ h => h⟩
  | raise e =>
    rcases RunsAmid.bind h with ⟨e', hf, rfl⟩ | ⟨u, s₁, first, rest, hf, ⟨rfl, rfl, rfl⟩, rfl⟩
    · exact ⟨.error e, s, [], .error e', steps, ⟨rfl, rfl, rfl⟩, hf, rfl, nofun⟩
    · exact ⟨.error e, s, [], .ok u, first, ⟨rfl, rfl, rfl⟩, hf, List.append_nil _, nofun⟩
  | call c k ih =>
    obtain ⟨s₁, o, x, s₂, rest, hrely, hexec, rfl, h⟩ := h
    obtain ⟨y, s₃, first, z, rest', hm, hf, rfl, hr⟩ := ih x h
    exact ⟨y, s₃, (s₁, s₂) :: first, z, rest', ⟨s₁, o, x, s₂, first, hrely, hexec, rfl, hm⟩, hf, rfl,
      hr⟩

/-- The run of a program that nobody interferes with, with the given choices. -/
def runSteps (exec : (c : C) → O → σ → Option (Except E (R c) × σ)) :
    Prog C R E α → List O → σ → Option (List (σ × σ) × Except E α × σ)
  | .ret a, _, s => some ([], .ok a, s)
  | .raise e, _, s => some ([], .error e, s)
  | .call _ _, [], _ => none
  | .call c k, o :: os, s => (exec c o s).bind fun (x, s₁) =>
      (runSteps exec (k x) os s₁).map fun (steps, r, s') => ((s, s₁) :: steps, r, s')

theorem RunsAmid.of_runSteps {m : Prog C R E α} {os : List O} {r : Except E α}
    (h : m.runSteps exec os s = some (steps, r, s')) (hrely : ∀ s, rely s s) :
    m.RunsAmid exec rely s steps r s' := by
  induction m generalizing os s steps with
  | ret a =>
    cases h
    exact ⟨rfl, rfl, rfl⟩
  | raise e =>
    cases h
    exact ⟨rfl, rfl, rfl⟩
  | call c k ih =>
    rcases os with _ | ⟨o, os⟩
    · cases h
    obtain ⟨⟨x, s₁⟩, hexec, h⟩ := Option.bind_eq_some_iff.1 h
    obtain ⟨⟨rest, y, s₂⟩, hrest, heq⟩ := Option.map_eq_some_iff.1 h
    cases heq
    exact ⟨s, o, x, s₁, rest, hrely s, hexec, rfl, ih x hrest⟩

end Prog

end AslanCore
