import AslanCore.Process.Outline

/-!
# Systems that are extended

Some of the commands of a system may be those of a smaller one, whose programs it runs
(`Prog.inl`). What keeps to the outline of the smaller commands (`Outline.left`) keeps to that of
all (`Outline.Safe.inl`).
-/

namespace AslanCore

variable {C D : Type} {R : C → Type} {RD : D → Type} {E A P J O σ : Type}

namespace System

/-- The commands of a smaller system, among those of a system. -/
def left (S : System (C ⊕ D) (Sum.elim R RD) E A P J O σ) : System C R E A P Empty O σ where
  body _ j := j.elim
  exec p c o s := S.exec p (.inl c) o s
  kill := S.kill

end System

/-- What is said of the commands of a smaller system. -/
def Guard.left (g : Guard (C ⊕ D) P J O σ) : Guard C P Empty O σ where
  step p c o s := g.step p (.inl c) o s

namespace Outline

/-- What is known of the commands of a smaller system. -/
def left (L : Outline (C ⊕ D) E A P J σ) : Outline C E A P Empty σ where
  inv := L.inv
  know p c := L.know p (.inl c)
  rely := L.rely
  idle := L.idle
  post _ j := j.elim

/-- A program of a smaller system is safe among more commands. -/
theorem Safe.inl {S : System (C ⊕ D) (Sum.elim R RD) E A P J O σ} {g : Guard (C ⊕ D) P J O σ}
    {L : Outline (C ⊕ D) E A P J σ} {p : P} {α : Type} {m : Prog C R E α}
    {Q : Except E α → σ → Prop} {s : σ} (h : L.left.Safe S.left g.left p m Q s) :
    L.Safe S g p m.inl Q s := by
  induction m generalizing s with
  | ret a => exact h
  | raise e => exact h
  | call c k ih =>
    intro s₁ hr hi
    obtain ⟨hk, hs⟩ := h s₁ hr hi
    exact ⟨hk, fun o r s₂ ho he hi₂ => ih _ (hs o r s₂ ho he hi₂)⟩

end Outline

end AslanCore
