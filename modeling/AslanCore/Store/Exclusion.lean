import Mathlib.Data.List.Pairwise
import Mathlib.Order.MinMax
import AslanCore.Store.DistinctOn

/-!
# Windows of validity

A row may be valid from one day on, until another (`Window`); an exclusion constraint keeps the
windows of the rows of a key apart (`Excluded`).

* `Window.overlaps_iff`: two windows overlap where they have a day in common;
* `Excluded.eq_of_mem`: a key has at most one row that is valid on a day;
* `Excluded.map`: windows that become smaller stay apart;
* `Excluded.orderBy_validOn`: the order in which the rows of a day are found does not matter.
-/

namespace AslanCore

variable {α β γ κ : Type} [LinearOrder α] [LinearOrder κ]

/-- The days from `lower` on, until `upper`. -/
structure Window (α : Type) [LinearOrder α] where
  lower : α
  upper : α
  le : lower ≤ upper
  deriving DecidableEq

namespace Window

variable {w w' : Window α} {d d' : α}

instance : Membership α (Window α) := ⟨fun w d => w.lower ≤ d ∧ d < w.upper⟩

theorem mem_iff : d ∈ w ↔ w.lower ≤ d ∧ d < w.upper := Iff.rfl

instance : Decidable (d ∈ w) := inferInstanceAs (Decidable (_ ∧ _))

/-- `&&` of two ranges. -/
def Overlaps (w w' : Window α) : Prop := max w.lower w'.lower < min w.upper w'.upper

instance : Decidable (w.Overlaps w') := inferInstanceAs (Decidable (_ < _))

theorem overlaps_iff : w.Overlaps w' ↔ ∃ d, d ∈ w ∧ d ∈ w' := by
  constructor
  · intro h
    obtain ⟨hupper, hupper'⟩ := lt_min_iff.1 h
    exact ⟨_, ⟨le_max_left _ _, hupper⟩, ⟨le_max_right _ _, hupper'⟩⟩
  · rintro ⟨d, hd, hd'⟩
    exact (max_le hd.1 hd'.1).trans_lt (lt_min hd.2 hd'.2)

theorem overlaps_comm : w.Overlaps w' ↔ w'.Overlaps w := by
  rw [Overlaps, Overlaps, max_comm, min_comm]

/-- The days before `d`. -/
def cut (w : Window α) (d : α) (h : d ∈ w) : Window α := ⟨w.lower, d, h.1⟩

theorem mem_cut {h : d ∈ w} : d' ∈ w.cut d h ↔ d' ∈ w ∧ d' < d :=
  ⟨fun hd' => ⟨⟨hd'.1, hd'.2.trans h.2⟩, hd'.2⟩, fun hd' => ⟨hd'.1.1, hd'.2⟩⟩

end Window

variable {key : β → γ} {window : β → Window α} {rows : List β} {r r' : β} {k : γ} {d : α}

/-- `EXCLUDE` of the rows of a key whose windows overlap. -/
def Excluded (key : β → γ) (window : β → Window α) (rows : List β) : Prop :=
  rows.Pairwise fun r r' => ¬(key r = key r' ∧ (window r).Overlaps (window r'))

namespace Excluded

theorem concat (h : Excluded key window rows)
    (hr : ∀ r' ∈ rows, ¬(key r' = key r ∧ (window r').Overlaps (window r))) :
    Excluded key window (rows ++ [r]) :=
  List.pairwise_append.2 ⟨h, List.pairwise_singleton _ _, fun r' hr' _ hx =>
    List.mem_singleton.1 hx ▸ hr r' hr'⟩

/-- Windows that become smaller stay apart. -/
theorem map (h : Excluded key window rows) {f : β → β} (hkey : ∀ r ∈ rows, key (f r) = key r)
    (hwindow : ∀ r ∈ rows, ∀ d ∈ window (f r), d ∈ window r) :
    Excluded key window (rows.map f) := by
  refine List.pairwise_map.2 (h.imp_of_mem ?_)
  rintro r r' hr hr' hne ⟨hsame, hoverlaps⟩
  obtain ⟨d, hd, hd'⟩ := Window.overlaps_iff.1 hoverlaps
  rw [hkey r hr, hkey r' hr'] at hsame
  exact hne ⟨hsame, Window.overlaps_iff.2 ⟨d, hwindow r hr d hd, hwindow r' hr' d hd'⟩⟩

end Excluded

variable [DecidableEq γ]

/-- The rows of a key that are valid on a day. -/
def validOn (key : β → γ) (window : β → Window α) (k : γ) (d : α) (rows : List β) : List β :=
  rows.filter fun r => key r = k ∧ d ∈ window r

theorem mem_validOn : r ∈ validOn key window k d rows ↔ r ∈ rows ∧ key r = k ∧ d ∈ window r := by
  rw [validOn, List.mem_filter, decide_eq_true_iff]

theorem validOn_append (rows rows' : List β) : validOn key window k d (rows ++ rows') =
    validOn key window k d rows ++ validOn key window k d rows' :=
  List.filter_append _ _

/-- No two rows of a day are kept apart. -/
theorem not_pairwise_validOn {l l' : List β}
    (h : validOn key window k d rows = l ++ r :: r' :: l') : ¬Excluded key window rows := by
  intro hexcl
  have hr : r ∈ validOn key window k d rows := by simp [h]
  have hr' : r' ∈ validOn key window k d rows := by simp [h]
  obtain ⟨-, hkey, hd⟩ := mem_validOn.1 hr
  obtain ⟨-, hkey', hd'⟩ := mem_validOn.1 hr'
  have hsub : (validOn key window k d rows).Sublist rows := List.filter_sublist
  rw [h] at hsub
  have hne := (List.pairwise_append.1 (List.Pairwise.sublist hsub hexcl)).2.1
  exact (List.pairwise_cons.1 hne).1 r' List.mem_cons_self
    ⟨hkey.trans hkey'.symm, Window.overlaps_iff.2 ⟨d, hd, hd'⟩⟩

namespace Excluded

/-- At most one row of a key is valid on a day. -/
theorem validOn_cases (h : Excluded key window rows) (k : γ) (d : α) :
    validOn key window k d rows = [] ∨ ∃ r, validOn key window k d rows = [r] := by
  rcases hrows : validOn key window k d rows with _ | ⟨r, _ | ⟨r', l⟩⟩
  · exact .inl rfl
  · exact .inr ⟨r, rfl⟩
  · exact absurd h (not_pairwise_validOn (l := []) hrows)

theorem validOn_eq (h : Excluded key window rows) (hr : r ∈ rows) (hkey : key r = k)
    (hd : d ∈ window r) : validOn key window k d rows = [r] := by
  have hmem : r ∈ validOn key window k d rows := mem_validOn.2 ⟨hr, hkey, hd⟩
  rcases h.validOn_cases k d with hnil | ⟨r', hr'⟩
  · rw [hnil] at hmem
    cases hmem
  · rw [hr', List.mem_singleton] at hmem
    rw [hr', hmem]

theorem eq_of_mem (h : Excluded key window rows) (hr : r ∈ rows) (hr' : r' ∈ rows)
    (hkey : key r = key r') (hd : d ∈ window r) (hd' : d ∈ window r') : r = r' := by
  have hrow := h.validOn_eq hr hkey hd
  rw [h.validOn_eq hr' rfl hd', List.cons.injEq] at hrow
  exact hrow.1.symm

/-- Whatever the order, the row of a day is found. -/
theorem orderBy_validOn (h : Excluded key window rows) (sortKey : β → κ) (k : γ) (d : α) :
    orderBy sortKey (validOn key window k d rows) = validOn key window k d rows := by
  rcases h.validOn_cases k d with hnil | ⟨r, hr⟩
  · rw [hnil]
    rfl
  · rw [hr]
    rfl

end Excluded

end AslanCore
