import Mathlib.Data.Prod.Lex
import Mathlib.Logic.Function.Basic
import AslanCore.Store.DistinctOn

/-!
# A table with a history

A table whose rows are changed by transactions, and a second one, to which a trigger writes
a version of each row that is changed, at the time its transaction began (`Mirror.capture`).
What the table was at some time is read back from the versions (`Mirror.versionsAt`).

* `MirroredTable`, `Mirror.Step`: the two tables, and the steps of the transactions, which
  hold the rows they change until they commit;
* `Mirror.Agrees`: what is read back of the present is what the table has;
* `Mirror.Clear`: the steps that keep it so: nothing is deleted, no row gets another key,
  and a row is not changed by a transaction that began no later than one whose version
  there is;
* `Mirror.agrees_iff_clear`: it agrees all along a run if and only if all steps are such.
-/

namespace AslanCore

/-- What a trigger is fired for: the change of a row, with `OLD` and `NEW`. -/
inductive RowChange (Row : Type)
  | insert (new : Row)
  | update (old new : Row)
  | delete (old : Row)

namespace RowChange

variable {Row : Type}

/-- The row that is captured: `NEW`, or what is deleted. -/
def captured : RowChange Row → Row
  | insert new => new
  | update _ new => new
  | delete old => old

def isDelete : RowChange Row → Bool
  | insert _ => false
  | update _ _ => false
  | delete _ => true

end RowChange

/-- A version of a row. -/
structure RowVersion (Id Time Kind Snapshot : Type) where
  id : Id
  asOf : Time
  kind : Kind
  snapshot : Snapshot

/-- How the rows of a table are captured, and what of them is shown. -/
structure Mirror (Row Id Kind Snapshot Columns : Type) where
  /-- The primary key. -/
  id : Row → Id
  kind : RowChange Row → Kind
  isDeleted : Kind → Bool
  snapshot : Row → Snapshot
  /-- The columns that are mirrored, of a row and of a version. -/
  columns : Row → Columns
  shown : Snapshot → Columns
  shown_snapshot : ∀ row, shown (snapshot row) = columns row
  isDeleted_kind : ∀ c, isDeleted (kind c) = c.isDelete

/-- The table, its versions, and the transactions that are open: the time each began, and
    the keys it holds. -/
structure MirroredTable (Row Id Time Kind Snapshot : Type) where
  now : Time
  rows : List Row
  versions : List (RowVersion Id Time Kind Snapshot)
  begun : ℕ → Option Time
  owner : Id → Option ℕ

/-- What happens: time passes, and transactions begin, change a row and commit. -/
inductive TableEvent (Row Time : Type)
  | tick (t : Time)
  | begin (x : ℕ)
  | change (x : ℕ) (c : RowChange Row)
  | commit (x : ℕ)

namespace Mirror

variable {Row Id Time Kind Snapshot Columns : Type} [LinearOrder Id] [LinearOrder Time]
  (m : Mirror Row Id Kind Snapshot Columns)

/-! ### The trigger and the function -/

/-- The version that the trigger inserts for a change. -/
def version (now : Time) (c : RowChange Row) : RowVersion Id Time Kind Snapshot where
  id := m.id c.captured
  asOf := now
  kind := m.kind c
  snapshot := m.snapshot c.captured

/-- The trigger: it inserts a version, `ON CONFLICT (id, as_of) DO NOTHING`. -/
def capture (now : Time) (c : RowChange Row) (versions : List (RowVersion Id Time Kind Snapshot)) :
    List (RowVersion Id Time Kind Snapshot) :=
  if ∃ v ∈ versions, v.id = m.id c.captured ∧ v.asOf = now then versions
  else versions ++ [m.version now c]

/-- The versions at a time: of each row the last one, `WHERE as_of <= p_as_of AND
    event_kind <> 'deleted'`. -/
def versionsAt (pAsOf : Time) (versions : List (RowVersion Id Time Kind Snapshot)) :
    List (RowVersion Id Time Kind Snapshot) :=
  distinctOn RowVersion.id <|
    orderBy (fun v => (toLex (v.id, OrderDual.toDual v.asOf) : Id ×ₗ Timeᵒᵈ)) <|
      versions.filter fun v => v.asOf ≤ pAsOf ∧ m.isDeleted v.kind = false

/-! ### Transactions -/

/-- The rows after a change. -/
def changeRows (rows : List Row) : RowChange Row → List Row
  | .insert new => rows ++ [new]
  | .update old new => rows.map fun row => if m.id row = m.id old then new else row
  | .delete old => rows.filter fun row => m.id row ≠ m.id old

/-- The keys that a change locks. -/
def keys : RowChange Row → List Id
  | .insert new => [m.id new]
  | .update old new => [m.id old, m.id new]
  | .delete old => [m.id old]

/-- The primary key allows a change: what is changed is there, and what is written does not
    clash. -/
def Allowed (rows : List Row) : RowChange Row → Prop
  | .insert new => ∀ row ∈ rows, m.id row ≠ m.id new
  | .update old new => old ∈ rows ∧ (m.id new = m.id old ∨ ∀ row ∈ rows, m.id row ≠ m.id new)
  | .delete old => old ∈ rows

/-- The state after a change, of a transaction that began at `s`. -/
def changed (st : MirroredTable Row Id Time Kind Snapshot) (x : ℕ) (s : Time)
    (c : RowChange Row) : MirroredTable Row Id Time Kind Snapshot :=
  { st with
    rows := m.changeRows st.rows c
    versions := m.capture s c st.versions
    owner := fun i => if i ∈ m.keys c then some x else st.owner i }

/-- A step of a transaction, or of time. A change waits for the others that hold its keys,
    and is captured at the time that its transaction began. -/
inductive Step : MirroredTable Row Id Time Kind Snapshot → TableEvent Row Time →
    MirroredTable Row Id Time Kind Snapshot → Prop
  | tick {st : MirroredTable Row Id Time Kind Snapshot} {t : Time} (ht : st.now ≤ t) :
      Step st (.tick t) { st with now := t }
  | begin {st : MirroredTable Row Id Time Kind Snapshot} {x : ℕ} (hx : st.begun x = none) :
      Step st (.begin x) { st with begun := Function.update st.begun x (some st.now) }
  | change {st : MirroredTable Row Id Time Kind Snapshot} {x : ℕ} {s : Time} {c : RowChange Row}
      (hx : st.begun x = some s) (hc : m.Allowed st.rows c)
      (hk : ∀ i ∈ m.keys c, ∀ y, st.owner i = some y → y = x) :
      Step st (.change x c) (m.changed st x s c)
  | commit {st : MirroredTable Row Id Time Kind Snapshot} {x : ℕ} {s : Time}
      (hx : st.begun x = some s) :
      Step st (.commit x)
        { st with
          begun := Function.update st.begun x none
          owner := fun i => if st.owner i = some x then none else st.owner i }

/-- A run, from empty tables: its steps, each with the state before it. -/
inductive Run : List (MirroredTable Row Id Time Kind Snapshot × TableEvent Row Time) →
    MirroredTable Row Id Time Kind Snapshot → Prop
  | nil (now : Time) : Run [] ⟨now, [], [], fun _ => none, fun _ => none⟩
  | snoc {steps : List (MirroredTable Row Id Time Kind Snapshot × TableEvent Row Time)}
      {st st' : MirroredTable Row Id Time Kind Snapshot} {e : TableEvent Row Time} :
      Run steps st → m.Step st e st' → Run (steps ++ [(st, e)]) st'

/-! ### Agreement -/

/-- What is read back of any time from now on is what the table has: one version for each
    row, with its columns, and none besides. -/
structure Agrees (st : MirroredTable Row Id Time Kind Snapshot) : Prop where
  nodup : ∀ t, st.now ≤ t → ((m.versionsAt t st.versions).map RowVersion.id).Nodup
  rows : ∀ t, st.now ≤ t → ∀ row ∈ st.rows, ∃ v ∈ m.versionsAt t st.versions,
    v.id = m.id row ∧ m.shown v.snapshot = m.columns row
  versions : ∀ t, st.now ≤ t → ∀ v ∈ m.versionsAt t st.versions,
    ∃ row ∈ st.rows, m.id row = v.id

/-- The steps that keep the agreement: they delete nothing, no row gets another key, and an
    `UPDATE` that changes the columns is of a transaction that began after all versions of
    the row. -/
def Clear (st : MirroredTable Row Id Time Kind Snapshot) : TableEvent Row Time → Prop
  | .change x (.update old new) => m.id new = m.id old ∧
      (m.columns new = m.columns old ∨
        ∀ s, st.begun x = some s → ∀ v ∈ st.versions, v.id = m.id old → v.asOf < s)
  | .change _ (.delete _) => False
  | _ => True

/-! ### What is captured -/

variable {m} {st st' : MirroredTable Row Id Time Kind Snapshot} {e : TableEvent Row Time}
  {versions : List (RowVersion Id Time Kind Snapshot)} {v w : RowVersion Id Time Kind Snapshot}
  {c : RowChange Row} {s : Time}

theorem subset_capture : versions ⊆ m.capture s c versions := by
  rw [capture]
  split_ifs
  · exact List.Subset.refl _
  · exact List.subset_append_left _ _

theorem eq_version_of_mem_capture (h : v ∈ m.capture s c versions) :
    v ∈ versions ∨ v = m.version s c := by
  rw [capture] at h
  split_ifs at h
  · exact .inl h
  · exact (List.mem_append.1 h).imp_right List.mem_singleton.1

/-- It is captured, if there is no version of that time. -/
theorem version_mem_capture (h : ∀ v ∈ versions, v.id = m.id c.captured → v.asOf ≠ s) :
    m.version s c ∈ m.capture s c versions := by
  rw [capture, if_neg fun ⟨v, hv, hid, hs⟩ => h v hv hid hs]
  exact List.mem_append_right _ (List.mem_singleton.2 rfl)

/-- The trigger keeps the primary key of the versions. -/
theorem nodup_capture (h : (versions.map fun v => (v.id, v.asOf)).Nodup) :
    ((m.capture s c versions).map fun v => (v.id, v.asOf)).Nodup := by
  rw [capture]
  split_ifs with hex
  · exact h
  · rw [List.map_append, List.map_singleton]
    refine List.nodup_append.2 ⟨h, List.nodup_singleton _, fun p hp q hq hpq => hex ?_⟩
    obtain ⟨v, hv, rfl⟩ := List.mem_map.1 hp
    obtain ⟨hid, hs⟩ := Prod.mk.inj (hpq.trans (List.mem_singleton.1 hq))
    exact ⟨v, hv, hid, hs⟩

/-- Other rows have the versions they had. -/
theorem isLast_capture_iff (h : v.id ≠ m.id c.captured) :
    IsLast RowVersion.id RowVersion.asOf (m.capture s c versions) v ↔
      IsLast RowVersion.id RowVersion.asOf versions v := by
  constructor
  · rintro ⟨hmem, hlast⟩
    refine ⟨(eq_version_of_mem_capture hmem).resolve_right ?_,
      fun w hw => hlast w (subset_capture hw)⟩
    rintro rfl
    exact h rfl
  · rintro ⟨hmem, hlast⟩
    refine ⟨subset_capture hmem, fun w hw hid => ?_⟩
    rcases eq_version_of_mem_capture hw with hw | rfl
    · exact hlast w hw hid
    · exact absurd hid.symm h

/-- The last version is one that was, or that of the change. -/
theorem isLast_or_eq_of_capture (h : IsLast RowVersion.id RowVersion.asOf (m.capture s c versions) v) :
    IsLast RowVersion.id RowVersion.asOf versions v ∨ v = m.version s c :=
  (eq_version_of_mem_capture h.mem).imp_left fun hmem =>
    ⟨hmem, fun w hw => h.last w (subset_capture hw)⟩

/-- The function returns the last versions, of those that are of the past and not of a
    deletion. -/
theorem mem_versionsAt (h : (versions.map fun v => (v.id, v.asOf)).Nodup) (t : Time) :
    v ∈ m.versionsAt t versions ↔ IsLast RowVersion.id RowVersion.asOf
      (versions.filter fun v => v.asOf ≤ t ∧ m.isDeleted v.kind = false) v := by
  refine mem_distinctOn_iff_isLast ?_ fun x y hxy => ?_
  · have hn := h.sublist (List.filter_sublist.map _ :
      ((versions.filter fun v => v.asOf ≤ t ∧ m.isDeleted v.kind = false).map
        fun v => (v.id, v.asOf)).Sublist _)
    rw [List.Nodup, List.pairwise_map] at hn ⊢
    refine hn.imp fun hne heq => hne ?_
    obtain ⟨hid, ha⟩ := Prod.mk.inj (toLex.injective heq)
    exact Prod.ext hid (OrderDual.toDual.injective ha)
  · rw [Prod.Lex.toLex_le_toLex, hxy]
    simp

/-- It has one version of each row. -/
theorem nodup_versionsAt (t : Time) (versions : List (RowVersion Id Time Kind Snapshot)) :
    ((m.versionsAt t versions).map RowVersion.id).Nodup :=
  List.pairwise_map.2 (pairwise_distinctOn RowVersion.id _)

/-! ### The states of a run -/

variable (m) in
/-- What holds of the states of a run without deletions. -/
structure Sound (st : MirroredTable Row Id Time Kind Snapshot) : Prop where
  rows : (st.rows.map m.id).Nodup
  versions : (st.versions.map fun v => (v.id, v.asOf)).Nodup
  past : ∀ v ∈ st.versions, v.asOf ≤ st.now
  begun : ∀ x s, st.begun x = some s → s ≤ st.now
  live : ∀ v ∈ st.versions, m.isDeleted v.kind = false

/-- All versions are then read back. -/
theorem Sound.mem_versionsAt (h : m.Sound st) {t : Time} (ht : st.now ≤ t) :
    v ∈ m.versionsAt t st.versions ↔ IsLast RowVersion.id RowVersion.asOf st.versions v := by
  have hall : (st.versions.filter fun v => v.asOf ≤ t ∧ m.isDeleted v.kind = false) =
      st.versions :=
    List.filter_eq_self.2 fun v hv => decide_eq_true ⟨(h.past v hv).trans ht, h.live v hv⟩
  rw [Mirror.mem_versionsAt h.versions, hall]

/-- The agreement, of the versions. -/
theorem Sound.agrees_iff (h : m.Sound st) :
    m.Agrees st ↔
      (∀ row ∈ st.rows, ∃ v, IsLast RowVersion.id RowVersion.asOf st.versions v ∧
        v.id = m.id row ∧ m.shown v.snapshot = m.columns row) ∧
      ∀ v ∈ st.versions, ∃ row ∈ st.rows, m.id row = v.id := by
  constructor
  · intro ha
    refine ⟨fun row hrow => ?_, fun v hv => ?_⟩
    · obtain ⟨v, hv, hid, hcols⟩ := ha.rows st.now le_rfl row hrow
      exact ⟨v, (h.mem_versionsAt le_rfl).1 hv, hid, hcols⟩
    · obtain ⟨w, hw, hid⟩ := IsLast.exists_of_mem RowVersion.id RowVersion.asOf hv
      obtain ⟨row, hrow, hrid⟩ := ha.versions st.now le_rfl w ((h.mem_versionsAt le_rfl).2 hw)
      exact ⟨row, hrow, hrid.trans hid⟩
  · rintro ⟨hrows, hversions⟩
    refine ⟨fun t _ => nodup_versionsAt t _, fun t ht row hrow => ?_, fun t ht v hv => ?_⟩
    · obtain ⟨v, hv, hid, hcols⟩ := hrows row hrow
      exact ⟨v, (h.mem_versionsAt ht).2 hv, hid, hcols⟩
    · exact hversions v ((h.mem_versionsAt ht).1 hv).mem

/-- A row that is no more, but has a version that is not of a deletion, is still read
    back. -/
theorem not_agrees_of_gone (hn : (st.versions.map fun v => (v.id, v.asOf)).Nodup)
    (hv : v ∈ st.versions) (hpast : v.asOf ≤ st.now) (hlive : m.isDeleted v.kind = false)
    (hgone : ∀ row ∈ st.rows, m.id row ≠ v.id) : ¬m.Agrees st := by
  intro ha
  obtain ⟨w, hw, hid⟩ := IsLast.exists_of_mem RowVersion.id RowVersion.asOf
    (List.mem_filter.2 ⟨hv, decide_eq_true ⟨hpast, hlive⟩⟩ :
      v ∈ st.versions.filter fun v => v.asOf ≤ st.now ∧ m.isDeleted v.kind = false)
  obtain ⟨row, hrow, hrid⟩ := ha.versions st.now le_rfl w ((Mirror.mem_versionsAt hn _).2 hw)
  exact hgone row hrow (hrid.trans hid)

/-- The keys of the rows stay different. -/
theorem nodup_changeRows {rows : List Row} (h : (rows.map m.id).Nodup) (hc : m.Allowed rows c) :
    ((m.changeRows rows c).map m.id).Nodup := by
  cases c with
  | insert new =>
    rw [changeRows, List.map_append, List.map_singleton]
    refine List.nodup_append.2 ⟨h, List.nodup_singleton _, fun i hi j hj hij => ?_⟩
    obtain ⟨row, hrow, rfl⟩ := List.mem_map.1 hi
    exact hc row hrow (hij.trans (List.mem_singleton.1 hj))
  | update old new =>
    rw [changeRows, List.map_map, List.Nodup, List.pairwise_map]
    refine (List.pairwise_map.1 h).imp_of_mem fun {row row'} hrow hrow' hne heq => ?_
    simp only [Function.comp_apply] at heq
    split_ifs at heq with h₁ h₂ h₂
    · exact hne (h₁.trans h₂.symm)
    · rcases hc.2 with hid | hfresh
      · exact h₂ (heq.symm.trans hid)
      · exact hfresh row' hrow' heq.symm
    · rcases hc.2 with hid | hfresh
      · exact h₁ (heq.trans hid)
      · exact hfresh row hrow heq
    · exact hne heq
  | delete old => exact h.sublist (List.filter_sublist.map _)

/-- A step of which nothing is deleted keeps them so. -/
theorem Sound.step (h : m.Sound st) (he : m.Step st e st')
    (hdel : ∀ x old, e ≠ .change x (.delete old)) : m.Sound st' := by
  cases he with
  | tick ht =>
    exact ⟨h.rows, h.versions, fun v hv => (h.past v hv).trans ht,
      fun x s hx => (h.begun x s hx).trans ht, h.live⟩
  | @begin x hx =>
    refine ⟨h.rows, h.versions, h.past, fun y s hy => ?_, h.live⟩
    rcases eq_or_ne y x with rfl | hne
    · simp only [Function.update_self, Option.some.injEq] at hy
      exact hy.ge
    · simp only [Function.update_of_ne hne] at hy
      exact h.begun y s hy
  | @change x s c hx hc hk =>
    refine ⟨nodup_changeRows h.rows hc, nodup_capture h.versions, fun v hv => ?_, h.begun,
      fun v hv => ?_⟩
    · rcases eq_version_of_mem_capture hv with hv | rfl
      · exact h.past v hv
      · exact h.begun x s hx
    · rcases eq_version_of_mem_capture hv with hv | rfl
      · exact h.live v hv
      · rcases c with new | ⟨old, new⟩ | old
        · exact m.isDeleted_kind (.insert new)
        · exact m.isDeleted_kind (.update old new)
        · exact absurd rfl (hdel x old)
  | @commit x s hx =>
    refine ⟨h.rows, h.versions, h.past, fun y s hy => ?_, h.live⟩
    rcases eq_or_ne y x with rfl | hne
    · simp only [Function.update_self, reduceCtorEq] at hy
    · simp only [Function.update_of_ne hne] at hy
      exact h.begun y s hy

/-- Nothing changes but the clock, the transactions and what they hold. -/
theorem agrees_congr (h : m.Sound st) (h' : m.Sound st') (hrows : st'.rows = st.rows)
    (hversions : st'.versions = st.versions) : m.Agrees st' ↔ m.Agrees st := by
  rw [h.agrees_iff, h'.agrees_iff, hrows, hversions]

/-! ### Changes -/

variable {x : ℕ} {old new : Row}

/-- An agreeing table has a version, which is not of a deletion, of each row. -/
theorem Sound.exists_version (h : m.Sound st) (ha : m.Agrees st) (hold : old ∈ st.rows) :
    ∃ v ∈ st.versions, v.id = m.id old ∧ v.asOf ≤ st.now ∧ m.isDeleted v.kind = false := by
  obtain ⟨v, hv, hid, -⟩ := (h.agrees_iff.1 ha).1 old hold
  exact ⟨v, hv.mem, hid, h.past v hv.mem, h.live v hv.mem⟩

/-- What is inserted is captured, as there is no version of it. -/
theorem Sound.agrees_insert (h : m.Sound st) (ha : m.Agrees st)
    (h' : m.Sound (m.changed st x s (.insert new))) (hc : m.Allowed st.rows (.insert new)) :
    m.Agrees (m.changed st x s (.insert new)) := by
  obtain ⟨hrows, hversions⟩ := h.agrees_iff.1 ha
  have hfresh : ∀ v ∈ st.versions, v.id ≠ m.id new := fun v hv hid => by
    obtain ⟨row, hrow, hrid⟩ := hversions v hv
    exact hc row hrow (hrid.trans hid)
  have hmem : m.version s (.insert new) ∈ m.capture s (.insert new) st.versions :=
    version_mem_capture fun v hv hid => absurd hid (hfresh v hv)
  refine h'.agrees_iff.2 ⟨fun row hrow => ?_, fun v hv => ?_⟩
  · rcases List.mem_append.1 hrow with hrow | hrow
    · obtain ⟨v, hv, hid, hcols⟩ := hrows row hrow
      exact ⟨v, (isLast_capture_iff fun heq => hfresh v hv.mem heq).2 hv, hid, hcols⟩
    · obtain rfl := List.mem_singleton.1 hrow
      refine ⟨_, ⟨hmem, fun w hw hid => ?_⟩, rfl, m.shown_snapshot _⟩
      rcases eq_version_of_mem_capture hw with hw | rfl
      · exact absurd hid (hfresh w hw)
      · exact le_rfl
  · rcases eq_version_of_mem_capture hv with hv | rfl
    · obtain ⟨row, hrow, hrid⟩ := hversions v hv
      exact ⟨row, List.mem_append_left _ hrow, hrid⟩
    · exact ⟨new, List.mem_append_right _ (List.mem_singleton.2 rfl), rfl⟩

/-- What is deleted is still read back. -/
theorem Sound.not_agrees_delete (h : m.Sound st) (ha : m.Agrees st)
    (hc : m.Allowed st.rows (.delete old)) : ¬m.Agrees (m.changed st x s (.delete old)) := by
  obtain ⟨v, hv, hid, hpast, hlive⟩ := h.exists_version ha hc
  refine not_agrees_of_gone (nodup_capture h.versions) (subset_capture hv) hpast hlive
    fun row hrow => ?_
  rw [hid]
  exact of_decide_eq_true (List.mem_filter.1 hrow).2

/-- So is a row under a key that it no longer has. -/
theorem Sound.not_agrees_update (h : m.Sound st) (ha : m.Agrees st)
    (hc : m.Allowed st.rows (.update old new)) (hid : m.id new ≠ m.id old) :
    ¬m.Agrees (m.changed st x s (.update old new)) := by
  obtain ⟨v, hv, hvid, hpast, hlive⟩ := h.exists_version ha hc.1
  refine not_agrees_of_gone (nodup_capture h.versions) (subset_capture hv) hpast hlive
    fun row hrow => ?_
  obtain ⟨row, -, rfl⟩ := List.mem_map.1 hrow
  rw [hvid]
  split_ifs with heq
  · exact hid
  · exact heq

/-- A row that keeps its key is read back as it is now, if what is read back does not differ,
    or if the change is captured after all its versions. -/
theorem Sound.agrees_update_iff (h : m.Sound st) (ha : m.Agrees st)
    (h' : m.Sound (m.changed st x s (.update old new)))
    (hc : m.Allowed st.rows (.update old new)) (hid : m.id new = m.id old) :
    m.Agrees (m.changed st x s (.update old new)) ↔
      m.columns new = m.columns old ∨ ∀ v ∈ st.versions, v.id = m.id old → v.asOf < s := by
  obtain ⟨hrows, hversions⟩ := h.agrees_iff.1 ha
  obtain ⟨v₀, hv₀, hid₀, hcols₀⟩ := hrows old hc.1
  have hnew : new ∈ m.changeRows st.rows (.update old new) :=
    List.mem_map.2 ⟨old, hc.1, if_pos rfl⟩
  -- the last version of the row, after the change
  obtain ⟨w, hw, hwid⟩ := IsLast.exists_of_mem RowVersion.id RowVersion.asOf
    (subset_capture (m := m) (s := s) (c := .update old new) hv₀.mem)
  have hwold : w.id = m.id old := hwid.trans hid₀
  have hw₀ : w = v₀ ∨ w = m.version s (.update old new) :=
    (isLast_or_eq_of_capture hw).imp_left fun hlast => hlast.unique h.versions hv₀ hwid
  have hagrees : m.Agrees (m.changed st x s (.update old new)) ↔
      m.shown w.snapshot = m.columns new := by
    rw [h'.agrees_iff]
    constructor
    · intro hag
      obtain ⟨v, hv, hvid, hcols⟩ := hag.1 new hnew
      rw [hw.unique h'.versions hv ((hwold.trans hid.symm).trans hvid.symm)]
      exact hcols
    · intro hcols
      refine ⟨fun row hrow => ?_, fun v hv => ?_⟩
      · obtain ⟨row, hmem, rfl⟩ := List.mem_map.1 hrow
        split_ifs with heq
        · exact ⟨w, hw, hwold.trans hid.symm, hcols⟩
        · obtain ⟨v, hv, hvid, hcols⟩ := hrows row hmem
          refine ⟨v, (isLast_capture_iff fun hv => heq ?_).2 hv, hvid, hcols⟩
          exact hvid.symm.trans (hv.trans hid)
      · have hkey : ∃ row ∈ st.rows, m.id row = v.id := by
          rcases eq_version_of_mem_capture hv with hv | rfl
          · exact hversions v hv
          · exact ⟨old, hc.1, hid.symm⟩
        obtain ⟨row, hrow, hrid⟩ := hkey
        refine ⟨_, List.mem_map_of_mem hrow, ?_⟩
        split_ifs with heq
        · exact hid.trans (heq.symm.trans hrid)
        · exact hrid
  rw [hagrees]
  constructor
  · intro hcols
    refine or_iff_not_imp_right.2 fun hlate => ?_
    obtain ⟨v, hv⟩ := not_forall.1 hlate
    obtain ⟨hv, hvid, hsv⟩ : v ∈ st.versions ∧ v.id = m.id old ∧ s ≤ v.asOf := by
      simpa only [Classical.not_imp, not_lt] using hv
    -- the last version is then one that was before: were it captured now, it would be `v`
    have hmem : w ∈ st.versions := by
      rcases hw₀ with rfl | hws
      · exact hv₀.mem
      · have hle : v.asOf ≤ w.asOf := hw.last v (subset_capture hv) (hvid.trans hwold.symm)
        have hasOf : w.asOf = s := by rw [hws]; rfl
        rw [← List.inj_on_of_nodup_map h'.versions (subset_capture hv) hw.mem
          (Prod.ext (hvid.trans hwold.symm) (le_antisymm hle (hasOf.trans_le hsv)))]
        exact hv
    have hlast : IsLast RowVersion.id RowVersion.asOf st.versions w :=
      ⟨hmem, fun u hu => hw.last u (subset_capture hu)⟩
    rw [← hcols, hlast.unique h.versions hv₀ hwid, hcols₀]
  · rintro (hcols | hlate)
    · rcases hw₀ with rfl | rfl
      · exact hcols₀.trans hcols.symm
      · exact m.shown_snapshot new
    · have hmem : m.version s (.update old new) ∈ m.capture s (.update old new) st.versions :=
        version_mem_capture fun v hv hvid => (hlate v hv (hvid.trans hid)).ne
      have hle := hw.last _ hmem (hid.trans hwold.symm)
      rcases hw₀ with rfl | rfl
      · exact absurd (hlate w hv₀.mem hid₀) (not_lt.2 hle)
      · exact m.shown_snapshot new

/-! ### Runs -/

/-- A step keeps the agreement if and only if it is one of those that should. -/
theorem Sound.agrees_step_iff (h : m.Sound st) (ha : m.Agrees st) (he : m.Step st e st') :
    m.Agrees st' ↔ m.Clear st e := by
  have hsound := h.step he
  cases he with
  | tick ht => exact iff_of_true ((agrees_congr h (hsound nofun) rfl rfl).2 ha) trivial
  | begin hx => exact iff_of_true ((agrees_congr h (hsound nofun) rfl rfl).2 ha) trivial
  | @change x s c hx hc hk =>
    rcases c with new | ⟨old, new⟩ | old
    · exact iff_of_true (h.agrees_insert ha (hsound nofun) hc) trivial
    · by_cases hid : m.id new = m.id old
      · rw [h.agrees_update_iff ha (hsound nofun) hc hid]
        simp only [Clear, hid, hx, Option.some.injEq, forall_eq', true_and]
      · exact iff_of_false (h.not_agrees_update ha hc hid) fun hclear => hid hclear.1
    · exact iff_of_false (h.not_agrees_delete ha hc) not_false
  | commit hx => exact iff_of_true ((agrees_congr h (hsound nofun) rfl rfl).2 ha) trivial

omit [LinearOrder Id] in
/-- Such a step deletes nothing. -/
theorem Clear.not_delete (h : m.Clear st e) (x : ℕ) (old : Row) : e ≠ .change x (.delete old) := by
  rintro rfl
  exact h

variable {steps : List (MirroredTable Row Id Time Kind Snapshot × TableEvent Row Time)}

omit [LinearOrder Id] in
/-- Empty tables agree. -/
theorem sound_empty (now : Time) :
    m.Sound (⟨now, [], [], fun _ => none, fun _ => none⟩ :
      MirroredTable Row Id Time Kind Snapshot) :=
  ⟨List.nodup_nil, List.nodup_nil, nofun, nofun, nofun⟩

/-- So do the tables after steps that keep it. -/
theorem Run.agrees (h : m.Run steps st) (hc : ∀ p ∈ steps, m.Clear p.1 p.2) :
    m.Sound st ∧ m.Agrees st := by
  induction h with
  | nil now => exact ⟨sound_empty now, (sound_empty now).agrees_iff.2 ⟨nofun, nofun⟩⟩
  | snoc hrun he ih =>
    obtain ⟨hsound, hagrees⟩ := ih fun p hp => hc p (List.mem_append_left _ hp)
    have hclear := hc _ (List.mem_append_right _ (List.mem_singleton.2 rfl))
    exact ⟨hsound.step he hclear.not_delete, (hsound.agrees_step_iff hagrees he).2 hclear⟩

/-- All along a run, what is read back agrees with the table if and only if every step is
    one of those that keep it so. -/
theorem agrees_iff_clear (h : m.Run steps st) :
    ((∀ p ∈ steps, m.Agrees p.1) ∧ m.Agrees st) ↔ ∀ p ∈ steps, m.Clear p.1 p.2 := by
  induction h with
  | nil now =>
    exact iff_of_true ⟨nofun, (sound_empty now).agrees_iff.2 ⟨nofun, nofun⟩⟩ nofun
  | @snoc steps st st' e hrun he ih =>
    simp only [List.mem_append, List.mem_singleton, or_imp, forall_and, forall_eq]
    rw [← ih, and_assoc]
    constructor
    · rintro ⟨hbefore, hst, hst'⟩
      have hsound := (hrun.agrees (ih.1 ⟨hbefore, hst⟩)).1
      exact ⟨⟨hbefore, hst⟩, (hsound.agrees_step_iff hst he).1 hst'⟩
    · rintro ⟨⟨hbefore, hst⟩, hclear⟩
      have hsound := (hrun.agrees (ih.1 ⟨hbefore, hst⟩)).1
      exact ⟨hbefore, hst, (hsound.agrees_step_iff hst he).2 hclear⟩

end Mirror

end AslanCore
