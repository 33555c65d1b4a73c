import AslanCore.Outbox.Outline

/-!
# What the steps of the drainers keep

Every command, issued with what its process knows, keeps the invariant
(`invariant_step`), and what the others rely on (`rely_step`).

A command is *quiet* when it changes neither the streams nor what is committed
(`exec_quiet`): all of them but `XADD`, `COMMIT` and the transaction of a producer. What
is to be said about a quiet command is which rows it locks, writes (`exec_does`) and
releases (`exec_release`).
-/

set_option linter.unusedSectionVars false

namespace AslanCore

namespace Outbox

open Database

variable {P Payload : Type} [DecidableEq P] {env : Env Payload} {M : Mode P Payload}
  {p q : P} {s s' : World P Payload} {c : Cmd Payload} {o : Choice}
  {r : Except Exn (Reply Payload c)} {i : ℕ}

/-! ### The commands -/

theorem World.sql_cases {α : Type} {t : P × Role} {fault : Fault} {x : Except Exn α}
    {stmt : Option (Except Exn (α × Database (P × Role) Key (RowOf Payload)))}
    (h : s.sql t fault stmt = some (x, s')) :
    s' = { s with db := s'.db } ∧ s.db.statement t fault .sql stmt = some (x, s'.db) := by
  obtain ⟨⟨x', db⟩, hx, hs⟩ := Option.map_eq_some_iff.1 h
  cases hs
  exact ⟨rfl, hx⟩

theorem World.redis_cases {α : Type} {fault : Fault} {a x : Except Exn α} {s₁ : World P Payload}
    (h : s.redis fault a s₁ = some (x, s')) :
    (x = a ∧ s' = s₁ ∧ fault = .none) ∨
      x = .error (.redis false) ∧ fault ≠ .none ∧ (s' = s ∨ s' = s₁) := by
  cases fault <;> cases h
  · exact .inl ⟨rfl, rfl, rfl⟩
  · exact .inr ⟨rfl, by decide, .inl rfl⟩
  · exact .inr ⟨rfl, by decide, .inr rfl⟩

/-- The rows returned are those of the identifiers, which are locked, and nothing else
    changes. -/
theorem World.lockRows_spec {t : P × Role} {is : List ℕ} {rows : List (Row Payload)}
    {db db' : Database (P × Role) Key (RowOf Payload)}
    (h : World.lockRows t is db = some (rows, db')) :
    db'.committed = db.committed ∧ db'.pending = db.pending ∧ db'.status = db.status ∧
      db'.saved = db.saved ∧
      (∀ k, k ∈ is.map Key.outbox ∨ db.owner k = some t → db'.owner k = some t) ∧
      List.Forall₂ (fun i row => ∃ o, db.view t (.outbox i) = some o ∧ o.toRow = row) is rows := by
  induction is generalizing db rows with
  | nil =>
    cases h
    exact ⟨rfl, rfl, rfl, rfl, fun k hk => hk.resolve_left List.not_mem_nil, .nil⟩
  | cons i is ih =>
    simp only [World.lockRows] at h
    split at h
    · rename_i o db₁ hsel
      obtain ⟨⟨rows', db₂⟩, hrec, heq⟩ := Option.map_eq_some_iff.1 h
      cases heq
      rcases selectForUpdate_cases hsel with ⟨hn, _⟩ | ⟨w, hw, hview, hl, rfl⟩
      · cases hn
      · cases hw
        obtain ⟨h₁, h₂, h₃, h₄, h₅, h₆⟩ := ih hrec
        refine ⟨h₁, h₂, h₃, h₄, fun k hk => h₅ k ?_, .cons ⟨o, hview, rfl⟩ h₆⟩
        rw [owner_lockRow]
        by_cases hki : k = .outbox i
        · subst hki
          exact .inr (Function.update_self _ _ _)
        · rw [Function.update_of_ne hki]
          exact hk.imp_left fun hm => (List.mem_cons.1 hm).resolve_left hki
    · cases h

theorem World.lockRows_does {t : P × Role} {is : List ℕ} {rows : List (Row Payload)}
    {db db' : Database (P × Role) Key (RowOf Payload)} {L F : Key → Prop}
    {W : (k : Key) → Option (RowOf Payload k) → Prop}
    (h : World.lockRows t is db = some (rows, db')) (hL : ∀ i ∈ is, L (.outbox i)) :
    Does t L F W db db' := by
  induction is generalizing db rows with
  | nil =>
    cases h
    exact .refl _
  | cons i is ih =>
    simp only [World.lockRows] at h
    split at h
    · rename_i o db₁ hsel
      obtain ⟨⟨rows', db₂⟩, hrec, heq⟩ := Option.map_eq_some_iff.1 h
      cases heq
      exact (selectForUpdate_does hsel fun _ => hL i List.mem_cons_self).trans
        (ih hrec fun j hj => hL j (List.mem_cons_of_mem _ hj))
    · cases h

/-- A command that changes neither the streams nor what is committed. -/
def Cmd.Quiet : Cmd Payload → Prop
  | .xadd _ _ _ | .commit _ | .publish _ => False
  | _ => True

/-- A statement that does not end its transaction does not change what is committed. -/
theorem World.sql_committed {α : Type} {t : P × Role} {fault : Fault} {x : Except Exn α}
    {stmt : Option (Except Exn (α × Database (P × Role) Key (RowOf Payload)))}
    (h : s.sql t fault stmt = some (x, s'))
    (hs : ∀ a db', stmt = some (.ok (a, db')) → db'.committed = s.db.committed) :
    s'.streams = s.streams ∧ s'.db.committed = s.db.committed ∧
      s'.nextOutboxId = s.nextOutboxId := by
  obtain ⟨heq, hst⟩ := World.sql_cases h
  refine ⟨by rw [heq], ?_, by rw [heq]⟩
  rcases statement_cases hst with ⟨_, _, ⟨_, h⟩ | ⟨_, _, h | h⟩⟩ | ⟨a, _, _, _, ha⟩
  · rw [h]
  · rw [h, committed_fail]
  · rw [h, committed_abort]
  · exact hs a _ ha

theorem insertNew_committed {t : P × Role} {k : Key} {v : RowOf Payload k} {b : Bool}
    {db db' : Database (P × Role) Key (RowOf Payload)}
    (h : db.insertNew t k v = some (b, db')) : db'.committed = db.committed := by
  rcases insertNew_cases h with ⟨_, rfl, _⟩ | ⟨_, _, _, rfl⟩ <;> rfl

theorem updateRow_committed {t : P × Role} {k : Key} {w : RowOf Payload k → Bool}
    {f : RowOf Payload k → RowOf Payload k} {b : Bool}
    {db db' : Database (P × Role) Key (RowOf Payload)}
    (h : db.updateRow t k w f = some (b, db')) : db'.committed = db.committed := by
  rcases updateRow_cases h with ⟨_, rfl, _⟩ | ⟨_, _, _, _, _, rfl⟩ <;> rfl

theorem exec_quiet (hc : c.Quiet) (h : World.exec p c o s = some (r, s')) :
    s'.streams = s.streams ∧ s'.db.committed = s.db.committed ∧
      s'.nextOutboxId = s.nextOutboxId := by
  cases c with
  | xadd | commit | publish => exact hc.elim
  | now =>
    cases h
    exact ⟨rfl, rfl, rfl⟩
  | selectPending n =>
    refine World.sql_committed h fun a db' ha => ?_
    split_ifs at ha
    obtain ⟨⟨rows, db₁⟩, hl, heq⟩ := Option.map_eq_some_iff.1 ha
    cases heq
    exact (World.lockRows_spec hl).1
  | beginNested | releaseSavepoint | countPending =>
    refine World.sql_committed h fun a db' ha => ?_
    cases ha
    rfl
  | selectAttempts i =>
    refine World.sql_committed h fun a db' ha => ?_
    split at ha <;> cases ha
    rfl
  | insertIndex ρ e n rid =>
    refine World.sql_committed h fun a db' ha => ?_
    obtain ⟨⟨b, db₁⟩, hx, heq⟩ := Option.map_eq_some_iff.1 ha
    cases heq
    exact insertNew_committed hx
  | insertAudit e =>
    obtain ⟨⟨x, s₁⟩, hx, heq⟩ := Option.map_eq_some_iff.1 h
    cases heq
    have hq := World.sql_committed hx fun a db' ha => by
      obtain ⟨⟨b, db₁⟩, hx, heq⟩ := Option.map_eq_some_iff.1 ha
      cases heq
      exact insertNew_committed hx
    exact hq
  | markPublished rid i | recordFailure err i =>
    refine World.sql_committed h fun a db' ha => ?_
    obtain ⟨⟨b, db₁⟩, hx, heq⟩ := Option.map_eq_some_iff.1 ha
    cases heq
    exact updateRow_committed hx
  | rollbackToSavepoint =>
    cases h
    refine ⟨rfl, ?_, rfl⟩
    have hcases : s.db.rollbackTo (p, Role.batch) o.fault Exn.sql = (_, _) := rfl
    rcases rollbackTo_cases hcases with
      ⟨_, _, h⟩ | ⟨_, ⟨_, h⟩ | ⟨_, _, h⟩⟩ <;> exact congrArg (·.committed) h
  | close ρ =>
    cases h
    have hcases : s.db.close (p, ρ) o.fault Exn.sql = (_, _) := rfl
    exact ⟨rfl, congrArg (·.committed) (close_cases hcases).1, rfl⟩
  | xrevrange n | xrange n lo hi count =>
    rcases World.redis_cases h with ⟨_, rfl, _⟩ | ⟨_, _, rfl | rfl⟩ <;> exact ⟨rfl, rfl, rfl⟩
  | xinfoStream n =>
    simp only [World.exec] at h
    split at h <;> rcases World.redis_cases h with ⟨_, rfl, _⟩ | ⟨_, _, rfl | rfl⟩ <;>
      exact ⟨rfl, rfl, rfl⟩

/-- The session in which a command is executed. -/
def Cmd.role : Cmd Payload → Role
  | .insertIndex ρ _ _ _ | .commit ρ | .close ρ => ρ
  | .countPending => .gauge
  | _ => .batch

/-- The rows that a command may lock: of the outbox, only pending ones, in a batch. -/
def World.Lockable (s : World P Payload) (ρ : Role) (k : Key) : Prop :=
  ∀ i, k = .outbox i → ρ = .batch ∧
    ∃ o, s.db.committed (.outbox i) = some o ∧ o.publishedAt = none

theorem World.sql_does {α : Type} {t : P × Role} {fault : Fault} {x : Except Exn α}
    {stmt : Option (Except Exn (α × Database (P × Role) Key (RowOf Payload)))}
    {L F : Key → Prop} {W : (k : Key) → Option (RowOf Payload k) → Prop}
    (h : s.sql t fault stmt = some (x, s'))
    (hs : ∀ a db', stmt = some (.ok (a, db')) → Does t L F W s.db db') :
    Does t L F W s.db s'.db :=
  statement_does (World.sql_cases h).2 fun a ha => hs a _ ha

/-- What a version of a row says of it is said of the row that is written over it. -/
theorem World.RowOk.update {w w' : OutboxRow Payload} (h : s.RowOk env M (.outbox i) (some w))
    (hrow : w'.toRow = w.toRow)
    (hpub : w'.publishedAt.isSome → s.Delivered env w' ∧ (M.steady → M.healthy w'.eventId)) :
    s.RowOk env M (.outbox i) (some w') := by
  obtain ⟨hid, hlt, hc, _⟩ := h
  exact ⟨by rw [hrow]; exact hid, hlt, by rwa [hrow], hpub⟩

/-- The committed row of a row that is seen has the same columns. -/
theorem Invariant.exists_view (hi : Invariant env M s) {o : OutboxRow Payload} (t : P × Role)
    (ho : s.db.committed (.outbox i) = some o) :
    ∃ v, s.db.view t (.outbox i) = some v ∧ v.toRow = o.toRow := by
  have hsome : (s.db.committed (.outbox i)).isSome := by
    rw [ho]
    rfl
  obtain ⟨v, hv⟩ := Option.isSome_iff_exists.1
    (All.isSome_view hi.rows (by simp [World.RowOk]) hsome t)
  obtain ⟨c, hc, hrow⟩ := (hi.rows _ _ (version_of_view hv)).2.2.1
  cases Option.some.inj (ho.symm.trans hc)
  exact ⟨v, hv, hrow.symm⟩

/-- A command, issued with what its process knows, only locks pending rows, and only
    writes what may be written. -/
theorem exec_does (hi : Invariant env M s) (hk : Know env M p c s) (hc : ∀ row, c ≠ .publish row)
    (h : World.exec p c o s = some (r, s')) :
    Does (p, c.role) (s.Lockable c.role) (fun _ => False) (s.RowOk env M) s.db s'.db := by
  cases c with
  | publish row => exact absurd rfl (hc row)
  | now =>
    cases h
    exact .refl _
  | selectPending n =>
    refine World.sql_does h fun a db' ha => ?_
    split_ifs at ha with htop
    obtain ⟨⟨rows, db₁⟩, hl, heq⟩ := Option.map_eq_some_iff.1 ha
    cases heq
    refine World.lockRows_does hl fun i hmem j hj => ⟨rfl, ?_⟩
    cases hj
    have hav := htop.subset i hmem
    simp only [World.available, List.mem_filter, decide_eq_true_eq, World.Pending,
      view_eq_committed (hk.owner _), Option.any_eq_true] at hav
    obtain ⟨o, ho, hpub⟩ := hav.2.1
    exact ⟨o, ho, Option.isNone_iff_eq_none.1 hpub⟩
  | beginNested =>
    refine World.sql_does h fun a db' ha => ?_
    cases ha
    exact .savepoint _
  | releaseSavepoint =>
    refine World.sql_does h fun a db' ha => ?_
    cases ha
    exact .release _
  | countPending =>
    refine World.sql_does h fun a db' ha => ?_
    cases ha
    exact .refl _
  | selectAttempts i =>
    refine World.sql_does h fun a db' ha => ?_
    split at ha <;> cases ha
    exact .refl _
  | insertIndex ρ e n rid =>
    refine World.sql_does h fun a db' ha => ?_
    obtain ⟨⟨b, db₁⟩, hx, heq⟩ := Option.map_eq_some_iff.1 ha
    cases heq
    exact insertNew_does hx (fun _ hj => by cases hj) trivial
  | insertAudit e =>
    obtain ⟨⟨x, s₁⟩, hx, heq⟩ := Option.map_eq_some_iff.1 h
    cases heq
    have hd : Does (p, .batch) (s.Lockable .batch) (fun _ => False) (s.RowOk env M) s.db s₁.db :=
        World.sql_does hx fun a db' ha => by
      obtain ⟨⟨b, db₁⟩, hx, heq⟩ := Option.map_eq_some_iff.1 ha
      cases heq
      exact insertNew_does hx (fun _ hj => by cases hj) trivial
    exact hd
  | markPublished rid i =>
    obtain ⟨_, hown, c, hcom, hheal, hmem⟩ := hk
    refine World.sql_does h fun a db' ha => ?_
    obtain ⟨⟨b, db₁⟩, hx, heq⟩ := Option.map_eq_some_iff.1 ha
    cases heq
    refine updateRow_does hx (fun j hj => by cases hj; exact hi.locked i _ hown) fun v hv _ => ?_
    have hok := hi.rows _ _ (version_of_view hv)
    obtain ⟨c', hcom', hrow⟩ := hok.2.2.1
    cases Option.some.inj (hcom.symm.trans hcom')
    refine hok.update rfl fun _ => ⟨⟨rid, rfl, by rwa [← hrow]⟩, fun hs => ?_⟩
    rw [← hrow]
    exact hheal hs
  | recordFailure err i =>
    refine World.sql_does h fun a db' ha => ?_
    obtain ⟨⟨b, db₁⟩, hx, heq⟩ := Option.map_eq_some_iff.1 ha
    cases heq
    refine updateRow_does hx (fun j hj => by cases hj; exact hi.locked i _ hk.2) fun v hv _ => ?_
    have hok := hi.rows _ _ (version_of_view hv)
    exact hok.update rfl hok.2.2.2
  | rollbackToSavepoint =>
    cases h
    exact rollbackTo_does rfl
  | commit ρ =>
    cases h
    exact commit_does rfl
  | close ρ =>
    cases h
    exact close_does rfl
  | xadd n f m =>
    simp only [World.exec] at h
    split_ifs at h
    rcases World.redis_cases h with ⟨_, rfl, _⟩ | ⟨_, _, rfl | rfl⟩ <;> exact .refl _
  | xrevrange n | xrange n lo hi count =>
    rcases World.redis_cases h with ⟨_, rfl, _⟩ | ⟨_, _, rfl | rfl⟩ <;> exact .refl _
  | xinfoStream n =>
    simp only [World.exec] at h
    split at h <;> rcases World.redis_cases h with ⟨_, rfl, _⟩ | ⟨_, _, rfl | rfl⟩ <;>
      exact .refl _

/-- A statement that does not fail releases no lock. -/
theorem World.sql_owner {α : Type} {t : P × Role} {fault : Fault} {x : Except Exn α} {k : Key}
    {stmt : Option (Except Exn (α × Database (P × Role) Key (RowOf Payload)))}
    (h : s.sql t fault stmt = some (x, s')) (hf : fault = .none)
    (he : ∀ e, stmt ≠ some (.error e))
    (hs : ∀ a db', stmt = some (.ok (a, db')) → db'.owner k = some t)
    (hk : s.db.owner k = some t) : s'.db.owner k = some t := by
  rcases statement_cases (World.sql_cases h).2 with
    ⟨e, _, ⟨_, hdb⟩ | ⟨_, hst, _⟩⟩ | ⟨a, _, _, _, ha⟩
  · rwa [hdb]
  · exact absurd (hst hf) (he e)
  · exact hs a _ ha

theorem owner_of_insertNew {t : P × Role} {k k' : Key} {v : RowOf Payload k} {b : Bool}
    {db db' : Database (P × Role) Key (RowOf Payload)}
    (h : db.insertNew t k v = some (b, db')) (hk : db.owner k' = some t) :
    db'.owner k' = some t := by
  rcases insertNew_cases h with ⟨_, rfl, _⟩ | ⟨_, _, _, rfl⟩
  · exact hk
  · rw [owner_put]
    by_cases hkk : k' = k
    · rw [hkk, Function.update_self]
    · rwa [Function.update_of_ne hkk]

theorem owner_of_updateRow {t : P × Role} {k k' : Key} {w : RowOf Payload k → Bool}
    {f : RowOf Payload k → RowOf Payload k} {b : Bool}
    {db db' : Database (P × Role) Key (RowOf Payload)}
    (h : db.updateRow t k w f = some (b, db')) (hk : db.owner k' = some t) :
    db'.owner k' = some t := by
  rcases updateRow_cases h with ⟨_, rfl, _⟩ | ⟨_, _, _, _, _, rfl⟩
  · exact hk
  · rw [owner_put]
    by_cases hkk : k' = k
    · rw [hkk, Function.update_self]
    · rwa [Function.update_of_ne hkk]

theorem Mode.fault_none (hst : M.steady) (hg : M.guard.step p c o s)
    (hc : ∀ n f m, c ≠ .xadd n f m) : o.fault = .none := by
  by_contra hf
  obtain ⟨n, f, m, e, hx, _⟩ := (M.steady_step hst p c o s hg).1 hf
  exact hc n f m hx

/-- In steady runs, quiet commands release no row. In lossless runs, the lookup table
    has every entry of the rows they release. -/
theorem exec_release (hi : Invariant env M s) (hk : Know env M p c s)
    (hg : M.guard.step p c o s) (hq : c.Quiet) (h : World.exec p c o s = some (r, s'))
    (hown : s.Owns p i) (hrel : ¬s'.Owns p i) : ¬M.steady ∧ (M.lossless → s.Covered p) := by
  by_cases hrole : c.role = .batch
  swap
  · -- The batch finds its locks unchanged by the other sessions of its process.
    have hd := exec_does hi hk (fun row hc => by subst hc; exact hq) h
    have ht : (p, Role.batch) ≠ (p, c.role) := fun he => hrole (congrArg Prod.snd he).symm
    exact absurd (((hd.frame ht).owner _).2 hown) hrel
  have hsteady : (o.fault = .none → s'.Owns p i) → ¬M.steady := fun hs hst =>
    hrel (hs (M.fault_none hst hg fun n f m hx => by subst hx; exact hq))
  cases c with
  | xadd | commit | publish => exact hq.elim
  | now =>
    cases h
    exact absurd hown hrel
  | selectPending n => exact absurd hown (hk.owner _)
  | beginNested =>
    refine ⟨hsteady fun hf => World.sql_owner h hf (by simp) (fun a db' ha => ?_) hown, hk⟩
    cases ha
    exact hown
  | releaseSavepoint =>
    refine ⟨hsteady fun hf => World.sql_owner h hf (by simp) (fun a db' ha => ?_) hown, hk⟩
    cases ha
    exact hown
  | countPending => cases hrole
  | selectAttempts j =>
    obtain ⟨_, w, hw, _⟩ := hi.locked j _ hk.2
    obtain ⟨v, hv, _⟩ := hi.exists_view (p, .batch) hw
    refine ⟨hsteady fun hf => World.sql_owner h hf (fun e => ?_) (fun a db' ha => ?_) hown, hk.1⟩
    · rw [hv]
      simp
    · rw [hv] at ha
      cases ha
      exact hown
  | insertIndex ρ e n rid =>
    cases hrole
    refine ⟨hsteady fun hf => World.sql_owner h hf (fun e' => ?_) (fun a db' ha => ?_) hown,
      hk.1 rfl⟩
    · cases s.db.insertNew (p, .batch) (.index e n rid) () <;> simp
    · obtain ⟨⟨b, db₁⟩, hx, heq⟩ := Option.map_eq_some_iff.1 ha
      cases heq
      exact owner_of_insertNew hx hown
  | insertAudit e =>
    obtain ⟨⟨x, s₁⟩, hx, heq⟩ := Option.map_eq_some_iff.1 h
    cases heq
    refine ⟨hsteady fun hf => ?_, hk.1⟩
    have hs := World.sql_owner hx hf (fun e' => ?_) (fun a db' ha => ?_) hown
    · exact hs
    · cases s.db.insertNew (p, .batch) (.audit s.nextAuditId) e <;> simp
    · obtain ⟨⟨b, db₁⟩, hx, heq⟩ := Option.map_eq_some_iff.1 ha
      cases heq
      exact owner_of_insertNew hx hown
  | markPublished rid j | recordFailure err j =>
    refine ⟨hsteady fun hf => World.sql_owner h hf (fun e => ?_) (fun a db' ha => ?_) hown, hk.1⟩
    · generalize s.db.updateRow (p, .batch) (.outbox j) _ _ = x
      cases x <;> simp
    · obtain ⟨⟨b, db₁⟩, hx, heq⟩ := Option.map_eq_some_iff.1 ha
      cases heq
      exact owner_of_updateRow hx hown
  | rollbackToSavepoint =>
    -- Without a failure, only the locks taken since the savepoint are released.
    have hkeep : o.fault = .none → s'.Owns p i := by
      intro hf
      cases h
      have hcases : s.db.rollbackTo (p, Role.batch) o.fault Exn.sql = (_, _) := rfl
      rcases rollbackTo_cases hcases with ⟨_, hf', _⟩ | ⟨_, ⟨_, heq⟩ | ⟨sp, hsp, heq⟩⟩
      · exact absurd hf hf'
      · rw [World.Owns, heq]
        exact hown
      · have hs := hk sp hsp i hown
        rw [World.Owns, heq]
        simp only [release, undoTo, hs]
        rw [if_neg (by simp)]
        exact hown
    exact ⟨hsteady hkeep, fun hl => (M.lossless_step hl p _ o s hg).resolve_right
      fun hf => hrel (hkeep hf)⟩
  | close ρ =>
    cases hrole
    exact ⟨fun hst => hk.2 hst i hown, hk.1⟩
  | xrevrange n | xrange n lo hi count =>
    rcases World.redis_cases h with ⟨_, rfl, _⟩ | ⟨_, _, rfl | rfl⟩ <;> exact absurd hown hrel
  | xinfoStream n =>
    simp only [World.exec] at h
    split at h <;> rcases World.redis_cases h with ⟨_, rfl, _⟩ | ⟨_, _, rfl | rfl⟩ <;>
      exact absurd hown hrel

/-! ### What every step keeps -/

theorem Grows.refl (s : World P Payload) : Grows s s :=
  ⟨fun _ o h => ⟨o, h, rfl⟩, fun _ _ _ h => h, fun _ => List.Subset.refl _, le_rfl⟩

theorem Grows.trans {s'' : World P Payload} (h : Grows s s') (h' : Grows s' s'') : Grows s s'' where
  rows i o ho := by
    obtain ⟨o', ho', hr⟩ := h.rows i o ho
    obtain ⟨o'', ho'', hr'⟩ := h'.rows i o' ho'
    exact ⟨o'', ho'', hr'.trans hr⟩
  index e n rid hx := h'.index e n rid (h.index e n rid hx)
  appended n _ he := h'.appended n (h.appended n he)
  next := h.next.trans h'.next

/-- What is said of the versions of the rows stays true. -/
theorem Grows.rowOk (h : Grows s s') {k : Key} {w : Option (RowOf Payload k)}
    (hw : s.RowOk env M k w) : s'.RowOk env M k w := by
  match k, w, hw with
  | _, none, hw => exact hw.elim
  | .outbox i, some o, ⟨hid, hlt, ⟨c, hc, hrow⟩, hpub⟩ =>
    obtain ⟨c', hc', hrow'⟩ := h.rows i c hc
    refine ⟨hid, hlt.trans_le h.next, ⟨c', hc', hrow'.trans hrow⟩, fun hp => ?_⟩
    obtain ⟨⟨rid, hr, hmem⟩, hheal⟩ := hpub hp
    exact ⟨⟨rid, hr, h.appended _ hmem⟩, hheal⟩
  | .index _ _ _, some _, _ => trivial
  | .audit _, some _, _ => trivial

theorem Grows.of_committed (hst : s'.streams = s.streams)
    (hcom : s'.db.committed = s.db.committed) (hnext : s'.nextOutboxId = s.nextOutboxId) :
    Grows s s' :=
  ⟨fun i o ho => ⟨o, by rwa [hcom], rfl⟩, fun _ _ _ hx => by rwa [hcom], fun n => by rw [hst]; exact fun _ h => h,
    hnext.ge⟩

theorem entriesOf_congr (h : s'.streams = s.streams) (row : Row Payload) :
    s'.entriesOf row = s.entriesOf row := by
  rw [World.entriesOf, World.entriesOf, h]

/-- The entries of a row stay in the lookup table. -/
theorem Grows.settled (h : Grows s s') {row : Row Payload}
    (hent : s'.entriesOf row = s.entriesOf row) (hs : s.Settled row) : s'.Settled row :=
  fun e he => h.index _ _ _ (hs e (hent ▸ he))

/-- What a transaction commits keeps the columns of the rows. -/
theorem Invariant.grows_commitTx (hi : Invariant env M s) (t : P × Role) (st : Status) :
    Grows s { s with db := s.db.commitTx t st } where
  rows i o ho := hi.exists_view t ho
  index e n rid hx := All.isSome_view hi.rows (by simp [World.RowOk]) hx t
  appended _ := List.Subset.refl _
  next := le_rfl

/-! ### The invariant -/

/-- A command that only releases rows keeps the invariant. -/
theorem Invariant.of_release {ρ : Role} (hi : Invariant env M s) (hst : s'.streams = s.streams)
    (hcom : s'.db.committed = s.db.committed) (hnext : s'.nextOutboxId = s.nextOutboxId)
    (hd : Does (p, ρ) (s.Lockable ρ) (fun _ => False) (s.RowOk env M) s.db s'.db)
    (hrel : ∀ i, s.Owns p i → ¬s'.Owns p i →
      (M.steady → s.Unappended p) ∧ (M.lossless → s.Covered p)) :
    Invariant env M s' where
  rows := (hd.all hi.rows fun _ _ h => h).mono fun _ _ => (Grows.of_committed hst hcom hnext).rowOk
  refs k t ht := by
    rcases hd.refs_or ht with h | ⟨_, h⟩
    · exact hi.refs k t h
    · exact h
  unique i j a b ha hb := hi.unique i j a b (by rwa [← hcom]) (by rwa [← hcom])
  origin n e he := by
    rw [hst] at he
    rw [hcom]
    exact hi.origin n e he
  locked i t ht := by
    rw [hcom]
    rcases hd.owner_or ht with h | ⟨rfl, hl⟩
    · exact hi.locked i t h
    · exact hl i rfl
  once hcl i o ho := by
    rw [hcom] at ho
    rw [entriesOf_congr hst]
    exact hi.once hcl i o ho
  free i o ho hown := by
    have hgrow := Grows.of_committed hst hcom hnext
    rw [hcom] at ho
    rw [entriesOf_congr hst]
    have hsame := entriesOf_congr hst o.toRow
    rcases hd.owner_of_none hown with h | h
    · exact ⟨(hi.free i o ho h).1, fun hl => hgrow.settled hsame ((hi.free i o ho h).2 hl)⟩
    · obtain ⟨hρ, _⟩ := hi.locked i _ h
      cases hρ
      have hlt := (hi.rows _ _ (.committed ho)).2.1
      obtain ⟨hst, hcov⟩ := hrel i h fun h' => by simp [World.Owns, hown] at h'
      exact ⟨fun hs _ _ => hst hs i hlt h o ho, fun hl =>
        hgrow.settled hsame (hcov hl i hlt h o ho)⟩

/-- An entry is appended, or nothing happens. -/
theorem exec_xadd {n : String} {f : Fields} {m : ℕ} {x : Except Exn StreamId}
    (h : World.exec p (.xadd n f m) o s = some (x, s')) :
    (x = .error (.redis false) ∧ o.fault ≠ .none ∧ s' = s) ∨
      ((x = .ok o.id ∧ o.fault = .none ∨ x = .error (.redis false) ∧ o.fault ≠ .none) ∧
        s'.db = s.db ∧ s'.nextOutboxId = s.nextOutboxId ∧ (s.streams.get n).lastId < o.id ∧
        (∀ n' ≠ n, s'.streams.get n' = s.streams.get n') ∧
        (s'.streams.get n).appended = (s.streams.get n).appended ++ [(o.id, f)]) := by
  simp only [World.exec] at h
  split_ifs at h with hid
  rcases World.redis_cases h with ⟨rfl, rfl, hf⟩ | ⟨rfl, hf, rfl | rfl⟩
  · exact .inr ⟨.inl ⟨rfl, hf⟩, rfl, rfl, hid, fun n' hn => Streams.get_set_of_ne hn,
      by rw [Streams.get_set_self]; rfl⟩
  · exact .inl ⟨rfl, hf, rfl⟩
  · exact .inr ⟨.inr ⟨rfl, hf⟩, rfl, rfl, hid, fun n' hn => Streams.get_set_of_ne hn,
      by rw [Streams.get_set_self]; rfl⟩

@[simp] theorem lookup_xaddFields (row : Row Payload) :
    (xaddFields env row).lookup "event_id" = some row.eventId := rfl

section Xadd

variable {n : String} {f : Fields} {rid : StreamId}
  (hother : ∀ n' ≠ n, s'.streams.get n' = s.streams.get n')
  (happ : (s'.streams.get n).appended = (s.streams.get n).appended ++ [(rid, f)])

include hother happ

/-- The entry is one of the row it was appended for. -/
theorem entriesOf_xadd_self {row : Row Payload} (hn : n = row.streamName)
    (hf : f = xaddFields env row) : s'.entriesOf row = s.entriesOf row ++ [(rid, f)] := by
  subst hn hf
  simp [World.entriesOf, happ]

/-- The entry is none of the other rows. -/
theorem entriesOf_xadd_of_ne {row row' : Row Payload} (hf : f = xaddFields env row)
    (hne : row'.eventId ≠ row.eventId) : s'.entriesOf row' = s.entriesOf row' := by
  by_cases hn : row'.streamName = n
  · subst hn hf
    simp [World.entriesOf, happ, Ne.symm hne]
  · rw [World.entriesOf, World.entriesOf, hother _ hn]

theorem appended_subset_xadd (n' : String) :
    (s.streams.get n').appended ⊆ (s'.streams.get n').appended := by
  intro e he
  by_cases hn : n' = n
  · subst hn
    rw [happ]
    exact List.mem_append_left _ he
  · rwa [hother _ hn]

end Xadd

/-- The event of a row identifies it. -/
theorem Invariant.ne_eventId (hi : Invariant env M s) {j : ℕ} {a b : OutboxRow Payload}
    (ha : s.db.committed (.outbox i) = some a) (hb : s.db.committed (.outbox j) = some b)
    (hne : i ≠ j) : a.eventId ≠ b.eventId :=
  fun h => hne (hi.unique i j a b ha hb h)

/-- The entry appended for a row locked by `p` keeps the invariant. -/
theorem Invariant.xadd (hi : Invariant env M s) {n : String} {f : Fields} {m : ℕ}
    {x : Except Exn StreamId} (hk : Know env M p (.xadd n f m) s)
    (h : World.exec p (.xadd n f m) o s = some (x, s')) : Invariant env M s' := by
  rcases exec_xadd h with ⟨_, _, rfl⟩ | ⟨_, hdb, hnext, _, hother, happ⟩
  · exact hi
  obtain ⟨j, w, hown, hw, hn, hf, hcl⟩ := hk
  have hsub := appended_subset_xadd hother happ
  have hgrow : Grows s s' := ⟨fun i o ho => ⟨o, by rwa [hdb], rfl⟩, fun _ _ _ hx => by rwa [hdb],
    hsub, hnext.ge⟩
  have hsame : ∀ i o, s.db.committed (.outbox i) = some o → i ≠ j →
      s'.entriesOf o.toRow = s.entriesOf o.toRow := fun i o ho hij =>
    entriesOf_xadd_of_ne hother happ hf (hi.ne_eventId ho hw hij)
  refine ⟨?_, by rw [hdb]; exact hi.refs, ?_, ?_, ?_, fun hs i o ho hh => ?_,
    fun i o ho hfree => ?_⟩
  · rw [hdb]
    exact hi.rows.mono fun _ _ => hgrow.rowOk
  · rw [hdb]
    exact hi.unique
  · intro n' e he
    rw [hdb]
    by_cases hnn : n' = n
    · subst hnn
      rw [happ, List.mem_append, List.mem_singleton] at he
      rcases he with he | rfl
      · exact hi.origin _ e he
      · exact ⟨j, w, hw, hn.symm, hf⟩
    · rw [hother _ hnn] at he
      exact hi.origin _ e he
  · rw [hdb]
    exact hi.locked
  · rw [hdb] at ho
    by_cases hij : i = j
    · subst hij
      cases Option.some.inj (hw.symm.trans ho)
      rw [entriesOf_xadd_self hother happ hn hf, hcl hs hh]
      exact ⟨le_rfl, fun _ => rfl⟩
    · rw [hsame i o ho hij]
      exact hi.once hs i o ho hh
  · rw [hdb] at ho hfree
    have hij : i ≠ j := by
      rintro rfl
      rw [World.Owns, hfree] at hown
      cases hown
    rw [hsame i o ho hij]
    exact ⟨(hi.free i o ho hfree).1, fun hl =>
      hgrow.settled (hsame i o ho hij) ((hi.free i o ho hfree).2 hl)⟩

/-- A transaction that commits keeps the invariant, if its healthy rows are published, each
    with one entry, in steady runs, and its rows have their entries in the lookup table, in
    lossless ones. -/
theorem Invariant.commitTx (hi : Invariant env M s) {ρ : Role} {st : Status}
    (hk : ρ = .batch → (M.lossless → s.Covered p) ∧ (M.steady → Finished M p s)) :
    Invariant env M { s with db := s.db.commitTx (p, ρ) st } := by
  have hgrow := hi.grows_commitTx (p, ρ) st
  have hrow : ∀ i v, s.db.view (p, ρ) (.outbox i) = some v →
      ∃ o, s.db.committed (.outbox i) = some o ∧ o.toRow = v.toRow := fun i v hv =>
    (hi.rows _ _ (version_of_view hv)).2.2.1
  -- A row that is not one of the batch is committed as it was.
  have hview : ∀ i, ¬(ρ = .batch ∧ s.Owns p i) →
      s.db.view (p, ρ) (.outbox i) = s.db.committed (.outbox i) := by
    intro i hn
    refine view_eq_committed fun ho => hn ?_
    have hρ := (hi.locked i _ ho).1
    cases hρ
    exact ⟨rfl, ho⟩
  refine ⟨hi.rows.commitTx.mono fun _ _ => hgrow.rowOk,
    fun k t ht => hi.refs k t (List.mem_filter.1 ht).1, fun i j a b ha hb hab => ?_,
    fun n e he => ?_, fun i t ht => ?_, fun hs i v hv hh => ?_, fun i v hv hfree => ?_⟩
  · obtain ⟨a', ha', hra⟩ := hrow i a ha
    obtain ⟨b', hb', hrb⟩ := hrow j b hb
    refine hi.unique i j a' b' ha' hb' ?_
    rw [hra, hrb]
    exact hab
  · obtain ⟨i, o, ho, hn, hf⟩ := hi.origin n e he
    obtain ⟨v, hv, hr⟩ := hi.exists_view (p, ρ) ho
    exact ⟨i, v, hv, by rw [hr]; exact hn, by rw [hr]; exact hf⟩
  · -- A row still locked is locked by another, and so untouched.
    simp only [Database.commitTx, finish] at ht
    split_ifs at ht with hown
    obtain ⟨hb, o, ho, hpub⟩ := hi.locked i t ht
    have hne : t ≠ (p, ρ) := fun h => hown (h ▸ ht)
    have hf : Frame t s.db (s.db.commitTx (p, ρ) st) := frame_commitTx hne
    exact ⟨hb, o, (hf.committed _ ht).trans ho, hpub⟩
  · change (s.entriesOf v.toRow).length ≤ 1 ∧ (_ → (s.entriesOf v.toRow).length = 1)
    by_cases hown : ρ = .batch ∧ s.Owns p i
    · obtain ⟨rfl, hown⟩ := hown
      obtain ⟨v', hv', hlen⟩ := (hk rfl).2 hs i hown
      cases Option.some.inj (hv'.symm.trans hv)
      exact ⟨(hlen hh).2.le, fun _ => (hlen hh).2⟩
    · exact hi.once hs i v ((hview i hown).symm.trans hv) hh
  · by_cases hown : ρ = .batch ∧ s.Owns p i
    · obtain ⟨rfl, hown⟩ := hown
      obtain ⟨hl, hcl⟩ := hk rfl
      refine ⟨fun hs hh hpub => ?_, fun hls => ?_⟩
      · obtain ⟨v', hv', hp'⟩ := hcl hs i hown
        cases Option.some.inj (hv'.symm.trans hv)
        have := (hp' hh).1
        rw [hpub] at this
        cases this
      · obtain ⟨w, hw, hr⟩ := hrow i v hv
        have hset := hl hls i (hi.rows _ _ (.committed hw)).2.1 hown w hw
        rw [hr] at hset
        exact hgrow.settled rfl hset
    · have hv' := (hview i hown).symm.trans hv
      have hnone : s.db.owner (.outbox i) = none := by
        simp only [Database.commitTx, finish] at hfree
        split_ifs at hfree with ho
        · have hρ := (hi.locked i _ ho).1
          cases hρ
          exact absurd ⟨rfl, ho⟩ hown
        · exact hfree
      obtain ⟨h₁, h₂⟩ := hi.free i v hv' hnone
      exact ⟨h₁, fun hl => hgrow.settled rfl (h₂ hl)⟩

theorem Invariant.commit (hi : Invariant env M s) {ρ : Role} {x : Except Exn Unit}
    (hk : Know env M p (.commit ρ) s) (hg : M.guard.step p (.commit ρ) o s)
    (h : World.exec p (.commit ρ) o s = some (x, s')) : Invariant env M s' := by
  have hk' : ρ = .batch → (M.lossless → s.Covered p) ∧ (M.steady → Finished M p s) := by
    rintro rfl
    exact hk
  have hd := exec_does hi hk (fun _ => by simp) h
  cases h
  have hcases : s.db.commit (p, ρ) o.fault Exn.sql = (_, _) := rfl
  rcases commit_cases hcases with
    ⟨_, ⟨hdb, _⟩ | ⟨hdb, hf⟩ | ⟨hdb, _⟩⟩ | ⟨_, hdb, _⟩
  · rw [hdb]
    exact hi
  · refine hi.of_release rfl (by rw [hdb]; rfl) rfl hd fun i hown hrel => ?_
    have hρ : ρ = .batch := by
      by_contra hne
      have ht : (p, Role.batch) ≠ (p, ρ) := fun he => hne (congrArg Prod.snd he).symm
      exact hrel (((hd.frame ht).owner _).2 hown)
    refine ⟨fun hs => ?_, (hk' hρ).1⟩
    rw [M.fault_none hs hg (by simp)] at hf
    cases hf
  · rw [hdb]
    exact hi.commitTx hk'
  · rw [hdb]
    exact hi.commitTx hk'

/-- A producer inserts a row, whose event is new, or nothing happens. -/
theorem exec_publish {row : Row Payload} {x : Except Exn Unit} (hi : Invariant env M s)
    (hk : Rest p .batch s) (h : World.exec p (.publish row) o s = some (x, s')) :
    s' = s ∨ s.withEvent row.eventId = [] ∧ s'.streams = s.streams ∧
      s'.nextOutboxId = s.nextOutboxId + 1 ∧ s.db.committed (.outbox s.nextOutboxId) = none ∧
      ∃ hl, s'.db = (s.db.put (p, .batch) (.outbox s.nextOutboxId) (some (s.newRow row))
        false hl).commitTx (p, .batch) .ready := by
  by_cases hev : s.withEvent row.eventId ≠ [] ∨ o.fault = .refused
  · simp only [World.exec, if_pos hev] at h
    cases h
    exact .inl rfl
  · simp only [World.exec, if_neg hev] at h
    obtain ⟨⟨b, db⟩, hx, heq⟩ := Option.map_eq_some_iff.1 h
    have hview : s.db.view (p, .batch) (.outbox s.nextOutboxId) =
        s.db.committed (.outbox s.nextOutboxId) := view_eq_committed (hk.owner _)
    have hnone : s.db.committed (.outbox s.nextOutboxId) = none := by
      cases hc : s.db.committed (.outbox s.nextOutboxId) with
      | none => rfl
      | some c => exact absurd (hi.rows _ _ (.committed hc)).2.1 (lt_irrefl _)
    cases heq
    rcases insertNew_cases hx with ⟨_, _, hs⟩ | ⟨_, _, hl, rfl⟩
    · simp [hview, hnone] at hs
    · exact .inr ⟨by simpa using fun h' => hev (.inl h'), rfl, rfl, hnone, hl, rfl⟩

section Publish

variable {row : Row Payload} {hl : s.db.CanLock (p, .batch) (.outbox s.nextOutboxId) false}
  (hk : Rest p .batch s)
  (hdb : s'.db = (s.db.put (p, .batch) (.outbox s.nextOutboxId) (some (s.newRow row))
    false hl).commitTx (p, .batch) .ready)

include hk hdb

theorem committed_publish_self :
    s'.db.committed (.outbox s.nextOutboxId) = some (s.newRow row) := by
  rw [hdb, committed_commitTx, view_put_self]

theorem committed_publish_of_ne {k : Key} (hne : k ≠ .outbox s.nextOutboxId) :
    s'.db.committed k = s.db.committed k := by
  rw [hdb, committed_commitTx, view_put_of_ne hne, view_eq_committed (hk.owner k)]

/-- The producer holds no lock in the end. -/
theorem owner_publish {k : Key} {t : P × Role} :
    s'.db.owner k = some t ↔ k ≠ .outbox s.nextOutboxId ∧ s.db.owner k = some t := by
  rw [hdb]
  simp only [Database.commitTx, finish, owner_put]
  by_cases hne : k = .outbox s.nextOutboxId
  · simp [hne]
  · have := hk.owner k
    simp [hne, this]

end Publish

theorem mem_withEvent {eventId : String} :
    i ∈ s.withEvent eventId ↔
      i < s.nextOutboxId ∧ ∃ o, s.db.committed (.outbox i) = some o ∧ o.eventId = eventId := by
  simp [World.withEvent, Option.any_eq_true]

theorem Invariant.publish (hi : Invariant env M s) {row : Row Payload} {x : Except Exn Unit}
    (hk : Rest p .batch s) (h : World.exec p (.publish row) o s = some (x, s')) :
    Invariant env M s' ∧ Grows s s' ∧ ∀ q ≠ p, Rely q s s' := by
  rcases exec_publish hi hk h with rfl | ⟨hev, hst, hnext, hnone, hl, hdb⟩
  · exact ⟨hi, .refl _, fun q _ => ⟨.refl _, fun _ => .refl _ _, fun _ _ _ _ => rfl⟩⟩
  have hself := committed_publish_self hk hdb
  have hof : ∀ {k : Key}, k ≠ .outbox s.nextOutboxId → s'.db.committed k = s.db.committed k :=
    fun hne => committed_publish_of_ne hk hdb hne
  have hold : ∀ i o, s.db.committed (.outbox i) = some o → s'.db.committed (.outbox i) = some o := by
    intro i o ho
    have hlt := (hi.rows _ _ (.committed ho)).2.1
    rw [hof (by simp [hlt.ne]), ho]
  -- The event of the new row is that of no other row, and so of no entry.
  have hnew : ∀ i o, s.db.committed (.outbox i) = some o → o.eventId ≠ row.eventId := by
    intro i o ho he
    have := mem_withEvent.2 ⟨(hi.rows _ _ (.committed ho)).2.1, o, ho, he⟩
    simp [hev] at this
  have hempty : s'.entriesOf (s.newRow row).toRow = [] := by
    rw [entriesOf_congr hst, World.entriesOf, List.filter_eq_nil_iff]
    intro e he
    obtain ⟨i, o, ho, _, hf⟩ := hi.origin _ e he
    rw [hf, lookup_xaddFields]
    simpa [World.newRow] using hnew i o ho
  have hgrow : Grows s s' := by
    refine ⟨fun i o ho => ⟨o, hold i o ho, rfl⟩, fun e n rid hx => ?_, fun n => ?_, by omega⟩
    · rwa [hof (by simp)]
    · rw [hst]
      exact fun _ he => he
  have hcases : ∀ i o, s'.db.committed (.outbox i) = some o →
      (i = s.nextOutboxId ∧ o = s.newRow row) ∨ s.db.committed (.outbox i) = some o := by
    intro i o ho
    by_cases hin : i = s.nextOutboxId
    · subst hin
      exact .inl ⟨rfl, (Option.some.inj (hself.symm.trans ho)).symm⟩
    · exact .inr ((hof (by simpa using hin)).symm.trans ho)
  refine ⟨⟨?_, fun k t ht => ?_, fun i j a b ha hb hab => ?_, fun n e he => ?_, fun i t ht => ?_,
    fun hs i o ho hh => ?_, fun i o ho hfree => ?_⟩, hgrow, fun q hq => ⟨hgrow, fun ρ => ?_,
      fun _ o _ _ => entriesOf_congr hst o.toRow⟩⟩
  · have hok : s'.RowOk env M (.outbox s.nextOutboxId) (some (s.newRow row)) :=
      ⟨rfl, by omega, ⟨_, hself, rfl⟩, by simp [World.newRow]⟩
    rw [hdb]
    exact ((hi.rows.mono fun _ _ => hgrow.rowOk).put hok).commitTx
  · rw [hdb] at ht
    exact hi.refs k t (List.mem_filter.1 ht).1
  · rcases hcases i a ha with ⟨rfl, rfl⟩ | ha' <;> rcases hcases j b hb with ⟨rfl, rfl⟩ | hb'
    · rfl
    · exact absurd hab.symm (hnew j b hb')
    · exact absurd hab (hnew i a ha')
    · exact hi.unique i j a b ha' hb' hab
  · rw [hst] at he
    obtain ⟨i, o, ho, hn, hf⟩ := hi.origin n e he
    exact ⟨i, o, hold i o ho, hn, hf⟩
  · obtain ⟨hne, ht'⟩ := (owner_publish hk hdb).1 ht
    obtain ⟨hb, o, ho, hpub⟩ := hi.locked i t ht'
    exact ⟨hb, o, hold i o ho, hpub⟩
  · rcases hcases i o ho with ⟨rfl, rfl⟩ | ho'
    · rw [hempty]
      exact ⟨Nat.zero_le _, fun hp => by simp [World.newRow] at hp⟩
    · rw [entriesOf_congr hst]
      exact hi.once hs i o ho' hh
  · rcases hcases i o ho with ⟨rfl, rfl⟩ | ho'
    · refine ⟨fun _ _ _ => hempty, fun _ e he => ?_⟩
      rw [hempty] at he
      cases he
    · have hfree' : s.db.owner (.outbox i) = none := by
        have hne : Key.outbox i ≠ .outbox s.nextOutboxId := by
          simpa using (hi.rows _ _ (.committed ho')).2.1.ne
        cases ho'' : s.db.owner (.outbox i) with
        | none => rfl
        | some t => exact absurd ((owner_publish hk hdb).2 ⟨hne, ho''⟩) (by simp [hfree])
      obtain ⟨h₁, h₂⟩ := hi.free i o ho' hfree'
      rw [entriesOf_congr hst]
      exact ⟨h₁, fun hl => hgrow.settled (entriesOf_congr hst _) (h₂ hl)⟩
  · rw [hdb]
    have ht : (q, ρ) ≠ (p, Role.batch) := fun he => hq (congrArg Prod.fst he)
    exact (frame_put ht).trans (frame_commitTx ht)

/-! ### The steps -/

/-- Every command, issued with what its process knows, keeps the invariant. -/
theorem invariant_step (hi : Invariant env M s) (hk : Know env M p c s)
    (hg : M.guard.step p c o s) (h : World.exec p c o s = some (r, s')) :
    Invariant env M s' := by
  by_cases hq : c.Quiet
  · obtain ⟨hst, hcom, hnext⟩ := exec_quiet hq h
    refine hi.of_release hst hcom hnext (exec_does hi hk (fun row hc => by subst hc; exact hq) h)
      fun i hown hrel => ?_
    obtain ⟨hs, hl⟩ := exec_release hi hk hg hq h hown hrel
    exact ⟨fun h => absurd h hs, hl⟩
  · cases c with
    | xadd n f m => exact hi.xadd hk h
    | commit ρ => exact hi.commit hk hg h
    | publish row => exact (hi.publish hk h).1
    | _ => exact absurd trivial hq

/-- Every command leaves the columns of the rows and the entries of the streams. -/
theorem grows_step (hi : Invariant env M s) (hk : Know env M p c s)
    (h : World.exec p c o s = some (r, s')) : Grows s s' := by
  by_cases hq : c.Quiet
  · obtain ⟨hst, hcom, hnext⟩ := exec_quiet hq h
    exact .of_committed hst hcom hnext
  · cases c with
    | xadd n f m =>
      rcases exec_xadd h with ⟨_, _, rfl⟩ | ⟨_, hdb, hnext, _, hother, happ⟩
      · exact .refl _
      · exact ⟨fun i o ho => ⟨o, by rwa [hdb], rfl⟩, fun _ _ _ hx => by rwa [hdb],
          appended_subset_xadd hother happ, hnext.ge⟩
    | commit ρ =>
      cases h
      have hcases : s.db.commit (p, ρ) o.fault Exn.sql = (_, _) := rfl
      rcases commit_cases hcases with
        ⟨_, ⟨hdb, _⟩ | ⟨hdb, hf⟩ | ⟨hdb, _⟩⟩ | ⟨_, hdb, _⟩
      · exact .of_committed rfl (by rw [hdb]) rfl
      · exact .of_committed rfl (by rw [hdb]; rfl) rfl
      · rw [hdb]
        exact hi.grows_commitTx _ _
      · rw [hdb]
        exact hi.grows_commitTx _ _
    | publish row => exact (hi.publish hk h).2.1
    | _ => exact absurd trivial hq

/-- Every command leaves what the other processes rely on. -/
theorem rely_step (hq : q ≠ p) (hi : Invariant env M s) (hk : Know env M p c s)
    (h : World.exec p c o s = some (r, s')) : Rely q s s' := by
  by_cases hp : ∃ row, c = .publish row
  · obtain ⟨row, rfl⟩ := hp
    exact (hi.publish hk h).2.2 q hq
  · have hd := exec_does hi hk (fun row hc => hp ⟨row, hc⟩) h
    refine ⟨grows_step hi hk h, fun ρ => hd.frame fun he => hq (congrArg Prod.fst he), ?_⟩
    intro i w hown hw
    by_cases hx : ∃ n f m, c = .xadd n f m
    · -- The entry is appended for a row that another process has locked.
      obtain ⟨n, f, m, rfl⟩ := hx
      rcases exec_xadd h with ⟨_, _, rfl⟩ | ⟨_, _, _, _, hother, happ⟩
      · rfl
      · obtain ⟨j, w', hown', hw', _, hf, _⟩ := hk
        refine entriesOf_xadd_of_ne hother happ hf (hi.ne_eventId hw hw' ?_)
        rintro rfl
        exact hq (congrArg Prod.fst (Option.some.inj (hown.symm.trans hown')))
    · refine entriesOf_congr ?_ _
      by_cases hquiet : c.Quiet
      · exact (exec_quiet hquiet h).1
      · cases c with
        | xadd n f m => exact absurd ⟨n, f, m, rfl⟩ hx
        | publish row => exact absurd ⟨row, rfl⟩ hp
        | commit ρ =>
          cases h
          rfl
        | _ => exact absurd trivial hquiet

end Outbox

end AslanCore
