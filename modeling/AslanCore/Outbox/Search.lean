import AslanCore.Outbox.Steps

/-!
# The search for an entry keeps to the outline

The rules to show that a program of a drainer keeps to the outline (`Keeps`), and the
scan of a stream for the entries of a row.

The assertions between the commands say which rows the batch has locked (`Live`), and
what the lookup table lacks of the entries appended for the row it works on (`Lacks`).
After a lost connection nothing is locked any more (`Lost`), and every statement is
refused.
-/

set_option linter.unusedSectionVars false

namespace AslanCore

namespace Outbox

open Database Prog Outline

variable {P Payload : Type} [DecidableEq P] {env : Env Payload} {M : Mode P Payload}
  {p : P} {s s' : World P Payload} {ρ ρ' : Role}

/-- The process `p` running `m` from `s` keeps to the outline, and ends with `Q`. -/
abbrev Keeps {α : Type} (env : Env Payload) (M : Mode P Payload) (p : P) (m : Program Payload α)
    (Q : Except Exn α → World P Payload → Prop) (s : World P Payload) : Prop :=
  (outline env M).Safe (system env P) M.guard p m Q s

theorem keeps_request {c : Cmd Payload} {Q : Except Exn (Reply Payload c) → World P Payload → Prop}
    (a : World P Payload → Prop) (ha : ∀ s s', Rely p s s' → a s → a s') (h : a s)
    (hc : ∀ s₁, Invariant env M s₁ → a s₁ → Know env M p c s₁ ∧ ∀ o r s₂, M.guard.step p c o s₁ →
      World.exec p c o s₁ = some (r, s₂) → Invariant env M s₂ → Q r s₂) :
    Keeps env M p (request c) Q s :=
  safe_perform a ha h hc

section Rules

variable {α β : Type}

theorem keeps_bind {m : Program Payload α} {f : α → Program Payload β}
    {Q : Except Exn β → World P Payload → Prop} :
    Keeps env M p (m >>= f) Q s ↔ Keeps env M p m
      (outcome (fun a => Keeps env M p (f a) Q) fun e => Q (.error e)) s :=
  safe_bind

theorem keeps_tryCatch {m : Program Payload α} {h : Exn → Program Payload α}
    {Q : Except Exn α → World P Payload → Prop} :
    Keeps env M p (m.tryCatch h) Q s ↔ Keeps env M p m
      (outcome (fun a => Q (.ok a)) fun e => Keeps env M p (h e) Q) s :=
  safe_tryCatch

theorem keeps_withSession {m : Program Payload α} {Q : Except Exn α → World P Payload → Prop} :
    Keeps env M p (withSession ρ m) Q s ↔ Keeps env M p m
      (fun r => Keeps env M p (request (.close ρ))
        (outcome (fun _ => Q r) fun e => Q (.error e))) s :=
  safe_ensuring

end Rules

/-! ### What a session leaves to the others of its process -/

/-- What a request of the session `ρ` of `p` leaves unchanged for its other sessions. -/
structure Apart (ρ : Role) (p : P) (s s' : World P Payload) : Prop extends Grows s s' where
  frame : ∀ ρ' ≠ ρ, Frame (p, ρ') s.db s'.db
  entries : ∀ i o, s.Owns p i → s.db.committed (.outbox i) = some o →
    s'.entriesOf o.toRow = s.entriesOf o.toRow

theorem Rely.apart (h : Rely p s s') (ρ : Role) : Apart ρ p s s' :=
  ⟨h.toGrows, fun ρ' _ => h.frame ρ', h.entries⟩

theorem apart_step {c : Cmd Payload} {o : Choice} {r : Except Exn (Reply Payload c)}
    (hi : Invariant env M s) (hk : Know env M p c s) (h : World.exec p c o s = some (r, s'))
    (hst : s'.streams = s.streams) (hp : ∀ row, c ≠ .publish row) : Apart c.role p s s' := by
  refine ⟨grows_step hi hk h, fun ρ' hρ => ?_, fun _ _ _ _ => entriesOf_congr hst _⟩
  exact (exec_does hi hk hp h).frame fun he => hρ (congrArg Prod.snd he)

/-- A command that only reads the streams changes nothing. -/
theorem exec_read {c : Cmd Payload} {o : Choice} {r : Except Exn (Reply Payload c)}
    (h : World.exec p c o s = some (r, s'))
    (hc : (∃ n, c = .xrevrange n) ∨ (∃ n, c = .xinfoStream n) ∨
      ∃ n lo hi m, c = .xrange n lo hi m) : s' = s := by
  rcases hc with ⟨n, rfl⟩ | ⟨n, rfl⟩ | ⟨n, lo, hi, m, rfl⟩
  · rcases World.redis_cases h with ⟨_, rfl, _⟩ | ⟨_, _, rfl | rfl⟩ <;> rfl
  · simp only [World.exec] at h
    split at h <;> rcases World.redis_cases h with ⟨_, rfl, _⟩ | ⟨_, _, rfl | rfl⟩ <;> rfl
  · rcases World.redis_cases h with ⟨_, rfl, _⟩ | ⟨_, _, rfl | rfl⟩ <;> rfl

theorem Rest.of_frame (h : Rest p ρ s) (hf : Frame (p, ρ) s.db s'.db) : Rest p ρ s' :=
  ⟨hf.status.trans h.ready, hf.saved.trans h.saved, fun k => by rw [ne_eq, hf.owner]; exact h.owner k⟩

/-- A session that is closed is not in use. -/
theorem rest_of_abort (h : s'.db = s.db.abort (p, ρ) .ready) : Rest p ρ s' := by
  refine ⟨?_, ?_, fun k => ?_⟩ <;> rw [h]
  · exact status_abort_self
  · exact saved_abort_self
  · exact owner_abort_self

/-- The lookup table has every entry appended for the rows that `p` has locked. -/
def Clear (p : P) (s : World P Payload) : Prop :=
  ∀ i o, s.Owns p i → s.db.committed (.outbox i) = some o → s.Settled o.toRow

theorem Clear.covered (h : Clear p s) : s.Covered p := fun i _ hown o ho => h i o hown ho

/-- The rows there are have been drawn an identifier. -/
theorem Invariant.clear (hi : Invariant env M s) (h : s.Covered p) : Clear p s :=
  fun i o hown ho => h i (hi.rows _ _ (.committed ho)).2.1 hown o ho

theorem Clear.of_apart (hc : Clear p s) (h : Apart ρ p s s') (hρ : ρ ≠ .batch) :
    Clear p s' := by
  have hf := h.frame .batch (Ne.symm hρ)
  intro i o hown ho
  have hown' : s.Owns p i := (hf.owner _).1 hown
  rw [hf.committed _ hown'] at ho
  exact h.settled (h.entries i o hown' ho) (hc i o hown' ho)

/-- What a transaction has recorded stays recorded. -/
theorem Grows.view_index (h : Grows s s') (hf : Frame (p, ρ) s.db s'.db) {e n : String}
    {rid : StreamId} (hv : (s.db.view (p, ρ) (.index e n rid)).isSome) :
    (s'.db.view (p, ρ) (.index e n rid)).isSome := by
  rw [view, hf.pending]
  cases hp : s.db.pending (p, ρ) (.index e n rid) with
  | none =>
    rw [view, hp] at hv
    exact h.index e n rid hv
  | some w => rwa [view, hp] at hv

/-! ### The transactions that record an entry -/

/-- An assertion that the session `ρ` of `p`, and the other processes, keep. -/
def Independent (ρ : Role) (p : P) (a : World P Payload → Prop) : Prop :=
  ∀ s s', Apart ρ p s s' → a s → a s'

section IndexEntry

variable {o : Choice} {e n : String} {rid : StreamId} {x : Except Exn Unit}

/-- A failure is not in a steady run, nor, in a scan, in a lossless one that lacks an entry. -/
def Excused (M : Mode P Payload) (ρ : Role) (p : P) (s : World P Payload) : Prop :=
  ¬M.steady ∧ (ρ = .scan → M.lossless → Clear p s)

theorem Excused.of_apart (h : Excused M ρ p s) (ha : Apart ρ' p s s') (hρ : ρ' ≠ .batch) :
    Excused M ρ p s' :=
  ⟨h.1, fun hs hl => (h.2 hs hl).of_apart ha hρ⟩

theorem exec_insertIndex (hi : Invariant env M s) (hrest : Rest p ρ s)
    (hg : M.guard.step p (.insertIndex ρ e n rid) o s)
    (h : World.exec p (.insertIndex ρ e n rid) o s = some (x, s')) :
    (x = .ok () ∧ s'.db.status (p, ρ) = .ready ∧
      (s'.db.view (p, ρ) (.index e n rid)).isSome) ∨
    ∃ exn, x = .error exn ∧ Excused M ρ p s := by
  rcases statement_cases (World.sql_cases h).2 with
    ⟨exn, rfl, ⟨hst, _⟩ | ⟨_, hstmt, _⟩⟩ | ⟨_, rfl, _, hst, ha⟩
  · exact absurd hrest.ready hst
  · have hfault : o.fault ≠ .none := by
      intro hf
      have := hstmt hf
      cases hx : s.db.insertNew (p, ρ) (.index e n rid) () <;> simp [hx] at this
    refine .inr ⟨exn, rfl, fun hs => hfault (M.fault_none hs hg (by simp)), ?_⟩
    rintro rfl hl
    exact hi.clear ((M.lossless_step hl p _ o s hg).resolve_right hfault)
  · obtain ⟨⟨b, db⟩, hx, heq⟩ := Option.map_eq_some_iff.1 ha
    cases heq
    refine .inl ⟨rfl, ?_⟩
    rcases insertNew_cases hx with ⟨_, hdb, hv⟩ | ⟨_, _, hl, hdb⟩
    · rw [hdb]
      exact ⟨hst, hv⟩
    · rw [hdb, view_put_self]
      exact ⟨hst, rfl⟩

theorem exec_commitIndex (hi : Invariant env M s) (hi' : Invariant env M s') (hρ : ρ ≠ .batch)
    (hst : s.db.status (p, ρ) = .ready)
    (hv : (s.db.view (p, ρ) (.index e n rid)).isSome) (hg : M.guard.step p (.commit ρ) o s)
    (hap : Apart ρ p s s') (h : World.exec p (.commit ρ) o s = some (x, s')) :
    (x = .ok () ∧ (s'.db.committed (.index e n rid)).isSome) ∨
    ∃ exn, x = .error exn ∧ Excused M ρ p s' := by
  have hexc : ∀ exn, o.fault ≠ .none → (o.fault = .lost →
      s' = { s with db := s.db.commitTx (p, ρ) .gone }) → x = .error exn →
      ∃ exn, x = .error exn ∧ Excused M ρ p s' := by
    intro exn hf hs' hx
    refine ⟨exn, hx, fun hs => hf (M.fault_none hs hg (by simp)), ?_⟩
    rintro rfl hl
    rcases M.lossless_step hl p _ o s hg with hc | hf' | ⟨hf', hc⟩
    · exact (hi.clear hc).of_apart hap hρ
    · exact absurd hf' hf
    · rw [← hs' hf'] at hc
      exact hi'.clear hc
  cases h
  have hcases : s.db.commit (p, ρ) o.fault Exn.sql = (_, _) := rfl
  rcases commit_cases hcases with ⟨hx, ⟨_, hn⟩ | ⟨hdb, hf⟩ | ⟨hdb, hf⟩⟩ | ⟨hx, hdb, _⟩
  · exact absurd hst hn
  · exact .inr (hexc _ (by simp [hf]) (by simp [hf]) hx)
  · exact .inr (hexc _ (by simp [hf]) (fun _ => by rw [hdb]) hx)
  · refine .inl ⟨hx, ?_⟩
    rw [hdb]
    exact hv

/-- The lookup table gets the entry, or the failure is excused. -/
theorem safe_indexEntry {a : World P Payload → Prop} (hρ : ρ ≠ .batch)
    (ha : Independent ρ p a) (h : a s) (hrest : Rest p ρ s)
    (hkey : ∀ s, Invariant env M s → a s → M.steady → Unlocked p ρ (.index e n rid) s) :
    Keeps env M p (indexEntry ρ e n rid)
      (outcome (fun _ s => (a s ∧ Rest p ρ s) ∧ (s.db.committed (.index e n rid)).isSome)
        fun _ s => (a s ∧ Rest p ρ s) ∧ Excused M ρ p s) s := by
  -- What holds when the session is about to be closed.
  let mid : Except Exn Unit → World P Payload → Prop :=
    outcome (fun _ s => a s ∧ (s.db.committed (.index e n rid)).isSome)
      fun _ s => a s ∧ Excused M ρ p s
  have hknow₁ : ∀ s, Invariant env M s → a s → Know env M p (.insertIndex ρ e n rid) s :=
    fun s hi h => ⟨fun hb => absurd hb hρ, hkey s hi h⟩
  have hknow₂ : ∀ s, Know env M p (.commit ρ) s := fun s => by
    cases ρ <;> first | exact absurd rfl hρ | trivial
  have hknow₃ : ∀ s, Know env M p (.close ρ) s := fun s => by
    cases ρ <;> first | exact absurd rfl hρ | trivial
  rw [indexEntry, keeps_withSession]
  have hbody : Keeps env M p
      (request (.insertIndex ρ e n rid) >>= fun _ => request (.commit ρ)) mid s := by
    rw [keeps_bind]
    refine keeps_request (fun s => a s ∧ Rest p ρ s) ?_ ⟨h, hrest⟩ fun s₁ hi ⟨h₁, hr₁⟩ => ?_
    · exact fun _ _ hr hs => ⟨ha _ _ (hr.apart ρ) hs.1, hs.2.of_frame (hr.frame ρ)⟩
    refine ⟨hknow₁ s₁ hi h₁, fun o x s₂ hg hex hi₂ => ?_⟩
    have hap := apart_step hi (hknow₁ s₁ hi h₁) hex (exec_quiet (by trivial) hex).1 (by simp)
    rcases exec_insertIndex hi hr₁ hg hex with ⟨rfl, hst, hv⟩ | ⟨exn, rfl, hexc⟩
    · refine keeps_request (fun s => a s ∧ s.db.status (p, ρ) = .ready ∧
        (s.db.view (p, ρ) (.index e n rid)).isSome) ?_ ⟨ha _ _ hap h₁, hst, hv⟩
        fun s₃ hi₃ ⟨h₃, hst₃, hv₃⟩ => ⟨hknow₂ s₃, fun o x s₄ hg hex hi₄ => ?_⟩
      · intro s s' hr hs
        exact ⟨ha _ _ (hr.apart ρ) hs.1, (hr.frame ρ).status.trans hs.2.1,
          hr.toGrows.view_index (hr.frame ρ) hs.2.2⟩
      have hap₄ := apart_step hi₃ (hknow₂ s₃) hex (by cases hex; rfl) (by simp)
      rcases exec_commitIndex hi₃ hi₄ hρ hst₃ hv₃ hg hap₄ hex with ⟨rfl, hc⟩ | ⟨exn, rfl, hexc⟩
      · exact ⟨ha _ _ hap₄ h₃, hc⟩
      · exact ⟨ha _ _ hap₄ h₃, hexc⟩
    · exact ⟨ha _ _ hap h₁, hexc.of_apart hap hρ⟩
  refine hbody.mono fun x s₁ hmid => ?_
  have hstable : ∀ x s s', Rely p s s' → mid x s → mid x s' := by
    rintro (exn | u) s s' hr ⟨h₁, h₂⟩
    · exact ⟨ha _ _ (hr.apart ρ) h₁, h₂.of_apart (hr.apart .index) (by decide)⟩
    · exact ⟨ha _ _ (hr.apart ρ) h₁, hr.index _ _ _ h₂⟩
  refine keeps_request (mid x) (hstable x) hmid fun s₂ hi₂ h₂ =>
    ⟨hknow₃ s₂, fun o y s₃ hg hex hi₃ => ?_⟩
  have hap := apart_step hi₂ (hknow₃ s₂) hex (exec_quiet (by trivial) hex).1 (by simp)
  have hrest₃ : Rest p ρ s₃ := by
    cases hex
    exact rest_of_abort (close_cases rfl).1
  have hexc : ∀ exn, y = .error exn → Excused M ρ p s₃ := by
    rintro exn rfl
    have hf : o.fault ≠ .none := by
      intro hf
      simp only [World.exec, hf] at hex
      cases hex
    refine ⟨fun hs => hf (M.fault_none hs hg (by simp)), ?_⟩
    rintro rfl hl
    exact (hi₂.clear ((M.lossless_step hl p _ o s₂ hg).resolve_right hf)).of_apart hap (by simp [Cmd.role])
  cases x with
  | ok u =>
    obtain ⟨h₂, hc⟩ := h₂
    cases y with
    | ok => exact ⟨⟨ha _ _ hap h₂, hrest₃⟩, hap.index _ _ _ hc⟩
    | error exn => exact ⟨⟨ha _ _ hap h₂, hrest₃⟩, hexc exn rfl⟩
  | error exn =>
    obtain ⟨h₂, he⟩ := h₂
    cases y with
    | ok => exact ⟨⟨ha _ _ hap h₂, hrest₃⟩, he.of_apart hap hρ⟩
    | error exn' => exact ⟨⟨ha _ _ hap h₂, hrest₃⟩, hexc exn' rfl⟩

end IndexEntry

/-! ### The rows of a batch -/

/-- The rows that the batch of `p` has locked. -/
structure Live (p : P) (rows : List (Row Payload)) (s : World P Payload) : Prop where
  owns : ∀ row ∈ rows, s.Owns p row.outboxId
  cols : ∀ row ∈ rows, ∃ o, s.db.committed (.outbox row.outboxId) = some o ∧ o.toRow = row
  only : ∀ i, s.Owns p i → ∃ row ∈ rows, row.outboxId = i

/-- The transaction of the batch of `p` has ended with its connection. -/
structure Lost (M : Mode P Payload) (p : P) (s : World P Payload) : Prop where
  failed : ¬M.steady
  owner : ∀ k, s.db.owner k ≠ some (p, .batch)
  status : s.db.status (p, .batch) ≠ .ready
  saved : s.db.saved (p, .batch) = none

/-- The row is published, in the transaction of the batch of `p` or before. -/
def Published (p : P) (i : ℕ) (s : World P Payload) : Prop :=
  ∃ o, s.db.view (p, .batch) (.outbox i) = some o ∧ o.publishedAt.isSome

/-- The rows of a batch that are done, and those still to do: in steady runs, one entry was
    appended for each of the first that carries a healthy event, and it is published; and
    but for the rows it has selected, the batch has only written what records their
    entries. -/
structure Progress (M : Mode P Payload) (p : P) (done todo : List (Row Payload))
    (s : World P Payload) : Prop where
  finished : M.steady → ∀ row ∈ done, M.healthy row.eventId →
    (s.entriesOf row).length = 1 ∧ Published p row.outboxId s
  fresh : M.steady → ∀ row ∈ todo, M.healthy row.eventId → s.entriesOf row = []
  keys : M.steady → ∀ k, s.db.owner k = some (p, .batch) →
    (∃ i, k = .outbox i) ∨ ∃ row ∈ done, ∃ n rid, k = .index row.eventId n rid

/-- What the lookup table lacks of the entries appended for a row satisfies `lacking`. -/
def Lacks (row : Row Payload) (lacking : StreamId × Fields → Prop) (s : World P Payload) : Prop :=
  ∀ e ∈ s.entriesOf row, s.Indexed row e.1 ∨ lacking e

section Rows

variable {rows : List (Row Payload)} {row : Row Payload} {lacking lacking' : StreamId × Fields → Prop}

theorem Live.of_frame (h : Live p rows s) (hf : Frame (p, .batch) s.db s'.db) :
    Live p rows s' where
  owns row hr := (hf.owner _).2 (h.owns row hr)
  cols row hr := by
    rw [hf.committed _ (h.owns row hr)]
    exact h.cols row hr
  only i hi := h.only i ((hf.owner _).1 hi)

theorem Lost.of_frame (h : Lost M p s) (hf : Frame (p, .batch) s.db s'.db) : Lost M p s' :=
  ⟨h.failed, fun k hk => h.owner k ((hf.owner k).1 hk), by rw [hf.status]; exact h.status,
    hf.saved.trans h.saved⟩

theorem Live.entries (h : Live p rows s) (ha : Apart ρ p s s') (hr : row ∈ rows) :
    s'.entriesOf row = s.entriesOf row := by
  obtain ⟨o, ho, hrow⟩ := h.cols row hr
  exact hrow ▸ ha.entries _ o (h.owns _ hr) ho

/-- The event of a row of a batch identifies it. -/
theorem Live.ne_eventId (h : Live p rows s) (hi : Invariant env M s) {row' : Row Payload}
    (hr : row ∈ rows) (hr' : row' ∈ rows) (hne : row.outboxId ≠ row'.outboxId) :
    row.eventId ≠ row'.eventId := by
  obtain ⟨a, ha, hra⟩ := h.cols row hr
  obtain ⟨b, hb, hrb⟩ := h.cols row' hr'
  rw [← hra, ← hrb]
  exact hi.ne_eventId ha hb hne

theorem Live.clear (h : Live p rows s) (hs : ∀ row ∈ rows, s.Settled row) : Clear p s := by
  intro i o hown ho
  obtain ⟨row, hr, rfl⟩ := h.only i hown
  obtain ⟨o', ho', hrow⟩ := h.cols row hr
  cases Option.some.inj (ho.symm.trans ho')
  exact hrow ▸ hs row hr

theorem Clear.settled (h : Clear p s) (hl : Live p rows s) (hr : row ∈ rows) : s.Settled row := by
  obtain ⟨o, ho, hrow⟩ := hl.cols row hr
  exact hrow ▸ h _ o (hl.owns row hr) ho

theorem Lost.clear (h : Lost M p s) : Clear p s := fun _ _ hown => absurd hown (h.owner _)

theorem Lacks.mono (h : Lacks row lacking s) (hl : ∀ e, lacking e → lacking' e) : Lacks row lacking' s :=
  fun e he => (h e he).imp_right (hl e)

theorem Lacks.of_grows (h : Lacks row lacking s) (hg : Grows s s')
    (hent : s'.entriesOf row = s.entriesOf row) : Lacks row lacking s' :=
  fun e he => (h e (hent ▸ he)).imp_left (hg.index _ _ _)

theorem lacks_of_settled (h : s.Settled row) : Lacks row lacking s := fun e he => .inl (h e he)

theorem Lacks.settled (h : Lacks row (fun _ => False) s) : s.Settled row :=
  fun e he => (h e he).resolve_right id

/-- The steps of the others leave the progress of a batch. -/
theorem Progress.of_apart {done todo : List (Row Payload)} (h : Progress M p done todo s)
    (hl : Live p rows s) (hsub : ∀ row ∈ done ++ todo, row ∈ rows) (ha : Apart ρ p s s')
    (hρ : ρ ≠ .batch) : Progress M p done todo s' := by
  have hf := ha.frame .batch (Ne.symm hρ)
  refine ⟨fun hs row hr hh => ?_, fun hs row hr hh => ?_,
    fun hs k hk => h.keys hs k ((hf.owner k).1 hk)⟩
  · have hmem := hsub row (List.mem_append_left _ hr)
    rw [Published, hl.entries ha hmem, hf.view (hl.owns row hmem)]
    exact h.finished hs row hr hh
  · rw [hl.entries ha (hsub row (List.mem_append_right _ hr))]
    exact h.fresh hs row hr hh

/-- A run that is not steady knows nothing of the progress of a batch. -/
theorem progress_of_not_steady {done todo : List (Row Payload)} (h : ¬M.steady) :
    Progress M p done todo s :=
  ⟨fun hs => absurd hs h, fun hs => absurd hs h, fun hs => absurd hs h⟩

end Rows

/-! ### The search for an entry -/

/-- After the publication of `row` is undone: the batch goes on with its locks. In
    lossless runs, what the lookup table lacks of the entries of the row is `lacking`. -/
structure Recovering (M : Mode P Payload) (p : P) (done todo : List (Row Payload))
    (row : Row Payload) (lacking : StreamId × Fields → Prop) (s : World P Payload) : Prop where
  live : Live p (row :: (done ++ todo)) s
  ready : s.db.status (p, .batch) = .ready
  distinct : ((row :: (done ++ todo)).map (·.outboxId)).Nodup
  settled : M.lossless → ∀ row' ∈ done ++ todo, s.Settled row'
  lacks : M.lossless → Lacks row lacking s
  progress : Progress M p done todo s

/-- A process that searches for an entry: its batch goes on, or is lost. -/
def Searching (M : Mode P Payload) (p : P) (done todo : List (Row Payload)) (row : Row Payload)
    (lacking : StreamId × Fields → Prop) (s : World P Payload) : Prop :=
  (Lost M p s ∨ Recovering M p done todo row lacking s) ∧ Rest p .index s ∧ Rest p .gauge s

section Search

variable {done todo : List (Row Payload)} {row : Row Payload} {lacking lacking' : StreamId × Fields → Prop}

theorem Recovering.of_apart (h : Recovering M p done todo row lacking s) (ha : Apart ρ p s s')
    (hρ : ρ ≠ .batch) : Recovering M p done todo row lacking s' := by
  have hf := ha.frame .batch (Ne.symm hρ)
  refine ⟨h.live.of_frame hf, hf.status.trans h.ready, h.distinct, fun hl row' hr => ?_,
    fun hl => ?_, h.progress.of_apart h.live (fun _ => List.mem_cons_of_mem _) ha hρ⟩
  · exact ha.settled (h.live.entries ha (List.mem_cons_of_mem _ hr)) (h.settled hl row' hr)
  · exact (h.lacks hl).of_grows ha.toGrows (h.live.entries ha List.mem_cons_self)

theorem independent_searching : Independent .scan p (Searching M p done todo row lacking) := by
  rintro s s' ha ⟨h, hi, hg⟩
  have hb := ha.frame .batch (by decide)
  exact ⟨h.imp (·.of_frame hb) (·.of_apart ha (by decide)), hi.of_frame (ha.frame _ (by decide)),
    hg.of_frame (ha.frame _ (by decide))⟩

theorem Searching.mono (h : Searching M p done todo row lacking s)
    (hl : M.lossless → Live p (row :: (done ++ todo)) s → Lacks row lacking s → Lacks row lacking' s) :
    Searching M p done todo row lacking' s :=
  ⟨h.1.imp_right fun hr => ⟨hr.live, hr.ready, hr.distinct, hr.settled,
    fun hm => hl hm hr.live (hr.lacks hm), hr.progress⟩, h.2⟩

theorem ne_of_nodup_cons {row' : Row Payload} {rows : List (Row Payload)}
    (h : ((row :: rows).map (·.outboxId)).Nodup) (hr : row' ∈ rows) :
    row'.outboxId ≠ row.outboxId := by
  rw [List.map_cons, List.nodup_cons] at h
  exact fun he => h.1 (List.mem_map.2 ⟨row', hr, he⟩)

/-- The batch has not recorded the entries of the next row. -/
theorem Progress.owner_index_ne (h : Progress M p done todo s)
    (hl : Live p (row :: (done ++ todo)) s)
    (hd : ((row :: (done ++ todo)).map (·.outboxId)).Nodup) (hi : Invariant env M s)
    (hs : M.steady) (n : String) (rid : StreamId) :
    s.db.owner (.index row.eventId n rid) ≠ some (p, .batch) := by
  intro hk
  rcases h.keys hs _ hk with ⟨i, hki⟩ | ⟨row', hr, _, _, hkr⟩
  · cases hki
  · have hmem : row' ∈ done ++ todo := List.mem_append_left _ hr
    have hne := hl.ne_eventId hi (List.mem_cons_of_mem _ hmem) List.mem_cons_self
      (ne_of_nodup_cons hd hmem)
    exact absurd (Key.index.inj hkr).1.symm hne

theorem Searching.unlocked (h : Searching M p done todo row lacking s) (hi : Invariant env M s)
    (hs : M.steady) {n : String} {rid : StreamId} :
    Unlocked p .scan (.index row.eventId n rid) s := by
  intro ρ hk
  cases ρ with
  | scan => rfl
  | index => exact absurd hk (h.2.1.owner _)
  | gauge => exact absurd hk (h.2.2.owner _)
  | batch =>
    rcases h.1 with hlost | hrec
    · exact absurd hk (hlost.owner _)
    · exact absurd hk (hrec.progress.owner_index_ne hrec.live hrec.distinct hi hs n rid)

/-- Nothing is left to find of the entries in the lookup table. -/
theorem Searching.of_clear (h : Searching M p done todo row lacking s)
    (hc : M.lossless → Clear p s) : Searching M p done todo row lacking' s :=
  h.mono fun hl hlive _ => lacks_of_settled ((hc hl).settled hlive List.mem_cons_self)

/-- The search is over, whether it has failed or not. -/
def Searched (M : Mode P Payload) (p : P) (done todo : List (Row Payload)) (row : Row Payload)
    {α : Type} (_ : Except Exn α) (s : World P Payload) : Prop :=
  Searching M p done todo row (fun _ => False) s ∧ Rest p .scan s

/-- The entries of a page that carry the event get their row of the lookup table. -/
theorem keeps_indexMatch {entry : StreamId × Fields} {page : List (StreamId × Fields)}
    (h : Searching M p done todo row (fun e => e ∈ entry :: page ∨ lacking e) s) (hrest : Rest p .scan s) :
    Keeps env M p (indexMatch row.streamName row.eventId entry)
      (outcome (fun _ s => Searching M p done todo row (fun e => e ∈ page ∨ lacking e) s ∧ Rest p .scan s)
        fun e => Searched M p done todo row (.error e : Except Exn Unit)) s := by
  have hskip : entry.2.lookup "event_id" ≠ some row.eventId →
      Searching M p done todo row (fun e => e ∈ page ∨ lacking e) s := fun hne =>
    h.mono fun _ _ hleft e he => by
      rcases hleft e he with hi | hm | hl
      · exact .inl hi
      · rcases List.mem_cons.1 hm with rfl | hm
        · exact absurd (by simpa using (List.mem_filter.1 he).2) hne
        · exact .inr (.inl hm)
      · exact .inr (.inr hl)
  rw [indexMatch]
  split
  · rename_i hnone
    exact ⟨hskip (by simp [hnone]), hrest⟩
  · rename_i eid heid
    split_ifs with hne
    · exact ⟨hskip (by simpa [heid] using hne), hrest⟩
    · refine (safe_indexEntry (by decide) independent_searching h hrest
        fun _ hi h hs => h.unlocked hi hs).mono fun r s' hr => ?_
      cases r with
      | ok =>
        obtain ⟨⟨h', hrest'⟩, hidx⟩ := hr
        refine ⟨h'.mono fun _ _ hleft e he => ?_, hrest'⟩
        rcases hleft e he with hi | hm | hl
        · exact .inl hi
        · rcases List.mem_cons.1 hm with rfl | hm
          · exact .inl hidx
          · exact .inr (.inl hm)
        · exact .inr (.inr hl)
      | error e =>
        obtain ⟨⟨h', hrest'⟩, _, hexc⟩ := hr
        exact ⟨h'.of_clear (hexc rfl), hrest'⟩

theorem Live.findable {rows : List (Row Payload)} (h : Live p rows s) (hi : Invariant env M s)
    (hp : s.Present p) (hr : row ∈ rows) : s.Findable row := by
  obtain ⟨o, ho, hrow⟩ := h.cols row hr
  exact hrow ▸ hp _ (hi.rows _ _ (.committed ho)).2.1 (h.owns row hr) o ho

/-- While the scan goes on, what the lookup table lacks can be found in the stream. -/
theorem Searching.of_findable (h : Searching M p done todo row lacking s) (hi : Invariant env M s)
    (hg : M.lossless → s.Covered p ∨ s.Present p)
    (hl : ∀ e, e ∈ (s.streams.get row.streamName).entries → lacking e → lacking' e) :
    Searching M p done todo row lacking' s :=
  h.mono fun hm hlive hlack => by
    rcases hg hm with hc | hp
    · exact lacks_of_settled ((hi.clear hc).settled hlive List.mem_cons_self)
    · intro e he
      rcases hlack e he, hlive.findable hi hp List.mem_cons_self e he with ⟨hx | hx, hy | hy⟩
      · exact .inl hx
      · exact .inl hx
      · exact .inl hy
      · exact .inr (hl e hy hx)

/-- The scan of the pages finds every entry up to its bound: it does not stop before, as
    every page advances it. -/
theorem keeps_scanPages {upper cursor : StreamId} {fuel : ℕ}
    (hfuel : upper.toNat + 1 - cursor.toNat ≤ fuel)
    (h : Searching M p done todo row (fun e => cursor ≤ e.1 ∧ e.1 ≤ upper) s) (hrest : Rest p .scan s) :
    Keeps env M p (scanPages row.streamName row.eventId upper fuel cursor)
      (Searched M p done todo row) s := by
  have hstop : ∀ {cursor s}, upper < cursor →
      Searching M p done todo row (fun e => cursor ≤ e.1 ∧ e.1 ≤ upper) s →
      Searching M p done todo row (fun _ => False) s := fun hlt h =>
    h.mono fun _ _ hl => hl.mono fun e he => absurd (he.1.trans he.2) (not_le.2 hlt)
  induction fuel generalizing cursor s with
  | zero =>
    refine ⟨hstop ?_ h, hrest⟩
    rw [StreamId.lt_iff]
    omega
  | succ fuel ih =>
    rw [scanPages, keeps_bind]
    refine keeps_request (fun s => Searching M p done todo row (fun e => cursor ≤ e.1 ∧ e.1 ≤ upper) s ∧
      Rest p .scan s) ?_ ⟨h, hrest⟩ fun s₁ hi ⟨h₁, hr₁⟩ => ⟨trivial, fun o r s₂ hg hex hi₂ => ?_⟩
    · exact fun s s' hr hs => ⟨independent_searching s s' (hr.apart _) hs.1,
        hs.2.of_frame (hr.frame _)⟩
    have hloss : M.lossless → s₁.Covered p ∨ o.fault = .none ∧ s₁.Present p := fun hl =>
      M.lossless_step hl p _ o s₁ hg
    rcases World.redis_cases hex with ⟨rfl, rfl, _⟩ | ⟨rfl, hf, hs⟩
    · -- What the page lacks comes after its last entry.
      have hpage : ∀ e ∈ (s₂.streams.get row.streamName).entries, cursor ≤ e.1 ∧ e.1 ≤ upper →
          e ∈ (s₂.streams.get row.streamName).range cursor upper 1000 ∨
          ∃ l, ((s₂.streams.get row.streamName).range cursor upper 1000).getLast? = some l ∧
            l.1 < e.1 ∧ e.1 ≤ upper := fun e he hle =>
        (Stream.mem_range_or_lt (by omega) he hle.1 hle.2).imp_right fun ⟨l, hl, hlt⟩ =>
          ⟨l, hl, hlt, hle.2⟩
      have h₂ := h₁.of_findable hi (fun hl => (hloss hl).imp_right (·.2)) hpage
      have hcur : ∀ l ∈ (s₂.streams.get row.streamName).range cursor upper 1000, cursor ≤ l.1 :=
        fun l hl => (Stream.mem_range hl).2.1
      show Keeps env M p _ _ _
      generalize (s₂.streams.get row.streamName).range cursor upper 1000 = page at h₂ hcur
      cases hlast : page.getLast? with
      | none =>
        refine ⟨h₂.mono fun _ _ hl => hl.mono fun e he => ?_, hr₁⟩
        rcases he with he | ⟨l, hl, _⟩
        · rw [List.getLast?_eq_none_iff.1 hlast] at he
          cases he
        · rw [hlast] at hl
          cases hl
      | some l =>
        have hle : cursor ≤ l.1 := hcur l (List.mem_of_getLast? hlast)
        simp only
        rw [keeps_bind]
        refine safe_forEach (fun page s => Searching M p done todo row
          (fun e => e ∈ page ∨ l.1 < e.1 ∧ e.1 ≤ upper) s ∧ Rest p .scan s) ?_ ?_ ⟨?_, hr₁⟩
        · rintro s' ⟨h', hr'⟩
          have hnext : Searching M p done todo row
              (fun e => redisIdIncrement l.1 ≤ e.1 ∧ e.1 ≤ upper) s' :=
            h'.mono fun _ _ hl => hl.mono fun e he => by
              rw [redisIdIncrement_eq, ← StreamId.lt_iff_succ_le]
              exact he.resolve_left List.not_mem_nil
          show Keeps env M p _ _ _
          split_ifs with hpos
          · exact ⟨hstop (redisIdCompare_pos.1 hpos) hnext, hr'⟩
          · refine ih ?_ hnext hr'
            have := StreamId.le_iff.1 hle
            rw [redisIdIncrement_eq, StreamId.toNat_succ]
            omega
        · exact fun entry page s' hs => keeps_indexMatch hs.1 hs.2
        · refine h₂.mono fun _ _ hl => hl.mono fun e he => he.imp_right ?_
          rintro ⟨l', hl', hlt⟩
          cases Option.some.inj (hlast.symm.trans hl')
          exact hlt
    · have hs₂ : s₂ = s₁ := by simpa using hs
      subst hs₂
      exact ⟨h₁.of_clear fun hl => hi.clear ((hloss hl).resolve_right fun h => hf h.1), hr₁⟩

/-- The search finds every entry appended after the lower bound was captured. -/
theorem keeps_reconcileUnindexedXadd {lower : StreamId}
    (h : Searching M p done todo row (fun e => lower ≤ e.1) s) (hrest : Rest p .scan s) :
    Keeps env M p (reconcileUnindexedXadd row.streamName row.eventId lower)
      (Searched M p done todo row) s := by
  rw [reconcileUnindexedXadd, keeps_bind, keeps_tryCatch]
  refine keeps_request (fun s => Searching M p done todo row (fun e => lower ≤ e.1) s ∧ Rest p .scan s)
    ?_ ⟨h, hrest⟩ fun s₁ hi ⟨h₁, hr₁⟩ => ⟨trivial, fun o r s₂ hg hex hi₂ => ?_⟩
  · exact fun s s' hr hs => ⟨independent_searching s s' (hr.apart _) hs.1,
      hs.2.of_frame (hr.frame _)⟩
  have hloss : M.lossless → s₁.Covered p ∨ o.fault = .none ∧ s₁.Present p := fun hl =>
    M.lossless_step hl p _ o s₁ hg
  have hread := exec_read hex (.inr (.inl ⟨_, rfl⟩))
  subst hread
  -- The entries that are present are at most the last one.
  have hlast : ∀ last, (s₂.streams.get row.streamName).entries.getLast?.map (·.1) = last →
      Keeps env M p (scanFrom row.streamName row.eventId lower last) (Searched M p done todo row) s₂ := by
    rintro last rfl
    cases hl : (s₂.streams.get row.streamName).entries.getLast? with
    | none =>
      have hnil := List.getLast?_eq_none_iff.1 hl
      refine ⟨h₁.of_findable hi (fun hl => (hloss hl).imp_right (·.2)) fun e he => ?_, hr₁⟩
      rw [hnil] at he
      cases he
    | some l =>
      have h₂ : Searching M p done todo row (fun e => lower ≤ e.1 ∧ e.1 ≤ l.1) s₂ :=
        h₁.of_findable hi (fun hl => (hloss hl).imp_right (·.2)) fun e he hlo =>
          ⟨hlo, Stream.le_of_getLast? hl he⟩
      rw [Option.map_some, scanFrom]
      split_ifs with hpos
      · refine ⟨h₂.mono fun _ _ hl => hl.mono fun e he => ?_, hr₁⟩
        exact absurd (he.1.trans he.2) (not_le.2 (redisIdCompare_pos.1 hpos))
      · exact keeps_scanPages le_rfl h₂ hr₁
  have herr : o.fault ≠ .none → Searching M p done todo row (fun _ => False) s₂ := fun hf =>
    h₁.of_clear fun hl => hi.clear ((hloss hl).resolve_right fun h => hf h.1)
  simp only [World.exec] at hex
  split at hex
  · rename_i hnone
    have hempty : (s₂.streams.get row.streamName).entries = [] := by
      rw [Streams.get, hnone]
      rfl
    rcases World.redis_cases hex with ⟨rfl, _⟩ | ⟨rfl, hf, _⟩
    · exact hlast none (by rw [hempty]; rfl)
    · exact ⟨herr hf, hr₁⟩
  · rename_i st hsome
    have hget : s₂.streams.get row.streamName = st := by
      rw [Streams.get, hsome]
      rfl
    rcases World.redis_cases hex with ⟨rfl, _⟩ | ⟨rfl, hf, _⟩
    · exact hlast _ (by rw [hget])
    · exact ⟨herr hf, hr₁⟩

end Search

end Outbox

end AslanCore
