import Mathlib.Data.List.MinMax
import Mathlib.Data.Set.Finite.Lemmas
import Mathlib.Data.Set.Finite.List
import AslanCore.Documents.Chain

/-!
# Reading what was put

What `find_by_source_ref` may answer after a transaction of one call, for the reference of the call
(`findBySourceRef_of_transaction`). The row of the bytes has the reference, as its own or as an
alias. But a lookup answers with the first of all rows that have it, in an order that puts the own
reference before the aliases, and then the latest revision first: this is the row of the bytes,
unless another one is before it, or equal to it (`ComesFirst`).
-/

set_option linter.unusedSectionVars false

namespace AslanCore

namespace Documents

open Database Prog
open Timeseries (Jsonb putField)

variable {source ref sha : String} {rows rows' : List FilingRow} {row e e' : FilingRow}

/-! ### Lookups -/

/-- Of the rows with the reference, that of the bytes comes first, if there is one. -/
def ComesFirst (source ref sha : String) (rows : List FilingRow) : Prop :=
  ∀ e ∈ rows, e.sourceId = source → e.primarySha256 = sha →
    ∀ row ∈ rows, row.primarySha256 ≠ sha → Resolves source ref row → rank ref row < rank ref e

/-- Among some rows, one is at the top. -/
theorem exists_top (ref : String) (ok : FilingRow → Prop) (h : ∃ row ∈ rows, ok row) :
    ∃ top ∈ rows, ok top ∧ ∀ row ∈ rows, ok row → rank ref row ≤ rank ref top := by
  have hfinite : {row | row ∈ rows ∧ ok row}.Finite := rows.finite_toSet.subset fun _ h => h.1
  obtain ⟨top, ⟨htop, hok⟩, hle⟩ := Set.exists_max_image _ (rank ref) hfinite h
  exact ⟨top, htop, hok, fun row hrow hrowOk => hle row ⟨hrow, hrowOk⟩⟩

/-- There is an answer when a row has the reference. -/
theorem exists_found (he : e ∈ rows) (hres : Resolves source ref e) :
    ∃ row, FoundBySourceRef source ref rows (some row) :=
  exists_top ref (fun row => Resolves source ref row) ⟨e, he, hres⟩

/-- Every answer has the bytes when the row of the bytes has the reference, and is before all others
    that have it; and only then. -/
theorem found_iff (he : e ∈ rows) (hres : Resolves source ref e)
    (hunique : ∀ row ∈ rows, row.sourceId = source → row.primarySha256 = sha → row = e) :
    (∀ answer, FoundBySourceRef source ref rows answer →
        answer.map (fun row => row.primarySha256) = some sha) ↔
      ∀ row ∈ rows, row.primarySha256 ≠ sha → Resolves source ref row →
        rank ref row < rank ref e := by
  constructor
  · intro h row hrow hne hrowRes
    by_contra hlt
    -- The top of the other rows is not below the row of the bytes: it is an answer.
    obtain ⟨top, htop, ⟨htopSha, htopRes⟩, hle⟩ :=
      exists_top ref (fun row => row.primarySha256 ≠ sha ∧ Resolves source ref row)
        ⟨row, hrow, hne, hrowRes⟩
    have hfound : FoundBySourceRef source ref rows (some top) := by
      refine ⟨htop, htopRes, fun row' hrow' hres' => ?_⟩
      by_cases hsha' : row'.primarySha256 = sha
      · rw [hunique row' hrow' (of_decide_eq_true hres').1 hsha']
        exact (not_lt.1 hlt).trans (hle row hrow ⟨hne, hrowRes⟩)
      · exact hle row' hrow' ⟨hsha', hres'⟩
    exact htopSha (Option.some.inj (h (some top) hfound))
  · intro h answer hfound
    cases answer with
    | none =>
      rw [hfound e he] at hres
      cases hres
    | some row =>
      obtain ⟨hrow, hrowRes, hle⟩ := hfound
      by_contra hne
      have hlt := h row hrow (fun heq => hne (congrArg some heq)) hrowRes
      exact absurd (hle e he hres) (not_le.2 hlt)

/-! ### Rows that are stored -/

theorem rank_eq (href : e'.sourceFilingRef = e.sourceFilingRef) (hrevision : e'.revisionNo = e.revisionNo) :
    rank ref e' = rank ref e := by
  rw [rank, rank, href, hrevision]

theorem lookup_putField (k : String) (j : Jsonb) (fields : List (String × Jsonb)) :
    (putField k j fields).lookup k = some j := by
  induction fields with
  | nil => rw [putField, List.lookup_cons_self]
  | cons f fields ih =>
    rw [putField]
    split_ifs with hlt heq
    · rw [List.lookup_cons_self]
    · rw [List.lookup_cons_self]
    · rw [List.lookup_cons, beq_false_of_ne heq]
      exact ih

/-- A text that is appended is there. -/
theorem containsText_appendText (ref : String) (j : Jsonb) :
    containsText ref (appendText ref j) := by
  cases j <;> simp [appendText, containsText, isText]

/-- A row that is republished has the reference. -/
theorem resolves_republish (actor : Option Actor) (hsource : row.sourceId = source) :
    Resolves source ref (row.republish ref actor) := by
  rw [FilingRow.republish]
  by_cases hkeeps : row.keeps ref
  · rw [if_pos hkeeps]
    refine decide_eq_true ⟨hsource, ?_⟩
    rcases of_decide_eq_true hkeeps with href | hcontains
    · exact .inl href
    · refine .inr ?_
      rw [FilingRow.HasAlias]
      cases hr : republishedAs row.metadata with
      | none =>
        rw [hr] at hcontains
        cases hcontains
      | some j =>
        rw [hr, Option.getD_some] at hcontains
        cases j with
        | arr js => exact hcontains
        | _ => cases hcontains
  · rw [if_neg hkeeps]
    refine decide_eq_true ⟨hsource, .inr ?_⟩
    rw [FilingRow.HasAlias, republishedAs, lookup_putField]
    exact containsText_appendText _ _

/-- The revision of a new row is above those of its reference. -/
theorem lt_nextRevision (hrow : row ∈ rows) (hof : IsOf source ref row) :
    row.revisionNo < nextRevision source ref rows := by
  have hmem : row.revisionNo ∈ (rows.filter (IsOf source ref)).map fun row => row.revisionNo :=
    List.mem_map_of_mem (List.mem_filter.2 ⟨hrow, hof⟩)
  exact Nat.lt_succ_of_le (List.le_max_of_le hmem le_rfl)

/-! ### Rows under their keys -/

variable {P : Type} [DecidableEq P] {env : Env} {p : P} {s s' s₁ s₂ : World P} {c : Cmd}
  {o : Choice} {r : Except Exn (Reply c)}

/-- Whatever a command does, the filings are under their keys. -/
theorem rowsOk_of_exec (h : s.db.All (RowOk s.hashes))
    (hex : World.exec env p c o s = some (r, s')) : s'.db.All (RowOk s'.hashes) := by
  rcases hashes_of_exec hex with rfl | hhashes
  · exact h
  have hmono : ∀ {db : Database P Key RowOf} {k : String × String}, db.All (RowOk s.hashes) →
      db.All (RowOk (s.hashes.insert k)) := fun h => h.mono fun k w hw => by
    cases k with
    | filing source sha =>
      cases w with
      | none => exact hw
      | some row => exact ⟨hw.1, hw.2.1, List.mem_insert_of_mem hw.2.2⟩
    | attachment | audit | advisory => trivial
  have hsame : ∀ {db : Database P Key RowOf}, db.All (RowOk s.hashes) →
      db.All (RowOk (c.hashes s.hashes)) := by
    intro db hdb
    cases c with
    | upsert v => exact hmono hdb
    | _ => exact hdb
  have heffect := effect_of_exec hex
  rw [hhashes]
  generalize s'.db = db at heffect
  rcases heffect with _ | _ | _ | _ | _ | ⟨k, row, hk, _⟩ |
    ⟨_, _, _, db₁, hdb₁, hl, rfl⟩ | ⟨hfound, hl, rfl⟩
  · exact hsame h
  · exact hsame h.abort
  · exact hsame h.fail
  · exact hsame h.commitTx
  · exact hsame h.lockRow
  · refine hsame (h.put ?_)
    cases k with
    | filing source sha => exact absurd rfl (hk source sha)
    | attachment | audit | advisory => trivial
  · have hrows : db₁.All (RowOk s.hashes) := by
      rcases hdb₁ with rfl | ⟨k, rfl⟩
      · exact h
      · exact h.addRef
    exact All.put (hmono hrows) ⟨rfl, rfl, List.mem_insert_self⟩
  · refine All.put (hmono h) ?_
    obtain ⟨hsource, hsha, -⟩ := h _ _ (version_of_view hfound)
    obtain ⟨hlink, hsource', -⟩ := republish_eq _ _ _
    exact ⟨hsource'.trans hsource, (congrArg Link.primarySha256 hlink).trans hsha,
      List.mem_insert_self⟩

/-- Filings are under their keys in every state that is reached. -/
theorem filed_of_reach {ok : Config Cmd Reply Exn (Option PutFilingResult) P Job (World P) →
      Event P Job Choice → Prop}
    {cfg : Config Cmd Reply Exn (Option PutFilingResult) P Job (World P)}
    (h : (system env P).Reach ok ((system env P).initial .empty) cfg) (p : P) :
    Filed cfg.shared.hashes (cfg.shared.db.view p) := by
  have hrows : cfg.shared.db.All (RowOk cfg.shared.hashes) := by
    refine h.invariant ?_ (fun _ _ _ _ _ _ h hex => rowsOk_of_exec h hex) fun _ _ h => h.abort
    exact fun k w hw => by rcases hw with hw | hw | ⟨hw, -⟩ <;> cases hw
  exact fun {_ _ _} hrow => hrows _ _ (version_of_view hrow)

/-! ### What a transaction stores -/

/-- The writer sees the same filings. -/
structure SameFilings (p : P) (s s' : World P) : Prop where
  hashes : s'.hashes = s.hashes
  view : ∀ source sha, s'.db.view p (.filing source sha) = s.db.view p (.filing source sha)

theorem SameFilings.refl (s : World P) : SameFilings p s s := ⟨rfl, fun _ _ => rfl⟩

theorem SameFilings.trans (h : SameFilings p s s₁) (h' : SameFilings p s₁ s') :
    SameFilings p s s' :=
  ⟨h'.hashes.trans h.hashes, fun source sha => (h'.view source sha).trans (h.view source sha)⟩

/-- A command either fails, and then the session is not ready, or the writer sees the same filings
    after it. -/
theorem sameFilings_of_exec (hc : c.Inner) (h : World.exec env p c o s = some (r, s'))
    (hready : s'.db.status p = .ready) : s.db.status p = .ready ∧ SameFilings p s s' := by
  have hhashes : s'.hashes = s.hashes := by
    rcases hashes_of_exec h with rfl | hhashes
    · rfl
    · rw [hhashes]
      cases c with
      | upsert v => exact hc.elim
      | _ => rfl
  have heffect := effect_of_exec h
  suffices hdb : s.db.status p = .ready ∧
      ∀ source sha, s'.db.view p (.filing source sha) = s.db.view p (.filing source sha) from
    ⟨hdb.1, hhashes, hdb.2⟩
  generalize s'.db = db at heffect hready
  rcases heffect with _ | ⟨st, hst⟩ | _ | _ | _ | ⟨k, row, hk, hl⟩ | _ | _
  · exact ⟨hready, fun _ _ => rfl⟩
  · rw [status_abort_self] at hready
    rw [hst hready] at hc
    exact hc.elim
  · rw [status_fail_self] at hready
    cases hready
  · exact hc.elim
  · exact ⟨hready, fun _ _ => rfl⟩
  · exact ⟨hready, fun source sha => view_put_of_ne (hk source sha).symm⟩
  · exact hc.elim
  · exact hc.elim

variable {g : Guard Cmd P Job Choice (World P)} {α : Type} {x : Except Exn α} {caller : Caller}
  {call : PutFilingCall} {result : PutFilingResult}

theorem sameFilings_of_runs {m : Program α} (hm : m.Issues Cmd.Inner)
    (h : (system env P).Runs g p m s x s') (hready : s'.db.status p = .ready) :
    s.db.status p = .ready ∧ SameFilings p s s' := by
  revert hready
  refine h.rel hm (fun s hready => ⟨hready, .refl s⟩) (fun s s₁ s' h h' hready => ?_)
    fun _ _ _ _ _ hc hex => sameFilings_of_exec hc hex
  obtain ⟨hready, hsame'⟩ := h' hready
  obtain ⟨hready, hsame⟩ := h hready
  exact ⟨hready, hsame.trans hsame'⟩

theorem sameFilings_of_request {x : Except Exn (Reply c)}
    (h : (system env P).Runs g p (request c) s x s') (hc : c.Inner)
    (hready : s'.db.status p = .ready) : s.db.status p = .ready ∧ SameFilings p s s' :=
  sameFilings_of_runs (issues_perform hc) h hready

/-- The writer has stored a row for bytes under a reference, and no other row. -/
structure Stored (p : P) (source ref sha : String) (s s' : World P) : Prop where
  hashes : s'.hashes = s.hashes.insert (source, sha)
  row : (s.db.view p (.filing source sha) = none ∧ ∃ row,
      s'.db.view p (.filing source sha) = some row ∧ (row.sourceId = source ∧
        row.primarySha256 = sha ∧ row.sourceFilingRef = ref ∧
        row.revisionNo = nextRevision source ref (s.filings p))) ∨
    ∃ old actor, s.db.view p (.filing source sha) = some old ∧
      s'.db.view p (.filing source sha) = some (old.republish ref actor)
  others : ∀ source' sha', (source', sha') ≠ (source, sha) →
    s'.db.view p (.filing source' sha') = s.db.view p (.filing source' sha')

theorem filings_congr (h : SameFilings p s s') : s'.filings p = s.filings p := by
  rw [World.filings, World.filings, h.hashes]
  exact congrArg₂ List.filterMap (funext fun k => h.view k.1 k.2) rfl

theorem Stored.congr {source ref sha : String} (h : Stored p source ref sha s₁ s₂)
    (h₁ : SameFilings p s s₁) (h₂ : SameFilings p s₂ s') : Stored p source ref sha s s' where
  hashes := by rw [h₂.hashes, h.hashes, h₁.hashes]
  row := by
    rw [h₂.view, ← h₁.view, ← filings_congr h₁]
    exact h.row
  others source' sha' hne := by rw [h₂.view, h.others _ _ hne, h₁.view]

theorem filed_of_stored {source ref sha : String} (h : Filed s.hashes (s.db.view p))
    (hs : Stored p source ref sha s s') : Filed s'.hashes (s'.db.view p) := by
  intro source' sha' row' hrow'
  rw [hs.hashes]
  by_cases hk : (source', sha') = (source, sha)
  · obtain ⟨rfl, rfl⟩ := Prod.mk.inj hk
    rcases hs.row with ⟨-, row, hrow, hsource, hsha, -⟩ | ⟨old, actor, hold, hrow⟩
    · cases hrow'.symm.trans hrow
      exact ⟨hsource, hsha, List.mem_insert_self⟩
    · cases hrow'.symm.trans hrow
      obtain ⟨hlink, hsource, -⟩ := republish_eq old ref actor
      exact ⟨hsource.trans (h hold).1,
        (congrArg Link.primarySha256 hlink).trans (h hold).2.1, List.mem_insert_self⟩
  · obtain ⟨hsource, hsha, hmem⟩ := h ((hs.others _ _ hk).symm.trans hrow')
    exact ⟨hsource, hsha, List.mem_insert_of_mem hmem⟩

/-- The upsert stores a row. -/
theorem stored_of_upsert {v : FilingValues} {up : Upserted}
    (h : World.exec env p (.upsert v) o s = some (.ok up, s')) :
    Stored p v.sourceId v.sourceFilingRef v.primarySha256 s s' := by
  obtain ⟨⟨y, s₁⟩, hsql, heq⟩ := Option.map_eq_some_iff.1 (run_of_exec h)
  cases heq
  obtain ⟨db, hups, rfl⟩ := World.sql_eq_ok hsql
  refine ⟨rfl, ?_, ?_⟩
  · rcases upsert_cases hups with ⟨-, hins⟩ | ⟨old, -, hrep⟩
    · obtain ⟨habsent, -, -, db₁, hdb₁, hl, rfl⟩ := hins
      exact .inl ⟨habsent, _, view_put_self, rfl, rfl, rfl, rfl⟩
    · obtain ⟨hfound, hl, rfl⟩ := hrep
      exact .inr ⟨old, v.actor, hfound, view_put_self⟩
  · intro source' sha' hne
    have hk : Key.filing source' sha' ≠ .filing v.sourceId v.primarySha256 := fun hk => by
      obtain ⟨rfl, rfl⟩ := Key.filing.inj hk
      exact hne rfl
    rcases upsert_cases hups with ⟨-, hins⟩ | ⟨old, -, hrep⟩
    · obtain ⟨-, -, -, db₁, hdb₁, hl, rfl⟩ := hins
      refine (view_put_of_ne hk).trans ?_
      rcases hdb₁ with rfl | ⟨k, rfl⟩ <;> rfl
    · obtain ⟨-, hl, rfl⟩ := hrep
      exact view_put_of_ne hk

theorem status_of_upsert {v : FilingValues} {up : Upserted}
    (h : World.exec env p (.upsert v) o s = some (.ok up, s')) : s.db.status p = .ready := by
  obtain ⟨⟨y, s₁⟩, hsql, heq⟩ := Option.map_eq_some_iff.1 (run_of_exec h)
  cases heq
  rcases statement_cases (World.sql_cases hsql).2 with ⟨_, herror, -⟩ | ⟨_, -, -, hready, -⟩
  · cases herror
  · exact hready

/-- The clean-up after an exception ends with an exception. -/
theorem not_runs_cleanUp {bucket : String} {e : Exn} {a : α} :
    ¬(system env P).Runs g p (cleanUp (α := α) bucket e) s (.ok a) s' := by
  intro h
  obtain ⟨keys, s₁, -, h⟩ := System.Runs.bind_ok h
  obtain ⟨_, s₂, -, h⟩ := System.Runs.bind_ok h
  split_ifs at h <;> cases h.1

theorem stored_of_storeFiling {bucket sha : String} {filingId : PgUuid} {prior : Option Filing}
    {pre : Option FilingRow}
    (h : (system env P).Runs g p (storeFiling env caller bucket call sha filingId prior pre) s
      (.ok result) s') (hready : s'.db.status p = .ready) :
    s.db.status p = .ready ∧ Stored p call.sourceId call.sourceFilingRef sha s s' := by
  rw [storeFiling] at h
  split at h
  · cases h.1
  · obtain ⟨up, s₁, hups, h⟩ := System.Runs.bind_ok h
    obtain ⟨o, -, hups⟩ := System.runs_perform.1 hups
    obtain ⟨-, hsame⟩ := sameFilings_of_runs (issues_finishCall _ _ _ _ _ _) h hready
    exact ⟨status_of_upsert hups, (stored_of_upsert hups).congr (.refl _) hsame⟩

theorem stored_of_uploadAndStore {bucket sha : String} {filingId : PgUuid}
    (h : (system env P).Runs g p (uploadAndStore env caller bucket call sha filingId) s
      (.ok result) s') (hready : s'.db.status p = .ready) :
    s.db.status p = .ready ∧ Stored p call.sourceId call.sourceFilingRef sha s s' := by
  obtain ⟨_, s₁, hprimary, h⟩ := System.Runs.bind_ok h
  obtain ⟨_, s₂, hlock, h⟩ := System.Runs.bind_ok h
  obtain ⟨prior, s₃, hprior, h⟩ := System.Runs.bind_ok h
  obtain ⟨_, s₄, hxbrl, h⟩ := System.Runs.bind_ok h
  obtain ⟨pre, s₅, hpre, h⟩ := System.Runs.bind_ok h
  obtain ⟨hready₅, hstored⟩ := stored_of_storeFiling h hready
  -- No statement has failed before the upsert, so the filings are those of the start.
  obtain ⟨hready₄, hsame₅⟩ := sameFilings_of_request hpre trivial hready₅
  obtain ⟨hready₃, hsame₄⟩ := sameFilings_of_runs (issues_uploadXbrl _ _ _) hxbrl hready₄
  obtain ⟨hready₂, hsame₃⟩ := sameFilings_of_request hprior trivial hready₃
  obtain ⟨hready₁, hsame₂⟩ := sameFilings_of_request hlock trivial hready₂
  obtain ⟨hready₀, hsame₁⟩ := sameFilings_of_runs (issues_uploadPrimary _ _ _) hprimary hready₁
  exact ⟨hready₀, hstored.congr
    ((((hsame₁.trans hsame₂).trans hsame₃).trans hsame₄).trans hsame₅) (.refl _)⟩

/-- A call that returns has stored a row, if its transaction goes on. -/
theorem stored_of_runs (h : (system env P).Runs g p (putFiling env caller call) s (.ok result) s')
    (hready : s'.db.status p = .ready) :
    Stored p call.sourceId call.sourceFilingRef (env.sha256 call.primaryBytes) s s' := by
  rw [putFiling] at h
  split at h
  · cases h.1
  · obtain ⟨filingId, s₁, huuid, h⟩ := System.Runs.bind_ok h
    obtain ⟨_, s₂, hkeys, h⟩ := System.Runs.bind_ok h
    obtain ⟨x, s₃, hbody, h⟩ := System.runs_tryCatch.1 h
    cases x with
    | error e => exact absurd h not_runs_cleanUp
    | ok result' =>
      obtain ⟨-, rfl⟩ := h
      obtain ⟨hready₂, hstored⟩ := stored_of_uploadAndStore hbody hready
      obtain ⟨hready₁, hsame₂⟩ := sameFilings_of_request hkeys trivial hready₂
      obtain ⟨-, hsame₁⟩ := sameFilings_of_request huuid trivial hready₁
      exact hstored.congr (hsame₁.trans hsame₂) (.refl _)

/-- What is committed after a transaction is what its writer sees of what the call has stored. -/
theorem stored_of_transaction
    (h : (system env P).Runs g p (transaction env caller call) s (.ok result) s') :
    ∃ s₁, Stored p call.sourceId call.sourceFilingRef (env.sha256 call.primaryBytes) s s₁ ∧
      s'.hashes = s₁.hashes ∧ s'.db.committed = s₁.db.view p := by
  obtain ⟨x, s₂, hbody, h⟩ := System.runs_tryCatch.1 h
  cases x with
  | error e =>
    obtain ⟨_, _, -, h⟩ := System.Runs.bind_ok h
    cases h.1
  | ok result' =>
    obtain ⟨-, rfl⟩ := h
    obtain ⟨result₁, s₁, hput, hbody⟩ := System.Runs.bind_ok hbody
    obtain ⟨_, s₃, hcommit, -, rfl⟩ := System.Runs.bind_ok hbody
    obtain ⟨o, -, hcommit⟩ := System.runs_perform.1 hcommit
    have hrun : World.run env p .commit o s₁ = some (.ok (), _) := run_of_exec hcommit
    obtain ⟨hok, rfl⟩ := Prod.mk.inj (Option.some.inj hrun)
    rcases commit_cases (rfl : s₁.db.commit p o.fault Exn.sql = _) with
      ⟨herror, -⟩ | ⟨-, hdb, -, hready⟩
    · cases hok.symm.trans herror
    · exact ⟨s₁, stored_of_runs hput hready, rfl, congrArg Database.committed hdb⟩

/-! ### What is read -/

/-- Whoever has stored bytes finds them under the reference when their row came first before, if
    there was one, and only then. -/
theorem found_of_stored {rows rows' : List FilingRow} {hashes hashes' : List (String × String)}
    {w w' : (k : Key) → Option (RowOf k)} (hw : Filed hashes w) (hw' : Filed hashes' w')
    (hrows : rows = filingsOf hashes w) (hrows' : rows' = filingsOf hashes' w')
    (hothers : ∀ source' sha', (source', sha') ≠ (source, sha) →
      w' (.filing source' sha') = w (.filing source' sha'))
    (he' : w' (.filing source sha) = some e') (hres : Resolves source ref e')
    (hrank : ∀ e, w (.filing source sha) = some e → rank ref e' = rank ref e)
    (hnew : w (.filing source sha) = none → e'.sourceFilingRef = ref ∧
      e'.revisionNo = nextRevision source ref rows) :
    (∀ answer, FoundBySourceRef source ref rows' answer →
        answer.map (fun row => row.primarySha256) = some sha) ↔ ComesFirst source ref sha rows := by
  subst hrows hrows'
  have hmem : ∀ row, row.primarySha256 ≠ sha →
      (row ∈ filingsOf hashes' w' ↔ row ∈ filingsOf hashes w) := by
    intro row hne
    rw [mem_filingsOf_iff hw', mem_filingsOf_iff hw]
    constructor
    · rintro ⟨source', sha', hrow⟩
      have hkey : (source', sha') ≠ (source, sha) := by
        rintro ⟨⟩
        exact hne (hw' hrow).2.1
      exact ⟨source', sha', (hothers _ _ hkey).symm.trans hrow⟩
    · rintro ⟨source', sha', hrow⟩
      have hkey : (source', sha') ≠ (source, sha) := by
        rintro ⟨⟩
        exact hne (hw hrow).2.1
      exact ⟨source', sha', (hothers _ _ hkey).trans hrow⟩
  have hunique : ∀ {hashes : List (String × String)} {w : (k : Key) → Option (RowOf k)}
      {e : FilingRow}, Filed hashes w → w (.filing source sha) = some e →
      ∀ row ∈ filingsOf hashes w, row.sourceId = source → row.primarySha256 = sha → row = e := by
    intro hashes w e hw he row hrow hsource hsha
    obtain ⟨source', sha', hrow⟩ := (mem_filingsOf_iff hw).1 hrow
    obtain ⟨rfl, rfl, -⟩ := hw hrow
    subst hsource hsha
    exact Option.some.inj (hrow.symm.trans he)
  rw [found_iff (mem_filingsOf_of hw' he') hres (hunique hw' he')]
  cases he : w (.filing source sha) with
  | some e =>
    constructor
    · intro h e₁ he₁ hsource hsha row hrow hne hrowRes
      rw [hunique hw he e₁ he₁ hsource hsha, ← hrank e he]
      exact h row ((hmem row hne).2 hrow) hne hrowRes
    · intro h row hrow hne hrowRes
      rw [hrank e he]
      obtain ⟨hsource, hsha, -⟩ := hw he
      exact h e (mem_filingsOf_of hw he) hsource hsha row ((hmem row hne).1 hrow) hne hrowRes
  | none =>
    obtain ⟨href, hrevision⟩ := hnew he
    refine iff_of_true (fun row hrow hne hrowRes => ?_) fun e₁ he₁ hsource hsha => ?_
    · have hrow := (hmem row hne).1 hrow
      rw [rank, rank, decide_eq_true href]
      by_cases hof : row.sourceFilingRef = ref
      · rw [decide_eq_true hof]
        refine Prod.Lex.right _ ?_
        rw [hrevision]
        exact lt_nextRevision hrow (decide_eq_true ⟨(of_decide_eq_true hrowRes).1, hof⟩)
      · rw [decide_eq_false hof]
        exact Prod.Lex.left _ _ Bool.false_lt_true
    · obtain ⟨source', sha', hrow⟩ := (mem_filingsOf_iff hw).1 he₁
      obtain ⟨rfl, rfl, -⟩ := hw hrow
      subst hsource hsha
      rw [he] at hrow
      cases hrow

/-- After a transaction of one call there is an answer for its reference; and every answer has the
    bytes of the call when the row of the bytes came first before it, if there was one, and only
    then. -/
theorem findBySourceRef_of_transaction
    {ok : Config Cmd Reply Exn (Option PutFilingResult) P Job (World P) → Event P Job Choice → Prop}
    {cfg : Config Cmd Reply Exn (Option PutFilingResult) P Job (World P)}
    (h : (system env P).Reach ok ((system env P).initial .empty) cfg)
    (hrun : (system env P).Runs g p (transaction env caller call) cfg.shared (.ok result) s') :
    (∃ row, FoundBySourceRef call.sourceId call.sourceFilingRef s'.committedFilings (some row)) ∧
      ((∀ answer, FoundBySourceRef call.sourceId call.sourceFilingRef s'.committedFilings answer →
          answer.map (fun row => row.primarySha256) = some (env.sha256 call.primaryBytes)) ↔
        ComesFirst call.sourceId call.sourceFilingRef (env.sha256 call.primaryBytes)
          (cfg.shared.filings p)) := by
  obtain ⟨s₁, hstored, hhashes, hcommitted⟩ := stored_of_transaction hrun
  have hfiled : Filed cfg.shared.hashes (cfg.shared.db.view p) := filed_of_reach h p
  have hfiled' : Filed s₁.hashes (s₁.db.view p) := filed_of_stored hfiled hstored
  have hrows : s'.committedFilings = filingsOf s₁.hashes (s₁.db.view p) := by
    rw [World.committedFilings, hhashes, hcommitted]
    rfl
  obtain ⟨e', he', hres, hrank, hnew⟩ : ∃ e',
      s₁.db.view p (.filing call.sourceId (env.sha256 call.primaryBytes)) = some e' ∧
      Resolves call.sourceId call.sourceFilingRef e' ∧
      (∀ e, cfg.shared.db.view p (.filing call.sourceId (env.sha256 call.primaryBytes)) = some e →
        rank call.sourceFilingRef e' = rank call.sourceFilingRef e) ∧
      (cfg.shared.db.view p (.filing call.sourceId (env.sha256 call.primaryBytes)) = none →
        e'.sourceFilingRef = call.sourceFilingRef ∧ e'.revisionNo =
          nextRevision call.sourceId call.sourceFilingRef (cfg.shared.filings p)) := by
    rcases hstored.row with
      ⟨habsent, row, hrow, -, -, href, hrevision⟩ | ⟨old, actor, hold, hrow⟩
    · refine ⟨row, hrow, decide_eq_true ⟨(hfiled' hrow).1, .inl href⟩, fun e he => ?_,
        fun _ => ⟨href, hrevision⟩⟩
      rw [habsent] at he
      cases he
    · obtain ⟨hlink, -, href⟩ := republish_eq old call.sourceFilingRef actor
      refine ⟨_, hrow, resolves_republish actor (hfiled hold).1, fun e he => ?_, fun hnone => ?_⟩
      · cases hold.symm.trans he
        exact rank_eq href (congrArg Link.revisionNo hlink)
      · rw [hold] at hnone
        cases hnone
  exact ⟨hrows ▸ exists_found (mem_filingsOf_of hfiled' he') hres,
    found_of_stored hfiled hfiled' rfl hrows hstored.others he' hres hrank hnew⟩

/-! ### Plain calls -/

/-- The store after a transaction of a plain call that draws the identifier, if it returns. -/
def plainPut (id : PgUuid) (ref : String) (bytes : Bytes) (s : World Unit) : Option (World Unit) :=
  match (system plainEnv Unit).runAlone () (transaction plainEnv plainCaller (plainCall ref bytes))
      ({ id } :: List.replicate 14 {}) s with
  | some (.ok _, s') => some s'
  | _ => none

theorem runs_of_plainPut {id : PgUuid} {ref : String} {bytes : Bytes} {s s' : World Unit}
    (h : plainPut id ref bytes s = some s') : ∃ result, (system plainEnv Unit).Runs {} ()
      (transaction plainEnv plainCaller (plainCall ref bytes)) s (.ok result) s' := by
  rw [plainPut] at h
  split at h
  · rename_i result s₁ hrun
    cases h
    exact ⟨result, .of_runAlone hrun fun _ _ _ => trivial⟩
  · cases h

/-- Bytes that are not new are not found under their reference after other ones. -/
theorem not_found_of_revert : ∃ s₁ s₂ s₃ result₁ result₂ result₃ row,
    (system plainEnv Unit).Runs {} () (transaction plainEnv plainCaller (plainCall "r" [1])) .empty
      (.ok result₁) s₁ ∧
    (system plainEnv Unit).Runs {} () (transaction plainEnv plainCaller (plainCall "r" [2])) s₁
      (.ok result₂) s₂ ∧
    (system plainEnv Unit).Runs {} () (transaction plainEnv plainCaller (plainCall "r" [1])) s₂
      (.ok result₃) s₃ ∧
    FoundBySourceRef "kap" "r" s₃.committedFilings (some row) ∧
      row.primarySha256 ≠ plainEnv.sha256 [1] := by
  have hrun : (((plainPut 1 "r" [1] .empty).bind (plainPut 2 "r" [2])).bind
      (plainPut 3 "r" [1])).any (fun s₃ => s₃.committedFilings.any fun row =>
        Resolves "kap" "r" row && row.primarySha256 ≠ plainEnv.sha256 [1] &&
          s₃.committedFilings.all fun row' => rank "r" row' ≤ rank "r" row) = true := by
    decide +kernel
  obtain ⟨s₃, h₃, hrun⟩ := Option.any_eq_true _ _ |>.1 hrun
  obtain ⟨s₂, h₂, h₃⟩ := Option.bind_eq_some_iff.1 h₃
  obtain ⟨s₁, h₁, h₂⟩ := Option.bind_eq_some_iff.1 h₂
  obtain ⟨result₁, hrun₁⟩ := runs_of_plainPut h₁
  obtain ⟨result₂, hrun₂⟩ := runs_of_plainPut h₂
  obtain ⟨result₃, hrun₃⟩ := runs_of_plainPut h₃
  obtain ⟨row, hrow, hgood⟩ := List.any_eq_true.1 hrun
  obtain ⟨hgood, hle⟩ := Bool.and_eq_true_iff.1 hgood
  obtain ⟨hres, hsha⟩ := Bool.and_eq_true_iff.1 hgood
  refine ⟨s₁, s₂, s₃, result₁, result₂, result₃, row, hrun₁, hrun₂, hrun₃, ⟨hrow, hres, ?_⟩,
    of_decide_eq_true hsha⟩
  exact fun row' hrow' _ => of_decide_eq_true (List.all_eq_true.1 hle row' hrow')

/-- Bytes that are published again are found under their other reference. -/
theorem findBySourceRef_of_transaction_alias : ∃ cfg s' result,
    (system plainEnv Unit).Reach (Guard.Holds {}) ((system plainEnv Unit).initial .empty) cfg ∧
    (system plainEnv Unit).Runs {} () (transaction plainEnv plainCaller (plainCall "b" [1]))
      cfg.shared (.ok result) s' ∧
    ∀ answer, FoundBySourceRef "kap" "b" s'.committedFilings answer →
      answer.map (fun row => row.primarySha256) = some (plainEnv.sha256 [1]) := by
  have hrun : ((system plainEnv Unit).run (Guard.Holds {}) (plainTransaction () 1 "a" [1])
      ((system plainEnv Unit).initial .empty)).any (fun cfg =>
        (plainPut 2 "b" [1] cfg.shared).isSome && (cfg.shared.filings ()).all fun row =>
          row.primarySha256 = plainEnv.sha256 [1]) = true := by decide +kernel
  obtain ⟨cfg, hreach, hgood⟩ := System.Reach.exists_of_run hrun
  obtain ⟨hput, hsha⟩ := Bool.and_eq_true_iff.1 hgood
  obtain ⟨s', hput⟩ := Option.isSome_iff_exists.1 hput
  obtain ⟨result, hruns⟩ := runs_of_plainPut hput
  refine ⟨cfg, s', result, hreach, hruns,
    (findBySourceRef_of_transaction hreach hruns).2.2 fun e _ _ _ row hrow hne => ?_⟩
  exact absurd (of_decide_eq_true (List.all_eq_true.1 hsha row hrow)) hne

end Documents

end AslanCore
