import AslanCore.Deadletter.Alone
import AslanCore.Deadletter.Letters
import Mathlib.Data.List.TakeWhile

/-!
# The walk through the dead letters

What the fourth pass of the janitor leaves, on stores that no other process uses, whatever the
entries of the dead-letter streams are.

* The pass reconciles entries, one by one (`ends_reconcilePass4Entry`), until it meets one that
  it cannot read: its exception is raised, and no entry that follows is looked at (`steps`);
* what it leaves is therefore the result of reconciling a list of entries that is known before
  (`ends_pass4`);
* a failure of the log keeps an entry, and is indexed and routed, exactly when the entry that is
  indexed in the end is there, or another one that is not looked at (`keepsLetters_iff`).
-/

set_option linter.unusedSectionVars false

namespace AslanCore

namespace Deadletter

open AslanCore.System Outline World

/-- The failure of an entry, if it has one, unless reading it raises. -/
def failureOf (env : Env) (fields : RawFields) : Option (Option ℤ) :=
  match decodeFields fields with
  | none => none
  | some fields =>
    match fields.lookup "failure_id" with
    | none => some none
    | some fidRaw => (env.parseInt fidRaw).map some

/-- The entry carries a failure. -/
def Carries (env : Env) (fid : ℤ) (e : StreamId × RawFields) : Prop :=
  failureOf env e.2 = some (some fid)

namespace Letters

variable (env : Env) (window : ℕ) (l : Letters)

/-- The newest entries of a stream, newest first. -/
def newest (n : String) : List (StreamId × RawFields) := (l.entries n).reverse.take window

/-- What the pass does with an entry: it is reconciled if it has a failure, unless the pass
    raises. -/
def stepOf (n : String) (e : StreamId × RawFields) : Option (Option Step) :=
  (failureOf env e.2).map fun fid => fid.map fun fid => ⟨n, e.1, fid⟩

/-- What the pass does with a stream. -/
def steps (n : String) : List (Option (Option Step)) :=
  if Unreadable env (l.newest window n) then [none] else (l.newest window n).map (stepOf env n)

/-- The entries that are reconciled until the pass raises. -/
def handled (steps : List (Option (Option Step))) : List Step :=
  (steps.takeWhile Option.isSome).filterMap Option.join

/-- The entries of some streams that the pass reconciles. -/
def walk (names : List String) : List Step := handled (names.flatMap (l.steps env window))

variable {env window l}

theorem handled_append {xs ys : List (Option (Option Step))} (h : ∀ x ∈ xs, x.isSome) :
    handled (xs ++ ys) = handled xs ++ handled ys := by
  rw [handled, List.takeWhile_append_of_pos h, List.filterMap_append, handled, handled,
    List.takeWhile_eq_self_iff.2 h]

theorem handled_cons (x : Option Step) (xs : List (Option (Option Step))) :
    handled (some x :: xs) = x.toList ++ handled xs := by
  cases x <;> simp [handled]

theorem handled_append_of_none {xs ys : List (Option (Option Step))} (h : none ∈ xs) :
    handled (xs ++ ys) = handled xs := by
  induction xs with
  | nil => exact absurd h List.not_mem_nil
  | cons x xs ih =>
    rcases x with _ | x
    · simp [handled]
    · have hmem : none ∈ xs := (List.mem_cons.1 h).resolve_left (by simp)
      rw [List.cons_append, handled_cons, handled_cons, ih hmem]

theorem mem_of_mem_handled {xs : List (Option (Option Step))} {q : Step} (h : q ∈ handled xs) :
    some (some q) ∈ xs := by
  obtain ⟨x, hx, hq⟩ := List.mem_filterMap.1 h
  rcases x with _ | _ | x
  · cases hq
  · cases hq
  · cases hq
    exact (List.takeWhile_sublist _).subset hx

/-- An entry that is reconciled is one of its stream, and carries its failure. -/
theorem mem_walk {names : List String} {q : Step} (h : q ∈ l.walk env window names) :
    q.streamName ∈ names ∧ ∃ f, (q.rid, f) ∈ l.newest window q.streamName ∧
      Carries env q.failureId (q.rid, f) := by
  obtain ⟨n, hn, hq⟩ := List.mem_flatMap.1 (mem_of_mem_handled h)
  rw [steps] at hq
  split_ifs at hq
  · simp at hq
  · obtain ⟨⟨rid, f⟩, he, hq⟩ := List.mem_map.1 hq
    obtain ⟨fid, hfid, hq⟩ := Option.map_eq_some_iff.1 hq
    obtain ⟨fid, rfl, rfl⟩ := Option.map_eq_some_iff.1 hq
    exact ⟨hn, f, he, hfid⟩

end Letters

namespace World

variable {P : Type} [DecidableEq P] (s : World P)

/-- The dead letters of the stores. -/
def letters : Letters where
  stream fid := (s.db.committed (.log fid)).map (·.streamName)
  routed fid := (s.db.committed (.log fid)).any fun row => !row.isStuck
  index fid := s.db.committed (.index fid)
  entries n := (s.streams.get (deadletterStream n)).entries

end World

variable {P : Type} [DecidableEq P] {env : Env} {p : P} {s : World P}

/-- The stores are left quiet, with the dead letters as said. -/
structure Leaves (l : Letters) (s' : World P) : Prop where
  quiet : s'.Quiet
  letters : s'.letters = l

theorem deadletterStream_injective : Function.Injective deadletterStream := by
  intro n m h
  exact String.append_left_inj ".deadletter" |>.1 h

/-- An entry is deleted from its stream. -/
theorem letters_delete {n : String} {rid : StreamId} {s' : World P}
    (hstreams : s'.streams = match s.streams (deadletterStream n) with
      | none => s.streams
      | some st => s.streams.set (deadletterStream n) (st.delete rid))
    (hlog : ∀ fid, s'.db.committed (.log fid) = s.db.committed (.log fid))
    (hindex : ∀ fid, s'.db.committed (.index fid) = s.db.committed (.index fid)) :
    s'.letters = s.letters.delete n rid := by
  ext1
  · funext fid
    simp only [World.letters, Letters.delete, hlog]
  · funext fid
    simp only [World.letters, Letters.delete, hlog]
  · funext fid
    exact hindex fid
  · funext m
    simp only [World.letters, Letters.delete, hstreams]
    by_cases hm : m = n
    · subst hm
      rw [Function.update_self]
      cases hst : s.streams (deadletterStream m) with
      | none => simp [AslanCore.Streams.get, hst, Stream.empty]
      | some st =>
        rw [Streams.get_set_self, AslanCore.Streams.get, hst]
        rfl
    · rw [Function.update_of_ne hm]
      cases hst : s.streams (deadletterStream n) with
      | none => rfl
      | some st => rw [Streams.get_set_of_ne (deadletterStream_injective.ne hm)]

/-- A failure of the log is indexed, and routed. -/
theorem letters_adopt {fid : ℤ} {rid : StreamId} {row : LogRow} {now : ℕ} {e : AuditEvent}
    (hrow : s.db.committed (.log fid) = some row) {s' : World P} (hstreams : s'.streams = s.streams)
    (hrows : s'.db.committed = Function.update (Function.update (Function.update s.db.committed
      (.index fid) (some rid)) (.log fid)
        (some (if row.isStuck then row.route rid now else row))) (.audit s.nextAuditId) (some e)) :
    s'.letters = s.letters.adopt fid rid := by
  have hlog : ∀ f, s'.db.committed (.log f) = if f = fid then
      some (if row.isStuck then row.route rid now else row) else s.db.committed (.log f) := by
    intro f
    rw [hrows, Function.update_of_ne (by simp)]
    by_cases hf : f = fid
    · subst hf
      rw [Function.update_self, if_pos rfl]
    · rw [Function.update_of_ne (by simpa using hf), Function.update_of_ne (by simp), if_neg hf]
  ext1
  · funext f
    simp only [World.letters, Letters.adopt, hlog]
    by_cases hf : f = fid
    · subst hf
      rw [if_pos rfl, hrow]
      cases row.isStuck <;> rfl
    · rw [if_neg hf]
  · funext f
    simp only [World.letters, Letters.adopt, hlog]
    by_cases hf : f = fid
    · subst hf
      rw [if_pos rfl, Function.update_self]
      by_cases hr : row.isStuck = true
      · rw [if_pos hr]
        rfl
      · rw [if_neg hr]
        simpa using hr
    · rw [if_neg hf, Function.update_of_ne hf]
  · funext f
    simp only [World.letters, Letters.adopt, hrows]
    rw [Function.update_of_ne (by simp), Function.update_of_ne (by simp)]
    by_cases hf : f = fid
    · subst hf
      rw [Function.update_self, Function.update_self]
    · rw [Function.update_of_ne (by simpa using hf), Function.update_of_ne hf]
  · funext n
    simp only [World.letters, Letters.adopt, hstreams]

/-- The dead letters do not depend on the audit events, nor on the sessions. -/
theorem letters_eq {s' : World P} (hstreams : s'.streams = s.streams)
    (hlog : ∀ fid, s'.db.committed (.log fid) = s.db.committed (.log fid))
    (hindex : ∀ fid, s'.db.committed (.index fid) = s.db.committed (.index fid)) :
    s'.letters = s.letters := by
  simp only [World.letters, hstreams, hlog, hindex]

/-- An entry is deleted, and it is recorded. -/
theorem ends_xdel (hs : s.Quiet) {n : String} {rid : StreamId} {e : AuditEvent}
    {Q : Except Exn Unit → World P → Prop}
    (hQ : ∀ s', s'.Used (p, .main) → s'.letters = s.letters.delete n rid → Q (.ok ()) s') :
    (system env P).Ends healthy p (do
      request (.xdel (deadletterStream n) rid)
      request (.insertAudit .main e)
      request (.commit .main)) Q s := by
  refine ends_bind.2 (ends_request fun o ho => ⟨_, _, xdel ho _ _, ?_⟩)
  have hlone := hs.lone (p, .main)
  have hlone' : ({ s with streams := match s.streams (deadletterStream n) with
      | none => s.streams
      | some st => s.streams.set (deadletterStream n) (st.delete rid) } : World P).Lone (p, .main)
      s.db.committed := ⟨hlone.solo, hlone.bigint, hlone.committed, hlone.seen⟩
  refine ends_insertAudit hlone' fun db hcom hused =>
    hQ _ hused (letters_delete rfl (fun fid => ?_) fun fid => ?_)
  · exact (congrFun hcom _).trans (Function.update_of_ne (by simp) _ _)
  · exact (congrFun hcom _).trans (Function.update_of_ne (by simp) _ _)

/-- An entry is reconciled. -/
theorem ends_reconcilePass4Entry (hs : s.Quiet) (n : String) (rid : StreamId) (fid : ℤ) :
    (system env P).Ends healthy p (reconcilePass4Entry n rid fid)
      (fun r s' => r = .ok () ∧ Leaves (s.letters.reconcile ⟨n, rid, fid⟩) s') s := by
  have hlone := hs.lone (p, .main)
  refine ends_withSession (ends_logged ?_)
  -- What is left when the session is closed.
  have hclose : ∀ l, ∀ s₁ : World P, s₁.Used (p, .main) → s₁.letters = l →
      s.letters.reconcile ⟨n, rid, fid⟩ = l → s₁.Used (p, .main) ∧
      ∀ db, db.committed = s₁.db.committed → { s₁ with db := db : World P }.Quiet →
        (Except.ok () : Except Exn Unit) = .ok () ∧
          Leaves (s.letters.reconcile ⟨n, rid, fid⟩) { s₁ with db := db } := by
    rintro l s₁ hused rfl hl
    refine ⟨hused, fun db hcom hquiet => ⟨rfl, hquiet, ?_⟩⟩
    rw [hl]
    exact letters_eq rfl (fun fid => congrFun hcom _) fun fid => congrFun hcom _
  refine ends_bind.2 (ends_request fun o ho => ?_)
  by_cases hbig : IsBigint fid
  · refine ⟨_, _, hlone.selectIndex ho hbig, ?_⟩
    show (system env P).Ends healthy p _ _ _
    cases hi : s.db.committed (.index fid) with
    | some canonical =>
      show (system env P).Ends healthy p (if canonical = rid then _ else _) _ _
      split_ifs with hr
      · exact ends_pure.2 (hclose _ s hlone.used rfl
          (by simp [Letters.reconcile, World.letters, hi, hr]))
      · exact ends_xdel hs fun s₁ hused hl =>
          hclose _ s₁ hused hl (by simp [Letters.reconcile, World.letters, hi, hr, hbig])
    | none =>
      refine ends_bind.2 (ends_request fun o ho => ⟨_, _, hlone.selectLogExists ho hbig, ?_⟩)
      show (system env P).Ends healthy p _ _ _
      cases hl : s.db.committed (.log fid) with
      | none =>
        exact ends_xdel hs fun s₁ hused hl' =>
          hclose _ s₁ hused hl' (by simp [Letters.reconcile, World.letters, hi, hl, hbig])
      | some row =>
        refine ends_bind.2 (ends_request fun o ho => ?_)
        obtain ⟨db, hex, hcom, hlone₁⟩ :=
          hlone.insertIndexNew ho env rid (by rw [hl]; rfl) hi
        refine ⟨_, _, hex, ends_bind.2 (ends_request fun o ho => ?_)⟩
        obtain ⟨db₂, hex₂, hcom₂, hlone₂⟩ := hlone₁.updateLogRouted ho env rid
          ((Function.update_of_ne (by simp) _ _).trans hl)
        refine ⟨_, _, hex₂, ends_insertAudit hlone₂ fun db₃ hcom₃ hused => ?_⟩
        refine hclose _ _ hused (letters_adopt hl rfl hcom₃) ?_
        simp [Letters.reconcile, World.letters, hi, hl, hbig]
  · obtain ⟨hused, hcom⟩ := hlone.fail
    refine ⟨.error .sql, _, ?_, hused, fun db' hcom' hquiet => ?_⟩
    · rw [World.exec, ho]
      exact hlone.queryFailure_error hbig _
    · have hsame : ∀ k, db'.committed k = s.db.committed k := congrFun (hcom'.trans hcom)
      exact hclose s.letters _ (hquiet.lone _).used (letters_eq rfl (fun _ => hsame _) fun _ => hsame _)
        (if_neg hbig)

/-! ### Walks -/

open Letters (handled)

/-- The program does the given steps, up to the first one that raises. -/
def Walks (env : Env) (p : P) (m : Program Unit) (xs : List (Option (Option Step))) (s : World P) :
    Prop :=
  (system env P).Ends healthy p m (fun r s' => (r = .ok () ↔ ∀ x ∈ xs, x.isSome) ∧
    Leaves ((handled xs).foldl Letters.reconcile s.letters) s') s

theorem Walks.bind {m : Program Unit} {f : Unit → Program Unit}
    {xs ys : List (Option (Option Step))} (h : Walks env p m xs s)
    (hf : ∀ s' : World P, Leaves ((handled xs).foldl Letters.reconcile s.letters) s' →
      Walks env p (f ()) ys s') : Walks env p (m.bind f) (xs ++ ys) s := by
  refine ends_bind.2 (h.mono fun r s₁ ⟨hr, hl⟩ => ?_)
  rcases r with e | u
  · have hraise : none ∈ xs := by
      by_contra hno
      have hall : ∀ x ∈ xs, x.isSome := fun x hx => by
        cases x with
        | none => exact absurd hx hno
        | some => rfl
      cases hr.2 hall
    refine ⟨⟨nofun, fun hall => ?_⟩, ?_⟩
    · cases hall none (List.mem_append_left _ hraise)
    · rwa [Letters.handled_append_of_none hraise]
  · have hall := hr.1 rfl
    refine (hf s₁ hl).mono fun r s₂ ⟨hr', hl'⟩ => ⟨?_, ?_⟩
    · rw [hr', List.forall_mem_append]
      exact ⟨fun h => ⟨hall, h⟩, fun h => h.2⟩
    · rwa [Letters.handled_append hall, List.foldl_append, ← hl.letters]

/-- An entry is reconciled, if it can be read. -/
theorem walks_reconcileFields (hs : s.Quiet) (n : String) (e : StreamId × RawFields) :
    Walks env p (reconcileFields env n e) [Letters.stepOf env n e] s := by
  rw [reconcileFields, Letters.stepOf, failureOf]
  cases decodeFields e.2 with
  | none => exact ⟨by simp, hs, rfl⟩
  | some fields =>
    dsimp only
    cases fields.lookup "failure_id" with
    | none => exact ⟨by simp, hs, rfl⟩
    | some fidRaw =>
      dsimp only
      cases env.parseInt fidRaw with
      | none => exact ⟨by simp, hs, rfl⟩
      | some fid =>
        refine (ends_reconcilePass4Entry hs n e.1 fid).mono ?_
        rintro r s' ⟨rfl, hl⟩
        exact ⟨by simp, hl⟩

theorem walks_forEach (env : Env) (p : P) (hs : s.Quiet) (n : String) (es : List (StreamId × RawFields)) :
    Walks env p (.forEach (reconcileFields env n) es) (es.map (Letters.stepOf env n)) s := by
  induction es generalizing s with
  | nil => exact ⟨by simp, hs, rfl⟩
  | cons e es ih => exact (walks_reconcileFields hs n e).bind fun s' hl => ih hl.quiet

variable {window : ℕ}

/-- A stream is walked through. -/
theorem walks_reconcileStream (hs : s.Quiet) (hwindow : 0 < window) (n : String) :
    Walks env p (reconcileStream env window n) (s.letters.steps env window n) s := by
  refine ends_bind.2 (ends_tryCatch.2 (ends_bind.2 (ends_request fun o ho => ?_)))
  rw [Letters.steps]
  cases hst : s.streams (deadletterStream n) with
  | none =>
    have hnew : s.letters.newest window n = [] := by
      simp [Letters.newest, World.letters, AslanCore.Streams.get, hst, Stream.empty]
    refine ⟨_, _, xrevrange_none ho hst window, ?_⟩
    rw [hnew, if_neg (by simp [Unreadable])]
    exact walks_forEach env p hs n []
  | some st =>
    have hnew : s.letters.newest window n = st.revRange window := by
      rw [Letters.newest, World.letters, Stream.revRange]
      simp [AslanCore.Streams.get, hst]
    refine ⟨_, _, xrevrange_some ho hst hwindow.ne', ?_⟩
    rw [hnew, World.reply]
    by_cases hun : Unreadable env (st.revRange window)
    · rw [if_pos hun, if_pos (by exact hun)]
      exact ⟨by simp, hs, rfl⟩
    · rw [if_neg hun, if_neg (by exact hun)]
      exact walks_forEach env p hs n _

/-- The streams are walked through, one by one: reconciling the entries of one of them leaves
    the others alone. -/
theorem walks_forEach_stream (env : Env) (p : P) (hs : s.Quiet) (hwindow : 0 < window) {names : List String}
    (hnames : names.Nodup) : Walks env p (.forEach (reconcileStream env window) names)
      (names.flatMap (s.letters.steps env window)) s := by
  induction names generalizing s with
  | nil => exact ⟨by simp, hs, rfl⟩
  | cons n names ih =>
    obtain ⟨hn, hnames⟩ := List.nodup_cons.1 hnames
    rw [List.flatMap_cons]
    refine (walks_reconcileStream hs hwindow n).bind fun s' hl => ?_
    have hsteps : names.flatMap (s.letters.steps env window) =
        names.flatMap (s'.letters.steps env window) := by
      refine List.flatMap_congr fun m hm => ?_
      have hentries : s'.letters.entries m = s.letters.entries m := by
        rw [hl.letters]
        refine Letters.entries_foldl_of_ne _ fun q hq => ?_
        have hq' : q ∈ s.letters.walk env window [n] := by
          rwa [Letters.walk, List.flatMap_singleton]
        rw [List.mem_singleton.1 (Letters.mem_walk hq').1]
        exact fun hmn => hn (hmn ▸ hm)
      rw [Letters.steps, Letters.steps, Letters.newest, Letters.newest, hentries]
    rw [hsteps]
    exact ih hl.quiet hnames

/-- The streams of the failures in the log, in the order of the pass. -/
def World.walkNames (env : Env) (s : World P) : List String :=
  ((s.failureIds.filterMap s.letters.stream).dedup).mergeSort env.collate

theorem ends_pass4 (env : Env) (p : P) (hs : s.Quiet) (hwindow : 0 < window) :
    (system env P).Ends healthy p (pass4StreamToIndexDefenseInDepth env window)
      (fun _ s' => Leaves
        ((s.letters.walk env window (s.walkNames env)).foldl Letters.reconcile s.letters) s') s := by
  have hnames : s.streamNames (p, .main) = (s.failureIds.filterMap s.letters.stream).dedup := by
    simp only [streamNames, hs.idle.view]
    rfl
  refine ends_bind.2 (ends_withSession (ends_request fun o ho =>
    ⟨_, _, (hs.lone _).selectStreams ho, (hs.lone _).used, fun db hcom hquiet => ?_⟩))
  have hl : ({ s with db := db } : World P).letters = s.letters :=
    letters_eq rfl (fun _ => congrFun hcom _) fun _ => congrFun hcom _
  have hnodup : (s.walkNames env).Nodup :=
    (List.mergeSort_perm _ _).nodup_iff.2 (List.nodup_dedup _)
  have hwalk := walks_forEach_stream env p hquiet hwindow hnodup
  rw [hl] at hwalk
  rw [hnames]
  exact hwalk.mono fun r s' h => hl ▸ h.2

/-! ### What is kept -/

namespace Letters

variable (env : Env) (window : ℕ) (names : List String) (l : Letters) (fid : ℤ) (n : String)

/-- The failure is in the log, and one of the newest entries of its stream carries it. -/
def IsRecent : Prop := l.stream fid = some n ∧ ∃ e ∈ l.newest window n, Carries env fid e

/-- The failure is indexed and routed, and an entry of its stream carries it. -/
def Keeps : Prop :=
  (l.index fid).isSome ∧ l.routed fid = true ∧ ∃ e ∈ l.entries n, Carries env fid e

/-- The failure is indexed, and then it is routed, or an entry of it is walked through. An entry
    of its stream carries it that is the one indexed, or else the first one walked through, or
    that is not walked through. -/
def Recoverable : Prop := ∃ rid, l.canonical (l.walk env window names) fid = some rid ∧
  (l.index fid = none ∨ l.routed fid = true) ∧
  ∃ e ∈ l.entries n, Carries env fid e ∧
    (e.1 = rid ∨ ⟨n, e.1, fid⟩ ∉ l.walk env window names)

variable {env window names l fid n}

/-- What is kept after the walk is what was recoverable before it. -/
theorem keeps_foldl_iff (hbig : IsBigint fid) (hstream : l.stream fid = some n)
    (hnodup : ((l.entries n).map (·.1)).Nodup) :
    Keeps env ((l.walk env window names).foldl reconcile l) fid n ↔
      l.Recoverable env window names fid n := by
  have hsome : (l.stream fid).isSome := by rw [hstream]; rfl
  -- The entries of an identifier are the same, and so are their failures.
  have hone : ∀ e ∈ l.entries n, Carries env fid e → ∀ q ∈ l.walk env window names,
      q.streamName = n → q.rid = e.1 → q.failureId = fid := by
    rintro ⟨rid, f⟩ he hcarries q hq rfl rfl
    obtain ⟨-, f', hf', hcarries'⟩ := mem_walk hq
    have hmem : (q.rid, f') ∈ l.entries q.streamName :=
      List.mem_reverse.1 (List.mem_of_mem_take hf')
    cases List.inj_on_of_nodup_map hnodup he hmem rfl
    exact Option.some.inj (Option.some.inj (hcarries'.symm.trans hcarries))
  rw [Keeps, Recoverable, index_foldl l hbig hsome, routed_foldl l hbig hsome]
  constructor
  · rintro ⟨hindex, hrouted, ⟨rid', f⟩, he, hcarries⟩
    obtain ⟨rid, hrid⟩ := Option.isSome_iff_exists.1 hindex
    have hmem := l.entries_foldl_subset n _ he
    refine ⟨rid, hrid, ?_, (rid', f), hmem, hcarries, ?_⟩
    · cases hi : l.index fid with
      | none => exact .inl rfl
      | some r => exact .inr (by simpa [hi] using hrouted)
    · by_cases hq : ⟨n, rid', fid⟩ ∈ l.walk env window names
      · have h := ((mem_entries_foldl l hbig hsome (hone _ hmem hcarries)).1 he).2 hq
        exact .inl (Option.some.inj (h.symm.trans hrid))
      · exact .inr hq
  · rintro ⟨rid, hrid, hrouted, ⟨rid', f⟩, he, hcarries, hkeep⟩
    refine ⟨by rw [hrid]; rfl, ?_, (rid', f), ?_, hcarries⟩
    · rcases hrouted with h | h <;> simp [h, hrid]
    · refine (mem_entries_foldl l hbig hsome (hone _ he hcarries)).2 ⟨he, fun hq => ?_⟩
      rw [hrid, hkeep.resolve_right fun h => h hq]

end Letters

/-- Without a window, the pass ends too. -/
theorem ends_pass4_zero (hs : s.Quiet) : (system env P).Ends healthy p
    (pass4StreamToIndexDefenseInDepth env 0) (fun _ _ => True) s := by
  refine ends_bind.2 (ends_withSession (ends_request fun o ho =>
    ⟨_, _, (hs.lone _).selectStreams ho, (hs.lone _).used, fun db _ _ => ?_⟩))
  refine ends_forEach (fun _ _ => True) (fun _ _ => trivial) (fun n _ s' _ => ?_) trivial
  refine ends_bind.2 (ends_tryCatch.2 (ends_bind.2 (ends_request fun o ho => ?_)))
  cases hst : s'.streams (deadletterStream n) with
  | none => exact ⟨_, _, xrevrange_none ho hst 0, trivial⟩
  | some st => exact ⟨_, _, xrevrange_zero ho hst, trivial⟩

/-- The pass keeps the failures of the log that one of the newest entries of their streams
    carries. -/
def KeepsLetters (env : Env) (window : ℕ) (p : P) (s : World P) : Prop :=
  (∃ r s', (system env P).Runs healthy p (pass4StreamToIndexDefenseInDepth env window) s r s') ∧
    ∀ r s', (system env P).Runs healthy p (pass4StreamToIndexDefenseInDepth env window) s r s' →
      ∀ fid n, s.letters.IsRecent env window fid n → s'.letters.Keeps env fid n

/-- The pass keeps a failure exactly when it is recoverable: it is not when the pass raises before
    it comes to an entry of it, when the entry that is indexed is gone, or is one of another
    stream, and all that are left are walked through, or when it is indexed without being
    routed. -/
theorem keepsLetters_iff (hs : s.Quiet) : KeepsLetters env window p s ↔
    ∀ fid n, s.letters.IsRecent env window fid n →
      s.letters.Recoverable env window (s.walkNames env) fid n := by
  rcases Nat.eq_zero_or_pos window with rfl | hwindow
  · have hno : ∀ fid n, ¬s.letters.IsRecent env 0 fid n := by
      rintro fid n ⟨-, e, he, -⟩
      simp [Letters.newest] at he
    exact ⟨fun _ fid n h => absurd h (hno fid n), fun _ => ⟨(ends_pass4_zero hs).exists_runs,
      fun r s' _ fid n h => absurd h (hno fid n)⟩⟩
  · have hkeep : ∀ fid n, s.letters.IsRecent env window fid n →
        (Letters.Keeps env ((s.letters.walk env window (s.walkNames env)).foldl Letters.reconcile
          s.letters) fid n ↔ s.letters.Recoverable env window (s.walkNames env) fid n) := by
      rintro fid n ⟨hstream, -⟩
      have hlog : (s.db.committed (.log fid)).isSome := by
        rw [World.letters, Option.map_eq_some_iff] at hstream
        obtain ⟨row, hrow, -⟩ := hstream
        rw [hrow]
        rfl
      obtain ⟨h0, hlt⟩ := hs.sound.log_lt fid hlog
      have hbig := hs.bigint
      refine Letters.keeps_foldl_iff ⟨by omega, by omega⟩ hstream ?_
      exact List.pairwise_map.2 (((s.streams.get (deadletterStream n)).sorted.sublist
        (s.streams.get (deadletterStream n)).sublist).imp fun h => h.ne)
    have hends := ends_pass4 env p hs hwindow
    constructor
    · rintro ⟨⟨r, s', hr⟩, h⟩ fid n hrecent
      have hk := h r s' hr fid n hrecent
      rw [(hends.of_runs hr).letters] at hk
      exact (hkeep fid n hrecent).1 hk
    · refine fun h => ⟨hends.exists_runs, fun r s' hr fid n hrecent => ?_⟩
      rw [(hends.of_runs hr).letters]
      exact (hkeep fid n hrecent).2 (h fid n hrecent)

/-! ### An entry that is not a number -/

/-- Two dead letters. The failure of the older one is 0. -/
def twoLetters (v : String) : Stream RawFields where
  entries := [(.ofMs 1, encodeFields [("failure_id", "0")]),
    (.ofMs 2, encodeFields [("failure_id", v)])]
  appended := [(.ofMs 1, encodeFields [("failure_id", "0")]),
    (.ofMs 2, encodeFields [("failure_id", v)])]
  sublist := .refl _
  sorted := List.pairwise_pair.2
    (show StreamId.ofMs 1 < .ofMs 2 from StreamId.lt_iff.2 (by decide))

/-- A failure in the log that is not routed yet, and its stream. -/
def lettersWorld (v : String) : World Unit :=
  .ofRows 1
    (fun n => if n = deadletterStream "aslan.kap.filings.new" then some (twoLetters v) else none)
    fun
    | .log fid => if fid = 0 then some ⟨"aslan.kap.filings.new", none, none⟩ else none
    | _ => none

theorem quiet_lettersWorld (v : String) : (lettersWorld v).Quiet := by
  refine ⟨Database.idle_ofRows _, show 1 ≤ 2 ^ 63 by decide, fun fid h => ?_, nofun, nofun⟩
  by_cases hf : fid = 0
  · subst hf
    exact ⟨le_rfl, Int.zero_lt_one⟩
  · rw [show (lettersWorld v).db.committed (.log fid) = none from if_neg hf] at h
    cases h

theorem failureOf_encodeFields (env : Env) (v : String) :
    failureOf env (encodeFields [("failure_id", v)]) = (env.parseInt v).map some := by
  have hdec : decodeFields (encodeFields [("failure_id", v)]) = some [("failure_id", v)] := by
    show [("failure_id".toUTF8, v.toUTF8)].mapM decodeField = _
    rw [List.mapM_cons, decodeField_toUTF8]
    rfl
  rw [failureOf, hdec]
  rfl

/-- What the pass does with the two dead letters, the newer one first. -/
theorem walk_lettersWorld (v : String) :
    (lettersWorld v).letters.walk plainEnv 10000 ((lettersWorld v).walkNames plainEnv) =
      Letters.handled [(plainEnv.parseInt v).map fun fid =>
        some ⟨"aslan.kap.filings.new", .ofMs 2, fid⟩,
        some (some ⟨"aslan.kap.filings.new", .ofMs 1, 0⟩)] := by
  have hnames : (lettersWorld v).walkNames plainEnv = ["aslan.kap.filings.new"] :=
    List.mergeSort_singleton _
  have hentries : (lettersWorld v).letters.newest 10000 "aslan.kap.filings.new" =
      [(.ofMs 2, encodeFields [("failure_id", v)]), (.ofMs 1, encodeFields [("failure_id", "0")])] :=
    rfl
  have hread : ¬Unreadable plainEnv [(StreamId.ofMs 2, encodeFields [("failure_id", v)]),
      (.ofMs 1, encodeFields [("failure_id", "0")])] := by
    simp [Unreadable, encodeFields, -String.toUTF8_eq_toByteArray, decodeField_toUTF8]
  rw [hnames, Letters.walk, List.flatMap_singleton, Letters.steps, hentries, if_neg hread]
  simp only [List.map_cons, List.map_nil, Letters.stepOf, failureOf_encodeFields, Option.map_map]
  rfl

theorem isRecent_lettersWorld (v : String) : (lettersWorld v).letters.IsRecent plainEnv 10000 0
    "aslan.kap.filings.new" := by
  refine ⟨rfl, (.ofMs 1, encodeFields [("failure_id", "0")]), ?_, failureOf_encodeFields _ _⟩
  rw [show (lettersWorld v).letters.newest 10000 "aslan.kap.filings.new" =
      [(.ofMs 2, encodeFields [("failure_id", v)]), (.ofMs 1, encodeFields [("failure_id", "0")])]
    from rfl]
  exact List.mem_cons_of_mem _ List.mem_cons_self

/-- Two dead letters of the same failure: one is kept. -/
theorem keepsLetters_lettersWorld : KeepsLetters plainEnv 10000 () (lettersWorld "0") := by
  refine (keepsLetters_iff (quiet_lettersWorld "0")).2 fun fid n hrecent => ?_
  obtain rfl : fid = 0 := by
    by_contra hf
    have hnone : (lettersWorld "0").letters.stream fid = none :=
      congrArg (Option.map _) (if_neg hf)
    cases hnone.symm.trans hrecent.1
  obtain rfl : "aslan.kap.filings.new" = n := Option.some.inj hrecent.1
  refine ⟨.ofMs 2, ?_, .inl rfl, (.ofMs 2, encodeFields [("failure_id", "0")]), ?_,
    failureOf_encodeFields _ _, .inl rfl⟩
  · rw [walk_lettersWorld]
    rfl
  · exact List.mem_cons_of_mem _ List.mem_cons_self

/-- Behind an entry whose failure is not a number, the failure is not indexed. -/
theorem not_keepsLetters_lettersWorld : ¬KeepsLetters plainEnv 10000 () (lettersWorld "x") := by
  rintro ⟨⟨r, s', hr⟩, h⟩
  have hl := ((ends_pass4 plainEnv () (quiet_lettersWorld "x") (by decide)).of_runs hr).letters
  rw [walk_lettersWorld] at hl
  have hindex := (h r s' hr 0 _ (isRecent_lettersWorld "x")).1
  rw [hl] at hindex
  cases hindex

end Deadletter

end AslanCore
