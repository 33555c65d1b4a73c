import AslanCore.Deadletter.Alone

/-!
# The verification of the index

What repeating the third pass of the janitor achieves, on stores that no other process uses: an
index row whose entry is missing should be recorded once, and no other one.

* `ends_verifyIndexRow`: what is recorded of a row;
* `ends_pass3`: what a pass records: it has looked at the first 1000 rows only, and so have all
  the passes that follow (`ends_repeats`);
* `covers_iff`: so the rows are covered exactly when the missing ones that are not recorded yet
  are among them.
-/

set_option linter.unusedSectionVars false

namespace AslanCore

namespace Deadletter

open AslanCore.System Outline World

namespace World

variable {P : Type} [DecidableEq P] (s : World P)

/-- The failures that are indexed. -/
def indexed : List ℤ := s.failureIds.filter fun fid => (s.db.committed (.index fid)).isSome

/-- The failure is indexed, and the entry that the index refers to is missing. -/
def Missing (fid : ℤ) : Prop := ∃ rid row, s.db.committed (.index fid) = some rid ∧
  s.db.committed (.log fid) = some row ∧
  ¬(s.streams.get (deadletterStream row.streamName)).Has rid

/-- How often the missing entry of a failure is recorded. -/
def recorded (fid : ℤ) : ℕ := (List.range s.nextAuditId).countP fun n =>
  (s.db.committed (.audit n)).any (IsAudit orphanedInRedis fid)

/-- Every index row whose entry is missing is recorded once, and no other one. -/
def Covered : Prop := ∀ fid, (s.db.committed (.index fid)).isSome →
  (s.Missing fid → s.recorded fid = 1) ∧ (¬s.Missing fid → s.recorded fid = 0)

/-- The stores are the same, up to the audit events. -/
structure SameButAudits (s s' : World P) : Prop where
  nextFailureId : s'.nextFailureId = s.nextFailureId
  streams : s'.streams = s.streams
  log : ∀ fid, s'.db.committed (.log fid) = s.db.committed (.log fid)
  index : ∀ fid, s'.db.committed (.index fid) = s.db.committed (.index fid)

variable {s} {s' s'' : World P}

theorem SameButAudits.refl : SameButAudits s s := ⟨rfl, rfl, fun _ => rfl, fun _ => rfl⟩

theorem SameButAudits.trans (h : SameButAudits s s') (h' : SameButAudits s' s'') :
    SameButAudits s s'' :=
  ⟨h'.nextFailureId.trans h.nextFailureId, h'.streams.trans h.streams,
    fun fid => (h'.log fid).trans (h.log fid), fun fid => (h'.index fid).trans (h.index fid)⟩

theorem SameButAudits.missing_iff (h : SameButAudits s s') {fid : ℤ} :
    s'.Missing fid ↔ s.Missing fid := by
  simp only [Missing, h.index, h.log, h.streams]

theorem SameButAudits.indexed_eq (h : SameButAudits s s') : s'.indexed = s.indexed := by
  simp only [indexed, failureIds, h.nextFailureId, h.index]

theorem mem_indexed (hs : s.Quiet) {fid : ℤ} :
    fid ∈ s.indexed ↔ (s.db.committed (.index fid)).isSome := by
  refine ⟨fun h => (List.mem_filter.1 h).2, fun h => List.mem_filter.2 ⟨?_, h⟩⟩
  obtain ⟨h0, hlt⟩ := hs.sound.log_lt fid (hs.sound.index_log fid h)
  exact List.mem_map.2 ⟨fid.toNat, List.mem_range.2 (by omega), by simp [h0]⟩

theorem nodup_indexed : s.indexed.Nodup :=
  (List.Nodup.map Int.ofNat_injective List.nodup_range).filter _

/-- The pages of the index are those of the failures that are indexed. -/
theorem indexRows_map (hs : s.Quiet) (t : P × Role) :
    (s.indexRows t).map (·.1) = s.indexed ∧ ∀ row ∈ s.indexRows t,
      s.db.committed (.index row.1) = some row.2.1 ∧
      ∃ l, s.db.committed (.log row.1) = some l ∧ l.streamName = row.2.2 := by
  simp only [indexRows, indexed, hs.idle.view]
  constructor
  · rw [List.map_filterMap]
    generalize s.failureIds = fids
    induction fids with
    | nil => rfl
    | cons fid fids ih =>
      rw [List.filterMap_cons, List.filter_cons, ih]
      cases hi : s.db.committed (.index fid) with
      | none => rfl
      | some rid =>
        obtain ⟨row, hl⟩ := Option.isSome_iff_exists.1 (hs.sound.index_log fid (by simp [hi]))
        simp [hl]
  · rintro row hrow
    obtain ⟨fid, -, hf⟩ := List.mem_filterMap.1 hrow
    obtain ⟨rid, hi, hf⟩ := Option.bind_eq_some_iff.1 hf
    obtain ⟨l, hl, hf⟩ := Option.bind_eq_some_iff.1 hf
    cases hf
    exact ⟨hi, l, hl, rfl⟩

theorem any_audits (hs : s.Quiet) (t : P × Role) (fid : ℤ) :
    (s.audits t).any (IsAudit orphanedInRedis fid) = true ↔ s.recorded fid ≠ 0 := by
  rw [audits, hs.idle.view, recorded, Nat.ne_zero_iff_zero_lt, List.countP_pos_iff]
  simp only [List.any_eq_true, List.mem_filterMap, Option.any_eq_true]
  constructor
  · rintro ⟨e, ⟨n, hn, he⟩, h⟩
    exact ⟨n, hn, e, he, h⟩
  · rintro ⟨n, hn, e, he, h⟩
    exact ⟨e, ⟨n, hn, he⟩, h⟩

/-- What is recorded after an audit event is written. -/
theorem recorded_update {db : Database (P × Role) Key RowOf} {e : AuditEvent} {fid : ℤ}
    (hdb : db.committed = Function.update s.db.committed (.audit s.nextAuditId) (some e)) :
    { s with nextAuditId := s.nextAuditId + 1, db := db : World P }.recorded fid =
      s.recorded fid + if IsAudit orphanedInRedis fid e then 1 else 0 := by
  rw [recorded, recorded, List.range_succ, List.countP_append]
  congr 1
  · refine List.countP_congr fun n hn => ?_
    have hne : Key.audit n ≠ .audit s.nextAuditId := by
      simpa using (List.mem_range.1 hn).ne
    simp only [hdb, Function.update_of_ne hne]
  · simp [hdb, List.countP_cons]

end World

variable {P : Type} [DecidableEq P] {env : Env} {p : P} {s : World P}

/-- The entries with an identifier: there is one if it is present. -/
theorem range_self {st : Stream RawFields} {rid : StreamId} :
    st.range rid rid st.entries.length = [] ↔ ¬st.Has rid := by
  rw [Stream.range, List.take_of_length_le (List.length_filter_le _ _), List.filter_eq_nil_iff]
  constructor
  · rintro h ⟨f, hf⟩
    simpa using h _ hf
  · rintro h ⟨i, f⟩ hf
    have hne : i ≠ rid := fun hi => h ⟨f, hi ▸ hf⟩
    simpa using fun hle hge => hne (le_antisymm hge hle)

/-- What the pass may do to the stores: it records some failures. -/
structure Records (s s' : World P) (r : Except Exn Unit) (fids : ℤ → Prop) : Prop where
  ok : r = .ok ()
  quiet : s'.Quiet
  same : SameButAudits s s'
  recorded : ∀ fid, (fids fid → s'.recorded fid = s.recorded fid + 1) ∧
    (¬fids fid → s'.recorded fid = s.recorded fid)

/-- A row is recorded if its entry is missing, and it is not recorded yet. -/
theorem ends_verifyIndexRow (hs : s.Quiet) {fid : ℤ} {rid : StreamId} {row : LogRow}
    (hi : s.db.committed (.index fid) = some rid) (hl : s.db.committed (.log fid) = some row) :
    (system env P).Ends healthy p
      (withSession .main (logged (verifyIndexRow (fid, rid, row.streamName))))
      (fun r s' => Records s s' r fun f => f = fid ∧ s.Missing fid ∧ s.recorded fid = 0) s := by
  have hlone := hs.lone (p, .main)
  have hmissing : s.Missing fid ↔
      ¬(s.streams.get (deadletterStream row.streamName)).Has rid := by
    constructor
    · rintro ⟨rid', row', hi', hl', hm⟩
      cases hi.symm.trans hi'
      cases hl.symm.trans hl'
      exact hm
    · exact fun hm => ⟨rid, row, hi, hl, hm⟩
  -- Nothing is recorded, and the session is closed.
  have hnone : (s.Missing fid → s.recorded fid ≠ 0) → ∀ db : Database (P × Role) Key RowOf,
      db.committed = s.db.committed → { s with db := db : World P }.Quiet →
      Records s { s with db := db } (.ok ())
        fun f => f = fid ∧ s.Missing fid ∧ s.recorded fid = 0 := by
    intro hno db hcom hquiet
    refine ⟨rfl, hquiet, ⟨rfl, rfl, fun f => congrFun hcom _, fun f => congrFun hcom _⟩,
      fun f => ⟨fun ⟨_, hm, h0⟩ => absurd h0 (hno hm), fun _ => ?_⟩⟩
    simp only [World.recorded, hcom]
  refine ends_withSession (ends_logged ?_)
  refine ends_bind.2 (ends_request fun o ho => ⟨_, _, xrange ho _ _ _ none, ?_⟩)
  rw [Option.getD_none]
  set entries := (s.streams.get (deadletterStream row.streamName)).range rid rid
    (s.streams.get (deadletterStream row.streamName)).entries.length with hentries
  rw [reply]
  split_ifs with hdec
  · -- The client raises: there is an entry.
    obtain ⟨-, e, he, -⟩ := hdec
    have hhas : ¬s.Missing fid := by
      rw [hmissing, ← range_self, ← hentries]
      exact List.ne_nil_of_mem he
    exact ⟨hlone.used, fun db hcom hquiet => ⟨(hquiet.lone _).used, fun db' hcom' hquiet' =>
      hnone (fun hm => absurd hm hhas) db' (hcom'.trans hcom) hquiet'⟩⟩
  · simp only [outcome]
    rcases hentries' : entries with _ | ⟨e, es⟩
    · have hm : s.Missing fid := by rw [hmissing, ← range_self, ← hentries, hentries']
      refine ends_bind.2 (ends_request fun o ho => ⟨_, _, hlone.existsAudit ho _ _, ?_⟩)
      have hany := any_audits hs (p, .main) fid
      simp only [outcome]
      split_ifs with haudit
      · exact ⟨hlone.used, hnone fun _ => hany.1 haudit⟩
      · have h0 : s.recorded fid = 0 := by
          by_contra hne
          exact haudit (hany.2 hne)
        refine ends_insertAudit hlone fun db hcom hused => ⟨hused, fun db' hcom' hquiet => ?_⟩
        have hdb := hcom'.trans hcom
        refine ⟨rfl, hquiet, ⟨rfl, rfl, fun f => ?_, fun f => ?_⟩, fun f => ?_⟩
        · exact (congrFun hdb _).trans (Function.update_of_ne (by simp) _ _)
        · exact (congrFun hdb _).trans (Function.update_of_ne (by simp) _ _)
        · rw [recorded_update hdb]
          have haud : IsAudit orphanedInRedis f
              { orphanedInRedisRecord fid rid row.streamName with actor := janitorActor } ↔
              f = fid := by
            simp [IsAudit, orphanedInRedisRecord]
          rw [if_congr haud rfl rfl]
          constructor
          · rintro ⟨rfl, -⟩
            rw [if_pos rfl]
          · intro hf
            rw [if_neg fun hfid => hf ⟨hfid, hm, h0⟩, Nat.add_zero]
    · have hhas : ¬s.Missing fid := by
        rw [hmissing, ← range_self, ← hentries, hentries']
        exact List.cons_ne_nil _ _
      exact ⟨hlone.used, hnone fun hm => absurd hm hhas⟩

/-- A pass records the first rows whose entry is missing, and that are not recorded yet. -/
theorem ends_pass3 (hs : s.Quiet) :
    (system env P).Ends healthy p pass3IndexToStreamVerification
      (fun r s' => Records s s' r
        fun f => f ∈ s.indexed.take 1000 ∧ s.Missing f ∧ s.recorded f = 0) s := by
  obtain ⟨hmap, hrows⟩ := indexRows_map hs (p, .main)
  refine ends_bind.2 (ends_withSession (ends_request fun o ho =>
    ⟨_, _, (hs.lone _).selectIndexPage ho 1000, (hs.lone _).used, fun db hcom hquiet => ?_⟩))
  set rows := (s.indexRows (p, .main)).take 1000 with hpage
  have hpage' : rows.map (·.1) = s.indexed.take 1000 := by rw [hpage, List.map_take, hmap]
  have hnodup : (rows.map (·.1)).Nodup := by
    rw [hpage']
    exact nodup_indexed.sublist (List.take_sublist _ _)
  clear_value rows
  -- The rows that have been looked at are recorded.
  refine ends_forEach
    (fun rest s' => ∃ seen, seen ++ rest = rows ∧ Records s s' (.ok ())
      fun f => f ∈ seen.map (·.1) ∧ s.Missing f ∧ s.recorded f = 0) ?_ ?_
    ⟨[], rfl, rfl, hquiet, ⟨rfl, rfl, fun f => congrFun hcom _, fun f => congrFun hcom _⟩,
      fun f => ⟨fun hf => absurd hf.1 List.not_mem_nil, fun _ => ?_⟩⟩
  · rintro s' ⟨seen, hseen, hrec⟩
    rw [List.append_nil] at hseen
    rwa [← hpage', ← hseen]
  · rintro row rest s' ⟨seen, hseen, hrec⟩
    obtain ⟨fid, rid, streamName⟩ := row
    have hmem : (fid, rid, streamName) ∈ rows := by
      rw [← hseen]
      exact List.mem_append_right _ List.mem_cons_self
    rw [hpage] at hmem
    obtain ⟨hi, l, hl, hname⟩ := hrows _ (List.mem_of_mem_take hmem)
    rw [← show l.streamName = streamName from hname] at hseen ⊢
    have hfid : fid ∉ seen.map (·.1) := by
      rw [← hseen, List.map_append, List.map_cons] at hnodup
      exact fun hmem => (List.nodup_append.1 hnodup).2.2 _ hmem _ List.mem_cons_self rfl
    have hsame : s'.recorded fid = s.recorded fid := (hrec.recorded fid).2 fun h => hfid h.1
    refine (ends_verifyIndexRow hrec.quiet ((hrec.same.index fid).trans hi)
      ((hrec.same.log fid).trans hl)).mono ?_
    rintro r s'' ⟨rfl, hquiet', hsame', hrec'⟩
    rw [hrec.same.missing_iff, hsame] at hrec'
    refine ⟨seen ++ [(fid, rid, l.streamName)], by rw [List.append_assoc]; exact hseen, rfl,
      hquiet', hrec.same.trans hsame', fun f => ?_⟩
    obtain ⟨hin, hout⟩ := hrec.recorded f
    obtain ⟨hin', hout'⟩ := hrec' f
    rw [List.map_append, List.map_singleton, List.mem_append, List.mem_singleton]
    by_cases hf : f = fid
    · subst hf
      rw [hout fun h => hfid h.1] at hin' hout'
      exact ⟨fun h => hin' ⟨rfl, h.2⟩, fun h => hout' fun h' => h ⟨.inr rfl, h'.2⟩⟩
    · rw [hout' fun h => hf h.1]
      exact ⟨fun h => hin ⟨h.1.resolve_right hf, h.2⟩, fun h => hout fun h' => h ⟨.inl h'.1, h'.2⟩⟩
  · simp only [World.recorded, hcom]

/-- Repeating the pass records nothing more than the first one does. -/
theorem records_of_repeats (hs : s.Quiet) {n : ℕ} {s' : World P}
    (h : (system env P).Repeats healthy p .pass3 s n s') :
    Records s s' (.ok ())
      fun f => n ≠ 0 ∧ f ∈ s.indexed.take 1000 ∧ s.Missing f ∧ s.recorded f = 0 := by
  induction h with
  | zero => exact ⟨rfl, hs, .refl, fun f => ⟨fun hf => absurd rfl hf.1, fun _ => rfl⟩⟩
  | @succ n s' s'' r _ hr ih =>
    obtain ⟨-, hquiet, hsame, hrec⟩ := (ends_pass3 ih.quiet).of_runs hr
    refine ⟨rfl, hquiet, ih.same.trans hsame, fun f => ?_⟩
    obtain ⟨hin, hout⟩ := hrec f
    obtain ⟨hin', hout'⟩ := ih.recorded f
    rw [ih.same.indexed_eq, ih.same.missing_iff] at hin hout
    by_cases hf : f ∈ s.indexed.take 1000 ∧ s.Missing f ∧ s.recorded f = 0
    · refine ⟨fun _ => ?_, fun h => absurd ⟨n.succ_ne_zero, hf⟩ h⟩
      by_cases hn : n = 0
      · have h0 := hout' fun h => h.1 hn
        rw [hin ⟨hf.1, hf.2.1, h0.trans hf.2.2⟩, h0]
      · have h1 := hin' ⟨hn, hf⟩
        rw [hout fun h => by omega, h1]
    · have h0 := hout' fun h => hf h.2
      refine ⟨fun h => absurd h.2 hf, fun _ => ?_⟩
      rw [hout fun h => hf ⟨h.1, h.2.1, h0 ▸ h.2.2⟩, h0]

/-- Once the pass has been repeated often enough, the index is covered, and stays so. -/
def CoversIndex (env : Env) (p : P) (s : World P) : Prop :=
  ∃ n, ∀ m ≥ n, (∃ s', (system env P).Repeats healthy p .pass3 s m s') ∧
    ∀ s', (system env P).Repeats healthy p .pass3 s m s' → s'.Covered

theorem exists_repeats_pass3 (hs : s.Quiet) (n : ℕ) :
    ∃ s', (system env P).Repeats healthy p .pass3 s n s' := by
  obtain ⟨s', h, -⟩ := exists_repeats (S := system env P) (g := healthy) (p := p) (j := .pass3)
    (I := World.Quiet) (fun s hs => (ends_pass3 hs).mono fun r s' h => h.quiet) hs n
  exact ⟨s', h⟩

/-- The index is covered exactly when no row is recorded that should not, or twice, and the
    missing ones that are not recorded yet are among the first 1000 rows. -/
theorem covers_iff (hs : s.Quiet) : CoversIndex env p s ↔
    ∀ fid, (s.db.committed (.index fid)).isSome →
      (s.Missing fid →
        s.recorded fid = 1 ∨ s.recorded fid = 0 ∧ fid ∈ s.indexed.take 1000) ∧
      (¬s.Missing fid → s.recorded fid = 0) := by
  constructor
  · rintro ⟨n, hn⟩ fid hfid
    obtain ⟨⟨s', h⟩, hcov⟩ := hn (n + 1) n.le_succ
    obtain ⟨-, -, hsame, hrec⟩ := records_of_repeats hs h
    obtain ⟨hmiss, hpres⟩ := hcov s' h fid (by rwa [hsame.index])
    rw [hsame.missing_iff] at hmiss hpres
    obtain ⟨hin, hout⟩ := hrec fid
    refine ⟨fun hm => ?_, fun hm => ?_⟩
    · by_cases hf : fid ∈ s.indexed.take 1000 ∧ s.Missing fid ∧ s.recorded fid = 0
      · exact .inr ⟨hf.2.2, hf.1⟩
      · exact .inl ((hout fun h => hf h.2).symm.trans (hmiss hm))
    · exact (hout fun h => hm h.2.2.1).symm.trans (hpres hm)
  · refine fun hcond => ⟨1, fun m hm => ⟨exists_repeats_pass3 hs m, fun s' h fid hfid => ?_⟩⟩
    obtain ⟨-, -, hsame, hrec⟩ := records_of_repeats hs h
    rw [hsame.index] at hfid
    rw [hsame.missing_iff]
    obtain ⟨hmiss, hpres⟩ := hcond fid hfid
    obtain ⟨hin, hout⟩ := hrec fid
    refine ⟨fun hmis => ?_, fun hmis => (hout fun h => hmis h.2.2.1).trans (hpres hmis)⟩
    rcases hmiss hmis with h1 | ⟨h0, hpage⟩
    · exact (hout fun h => by omega).trans h1
    · rw [hin ⟨by omega, hpage, hmis, h0⟩, h0]

/-- The dead letters of `n` failures, after Redis has lost all of its streams. -/
def lostWorld (P : Type) [DecidableEq P] (n : ℕ) : World P :=
  .ofRows n (fun _ => none) fun
    | .log fid => if 0 ≤ fid ∧ fid < n then some ⟨"aslan.kap.filings.new", some 0, some (.ofMs 1)⟩
      else none
    | .index fid => if 0 ≤ fid ∧ fid < n then some (.ofMs 1) else none
    | _ => none

theorem quiet_lostWorld {n : ℕ} (hn : n ≤ 2 ^ 63) : (lostWorld P n).Quiet := by
  refine ⟨Database.idle_ofRows _, hn, fun fid h => ?_, fun fid h => ?_, nofun⟩
  · by_contra hne
    rw [show (lostWorld P n).db.committed (.log fid) = none from if_neg hne] at h
    cases h
  · by_cases hf : 0 ≤ fid ∧ fid < n
    · rw [show (lostWorld P n).db.committed (.log fid) = some _ from if_pos hf]
      rfl
    · rw [show (lostWorld P n).db.committed (.index fid) = none from if_neg hf] at h
      cases h

theorem missing_lostWorld {n : ℕ} {fid : ℤ} (hf : 0 ≤ fid ∧ fid < n) :
    (lostWorld P n).Missing fid :=
  ⟨_, _, if_pos hf, if_pos hf, fun ⟨_, h⟩ => absurd h List.not_mem_nil⟩

theorem indexed_lostWorld (n : ℕ) : (lostWorld P n).indexed = (List.range n).map Int.ofNat := by
  refine List.filter_eq_self.2 fun fid hfid => ?_
  obtain ⟨i, hi, rfl⟩ := List.mem_map.1 hfid
  have hlt : (i : ℤ) < n := by exact_mod_cast List.mem_range.1 hi
  simp [lostWorld, World.ofRows, Database.ofRows, hlt]

/-- A single missing entry is recorded. -/
theorem covers_lostWorld_one : CoversIndex plainEnv () (lostWorld Unit 1) := by
  refine (covers_iff (quiet_lostWorld (by decide))).2 fun fid hfid => ?_
  have hf : 0 ≤ fid ∧ fid < ((1 : ℕ) : ℤ) := by
    by_contra hne
    simp only [lostWorld, World.ofRows, Database.ofRows, if_neg hne] at hfid
    cases hfid
  obtain rfl : fid = 0 := by omega
  exact ⟨fun _ => .inr ⟨rfl, by decide⟩, fun h => absurd (missing_lostWorld hf) h⟩

/-- The last one of 1001 missing entries is never recorded. -/
theorem not_covers_lostWorld : ¬CoversIndex plainEnv () (lostWorld Unit 1001) := by
  rintro ⟨n, hn⟩
  obtain ⟨⟨s', h⟩, hcov⟩ := hn n le_rfl
  obtain ⟨-, -, hsame, hrec⟩ := records_of_repeats (quiet_lostWorld (by decide)) h
  have hf : (0 : ℤ) ≤ 1000 ∧ (1000 : ℤ) < ((1001 : ℕ) : ℤ) := by decide
  have hfid : (s'.db.committed (.index 1000)).isSome := by
    rw [hsame.index]
    simp [lostWorld, World.ofRows, Database.ofRows]
  have h1 := (hcov s' h 1000 hfid).1 (hsame.missing_iff.2 (missing_lostWorld hf))
  have h0 := (hrec 1000).2 fun hmem => by
    have hpage := hmem.2.1
    rw [indexed_lostWorld, ← List.map_take, List.take_range] at hpage
    obtain ⟨i, hi, hi'⟩ := List.mem_map.1 hpage
    have hlt := List.mem_range.1 hi
    simp only [Int.ofNat_eq_natCast] at hi'
    omega
  rw [h1] at h0
  exact absurd h0 (by decide)

end Deadletter

end AslanCore
