import AslanCore.Ingestion.Watermarks

/-!
# The chain of the cursors

A session that has written a row records the change, before it does anything else. So what is to be
seen is that the record says what the write has met. For `advance` it does, as the cursor that is
met is compared with the one that is expected. For `set` it does if the cursor that is met is the
one that has been read (`meetsRead`), and this is all that is missing for the records to be a chain
(`mutations_chained_of_reach`).
-/

namespace AslanCore.Ingestion

open Journal

variable {P : Type} [DecidableEq P] {auditStrict : Bool} {env : WatermarkEnv} {k : WatermarkKey}
  {p : P}

/-- The record says what the write has met, and what it has left. -/
def Tells (_ : WatermarkKey) (e : WatermarkEvent) (w : Overwrite WatermarkRow) : Prop :=
  e.cursorBefore = w.met.map (·.cursorValue) ∧ e.cursorAfter = some w.row.cursorValue

/-- What `advance` returns: whether it has met the cursor that it expects. -/
def Swapped (p : P) : WatermarkJob → Except WatermarkError WatermarkAnswer → WatermarkJournal P → Prop
  | .advance _ k _ expectedCursor, .ok (.advanced success), s =>
    success = true ↔ metCursor s p k = expectedCursor
  | _, _, _ => True

/-- The outline of the calls. -/
def cursorOutline (P : Type) [DecidableEq P] :
    Outline WatermarkCmd WatermarkError WatermarkAnswer P WatermarkJob (WatermarkJournal P) :=
  outline WatermarkEvent.changes Tells Swapped

theorem swapped_frame {j : WatermarkJob} {r : Except WatermarkError WatermarkAnswer}
    {s s' : WatermarkJournal P} (hframe : Frame p s s') (h : Swapped p j r s) : Swapped p j r s' := by
  unfold Swapped at h ⊢
  split at h
  · rw [metCursor, hframe.seen]
    exact h
  · trivial

theorem targetPk_injective : Function.Injective WatermarkKey.targetPk := by
  rintro ⟨sourceId, jobName, key⟩ ⟨sourceId', jobName', key'⟩ h
  simpa [WatermarkKey.targetPk] using h

/-- The record of a change is about the key that it names. -/
theorem changes_eq {e : WatermarkEvent} (hoperation : e.operation ∈ mutationOperations)
    (htarget : e.targetPk = k.targetPk) (k' : WatermarkKey) : e.changes k' = decide (k' = k) := by
  rw [WatermarkEvent.changes, htarget, decide_eq_decide]
  constructor
  · rintro ⟨_, hk⟩
    exact (targetPk_injective hk).symm
  · rintro rfl
    exact ⟨hoperation, rfl⟩

/-- What a call has recorded when it ends, and what its last statement on the key has met. -/
structure Ends (p : P) (k : WatermarkKey) (met : Option WatermarkRow) (s : WatermarkJournal P) :
    Prop where
  recorded : Recorded WatermarkEvent.changes Tells p s
  seen : s.seen p k = met

theorem Ends.frame {met : Option WatermarkRow} {s s' : WatermarkJournal P} (h : Ends p k met s)
    (hframe : Frame p s s') : Ends p k met s' :=
  ⟨h.recorded.frame hframe, (congrFun hframe.seen k).trans h.seen⟩

theorem record_eq_some (henv : ¬(env.auditStrict ∧ env.actor.isNone)) (r : AuditRecord) :
    ∃ e, AuditEvent.record env.auditStrict env.actor r = some e := by
  unfold AuditEvent.record
  rcases hactor : env.actor with _ | actor
  · rw [hactor] at henv
    exact ⟨_, if_neg fun hstrict => henv ⟨hstrict, rfl⟩⟩
  · exact ⟨_, rfl⟩

section Calls

variable {operation : String} {before after : Option WatermarkImage}
  {metadata : List (String × AuditValue)} {met : Option WatermarkRow} {s : WatermarkJournal P}
  {Q : Except WatermarkError Unit → WatermarkJournal P → Prop}

/-- A record is added, if an actor is set, or need not be. -/
theorem safe_auditRecord (henv : ¬(env.auditStrict ∧ env.actor.isNone))
    (a : WatermarkJournal P → Prop) (ha : ∀ s s', Frame p s s' → a s → a s') (h : a s)
    (herror : ∀ e s', Clear p s' → Q (.error e) s')
    (hok : ∀ (e : WatermarkEvent) s', e.operation = operation → e.targetPk = k.targetPk →
      e.before = before → e.after = after → a s' → Q (.ok ()) (s'.record p e)) :
    (cursorOutline P).Safe (watermarks P auditStrict) (meetsRead P) p
      (auditRecord env operation k before after metadata) Q s := by
  unfold auditRecord
  obtain ⟨e, he⟩ := record_eq_some henv
    { operation, targetSchema := "src", targetTable := "watermark", targetPk := k.targetPk, metadata }
  have hrecord := AuditEvent.toAuditRecord_of_record he
  simp only [he]
  refine safe_command a ha h nofun herror fun fault s₁ _ s' _ h₁ _ hexec => ?_
  rw [exec_record_ok hexec]
  exact hok _ s₁ (congrArg (·.operation) hrecord) (congrArg (·.targetPk) hrecord) rfl rfl h₁

/-- The record of a write that says what the write has met. -/
theorem safe_auditChange {w : Overwrite WatermarkRow} (henv : ¬(env.auditStrict ∧ env.actor.isNone))
    (hoperation : operation ∈ mutationOperations)
    (hbefore : before.map (·.cursorValue) = w.met.map (·.cursorValue))
    (hafter : after.map (·.cursorValue) = some w.row.cursorValue)
    (howes : Owes WatermarkEvent.changes Tells p k w s) (hseen : s.seen p k = met) :
    (cursorOutline P).Safe (watermarks P auditStrict) (meetsRead P) p
      (auditRecord env operation k before after metadata)
      (fun r s' => Recorded WatermarkEvent.changes Tells p s' ∧ (r = .ok () → Ends p k met s')) s := by
  refine safe_auditRecord henv
    (fun s => Owes WatermarkEvent.changes Tells p k w s ∧ s.seen p k = met) ?_ ⟨howes, hseen⟩ ?_ ?_
  · exact fun s s' hframe h => ⟨h.1.frame hframe, (congrFun hframe.seen k).trans h.2⟩
  · exact fun e s' hclear => ⟨recorded_of_clear hclear, nofun⟩
  · rintro e s' he htarget rfl rfl ⟨howes', hseen'⟩
    have hrecorded : Recorded WatermarkEvent.changes Tells p (s'.record p e) :=
      howes'.record ⟨hbefore, hafter⟩ (changes_eq (he ▸ hoperation) htarget)
    exact ⟨hrecorded, fun _ => ⟨hrecorded, hseen'⟩⟩

theorem safe_get (h : Recorded WatermarkEvent.changes Tells p s) :
    (cursorOutline P).Safe (watermarks P auditStrict) (meetsRead P) p (get k)
      (fun _ => Recorded WatermarkEvent.changes Tells p) s := by
  refine Outline.safe_bind.2 (safe_performIf (Recorded WatermarkEvent.changes Tells p)
    (fun _ _ hframe h => h.frame hframe) h nofun (fun _ _ => recorded_of_clear) ?_)
  intro fault s₁ v s' _ h₁ _ hexec
  obtain ⟨_, rfl⟩ := exec_select_ok hexec
  exact h₁

/-- `advance` returns whether it has met the cursor that it expects. -/
theorem safe_advance {newCursor : String} {expectedCursor : Option String}
    (h : Recorded WatermarkEvent.changes Tells p s) :
    (cursorOutline P).Safe (watermarks P auditStrict) (meetsRead P) p
      (advance env k newCursor expectedCursor)
      (fun r s' => Recorded WatermarkEvent.changes Tells p s' ∧
        ∀ success, r = .ok success → (success = true ↔ metCursor s' p k = expectedCursor)) s := by
  have hclear : ∀ (e : WatermarkError) (s' : WatermarkJournal P), Clear p s' →
      Recorded WatermarkEvent.changes Tells p s' ∧ ∀ success, Except.error e = .ok success →
        (success = true ↔ metCursor s' p k = expectedCursor) :=
    fun e s' hclear => ⟨recorded_of_clear hclear, nofun⟩
  unfold advance
  by_cases henv : env.auditStrict ∧ env.actor.isNone
  · rw [if_pos henv]
    exact ⟨h, nofun⟩
  rw [if_neg henv]
  rcases expectedCursor with _ | expected
  · refine Outline.safe_bind.2 (safe_performIf (Recorded WatermarkEvent.changes Tells p)
      (fun _ _ hframe h => h.frame hframe) h nofun hclear ?_)
    intro fault s₁ success s' _ h₁ _ hexec
    rcases exec_insertNew_ok hexec with ⟨rfl, hsome, rfl⟩ | ⟨rfl, hnone, hlock, rfl⟩
    · refine ⟨h₁, ?_⟩
      rintro _ ⟨⟩
      rw [metCursor, seen_meet, Option.map_eq_none_iff]
      exact iff_of_false Bool.false_ne_true fun hview => by rw [hview] at hsome; cases hsome
    · refine Outline.safe_bind.2 ((safe_auditChange henv List.mem_cons_self
        (by simp only [hnone, Option.map_none]) rfl h₁.put (seen_meet.trans hnone)).mono ?_)
      rintro (e | _) s' ⟨hrecorded, hends⟩
      · exact ⟨hrecorded, nofun⟩
      · refine ⟨hrecorded, ?_⟩
        rintro _ ⟨⟩
        rw [metCursor, (hends rfl).seen]
        exact iff_of_true rfl rfl
  · refine Outline.safe_bind.2 (safe_performIf (Recorded WatermarkEvent.changes Tells p)
      (fun _ _ hframe h => h.frame hframe) h nofun hclear ?_)
    intro fault s₁ success s' _ h₁ _ hexec
    rcases exec_update_ok hexec with ⟨rfl, hnot, rfl⟩ | ⟨v, rfl, hview, hv, hlock, rfl⟩
    · refine ⟨h₁, ?_⟩
      rintro _ ⟨⟩
      rw [metCursor, seen_meet]
      refine iff_of_false Bool.false_ne_true fun hmet => ?_
      obtain ⟨v, hview, hv⟩ := Option.map_eq_some_iff.1 hmet
      exact of_decide_eq_false (hnot v hview) hv
    · have hcursor : v.cursorValue = expected := of_decide_eq_true hv
      refine Outline.safe_bind.2 ((safe_auditChange henv List.mem_cons_self
        ?_ rfl h₁.put (seen_meet.trans hview)).mono ?_)
      · simp only [hview, Option.map_some, hcursor]
      rintro (e | _) s' ⟨hrecorded, hends⟩
      · exact ⟨hrecorded, nofun⟩
      · refine ⟨hrecorded, ?_⟩
        rintro _ ⟨⟩
        rw [metCursor, (hends rfl).seen, Option.map_some, hcursor]
        exact iff_of_true rfl rfl

/-- `set` records what it has met, if that is what it has read. -/
theorem safe_set {cursorValue : String} (h : Recorded WatermarkEvent.changes Tells p s) :
    (cursorOutline P).Safe (watermarks P auditStrict) (meetsRead P) p (set env k cursorValue)
      (fun _ => Recorded WatermarkEvent.changes Tells p) s := by
  have hclear : ∀ (e : WatermarkError) (s' : WatermarkJournal P), Clear p s' →
      Recorded WatermarkEvent.changes Tells p s' := fun _ _ => recorded_of_clear
  unfold set
  by_cases henv : env.auditStrict ∧ env.actor.isNone
  · rw [if_pos henv]
    exact h
  rw [if_neg henv]
  refine Outline.safe_bind.2 (safe_performIf (Recorded WatermarkEvent.changes Tells p)
    (fun _ _ hframe h => h.frame hframe) h nofun hclear ?_)
  intro fault s₁ existing s' _ h₁ _ hexec
  obtain ⟨rfl, rfl⟩ := exec_select_ok hexec
  have hread : Ends p k (s₁.db.view p k) (s₁.meet p k) := ⟨h₁, seen_meet⟩
  generalize s₁.db.view p k = existing at hread ⊢
  generalize s₁.meet p k = s₂ at hread ⊢
  simp only [Outline.outcome]
  by_cases hsame : existing.map (·.cursorValue) = some cursorValue
  · rw [if_pos hsame]
    refine safe_auditRecord henv (Recorded WatermarkEvent.changes Tells p)
      (fun _ _ hframe h => h.frame hframe) hread.recorded hclear ?_
    intro e s' he _ _ _ h'
    refine h'.record fun k' => decide_eq_false ?_
    rw [he]
    rintro ⟨hoperation, -⟩
    exact absurd hoperation (by decide)
  · rw [if_neg hsame]
    refine Outline.safe_bind.2 (safe_performIf (Ends p k existing)
      (fun _ _ hframe h => h.frame hframe) hread nofun hclear ?_)
    intro fault s₃ _ s' _ h₃ hmeets hexec
    obtain ⟨hlock, rfl⟩ := exec_upsert_ok hexec
    have hmet : existing.map (·.cursorValue) = (s₃.db.view p k).map (·.cursorValue) := by
      rw [← h₃.seen]
      exact Eq.symm hmeets
    refine (safe_auditChange henv ?_ ?_ ?_ h₃.recorded.put rfl).mono fun _ _ h' => h'.1
    · split_ifs <;> decide
    · rw [← hmet, Option.map_map]
      rfl
    · rw [upserted]
      rcases s₃.db.view p k with _ | v <;> rfl

end Calls

/-- Every call keeps to the outline. -/
theorem valid_cursorOutline (P : Type) [DecidableEq P] (auditStrict : Bool) :
    (cursorOutline P).Valid (watermarks P auditStrict) (meetsRead P) := by
  refine valid_outline (fun p j r s s' => swapped_frame) fun p j s h _ => ?_
  rcases j with k | ⟨actor, k, newCursor, expectedCursor⟩ | ⟨actor, k, cursorValue⟩ | _ | _
  · exact Outline.safe_bind.2 ((safe_get h).mono fun r s' h' => by rcases r <;> exact ⟨h', trivial⟩)
  · refine Outline.safe_bind.2 ((safe_advance h).mono ?_)
    rintro (e | success) s' ⟨hrecorded, hswapped⟩
    · exact ⟨hrecorded, trivial⟩
    · exact ⟨hrecorded, hswapped success rfl⟩
  · exact Outline.safe_bind.2 ((safe_set h).mono fun r s' h' => by rcases r <;> exact ⟨h', trivial⟩)
  · refine Outline.safe_bind.2 (safe_command (Recorded WatermarkEvent.changes Tells p)
      (fun _ _ hframe h => h.frame hframe) h (fun _ _ h => h)
      (fun _ _ hclear => ⟨recorded_of_clear hclear, trivial⟩) ?_)
    exact fun fault s₁ v s' _ _ _ hexec => ⟨recorded_of_clear (exec_commit_ok hexec), trivial⟩
  · refine Outline.safe_bind.2 (safe_command (Recorded WatermarkEvent.changes Tells p)
      (fun _ _ hframe h => h.frame hframe) h nofun
      (fun _ _ hclear => ⟨recorded_of_clear hclear, trivial⟩) ?_)
    exact fun fault s₁ v s' _ _ _ hexec => ⟨recorded_of_clear (exec_rollback_ok hexec), trivial⟩

/-- Records that tell of the writes lead where the writes lead. -/
theorem chained_of_leads {events : List WatermarkEvent} {ws : List (Overwrite WatermarkRow)}
    {a b : Option WatermarkRow} (hevents : List.Forall₂ (Tells k) events ws) (hws : Leads a ws b) :
    Chained (a.map (·.cursorValue)) events (b.map (·.cursorValue)) := by
  induction hevents generalizing a with
  | nil => exact congrArg _ hws
  | cons htells _ ih =>
    obtain ⟨hbefore, hafter⟩ := htells
    obtain ⟨rfl, hws⟩ := hws
    refine ⟨hbefore, ?_⟩
    rw [hafter]
    exact ih hws

/-- If every `set` meets the cursor that it has read, then the records of the changes of a cursor
    are a chain, from no cursor to the one that is stored; and `advance` returns `True` exactly when
    its statement has met the cursor that it expects. -/
theorem mutations_chained_of_reach (P : Type) [DecidableEq P] (auditStrict : Bool)
    {cfg : Config WatermarkCmd Journal.Reply WatermarkError WatermarkAnswer P WatermarkJob
      (WatermarkJournal P)}
    (h : (watermarks P auditStrict).Reach (meetsRead P).Holds
      ((watermarks P auditStrict).initial .empty) cfg) :
    (∀ k, Chained none (mutations k cfg.shared.events) (storedCursor cfg.shared k)) ∧
      ∀ p actor k newCursor expectedCursor success,
        cfg.proc p = some (.advance actor k newCursor expectedCursor, .ret (.advanced success)) →
          (success = true ↔ metCursor cfg.shared p k = expectedCursor) := by
  have hvalid := valid_cursorOutline P auditStrict
  have hinv : (cursorOutline P).inv .empty := ⟨sound_empty, fun k => .nil⟩
  have hidle : ∀ p, (cursorOutline P).idle p .empty := fun p k => .nil
  obtain ⟨⟨hsound, hrecords⟩, _⟩ := hvalid.safe hinv hidle h
  refine ⟨fun k => chained_of_leads (hrecords k) (hsound.committed k), ?_⟩
  intro p actor k newCursor expectedCursor success hproc
  exact (hvalid.post hinv hidle h hproc).2

/-! ### Two calls of `set` -/

instance (P : Type) [DecidableEq P] (p : P) (j : WatermarkJob) (s : WatermarkJournal P) :
    Decidable ((meetsRead P).start p j s) := isTrue trivial

instance (P : Type) [DecidableEq P] (p : P) (s : WatermarkJournal P) :
    Decidable ((meetsRead P).kill p s) := isTrue trivial

instance (P : Type) [DecidableEq P] (p : P) (c : WatermarkCmd) (o : Fault) (s : WatermarkJournal P) :
    Decidable ((meetsRead P).step p c o s) :=
  match c with
  | .upsert k _ _ => inferInstanceAs (Decidable ((s.db.view p k).map (·.cursorValue) = metCursor s p k))
  | .select _ | .insertNew _ _ | .update _ _ _ | .record _ | .reject | .commit | .rollback =>
    isTrue trivial

/-- A job of a session, in as many steps as it takes. -/
def jobEvents {P : Type} (p : P) (j : WatermarkJob) (steps : ℕ) : List (Event P WatermarkJob Fault) :=
  .start p j :: List.replicate steps (.step p .none)

def pricesKey : WatermarkKey := ⟨"kap", "prices", "AKBNK"⟩

/-- Two sessions read that there is no cursor, and then both of them set one. -/
def twoSets : List (Event Bool WatermarkJob Fault) :=
  jobEvents false (.set none pricesKey "a") 1 ++ jobEvents true (.set none pricesKey "b") 1 ++
    List.replicate 2 (.step false .none) ++ jobEvents false .commit 1 ++
    List.replicate 2 (.step true .none) ++ jobEvents true .commit 1

/-- The second record says that there was no cursor before. -/
theorem not_chained_of_twoSets : ∃ cfg,
    (watermarks Bool false).Reach (Guard.Holds {}) ((watermarks Bool false).initial .empty) cfg ∧
      ¬Chained none (mutations pricesKey cfg.shared.events) (storedCursor cfg.shared pricesKey) := by
  have hrun : ((watermarks Bool false).run (Guard.Holds {}) twoSets
      ((watermarks Bool false).initial .empty)).any (fun cfg =>
        decide ¬Chained none (mutations pricesKey cfg.shared.events)
          (storedCursor cfg.shared pricesKey)) = true := by decide +kernel
  obtain ⟨cfg, hreach, hnot⟩ := System.Reach.exists_of_run hrun
  exact ⟨cfg, hreach, of_decide_eq_true hnot⟩

/-- A cursor is set, and another session advances it. -/
theorem chained_of_set_advance : ∃ cfg,
    (watermarks Bool false).Reach (meetsRead Bool).Holds ((watermarks Bool false).initial .empty) cfg ∧
      (mutations pricesKey cfg.shared.events).length = 2 ∧
      Chained none (mutations pricesKey cfg.shared.events) (storedCursor cfg.shared pricesKey) := by
  have hrun : ((watermarks Bool false).run (meetsRead Bool).Holds
      (jobEvents false (.set none pricesKey "a") 3 ++ jobEvents false .commit 1 ++
        jobEvents true (.advance none pricesKey "b" (some "a")) 2 ++ jobEvents true .commit 1)
      ((watermarks Bool false).initial .empty)).any (fun cfg =>
        (mutations pricesKey cfg.shared.events).length = 2) = true := by decide +kernel
  obtain ⟨cfg, hreach, hlength⟩ := System.Reach.exists_of_run hrun
  exact ⟨cfg, hreach, of_decide_eq_true hlength,
    (mutations_chained_of_reach Bool false hreach).1 pricesKey⟩

end AslanCore.Ingestion
