import AslanCore.Process.Alone
import AslanCore.Streams.Producer

/-!
# Atomicity of publication

What a batch of events does to the transaction of its caller. When it is published, the
transaction gains one row of the outbox for each event, in order, and one audit event
(`Gained`). A conflict found among the events themselves leaves the transaction as it was; one
found in the outbox does not: it is rolled back, with what the caller has written before
(`publishMany_atomic_iff`).

What the programs do is given by the cases of their runs (`runs_insertOutbox`, …).
-/

namespace AslanCore

namespace Streams

variable {W : Type} {c : Codec} {ctx : Context} {s s' : Tx W} {event : Event} {stream : String}
  {rows : List (String × Event)} {events : List Event} {explicit : Option String}

/-- The program ends with the outcome `r` in `s'`, whatever fails. -/
abbrev Ends {α : Type} (c : Codec) (ctx : Context) (m : Publish α) (s : Tx W)
    (r : Except PublishError α) (s' : Tx W) : Prop :=
  (producer c ctx W).Runs {} () m s r s'

/-! ### The insertion of a row -/

namespace Tx

/-- The transaction after the row is inserted. -/
def insert (s : Tx W) (row : OutboxRow) : Tx W :=
  { s with
    pending := s.pending ++ [.outbox { row with outboxId := s.nextOutboxId }]
    nextOutboxId := s.nextOutboxId + 1 }

/-- The row of the event can be inserted. -/
def AdmitsEvent (s : Tx W) (event : Event) : Prop :=
  (∀ r ∈ s.committed ++ s.inserted, r.eventId ≠ event.eventId) ∧
    s.run event.producerRunId = true ∧ s.source event.sourceId = true

instance (s : Tx W) (event : Event) : Decidable (s.AdmitsEvent event) :=
  inferInstanceAs (Decidable (_ ∧ _))

theorem admits_outboxRow {now : ℕ} :
    s.Admits (outboxRow c ctx event stream now) ↔ s.AdmitsEvent event := Iff.rfl

theorem inserted_insert {row : OutboxRow} :
    (s.insert row).inserted = s.inserted ++ [{ row with outboxId := s.nextOutboxId }] := by
  simp [inserted, insert]

/-- A row that is inserted keeps the rows of its own event from being inserted, and no other. -/
theorem admitsEvent_insert {now : ℕ} {event' : Event} :
    (s.insert (outboxRow c ctx event stream now)).AdmitsEvent event' ↔
      s.AdmitsEvent event' ∧ event.eventId ≠ event'.eventId := by
  simp only [AdmitsEvent, inserted_insert]
  simp only [insert, outboxRow, ← List.append_assoc, List.mem_append, List.mem_singleton]
  constructor
  · rintro ⟨h, hr, hs⟩
    exact ⟨⟨fun r hm => h r (.inl hm), hr, hs⟩, h _ (.inr rfl)⟩
  · rintro ⟨⟨h, hr, hs⟩, hne⟩
    refine ⟨fun r hm => ?_, hr, hs⟩
    rcases hm with hm | rfl
    · exact h r hm
    · exact hne

end Tx

theorem ends_request {cmd : PublishCmd} {r : Except PublishError (PublishReply cmd)} :
    Ends c ctx (publishRequest cmd) s r s' ↔ ∃ o, Tx.exec cmd o s = some (r, s') := by
  refine System.runs_perform.trans ⟨?_, ?_⟩
  · rintro ⟨o, _, h⟩
    exact ⟨o, h⟩
  · rintro ⟨o, h⟩
    exact ⟨o, trivial, h⟩

/-- The transaction after a conflict: nothing of it is left. -/
def Tx.lose (s : Tx W) : Tx W := { s with pending := [], nextOutboxId := s.nextOutboxId + 1 }

/-- A row is inserted, or it is in conflict, and the transaction is lost, or the database
    fails. -/
theorem ends_insertOutbox {r : Except PublishError ℕ}
    (h : Ends c ctx (insertOutbox c ctx event stream) s r s') :
    (s.AdmitsEvent event ∧ r = .ok s.nextOutboxId ∧
        ∃ now, s' = s.insert (outboxRow c ctx event stream now)) ∨
      (¬s.AdmitsEvent event ∧ s' = s.lose ∧
        (r = .error (.eventIdConflict event.eventId stream) ∨ r = .error .sql)) ∨
      r = .error .sql := by
  obtain ⟨x, s₁, hnow, h⟩ := System.Runs.bind h
  obtain ⟨o, hex⟩ := ends_request.1 hnow
  cases hex
  obtain ⟨y, s₂, hflush, h⟩ := System.runs_tryCatch.1 h
  obtain ⟨o', hex⟩ := ends_request.1 hflush
  simp only [Tx.exec] at hex
  split_ifs at hex with hf hadm
  · cases hex
    exact .inr (.inr h.1)
  · cases hex
    obtain ⟨rfl, rfl⟩ := h
    exact .inl ⟨hadm, rfl, o.now, rfl⟩
  · cases hex
    refine .inr (.inl ⟨hadm, ?_⟩)
    -- The rollback may fail too: the transaction is lost all the same.
    obtain ⟨z, s₃, hroll, h⟩ := System.Runs.bind h
    obtain ⟨o'', hex⟩ := ends_request.1 hroll
    simp only [Tx.exec] at hex
    split_ifs at hex <;> cases hex <;> obtain ⟨rfl, rfl⟩ := h
    · exact ⟨rfl, .inr rfl⟩
    · exact ⟨rfl, .inl rfl⟩

theorem insertOutbox_ends_ok (h : s.AdmitsEvent event) :
    Ends c ctx (insertOutbox c ctx event stream) s (.ok s.nextOutboxId)
      (s.insert (outboxRow c ctx event stream 0)) := by
  refine ⟨{}, .ok 0, s, trivial, rfl, {}, .ok s.nextOutboxId, _, trivial, ?_, rfl, rfl⟩
  exact if_pos (Tx.admits_outboxRow.2 h)

theorem insertOutbox_ends_conflict (h : ¬s.AdmitsEvent event) :
    Ends c ctx (insertOutbox c ctx event stream) s
      (.error (.eventIdConflict event.eventId stream)) s.lose := by
  refine ⟨{}, .ok 0, s, trivial, rfl, {}, .error .integrity, _, trivial,
    if_neg fun ha => h (Tx.admits_outboxRow.1 ha), {}, .ok (), _, trivial, rfl, rfl, rfl⟩

/-! ### The insertion of a batch -/

/-- The rows inserted for the events of a batch, in order. -/
def Inserted (c : Codec) (ctx : Context) : List (String × Event) → List OutboxRow → Prop :=
  List.Forall₂ fun r o => ∃ now, o = { outboxRow c ctx r.2 r.1 now with outboxId := o.outboxId }

/-- The event identifiers of a batch differ. -/
abbrev Distinct (rows : List (String × Event)) : Prop := (rows.map (·.2.eventId)).Nodup

/-- The rows of a batch are inserted, or one of them is in conflict, and the transaction is
    lost, or the database fails. -/
theorem ends_insertAll {r : Except PublishError (List ℕ)} (hd : Distinct rows)
    (h : Ends c ctx (insertAll c ctx rows) s r s') :
    (∃ out, Inserted c ctx rows out ∧ r = .ok (out.map (·.outboxId)) ∧
        s'.pending = s.pending ++ out.map .outbox) ∨
      (∃ row ∈ rows, ¬s.AdmitsEvent row.2 ∧ s'.pending = [] ∧
        r = .error (.eventIdConflict row.2.eventId row.1)) ∨
      r = .error .sql := by
  induction rows generalizing s s' r with
  | nil =>
    obtain ⟨rfl, rfl⟩ := h
    exact .inl ⟨[], .nil, rfl, by simp⟩
  | cons row rows ih =>
    obtain ⟨hne, hd⟩ := List.nodup_cons.1 hd
    obtain ⟨x, s₁, hrow, h⟩ := System.Runs.bind h
    rcases ends_insertOutbox hrow with ⟨-, rfl, now, rfl⟩ | ⟨hadm, rfl, rfl | rfl⟩ | rfl
    · obtain ⟨y, s₂, hrows, h⟩ := System.Runs.bind h
      rcases ih hd hrows with ⟨out, hout, rfl, hs⟩ | ⟨row', hmem, hadm, hs, rfl⟩ | rfl
      · obtain ⟨rfl, rfl⟩ := h
        exact .inl ⟨{ outboxRow c ctx row.2 row.1 now with outboxId := s.nextOutboxId } :: out,
          .cons ⟨now, rfl⟩ hout, rfl, by simp [hs, Tx.insert]⟩
      · obtain ⟨rfl, rfl⟩ := h
        -- The rows inserted before are not those of the same event.
        refine .inr (.inl ⟨row', List.mem_cons_of_mem _ hmem, fun ha => hadm ?_, hs, rfl⟩)
        refine Tx.admitsEvent_insert.2 ⟨ha, fun heq => hne ?_⟩
        exact List.mem_map.2 ⟨row', hmem, heq.symm⟩
      · exact .inr (.inr h.1)
    · obtain ⟨rfl, rfl⟩ := h
      exact .inr (.inl ⟨row, List.mem_cons_self, hadm, rfl, rfl⟩)
    · exact .inr (.inr h.1)
    · exact .inr (.inr h.1)

/-- When some event of a batch cannot be inserted, the batch may end in a conflict. -/
theorem insertAll_ends_conflict (h : ∃ row ∈ rows, ¬s.AdmitsEvent row.2) :
    ∃ eventId streamName s', Ends c ctx (insertAll c ctx rows) s
      (.error (.eventIdConflict eventId streamName)) s' ∧ s'.pending = [] := by
  induction rows generalizing s with
  | nil => simp at h
  | cons row rows ih =>
    by_cases hadm : s.AdmitsEvent row.2
    · have hrest : ∃ row' ∈ rows,
          ¬(s.insert (outboxRow c ctx row.2 row.1 0)).AdmitsEvent row'.2 := by
        obtain ⟨row', hmem, hn⟩ := h
        rcases List.mem_cons.1 hmem with rfl | hmem
        · exact absurd hadm hn
        · exact ⟨row', hmem, fun ha => hn (Tx.admitsEvent_insert.1 ha).1⟩
      obtain ⟨i, st, s', hrun, hs⟩ := ih hrest
      refine ⟨i, st, s', System.runs_bind.2 ⟨_, _, insertOutbox_ends_ok hadm, ?_⟩, hs⟩
      exact System.runs_bind.2 ⟨_, _, hrun, rfl, rfl⟩
    · refine ⟨row.2.eventId, row.1, s.lose, ?_, rfl⟩
      exact System.runs_bind.2 ⟨_, _, insertOutbox_ends_conflict hadm, rfl, rfl⟩

/-! ### What is prepared -/

@[simp]
theorem stamp_eventId (event : Event) : (stamp ctx event).eventId = event.eventId := by
  simp only [stamp, StreamEvent.stamp]
  cases ctx.currentActor with
  | none => simp only; split <;> rfl
  | some actor => simp only; split <;> split <;> rfl

theorem checkDistinct_eq_ok_iff {seen : List Uuid} :
    checkDistinct explicit events seen = .ok () ↔
      (events.map (·.eventId)).Nodup ∧ ∀ e ∈ events, e.eventId ∉ seen := by
  induction events generalizing seen with
  | nil => simp [checkDistinct]
  | cons event events ih =>
    by_cases hs : event.eventId ∈ seen
    · simp [checkDistinct, hs]
    · simp only [checkDistinct, hs, if_false, ih, List.map_cons, List.nodup_cons, List.mem_map,
        List.mem_cons, not_or, forall_eq_or_imp, not_false_eq_true, true_and, not_exists, not_and]
      constructor
      · rintro ⟨hn, h⟩
        exact ⟨⟨fun e he => (h e he).1, hn⟩, fun e he => (h e he).2⟩
      · rintro ⟨⟨hne, hn⟩, h⟩
        exact ⟨hn, fun e he => ⟨hne e he, h e he⟩⟩

/-- An event with the identifier of an earlier one is a conflict. -/
theorem checkDistinct_conflict {seen : List Uuid} {e : PublishError}
    (h : checkDistinct explicit events seen = .error e) :
    ∃ event ∈ events,
      e = .eventIdConflict event.eventId (explicit.getD "<resolve-per-event>") := by
  induction events generalizing seen with
  | nil => cases h
  | cons event events ih =>
    simp only [checkDistinct] at h
    split_ifs at h
    · cases h
      exact ⟨event, List.mem_cons_self, rfl⟩
    · obtain ⟨event', hmem, he⟩ := ih h
      exact ⟨event', List.mem_cons_of_mem _ hmem, he⟩

theorem forall₂_of_mapM_resolveStream {streams : List String}
    (h : events.mapM (resolveStream · explicit) = .ok streams) :
    List.Forall₂ (fun e st => resolveStream e explicit = .ok st) events streams := by
  induction events generalizing streams with
  | nil =>
    cases h
    exact .nil
  | cons event events ih =>
    rw [List.mapM_cons] at h
    cases hst : resolveStream event explicit with
    | error e => simp [hst, bind, Except.bind] at h
    | ok st =>
      cases hsts : events.mapM (resolveStream · explicit) with
      | error e => simp [hst, hsts, bind, Except.bind] at h
      | ok sts =>
        simp only [hst, hsts, bind, Except.bind, pure, Except.pure, Except.ok.injEq] at h
        exact h ▸ .cons hst (ih hsts)

theorem forall₂_zip_stamp {streams : List String}
    (h : List.Forall₂ (fun e st => resolveStream e explicit = .ok st) events streams) :
    List.Forall₂ (fun e r => resolveStream e explicit = .ok r.1 ∧ r.2 = stamp ctx e) events
      (streams.zip (events.map (stamp ctx))) := by
  induction h with
  | nil => exact .nil
  | cons he _ ih => exact .cons ⟨he, rfl⟩ ih

/-- A batch is prepared when its event identifiers differ: the streams of its events are
    resolved, and the events are stamped. -/
theorem prepare_ok (h : prepare ctx events explicit = .ok rows) :
    (events.map (·.eventId)).Nodup ∧
      List.Forall₂ (fun e r => resolveStream e explicit = .ok r.1 ∧ r.2 = stamp ctx e)
        events rows := by
  simp only [prepare, bind, Except.bind] at h
  split at h
  · cases h
  · rename_i hd
    split at h
    · cases h
    · split at h
      · cases h
      · rename_i streams hsts
        cases h
        exact ⟨(checkDistinct_eq_ok_iff.1 hd).1,
          forall₂_zip_stamp (forall₂_of_mapM_resolveStream hsts)⟩

/-- The events of a prepared batch have the identifiers that they had. -/
theorem prepare_distinct (h : prepare ctx events explicit = .ok rows) : Distinct rows := by
  obtain ⟨hd, hrows⟩ := prepare_ok h
  suffices hmap : rows.map (·.2.eventId) = events.map (·.eventId) by rwa [Distinct, hmap]
  clear h hd
  induction hrows with
  | nil => rfl
  | cons he _ ih => simp only [List.map_cons, ih, he.2, stamp_eventId]

/-- A batch whose event identifiers do not differ is not prepared. -/
theorem prepare_conflict (h : ¬(events.map (·.eventId)).Nodup) :
    ∃ event ∈ events, prepare ctx events explicit =
      .error (.eventIdConflict event.eventId (explicit.getD "<resolve-per-event>")) := by
  cases hd : checkDistinct explicit events [] with
  | ok u => exact absurd (checkDistinct_eq_ok_iff.1 hd).1 h
  | error e =>
    obtain ⟨event, hmem, rfl⟩ := checkDistinct_conflict hd
    exact ⟨event, hmem, by simp [prepare, hd, bind, Except.bind]⟩

/-! ### The publication of a batch -/

/-- The row holds the stamped event, and its stream. -/
def IsRowOf (c : Codec) (ctx : Context) (explicit : Option String) (event : Event)
    (row : OutboxRow) : Prop :=
  ∃ stream now, resolveStream event explicit = .ok stream ∧
    row = { outboxRow c ctx (stamp ctx event) stream now with outboxId := row.outboxId }

/-- The transaction gains a row of the outbox for each event, in order, under the identifiers
    `ids`, and one audit event. -/
def Gained (c : Codec) (ctx : Context) (events : List Event) (explicit : Option String)
    (ids : List ℕ) (s s' : Tx W) : Prop :=
  ∃ out audit, List.Forall₂ (IsRowOf c ctx explicit) events out ∧ out.map (·.outboxId) = ids ∧
    audit.operation = "stream.publish" ∧
    s'.pending = s.pending ++ out.map .outbox ++ [.audit audit]

theorem forall₂_isRowOf {out : List OutboxRow}
    (h : List.Forall₂ (fun e r => resolveStream e explicit = .ok r.1 ∧ r.2 = stamp ctx e)
      events rows) (hout : Inserted c ctx rows out) :
    List.Forall₂ (IsRowOf c ctx explicit) events out := by
  induction h generalizing out with
  | nil =>
    cases hout
    exact .nil
  | cons he _ ih =>
    obtain _ | ⟨⟨now, ho⟩, hout⟩ := hout
    exact .cons ⟨_, now, he.1, he.2 ▸ ho⟩ (ih hout)

/-- The audit event is recorded, or an exception is raised that is not a conflict. -/
theorem ends_auditRecord {record : AuditRecord} {r : Except PublishError Unit}
    (h : Ends c ctx (auditRecord ctx record) s r s') :
    (r = .ok () ∧ ∃ audit : AuditEvent, audit.toAuditRecord = record ∧
        s'.pending = s.pending ++ [.audit audit]) ∨
      r = .error .auditMissingActor ∨ r = .error .sql := by
  simp only [auditRecord] at h
  split at h
  · rename_i audit haudit
    obtain ⟨o, hex⟩ := ends_request.1 h
    simp only [Tx.exec] at hex
    split_ifs at hex <;> cases hex
    · exact .inr (.inr rfl)
    · exact .inl ⟨rfl, audit, AuditEvent.toAuditRecord_of_record haudit, rfl⟩
  · exact .inr (.inl h.1)

theorem publishMany_of_prepare (hne : events ≠ [])
    (hprep : prepare ctx events explicit = .ok rows) :
    publishMany c ctx events explicit = insertAll c ctx rows >>= fun outboxIds =>
      auditRecord ctx (publishManyRecord c ctx rows outboxIds) >>= fun _ => pure outboxIds := by
  obtain ⟨event, events, rfl⟩ := List.exists_cons_of_ne_nil hne
  simp only [publishMany, hprep]
  rfl

/-- A prepared batch is inserted and recorded, or one of its events is in conflict, and the
    transaction is lost, or another exception is raised. -/
theorem ends_publishMany {r : Except PublishError (List ℕ)} (hne : events ≠ [])
    (hprep : prepare ctx events explicit = .ok rows)
    (h : Ends c ctx (publishMany c ctx events explicit) s r s') :
    (∃ ids, r = .ok ids ∧ Gained c ctx events explicit ids s s') ∨
      (∃ row ∈ rows, ¬s.AdmitsEvent row.2 ∧ s'.pending = [] ∧
        r = .error (.eventIdConflict row.2.eventId row.1)) ∨
      r = .error .auditMissingActor ∨ r = .error .sql := by
  rw [publishMany_of_prepare hne hprep] at h
  obtain ⟨x, s₁, hrows, h⟩ := System.Runs.bind h
  rcases ends_insertAll (prepare_distinct hprep) hrows with
    ⟨out, hout, rfl, hs⟩ | ⟨row, hmem, hadm, hs, rfl⟩ | rfl
  · obtain ⟨y, s₂, haudit, h⟩ := System.Runs.bind h
    rcases ends_auditRecord haudit with ⟨rfl, audit, hrec, hs'⟩ | rfl | rfl
    · obtain ⟨rfl, rfl⟩ := h
      refine .inl ⟨_, rfl, out, audit, forall₂_isRowOf (prepare_ok hprep).2 hout, rfl, ?_, ?_⟩
      · rw [hrec, publishManyRecord]
      · rw [hs', hs]
    · exact .inr (.inr (.inl h.1))
    · exact .inr (.inr (.inr h.1))
  · obtain ⟨rfl, rfl⟩ := h
    exact .inr (.inl ⟨row, hmem, hadm, hs, rfl⟩)
  · exact .inr (.inr (.inr h.1))

theorem ends_publishMany_error {r : Except PublishError (List ℕ)} {e : PublishError}
    (hne : events ≠ []) (hprep : prepare ctx events explicit = .error e) :
    Ends c ctx (publishMany c ctx events explicit) s r s' ↔ r = .error e ∧ s' = s := by
  obtain ⟨event, events, rfl⟩ := List.exists_cons_of_ne_nil hne
  simp only [publishMany, hprep]
  exact Iff.rfl

/-- Some event of a prepared batch that cannot be inserted may be reported as a conflict, and
    then nothing of the transaction is left. -/
theorem publishMany_ends_conflict (hne : events ≠ [])
    (hprep : prepare ctx events explicit = .ok rows) (h : ∃ row ∈ rows, ¬s.AdmitsEvent row.2) :
    ∃ eventId streamName s', Ends c ctx (publishMany c ctx events explicit) s
      (.error (.eventIdConflict eventId streamName)) s' ∧ s'.pending = [] := by
  obtain ⟨eventId, streamName, s', hrun, hs⟩ := @insertAll_ends_conflict W c ctx s rows h
  refine ⟨eventId, streamName, s', ?_, hs⟩
  rw [publishMany_of_prepare hne hprep]
  exact System.runs_bind.2 ⟨_, _, hrun, rfl, rfl⟩

/-- A batch is published as a whole or not at all: it is published, with one audit event, or
    an exception is raised; and a conflict leaves in place what the transaction has written
    before. -/
def Atomic (c : Codec) (ctx : Context) (events : List Event) (explicit : Option String)
    (s : Tx W) : Prop :=
  ∀ r s', Ends c ctx (publishMany c ctx events explicit) s r s' →
    (∀ ids, r = .ok ids → Gained c ctx events explicit ids s s') ∧
      ∀ eventId streamName, r = .error (.eventIdConflict eventId streamName) →
        s.pending <+: s'.pending

/-- Every batch that is not empty is published as a whole or not at all, and a conflict among
    its own events leaves the transaction as it was. The empty batch leaves it so too. -/
theorem publishMany_atomic {r : Except PublishError (List ℕ)}
    (h : Ends c ctx (publishMany c ctx events explicit) s r s') :
    (events = [] → r = .ok [] ∧ s' = s) ∧
      (events ≠ [] → ∀ ids, r = .ok ids → Gained c ctx events explicit ids s s') ∧
      (¬(events.map (·.eventId)).Nodup → s' = s ∧ ∃ event ∈ events,
        r = .error (.eventIdConflict event.eventId (explicit.getD "<resolve-per-event>"))) := by
  refine ⟨?_, fun hne => ?_, fun hdup => ?_⟩
  · rintro rfl
    exact h
  · rintro ids rfl
    cases hprep : prepare ctx events explicit with
    | error e => cases ((ends_publishMany_error hne hprep).1 h).1
    | ok rows =>
      rcases ends_publishMany hne hprep h with ⟨_, he, hg⟩ | ⟨_, _, _, _, he⟩ | he | he <;>
        cases he
      exact hg
  · have hne : events ≠ [] := by
      rintro rfl
      exact hdup List.nodup_nil
    obtain ⟨event, hmem, hprep⟩ := @prepare_conflict ctx events explicit hdup
    obtain ⟨rfl, rfl⟩ := (ends_publishMany_error hne hprep).1 h
    exact ⟨rfl, event, hmem, rfl⟩

/-- A producer without an actor, in a context that does not require one. -/
def backgroundContext : Context where
  ingestionRunId := 3
  currentActor := none
  auditStrict := false
  traceparent := none

/-- A transaction that has written something, next to an outbox. -/
def writtenTx (committed : List OutboxRow) : Tx Unit where
  committed := committed
  run _ := true
  source _ := true
  pending := [.other ()]
  nextOutboxId := 2

/-- A filing is published after what the transaction has written. -/
theorem publishMany_atomic_newFiling : ∃ ids s', Gained .lastDigit backgroundContext
    [(newFiling 1).toEvent .lastDigit] none ids (writtenTx []) s' := by
  have hrun : Ends .lastDigit backgroundContext
      (publishMany .lastDigit backgroundContext [(newFiling 1).toEvent .lastDigit] none)
      (writtenTx []) _ _ :=
    ⟨{}, .ok 0, _, trivial, rfl, {}, .ok 2, _, trivial, rfl, {}, .ok (), _, trivial, rfl,
      rfl, rfl⟩
  exact ⟨[2], _, (publishMany_atomic hrun).2.1 (by simp) [2] rfl⟩

/-- The empty batch is published without an audit event, and a filing that is in the outbox
    already costs the transaction what it has written before. -/
theorem not_publishMany_atomic :
    ¬Atomic .lastDigit backgroundContext [] none (writtenTx []) ∧
      ¬Atomic .lastDigit backgroundContext [(newFiling 1).toEvent .lastDigit] none
        (writtenTx [outboxRow .lastDigit backgroundContext ((newFiling 1).toEvent .lastDigit)
          "aslan.kap.filings.new" 0]) := by
  constructor
  · intro h
    obtain ⟨_, _, -, -, -, hs⟩ := (h (.ok []) _ ⟨rfl, rfl⟩).1 [] rfl
    simp at hs
  · intro h
    have hrun := (h (.error (.eventIdConflict 1 "aslan.kap.filings.new")) _
      ⟨{}, .ok 0, _, trivial, rfl, {}, .error .integrity, _, trivial, rfl, {}, .ok (), _, trivial,
        rfl, rfl, rfl⟩).2 1 "aslan.kap.filings.new" rfl
    simp [writtenTx] at hrun

/-- The rows of a prepared batch can be inserted when those of its events can. -/
theorem admitsEvent_of_prepare (hprep : prepare ctx events explicit = .ok rows) :
    (∀ row ∈ rows, s.AdmitsEvent row.2) ↔ ∀ event ∈ events, s.AdmitsEvent (stamp ctx event) := by
  obtain ⟨-, hrows⟩ := prepare_ok hprep
  clear hprep
  induction hrows with
  | nil => simp
  | cons he _ ih => simp only [List.forall_mem_cons, ih, he.2]

/-- The batches that are published as a whole or not at all, whatever happens: a conflict that
    is found in the outbox costs the transaction what it has written before, as it is rolled
    back. -/
theorem atomic_iff : Atomic c ctx events explicit s ↔ events ≠ [] ∧ (s.pending = [] ∨
    (∃ e, prepare ctx events explicit = .error e) ∨
      ∀ event ∈ events, s.AdmitsEvent (stamp ctx event)) := by
  constructor
  · intro h
    have hne : events ≠ [] := by
      rintro rfl
      obtain ⟨_, _, -, -, -, hs⟩ := (h (.ok []) s ⟨rfl, rfl⟩).1 [] rfl
      simp at hs
    refine ⟨hne, ?_⟩
    cases hprep : prepare ctx events explicit with
    | error e => exact .inr (.inl ⟨e, rfl⟩)
    | ok rows =>
      by_cases hadm : ∀ row ∈ rows, s.AdmitsEvent row.2
      · exact .inr (.inr ((admitsEvent_of_prepare hprep).1 hadm))
      · push Not at hadm
        obtain ⟨eventId, streamName, s', hrun, hs⟩ :=
          publishMany_ends_conflict (c := c) hne hprep hadm
        have hkept := (h _ s' hrun).2 eventId streamName rfl
        rw [hs, List.prefix_nil] at hkept
        exact .inl hkept
  · rintro ⟨hne, h⟩ r s' hrun
    refine ⟨(publishMany_atomic hrun).2.1 hne, ?_⟩
    rintro eventId streamName rfl
    cases hprep : prepare ctx events explicit with
    | error e => rw [((ends_publishMany_error hne hprep).1 hrun).2]
    | ok rows =>
      rcases ends_publishMany hne hprep hrun with ⟨_, he, _⟩ | ⟨row, hmem, hadm, hs, _⟩ | he | he
      · cases he
      · rcases h with h | ⟨e, he⟩ | h
        · rw [h]
          exact List.nil_prefix
        · rw [hprep] at he
          cases he
        · exact absurd ((admitsEvent_of_prepare hprep).2 h row hmem) hadm
      · cases he
      · cases he

end Streams

end AslanCore
