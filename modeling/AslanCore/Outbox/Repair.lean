import AslanCore.Deadletter.World
import AslanCore.Process.Amid
import AslanCore.RedisId
import AslanCore.Store.Isolation

/-!
# Repairing the lookup table

When the publication of an outbox row fails, its entry may be in the stream nevertheless. The drainer
has captured the end of the stream before, and looks from there on for the entries of the event, to
record each in `streams.event_id_to_redis`.

* `captureStreamLowerBound`, `reconcileUnindexedXadd`: the two programs, over a stream of entries of
  any bytes, with the number of turns of the loop over the pages;
* `Meanwhile`: what others do to the stream and the table between the commands of a program;
* `Repairs`: every entry of the event gets its row, no other row is inserted, and the number of
  commands depends on the entries only that are there when the search starts;
* `repairs_of_captured`: the search does so from a bound that was captured before an entry was
  appended.

The fields of an entry are read from the dictionary that the client makes of them, which either holds
bytes or, with `decode_responses`, text. The branches for clients without the commands, which tests
use, are left out.
-/

set_option linter.unusedSectionVars false

namespace AslanCore

namespace Outbox

namespace Repair

open Prog Database
open Deadletter (RawFields dictOf decode decodeField)

/-! ### The stream and the table -/

/-- The text of an event identifier: it is not empty. -/
structure EventId where
  text : String
  nonempty : text ≠ ""

instance : DecidableEq EventId := fun i j =>
  decidable_of_iff (i.text = j.text) (by cases i; cases j; simp)

/-- The primary key of `streams.event_id_to_redis`. -/
structure Key where
  eventId : EventId
  streamName : String
  redisMessageId : StreamId
  deriving DecidableEq

/-- The exceptions: of Redis (is it that the key does not exist?), of the database, and of a field
    that is not text. -/
inductive Exn
  | redis (noSuchKey : Bool)
  | sql
  | unicodeDecode
  deriving DecidableEq

/-- The commands of the drainers. -/
inductive Cmd
  | xadd (stream : String) (fields : RawFields)
  | xrevrange (stream : String)
  | xinfoStream (stream : String)
  | xrange (stream : String) (min max : StreamId) (count : ℕ)
  | openSession
  | insertIndex (key : Key)
  | commit
  | closeSession

/-- What a command answers. -/
abbrev Reply : Cmd → Type
  | .xadd _ _ => StreamId
  | .xrevrange _ | .xinfoStream _ => Option StreamId
  | .xrange _ _ _ _ => List (StreamId × RawFields)
  | _ => Unit

/-- What is left open: what goes wrong, and the identifier that Redis draws. -/
structure Choice where
  fault : Fault := .none
  id : StreamId := .zero

/-- The streams, and the table, which the sessions `T` use. -/
structure World (T : Type) where
  streams : Streams RawFields
  db : Database T Key fun _ => Unit

section Commands

variable {T : Type} [DecidableEq T] (decodeResponses : Bool)

/-- Entries as the client returns them, unless it raises. -/
def reply (entries : List (StreamId × RawFields)) : Except Exn (List (StreamId × RawFields)) :=
  if decodeResponses = true ∧ ∃ e ∈ entries, ∃ f ∈ e.2, decodeField f = none then
    .error .unicodeDecode
  else .ok entries

/-- The outcome of a Redis command that answers `a`, and leads to `s'`. -/
def World.redis {α : Type} (s : World T) (fault : Fault) (a : Except Exn α) (s' : World T) :
    Option (Except Exn α × World T) :=
  match fault with
  | .none => some (a, s')
  | .refused => some (.error (.redis false), s)
  | .lost => some (.error (.redis false), s')

/-- The effect of a command of the session `t`. -/
def exec (t : T) (c : Cmd) (o : Choice) (s : World T) : Option (Except Exn (Reply c) × World T) :=
  match c with
  | .xadd n f =>
    if h : (s.streams.get n).lastId < o.id then
      s.redis o.fault (.ok o.id) { s with streams := s.streams.set n ((s.streams.get n).append o.id f h) }
    else none
  | .xrevrange n =>
    s.redis o.fault ((reply decodeResponses (s.streams.get n).entries.getLast?.toList).map fun last =>
      last.head?.map (·.1)) s
  | .xinfoStream n =>
    match s.streams n with
    | none => s.redis o.fault (.error (.redis true)) s
    | some st =>
      -- The reply has the first entry and the last one.
      s.redis o.fault ((reply decodeResponses (st.entries.head?.toList ++
        st.entries.getLast?.toList)).map fun ends => ends.getLast?.map (·.1)) s
  | .xrange n lo hi count =>
    s.redis o.fault (reply decodeResponses ((s.streams.get n).range lo hi count)) s
  | .openSession => some (.ok (), { s with db := s.db.abort t .ready })
  | .insertIndex key =>
    (s.db.statement t o.fault .sql ((s.db.insertNew t key ()).map fun (_, db) => .ok ((), db))).map
      fun (r, db) => (r, { s with db })
  | .commit =>
    let (r, db) := s.db.commit t o.fault .sql
    some (r, { s with db })
  | .closeSession =>
    let (r, db) := s.db.close t o.fault .sql
    some (r, { s with db })

end Commands

/-! ### The drainer -/

/-- The programs of a drainer. -/
abbrev Program (α : Type) := Prog Cmd Reply Exn α

/-- A single command. -/
abbrev request (c : Cmd) : Program (Reply c) := perform c

/-- `_capture_stream_lower_bound`: the smallest identifier past the end of the stream, or `0-0`. -/
def captureStreamLowerBound (streamName : String) : Program StreamId :=
  (do
    let last ← request (.xrevrange streamName)
    match last with
    | none => pure StreamId.zero
    | some lastId => pure (if lastId = StreamId.zero then StreamId.zero else redisIdIncrement lastId)).tryCatch
  fun
    | .redis _ => pure StreamId.zero
    | e => throw e

/-- `fields.get(b"event_id") or fields.get("event_id")`: a client that returns bytes has nothing under
    the second name. -/
def eventIdField (decodeResponses : Bool) (fields : RawFields) : Option ByteArray :=
  ((dictOf fields).lookup "event_id".toUTF8).filter fun v => decodeResponses ∨ v.size ≠ 0

/-- The row of the lookup table for an entry, in a session of its own. -/
def insertMatch (key : Key) : Program Unit := do
  request .openSession
  (do
    request (.insertIndex key)
    request .commit).ensuring (request .closeSession)

/-- The row of the lookup table for an entry of a page, if it carries the event. -/
def indexMatch (decodeResponses : Bool) (streamName : String) (eventId : EventId)
    (entry : StreamId × RawFields) : Program Unit :=
  match eventIdField decodeResponses entry.2 with
  | none => pure ()
  | some field =>
    match decode field with
    | none => throw .unicodeDecode
    | some eidStr =>
      if eidStr ≠ eventId.text then pure () else insertMatch ⟨eventId, streamName, entry.1⟩

/-- The loop over the pages of the stream from `cursor` to `upperBound`, for some turns: it has a
    result unless there are more pages. -/
def scanPages (decodeResponses : Bool) (streamName : String) (eventId : EventId)
    (upperBound : StreamId) : ℕ → StreamId → Program (Option Unit)
  | 0, _ => pure none
  | turns + 1, cursor => do
    let page ← request (.xrange streamName cursor upperBound 1000)
    match page.getLast? with
    | none => pure (some ())
    | some (lastId, _) =>
      forEach (indexMatch decodeResponses streamName eventId) page
      let cursor := redisIdIncrement lastId
      if 0 < redisIdCompare cursor upperBound then pure (some ())
      else scanPages decodeResponses streamName eventId upperBound turns cursor

/-- `_reconcile_unindexed_xadd`: the entries of the stream that carry the event, from `lowerBound` to
    the present end of the stream, get their row of the lookup table. -/
def reconcileUnindexedXadd (decodeResponses : Bool) (streamName : String) (eventId : EventId)
    (lowerBound : StreamId) (turns : ℕ) : Program (Option Unit) := do
  let lastEntry ← (request (.xinfoStream streamName)).tryCatch fun
    | .redis true => pure none
    | e => throw e
  match lastEntry with
  | none => pure (some ())
  | some upperBound =>
    if 0 < redisIdCompare lowerBound upperBound then pure (some ())
    else scanPages decodeResponses streamName eventId upperBound turns lowerBound

/-! ### What happens meanwhile -/

section Steps

variable {T : Type} [DecidableEq T]

/-- Entries are only appended to the stream, and rows are only inserted into the table. -/
structure Later (n : String) (s s' : World T) : Prop where
  appended : ∃ tail, (s'.streams.get n).entries = (s.streams.get n).entries ++ tail
  recorded : ∀ k, (s.db.committed k).isSome → (s'.db.committed k).isSome

/-- What the others do between two commands of the session `t`: they append entries and insert rows,
    and leave its transaction alone. -/
structure Meanwhile (n : String) (t : T) (s s' : World T) : Prop extends Later n s s' where
  frame : Frame t s.db s'.db

/-- A command inserts no rows but the given ones. -/
def Adds (added : Key → Prop) (step : World T × World T) : Prop :=
  ∀ k, (step.2.db.committed k).isSome → (step.1.db.committed k).isSome ∨ added k

/-- A part of a run: the commands insert no rows but the given ones, and there are at most so many. -/
structure Effect (n : String) (added : Key → Prop) (commands : ℕ) (s : World T)
    (steps : List (World T × World T)) (s' : World T) : Prop where
  later : Later n s s'
  adds : ∀ step ∈ steps, Adds added step
  length_le : steps.length ≤ commands

variable {n : String} {t t' : T} {s s' s'' : World T} {steps rest : List (World T × World T)}
  {added added' : Key → Prop} {commands commands' : ℕ} {decodeResponses : Bool}

theorem Later.refl (n : String) (s : World T) : Later n s s :=
  ⟨⟨[], (List.append_nil _).symm⟩, fun _ => id⟩

theorem Later.trans (h : Later n s s') (h' : Later n s' s'') : Later n s s'' := by
  obtain ⟨tail, htail⟩ := h.appended
  obtain ⟨tail', htail'⟩ := h'.appended
  exact ⟨⟨tail ++ tail', by rw [htail', htail, List.append_assoc]⟩,
    fun k hk => h'.recorded k (h.recorded k hk)⟩

/-- A command that leaves the streams and the committed rows does nothing that is seen. -/
theorem Later.of_eq (hst : s'.streams = s.streams) (hdb : s'.db.committed = s.db.committed) :
    Later n s s' :=
  ⟨⟨[], by rw [hst, List.append_nil]⟩, fun k => by rw [hdb]; exact id⟩

theorem adds_of_eq (hdb : s'.db.committed = s.db.committed) : Adds added (s, s') :=
  fun k hk => .inl (by rwa [← hdb])

theorem Effect.nil (n : String) (added : Key → Prop) (s : World T) : Effect n added 0 s [] s :=
  ⟨.refl n s, nofun, Nat.le_refl 0⟩

theorem Effect.append (h : Effect n added commands s steps s')
    (h' : Effect n added commands' s' rest s'') :
    Effect n added (commands + commands') s (steps ++ rest) s'' := by
  refine ⟨h.later.trans h'.later, fun step hstep => ?_, ?_⟩
  · rcases List.mem_append.1 hstep with hstep | hstep
    · exact h.adds step hstep
    · exact h'.adds step hstep
  · rw [List.length_append]
    exact Nat.add_le_add h.length_le h'.length_le

theorem Effect.mono (h : Effect n added commands s steps s') (hadded : ∀ k, added k → added' k)
    (hle : commands ≤ commands') : Effect n added' commands' s steps s' :=
  ⟨h.later, fun step hstep k hk => (h.adds step hstep k hk).imp_right (hadded k),
    h.length_le.trans hle⟩

/-- A single command that is executed after what the others do. -/
theorem Effect.single {s₁ : World T} (h : Meanwhile n t s s₁) (hlater : Later n s₁ s')
    (hadds : Adds added (s₁, s')) : Effect n added 1 s [(s₁, s')] s' :=
  ⟨h.toLater.trans hlater, fun step hstep => by rw [List.mem_singleton.1 hstep]; exact hadds,
    Nat.le_refl 1⟩

theorem redis_cases {α : Type} {fault : Fault} {a x : Except Exn α} {s₁ : World T}
    (h : s.redis fault a s₁ = some (x, s')) : (x = a ∧ s' = s₁) ∨
      x = .error (.redis false) ∧ (s' = s ∨ s' = s₁) := by
  rcases fault <;> cases h
  · exact .inl ⟨rfl, rfl⟩
  · exact .inr ⟨rfl, .inl rfl⟩
  · exact .inr ⟨rfl, .inr rfl⟩

/-- What the other sessions do is what may happen meanwhile: no row is deleted, and they do not write
    the rows of `t`. -/
theorem meanwhile_of_exec {c : Cmd} {o : Choice} {r : Except Exn (Reply c)} (ht : t ≠ t')
    (hall : s.db.All fun _ w => w ≠ none) (h : exec decodeResponses t' c o s = some (r, s')) :
    Meanwhile n t s s' ∧ s'.db.All fun _ w => w ≠ none := by
  -- A command that does not append an entry only changes the database, as its session may.
  have hdoes : ∀ {db' : Database T Key fun _ => Unit},
      Does t' (fun _ => True) (fun _ => True) (fun _ w => w ≠ none) s.db db' →
        s' = { s with db := db' } → Meanwhile n t s s' ∧ s'.db.All fun _ w => w ≠ none := by
    rintro db' hdoes rfl
    refine ⟨⟨⟨⟨[], (List.append_nil _).symm⟩, fun k hk => ?_⟩, hdoes.frame ht⟩,
      hdoes.all hall fun _ _ => id⟩
    exact hdoes.isSome_committed hall (fun _ _ => id) (fun h => h rfl) hk
  have hread : s' = s → Meanwhile n t s s' ∧ s'.db.All fun _ w => w ≠ none := fun heq =>
    hdoes (.refl _) heq
  rcases c with ⟨m, f⟩ | m | m | ⟨m, lo, hi, count⟩ | _ | key | _ | _
  · simp only [exec] at h
    split_ifs at h with hid
    obtain ⟨st, hst⟩ : ∃ st, (s.streams.get m).append o.id f hid = st := ⟨_, rfl⟩
    rw [hst] at h
    have happend : Meanwhile n t s { s with streams := s.streams.set m st } := by
      refine ⟨⟨?_, fun _ => id⟩, .refl _ _⟩
      by_cases hm : n = m
      · subst hm
        exact ⟨[(o.id, f)], by rw [Streams.get_set_self, ← hst]; rfl⟩
      · exact ⟨[], by rw [Streams.get_set_of_ne hm, List.append_nil]⟩
    rcases redis_cases h with ⟨-, rfl⟩ | ⟨-, rfl | rfl⟩
    · exact ⟨happend, hall⟩
    · exact hread rfl
    · exact ⟨happend, hall⟩
  · rcases redis_cases h with ⟨-, rfl⟩ | ⟨-, rfl | rfl⟩ <;> exact hread rfl
  · simp only [exec] at h
    split at h <;> rcases redis_cases h with ⟨-, rfl⟩ | ⟨-, rfl | rfl⟩ <;> exact hread rfl
  · rcases redis_cases h with ⟨-, rfl⟩ | ⟨-, rfl | rfl⟩ <;> exact hread rfl
  · cases h
    exact hdoes (.abort _ _) rfl
  · obtain ⟨⟨x, db'⟩, hx, heq⟩ := Option.map_eq_some_iff.1 h
    cases heq
    refine hdoes (statement_does hx fun a ha => ?_) rfl
    obtain ⟨⟨b, db₁⟩, hinsert, heq⟩ := Option.map_eq_some_iff.1 ha
    cases heq
    exact insertNew_does hinsert trivial nofun
  · cases h
    exact hdoes (commit_does rfl) rfl
  · cases h
    exact hdoes (close_does rfl) rfl

/-! ### The session of a row -/

/-- The transaction of the session has written no rows but the given ones, and deleted none. -/
def Writes (t : T) (added : Key → Prop) (s : World T) : Prop :=
  ∀ k, s.db.pending t k = none ∨ s.db.pending t k = some (some ()) ∧ added k

theorem Writes.of_frame (h : Writes t added s) (hframe : Frame t s.db s'.db) : Writes t added s' := by
  intro k
  rw [hframe.pending]
  exact h k

/-- What a transaction sees is committed, or written by it. -/
theorem Writes.isSome_view (h : Writes t added s) (k : Key) :
    ((s.db.committed k).isSome → (s.db.view t k).isSome) ∧
      ((s.db.view t k).isSome → (s.db.committed k).isSome ∨ added k) := by
  rw [view]
  rcases h k with hnone | ⟨hsome, hadded⟩
  · rw [hnone]
    exact ⟨id, .inl⟩
  · rw [hsome]
    exact ⟨fun _ => rfl, fun _ => .inr hadded⟩

/-- `COMMIT` commits what the transaction has written, or nothing. -/
theorem commit_effect {o : Choice} {r : Except Exn Unit} (hw : Writes t added s)
    (h : exec decodeResponses t .commit o s = some (r, s')) :
    Later n s s' ∧ Adds added (s, s') ∧
      (r = .ok () → ∀ k, (s.db.view t k).isSome → (s'.db.committed k).isSome) := by
  have hview : ∀ st, Later n s { s with db := s.db.commitTx t st } ∧
      Adds added (s, { s with db := s.db.commitTx t st }) := fun st =>
    ⟨⟨⟨[], (List.append_nil _).symm⟩, fun k => (hw.isSome_view k).1⟩, fun k => (hw.isSome_view k).2⟩
  cases h
  have hcases : s.db.commit t o.fault Exn.sql = (_, _) := rfl
  rcases commit_cases hcases with
    ⟨hr, ⟨hdb, -⟩ | ⟨hdb, -⟩ | ⟨hdb, -⟩⟩ | ⟨hr, hdb, -⟩
  · rw [hdb, hr]
    exact ⟨.refl _ _, adds_of_eq rfl, nofun⟩
  · rw [hdb, hr]
    exact ⟨.of_eq rfl rfl, adds_of_eq rfl, nofun⟩
  · rw [hdb, hr]
    exact ⟨(hview _).1, (hview _).2, nofun⟩
  · rw [hdb, hr]
    exact ⟨(hview _).1, (hview _).2, fun _ k hk => hk⟩

/-- What the session sees it still sees after what the others do. -/
theorem Meanwhile.isSome_view (h : Meanwhile n t s s') {k : Key} (hk : (s.db.view t k).isSome) :
    (s'.db.view t k).isSome := by
  rw [view] at hk ⊢
  rw [h.frame.pending]
  rcases hp : s.db.pending t k with _ | w
  · rw [hp] at hk
    exact h.recorded k hk
  · rwa [hp] at hk

/-- A session that is closed has written nothing. -/
theorem closeSession_effect {o : Choice} {r : Except Exn Unit}
    (h : exec decodeResponses t .closeSession o s = some (r, s')) :
    Later n s s' ∧ Adds added (s, s') := by
  have hs' : s' = { s with db := (s.db.close t o.fault Exn.sql).2 } := by
    cases h
    rfl
  have hdb : (s.db.close t o.fault Exn.sql).2 = s.db.abort t .ready := (close_cases rfl).1
  rw [hs', hdb]
  exact ⟨.of_eq rfl rfl, adds_of_eq rfl⟩

/-- `INSERT … ON CONFLICT DO NOTHING` writes the row, or nothing. -/
theorem insertIndex_effect {o : Choice} {r : Except Exn Unit} {key : Key}
    (hw : ∀ k, s.db.pending t k = none)
    (h : exec decodeResponses t (.insertIndex key) o s = some (r, s')) :
    s'.streams = s.streams ∧ s'.db.committed = s.db.committed ∧
      (r = .ok () → Writes t (· = key) s' ∧ (s'.db.view t key).isSome) := by
  obtain ⟨⟨x, db'⟩, hx, heq⟩ := Option.map_eq_some_iff.1 h
  cases heq
  rcases statement_cases hx with ⟨e, rfl, ⟨-, rfl⟩ | ⟨-, -, rfl | rfl⟩⟩ | ⟨_, rfl, -, -, ha⟩
  · exact ⟨rfl, rfl, nofun⟩
  · exact ⟨rfl, committed_fail, nofun⟩
  · exact ⟨rfl, committed_abort, nofun⟩
  obtain ⟨⟨b, db₁⟩, hinsert, heq⟩ := Option.map_eq_some_iff.1 ha
  cases heq
  rcases insertNew_cases hinsert with ⟨-, rfl, hview⟩ | ⟨-, -, hlock, rfl⟩
  · exact ⟨rfl, rfl, fun _ => ⟨fun k => .inl (hw k), hview⟩⟩
  · refine ⟨rfl, rfl, fun _ => ⟨fun k => ?_, by rw [view_put_self]; rfl⟩⟩
    rw [pending_put, Function.update_self]
    by_cases hk : k = key
    · subst hk
      exact .inr ⟨Function.update_self _ _ _, rfl⟩
    · rw [Function.update_of_ne hk]
      exact .inl (hw k)

/-- A row is inserted in a session of its own: if nothing fails it is there, and nothing else is
    inserted in any case. -/
theorem insertMatch_effect {key : Key} {r : Except Exn Unit}
    (h : (insertMatch key).RunsAmid (exec decodeResponses t) (Meanwhile n t) s steps r s') :
    Effect n (· = key) 4 s steps s' ∧ (r = .ok () → (s'.db.committed key).isSome) := by
  rcases RunsAmid.bind h with ⟨e, hopen, rfl⟩ | ⟨u, s₁, first, rest, hopen, hbody, rfl⟩
  · obtain ⟨s₁, o, -, hexec, -⟩ := runsAmid_perform.1 hopen
    cases hexec
  obtain ⟨sa, o, hmeanwhile, hexec, rfl⟩ := runsAmid_perform.1 hopen
  cases hexec
  obtain ⟨x, s₂, body, y, close, hrun, hclose, rfl, hok⟩ := RunsAmid.ensuring hbody
  -- The session is a fresh one.
  have hfresh : ∀ {s₃ : World T}, Meanwhile n t { sa with db := sa.db.abort t .ready } s₃ →
      ∀ k, s₃.db.pending t k = none := fun hrely k => by rw [hrely.frame.pending, pending_abort_self]
  have hopened : Effect n (· = key) 1 s [(sa, { sa with db := sa.db.abort t .ready })]
      { sa with db := sa.db.abort t .ready } :=
    .single hmeanwhile (.of_eq rfl rfl) (adds_of_eq rfl)
  have hclosed : Effect n (· = key) 1 s₂ close s' := by
    obtain ⟨sc, o', hrely, hexec, rfl⟩ := runsAmid_perform.1 hclose
    obtain ⟨hlater, hadds⟩ := closeSession_effect hexec
    exact .single hrely hlater hadds
  have hworked : Effect n (· = key) 2 { sa with db := sa.db.abort t .ready } body s₂ ∧
      (x = .ok () → (s₂.db.committed key).isSome) := by
    rcases RunsAmid.bind hrun with ⟨e, hinsert, rfl⟩ | ⟨u', s₃, first', rest', hinsert, hcommit, rfl⟩
    · obtain ⟨sb, o', hrely, hexec, rfl⟩ := runsAmid_perform.1 hinsert
      obtain ⟨hst, hdb, -⟩ := insertIndex_effect (hfresh hrely) hexec
      exact ⟨(Effect.single hrely (.of_eq hst hdb) (adds_of_eq hdb)).mono (fun _ => id) (by decide),
        nofun⟩
    · obtain ⟨sb, o', hrely, hexec, rfl⟩ := runsAmid_perform.1 hinsert
      obtain ⟨hst, hdb, hwritten⟩ := insertIndex_effect (hfresh hrely) hexec
      obtain ⟨hwrites, hview⟩ := hwritten rfl
      obtain ⟨sd, o'', hrely', hexec', rfl⟩ := runsAmid_perform.1 hcommit
      obtain ⟨hlater, hadds, hcommitted⟩ := commit_effect (hwrites.of_frame hrely'.frame) hexec'
      refine ⟨(Effect.single hrely (.of_eq hst hdb) (adds_of_eq hdb)).append
        (.single hrely' hlater hadds), fun hx => hcommitted hx key (hrely'.isSome_view hview)⟩
  refine ⟨hopened.append (hworked.1.append hclosed), fun hr => ?_⟩
  exact hclosed.later.recorded key (hworked.2 (hok () hr))

/-! ### The search -/

/-- The dictionary of an entry has the event. -/
def Carries (eventId : EventId) (fields : RawFields) : Prop :=
  ((dictOf fields).lookup "event_id".toUTF8).bind decode = some eventId.text

instance (eventId : EventId) (fields : RawFields) : Decidable (Carries eventId fields) :=
  inferInstanceAs (Decidable (_ = _))

/-- The rows of the entries that carry the event. -/
def KeysOf (streamName : String) (eventId : EventId) (entries : List (StreamId × RawFields))
    (key : Key) : Prop :=
  ∃ e ∈ entries, Carries eventId e.2 ∧ key = ⟨eventId, streamName, e.1⟩

variable {eventId : EventId} {entry last : StreamId × RawFields}
  {page entries : List (StreamId × RawFields)} {upperBound cursor b : StreamId} {turns : ℕ}

theorem decode_empty {v : ByteArray} (h : v.size = 0) : decode v = some "" := by
  obtain rfl : v = ByteArray.empty := ByteArray.size_eq_zero_iff.1 h
  exact Deadletter.decode_toUTF8 ""

/-- An entry of a page gets its row if it carries the event, and only then. -/
theorem indexMatch_effect {r : Except Exn Unit}
    (h : (indexMatch decodeResponses n eventId entry).RunsAmid (exec decodeResponses t) (Meanwhile n t) s
      steps r s') :
    Effect n (KeysOf n eventId [entry]) 4 s steps s' ∧
      (r = .ok () → Carries eventId entry.2 → (s'.db.committed ⟨eventId, n, entry.1⟩).isSome) := by
  have hskip : ∀ {r' : Except Exn Unit}, steps = [] ∧ r = r' ∧ s' = s →
      Effect n (KeysOf n eventId [entry]) 4 s steps s' := by
    rintro r' ⟨rfl, rfl, rfl⟩
    exact (Effect.nil n _ s').mono (fun _ => id) (Nat.zero_le 4)
  rw [indexMatch, eventIdField] at h
  cases hfield : (dictOf entry.2).lookup "event_id".toUTF8 with
  | none =>
    have hnot : ¬Carries eventId entry.2 := by
      rw [Carries, hfield]
      nofun
    rw [hfield] at h
    exact ⟨hskip h, fun _ hc => absurd hc hnot⟩
  | some v =>
    have hcarries : Carries eventId entry.2 ↔ decode v = some eventId.text := by
      rw [Carries, hfield, Option.bind_some]
    rw [hfield, Option.filter_some] at h
    split_ifs at h with hvalue
    · cases hdecode : decode v with
      | none =>
        simp only [hdecode] at h
        exact ⟨hskip h, fun hr => by rw [hr] at h; cases h.2.1⟩
      | some eidStr =>
        simp only [hdecode] at h
        by_cases heid : eidStr = eventId.text
        · rw [if_neg (not_not.2 heid)] at h
          obtain ⟨heffect, hdone⟩ := insertMatch_effect h
          have hc : Carries eventId entry.2 := by rw [hcarries, hdecode, heid]
          exact ⟨heffect.mono (fun k hk => ⟨entry, List.mem_singleton_self _, hc, hk⟩) (Nat.le_refl 4),
            fun hr _ => hdone hr⟩
        · rw [if_pos heid] at h
          refine ⟨hskip h, fun _ hc => absurd ?_ heid⟩
          rw [hcarries, hdecode] at hc
          exact Option.some.inj hc
    · -- The value is empty, which no identifier is.
      refine ⟨hskip h, fun _ hc => ?_⟩
      have hsize : v.size = 0 := by
        by_contra hne
        exact hvalue (decide_eq_true (.inr hne))
      rw [hcarries, decode_empty hsize] at hc
      exact absurd (Option.some.inj hc).symm eventId.nonempty

/-- So do the entries of a page. -/
theorem indexPage_effect {r : Except Exn Unit}
    (h : (forEach (indexMatch decodeResponses n eventId) page).RunsAmid (exec decodeResponses t)
      (Meanwhile n t) s steps r s') :
    Effect n (KeysOf n eventId page) (4 * page.length) s steps s' ∧
      (r = .ok () → ∀ e ∈ page, Carries eventId e.2 →
        (s'.db.committed ⟨eventId, n, e.1⟩).isSome) := by
  induction page generalizing s steps with
  | nil =>
    obtain ⟨rfl, rfl, rfl⟩ := h
    exact ⟨.nil n _ _, fun _ => nofun⟩
  | cons entry page ih =>
    have hfirst : ∀ k, KeysOf n eventId [entry] k → KeysOf n eventId (entry :: page) k := by
      rintro k ⟨e, he, hc⟩
      rw [List.mem_singleton] at he
      exact ⟨e, List.mem_cons.2 (.inl he), hc⟩
    have hrest : ∀ k, KeysOf n eventId page k → KeysOf n eventId (entry :: page) k := by
      rintro k ⟨e, he, hc⟩
      exact ⟨e, List.mem_cons_of_mem _ he, hc⟩
    have hlength : 4 + 4 * page.length = 4 * (entry :: page).length := by
      rw [List.length_cons]
      omega
    rcases RunsAmid.bind h with ⟨e, hmatch, rfl⟩ | ⟨u, s₁, first, rest, hmatch, hpage, rfl⟩
    · obtain ⟨heffect, -⟩ := indexMatch_effect hmatch
      exact ⟨heffect.mono hfirst (by omega), nofun⟩
    · obtain ⟨heffect, hdone⟩ := indexMatch_effect hmatch
      obtain ⟨heffect', hdone'⟩ := ih hpage
      refine ⟨((heffect.mono hfirst (Nat.le_refl 4)).append
        (heffect'.mono hrest (Nat.le_refl _))).mono (fun _ => id) hlength.le, fun hr e he hc => ?_⟩
      rcases List.mem_cons.1 he with rfl | he
      · exact heffect'.later.recorded _ (hdone rfl hc)
      · exact hdone' hr e he hc

theorem reply_ok (h : reply decodeResponses entries = .ok page) : page = entries := by
  rw [reply] at h
  split_ifs at h
  exact (Except.ok.inj h).symm

/-- A page has the entries in its bounds, and reading it changes nothing. -/
theorem xrange_effect {m : String} {lo hi : StreamId} {count : ℕ} {o : Choice}
    {r : Except Exn (List (StreamId × RawFields))}
    (h : exec decodeResponses t (.xrange m lo hi count) o s = some (r, s')) :
    s' = s ∧ ∀ page, r = .ok page → page = (s.streams.get m).range lo hi count := by
  rcases redis_cases h with ⟨rfl, rfl⟩ | ⟨rfl, rfl | rfl⟩
  · exact ⟨rfl, fun page hpage => reply_ok hpage⟩
  · exact ⟨rfl, nofun⟩
  · exact ⟨rfl, nofun⟩

/-- A command that only reads. -/
theorem Effect.read {s₁ : World T} (h : Meanwhile n t s s₁) : Effect n added 1 s [(s₁, s₁)] s₁ :=
  .single h (.refl n s₁) (adds_of_eq rfl)

/-- The loop over the pages, in a stream that had `last` as its last entry when the search started: it
    ends, and if nothing fails every entry of the event from the cursor on has its row. -/
theorem scanPages_effect {st : Stream RawFields} {tail : List (StreamId × RawFields)}
    {r : Except Exn (Option Unit)} (hlast : st.entries.getLast? = some last)
    (htail : (s.streams.get n).entries = st.entries ++ tail)
    (h : (scanPages decodeResponses n eventId last.1 turns cursor).RunsAmid (exec decodeResponses t)
      (Meanwhile n t) s steps r s') :
    Effect n (KeysOf n eventId (st.since cursor)) (5 * (st.since cursor).length + 1) s steps s' ∧
      ((st.since cursor).length < turns → r ≠ .ok none) ∧
      (r = .ok (some ()) → ∀ e ∈ st.since cursor, Carries eventId e.2 →
        (s'.db.committed ⟨eventId, n, e.1⟩).isSome) := by
  induction turns generalizing cursor s steps tail with
  | zero =>
    obtain ⟨rfl, rfl, rfl⟩ := h
    exact ⟨(Effect.nil n _ _).mono (fun _ => id) (Nat.zero_le _), fun hlt => absurd hlt (Nat.not_lt_zero _),
      nofun⟩
  | succ turns ih =>
    rcases RunsAmid.bind h with ⟨e, hread, rfl⟩ | ⟨page, s₁, first, rest, hread, hpage, rfl⟩
    · obtain ⟨s₁, o, hrely, hexec, rfl⟩ := runsAmid_perform.1 hread
      obtain ⟨rfl, -⟩ := xrange_effect hexec
      exact ⟨(Effect.read hrely).mono (fun _ => id) (Nat.le_add_left _ _), fun _ => nofun, nofun⟩
    obtain ⟨s₂, o, hrely, hexec, rfl⟩ := runsAmid_perform.1 hread
    obtain ⟨rfl, hrange⟩ := xrange_effect hexec
    obtain ⟨tail', htail'⟩ := hrely.appended
    rw [htail, List.append_assoc] at htail'
    have hpageEq := hrange page rfl
    rw [Stream.range_eq_since htail' hlast] at hpageEq
    obtain ⟨left, hleft⟩ : ∃ left, (st.since cursor).drop 1000 = left := ⟨_, rfl⟩
    have hsplit : st.since cursor = page ++ left := by
      rw [hpageEq, ← hleft, List.take_append_drop]
    have hread' : Effect n (KeysOf n eventId (st.since cursor)) 1 s [(s₁, s₁)] s₁ := .read hrely
    cases hl : page.getLast? with
    | none =>
      -- There are no entries left.
      simp only [hl] at hpage
      obtain ⟨rfl, rfl, rfl⟩ := hpage
      have hnil : st.since cursor = [] := by
        rw [List.getLast?_eq_none_iff.1 hl] at hpageEq
        exact (List.take_eq_nil_iff.1 hpageEq.symm).resolve_left (by decide)
      rw [hnil] at hread' ⊢
      exact ⟨hread'.mono (fun _ => id) (Nat.le_refl 1), fun _ => nofun, fun _ => nofun⟩
    | some l =>
      simp only [hl] at hpage
      have hpos : 0 < page.length := List.length_pos_of_mem (List.mem_of_getLast? hl)
      have hsplitKeys : (∀ k, KeysOf n eventId page k → KeysOf n eventId (st.since cursor) k) ∧
          ∀ k, KeysOf n eventId left k → KeysOf n eventId (st.since cursor) k := by
        rw [hsplit]
        exact ⟨fun k ⟨e, he, hc⟩ => ⟨e, List.mem_append_left _ he, hc⟩,
          fun k ⟨e, he, hc⟩ => ⟨e, List.mem_append_right _ he, hc⟩⟩
      have hlength : (st.since cursor).length = page.length + left.length := by
        rw [hsplit, List.length_append]
      rcases RunsAmid.bind hpage with ⟨e, hindex, rfl⟩ | ⟨u, s₂, first, rest', hindex, hnext, rfl⟩
      · obtain ⟨heffect, -⟩ := indexPage_effect hindex
        exact ⟨(hread'.append (heffect.mono hsplitKeys.1 (Nat.le_refl _))).mono (fun _ => id) (by omega),
          fun _ => nofun, nofun⟩
      obtain ⟨heffect, hdone⟩ := indexPage_effect hindex
      have hindexed := hread'.append (heffect.mono hsplitKeys.1 (Nat.le_refl _))
      split_ifs at hnext with hend
      · -- The last entry of the page is the last one there is.
        obtain ⟨rfl, rfl, rfl⟩ := hnext
        have hnil : left = [] := by
          refine List.eq_nil_iff_forall_not_mem.2 fun x hx => ?_
          rw [redisIdCompare_pos, redisIdIncrement_eq] at hend
          have hmem : x ∈ st.since cursor := hsplit ▸ List.mem_append_right _ hx
          have hle := Stream.le_of_getLast? hlast (Stream.mem_since.1 hmem).1
          have hsorted := st.sorted_since cursor
          rw [hsplit] at hsorted
          have hlt := (List.pairwise_append.1 hsorted).2.2 l (List.mem_of_getLast? hl) x hx
          exact (hend.trans_le ((StreamId.lt_iff_succ_le.1 hlt).trans hle)).false
        rw [List.append_nil first]
        refine ⟨hindexed.mono (fun _ => id) (by omega), fun _ => nofun, fun _ e he hc => ?_⟩
        rw [hsplit, hnil, List.append_nil] at he
        exact hdone rfl e he hc
      · have hsince : st.since (redisIdIncrement l.1) = left := by
          rw [redisIdIncrement_eq, ← hleft]
          exact Stream.since_succ (by rw [← hpageEq, hl])
        obtain ⟨tail'', htail''⟩ := hindexed.later.appended
        rw [htail, List.append_assoc] at htail''
        obtain ⟨hrest, hturns, hdone'⟩ := ih htail'' hnext
        rw [hsince] at hrest hturns hdone'
        refine ⟨?_, fun hlt => hturns (by omega), fun hr e he hc => ?_⟩
        · have hall := hindexed.append (hrest.mono hsplitKeys.2 (Nat.le_refl _))
          rw [List.append_assoc] at hall
          exact hall.mono (fun _ => id) (by omega)
        · rw [hsplit] at he
          rcases List.mem_append.1 he with he | he
          · exact hrest.later.recorded _ (hdone rfl e he hc)
          · exact hdone' hr e he hc

/-! ### The search from a captured bound -/

/-- The search for an entry of the event, which starts in the state `start`: it reads what is there
    then, and what comes later does not make it longer. -/
structure Repairs (n : String) (eventId : EventId) (b : StreamId) (turns : ℕ)
    (entry : StreamId × RawFields) (start : World T) (steps : List (World T × World T))
    (r : Except Exn (Option Unit)) (s' : World T) : Prop where
  starts : steps.head?.map (·.1) = some start
  covers : entry ∈ (start.streams.get n).since b
  records : r = .ok (some ()) → ∀ e ∈ (start.streams.get n).since b, Carries eventId e.2 →
    (s'.db.committed ⟨eventId, n, e.1⟩).isSome
  only : ∀ step ∈ steps, Adds (KeysOf n eventId ((start.streams.get n).since b)) step
  ends : ((start.streams.get n).since b).length < turns → r ≠ .ok none
  bounded : steps.length ≤ 5 * ((start.streams.get n).since b).length + 2

theorem map_reply {α : Type} {f : List (StreamId × RawFields) → α} {x : Except Exn α}
    (h : (reply decodeResponses entries).map f = x) :
    (∀ a, x = .ok a → a = f entries) ∧ x ≠ .error (.redis true) := by
  subst h
  rw [reply]
  split_ifs
  · exact ⟨nofun, nofun⟩
  · exact ⟨fun a ha => (Except.ok.inj ha).symm, nofun⟩

/-- `XINFO STREAM` answers with the last entry, and says that the key does not exist only if there is
    none. -/
theorem xinfoStream_effect {m : String} {o : Choice} {r : Except Exn (Option StreamId)}
    (h : exec decodeResponses t (.xinfoStream m) o s = some (r, s')) :
    s' = s ∧ (∀ x, r = .ok x → x = (s.streams.get m).entries.getLast?.map (·.1)) ∧
      (r = .error (.redis true) → (s.streams.get m).entries = []) := by
  cases hst : s.streams m with
  | none =>
    simp only [exec, hst] at h
    have hempty : (s.streams.get m).entries = [] := by
      rw [Streams.get, hst]
      rfl
    rcases redis_cases h with ⟨rfl, rfl⟩ | ⟨rfl, rfl | rfl⟩ <;>
      exact ⟨rfl, by rintro x ⟨⟩, fun _ => hempty⟩
  | some st =>
    have hget : s.streams.get m = st := by
      rw [Streams.get, hst]
      rfl
    have hlast : (st.entries.head?.toList ++ st.entries.getLast?.toList).getLast? =
        st.entries.getLast? := by
      cases hl : st.entries.getLast? with
      | none =>
        rw [List.getLast?_eq_none_iff.1 hl]
        rfl
      | some l => rw [Option.toList_some, List.getLast?_concat]
    simp only [exec, hst] at h
    rw [hget]
    rcases redis_cases h with ⟨hr, rfl⟩ | ⟨rfl, rfl | rfl⟩
    · obtain ⟨hok, hnot⟩ := map_reply hr.symm
      refine ⟨rfl, fun x hx => ?_, fun hx => absurd hx hnot⟩
      rw [hok x hx, hlast]
    · exact ⟨rfl, by rintro x ⟨⟩, by rintro ⟨⟩⟩
    · exact ⟨rfl, by rintro x ⟨⟩, by rintro ⟨⟩⟩

/-- `XREVRANGE` with one entry answers with the last one. -/
theorem xrevrange_effect {m : String} {o : Choice} {r : Except Exn (Option StreamId)}
    (h : exec decodeResponses t (.xrevrange m) o s = some (r, s')) :
    s' = s ∧ ∀ x, r = .ok x → x = (s.streams.get m).entries.getLast?.map (·.1) := by
  rcases redis_cases h with ⟨hr, rfl⟩ | ⟨rfl, rfl | rfl⟩
  · refine ⟨rfl, fun x hx => ?_⟩
    rw [(map_reply hr.symm).1 x hx]
    cases (s'.streams.get m).entries.getLast? <;> rfl
  · exact ⟨rfl, nofun⟩
  · exact ⟨rfl, nofun⟩

/-- The bound that is captured is past the end of the stream, or at its start: it is before whatever
    is appended later. -/
theorem captured_le {tail : List (StreamId × RawFields)}
    (h : (captureStreamLowerBound n).RunsAmid (exec decodeResponses t) (Meanwhile n t) s steps (.ok b) s')
    (htail : (s''.streams.get n).entries = (s'.streams.get n).entries ++ tail) (he : entry ∈ tail) :
    b ≤ entry.1 := by
  rcases RunsAmid.tryCatch h with ⟨b', hread, hb⟩ | ⟨e, s₁, first, rest, hread, hcatch, rfl⟩
  · cases hb
    rcases RunsAmid.bind hread with ⟨e, -, he⟩ | ⟨last, s₁, first, rest, hlast, hbound, rfl⟩
    · cases he
    obtain ⟨s₂, o, hrely, hexec, rfl⟩ := runsAmid_perform.1 hlast
    obtain ⟨rfl, hend⟩ := xrevrange_effect hexec
    have hend := hend last rfl
    cases hl : (s₁.streams.get n).entries.getLast? with
    | none =>
      rw [hl] at hend
      subst hend
      obtain ⟨rfl, hb, rfl⟩ := hbound
      rw [Except.ok.inj hb]
      exact StreamId.zero_le _
    | some l =>
      rw [hl] at hend
      subst hend
      obtain ⟨rfl, hb, rfl⟩ := hbound
      rw [Except.ok.inj hb]
      split_ifs
      · exact StreamId.zero_le _
      · rw [redisIdIncrement_eq]
        exact StreamId.lt_iff_succ_le.1 (Stream.lt_of_append htail he (List.mem_of_getLast? hl))
  · cases e with
    | redis noSuchKey =>
      obtain ⟨-, hb, -⟩ := hcatch
      rw [Except.ok.inj hb]
      exact StreamId.zero_le _
    | sql => cases hcatch.2.1
    | unicodeDecode => cases hcatch.2.1

/-- The search reads the end of the stream first: that is where it starts. -/
theorem lastEntry_effect {r : Except Exn (Option StreamId)}
    (h : ((request (.xinfoStream n)).tryCatch fun
      | .redis true => pure none
      | e => throw e).RunsAmid (exec decodeResponses t) (Meanwhile n t) s steps r s') :
    Meanwhile n t s s' ∧ steps = [(s', s')] ∧
      ∀ x, r = .ok x → x = (s'.streams.get n).entries.getLast?.map (·.1) := by
  rcases RunsAmid.tryCatch h with ⟨x, hread, rfl⟩ | ⟨e, s₁, first, rest, hread, hcatch, rfl⟩
  · obtain ⟨s₁, o, hrely, hexec, rfl⟩ := runsAmid_perform.1 hread
    obtain ⟨rfl, hend, -⟩ := xinfoStream_effect hexec
    exact ⟨hrely, rfl, fun y hy => hend y hy⟩
  · obtain ⟨s₂, o, hrely, hexec, rfl⟩ := runsAmid_perform.1 hread
    obtain ⟨rfl, -, hempty⟩ := xinfoStream_effect hexec
    rcases e with (_ | _) | _ | _
    · obtain ⟨rfl, rfl, rfl⟩ := hcatch
      exact ⟨hrely, rfl, nofun⟩
    · obtain ⟨rfl, rfl, rfl⟩ := hcatch
      refine ⟨hrely, rfl, fun x hx => ?_⟩
      rw [hempty rfl, ← Except.ok.inj hx]
      rfl
    · obtain ⟨rfl, rfl, rfl⟩ := hcatch
      exact ⟨hrely, rfl, nofun⟩
    · obtain ⟨rfl, rfl, rfl⟩ := hcatch
      exact ⟨hrely, rfl, nofun⟩

/-- A search that starts after an entry of the event was appended, from a bound that was captured
    before, gives every entry of the event that is there when it starts its row, and inserts no other. -/
theorem repairs_of_captured {s₀ s₁ s₂ s₃ : World T} {captureSteps : List (World T × World T)}
    {tail : List (StreamId × RawFields)} {r : Except Exn (Option Unit)}
    (hcaptured : (captureStreamLowerBound n).RunsAmid (exec decodeResponses t) (Meanwhile n t) s₀
      captureSteps (.ok b) s₁)
    (happended : (s₂.streams.get n).entries = (s₁.streams.get n).entries ++ tail)
    (hentry : entry ∈ tail)
    (hrun : (reconcileUnindexedXadd decodeResponses n eventId b turns).RunsAmid (exec decodeResponses t)
      (Meanwhile n t) s₂ steps r s₃) :
    ∃ start, Meanwhile n t s₂ start ∧ Repairs n eventId b turns entry start steps r s₃ := by
  have hle := captured_le hcaptured happended hentry
  have hcovers : ∀ {start : World T}, Meanwhile n t s₂ start →
      entry ∈ (start.streams.get n).since b := by
    intro start hrely
    obtain ⟨tail', htail'⟩ := hrely.appended
    refine Stream.mem_since.2 ⟨?_, hle⟩
    rw [htail', happended]
    exact List.mem_append_left _ (List.mem_append_right _ hentry)
  have hread : ∀ {start : World T}, Adds (KeysOf n eventId ((start.streams.get n).since b))
      (start, start) := adds_of_eq rfl
  rcases RunsAmid.bind hrun with ⟨e, hlast, rfl⟩ | ⟨lastEntry, start, first, rest, hlast, hscan, rfl⟩
  · obtain ⟨hrely, rfl, -⟩ := lastEntry_effect hlast
    refine ⟨s₃, hrely, rfl, hcovers hrely, nofun, fun step hstep => ?_, fun _ => nofun,
      Nat.le_add_left 1 _⟩
    rw [List.mem_singleton.1 hstep]
    exact hread
  obtain ⟨hrely, rfl, hend⟩ := lastEntry_effect hlast
  have hend := hend lastEntry rfl
  refine ⟨start, hrely, ?_⟩
  have hmem := hcovers hrely
  cases hl : (start.streams.get n).entries.getLast? with
  | none =>
    rw [Stream.since, List.getLast?_eq_none_iff.1 hl] at hmem
    cases hmem
  | some last =>
    rw [hl] at hend
    subst hend
    have hbound : b ≤ last.1 :=
      (Stream.mem_since.1 hmem).2.trans (Stream.le_of_getLast? hl (Stream.mem_since.1 hmem).1)
    simp only [Option.map_some] at hscan
    split_ifs at hscan with hpast
    · exact absurd hbound (not_le.2 (redisIdCompare_pos.1 hpast))
    · obtain ⟨heffect, hends, hrecords⟩ :=
        scanPages_effect hl (List.append_nil (start.streams.get n).entries).symm hscan
      refine ⟨rfl, hmem, hrecords, fun step hstep => ?_, hends, ?_⟩
      · rcases List.mem_append.1 hstep with hstep | hstep
        · rw [List.mem_singleton.1 hstep]
          exact hread
        · exact heffect.adds step hstep
      · rw [List.length_append]
        have := heffect.length_le
        rw [List.length_singleton]
        omega

end Steps

/-! ### An orphan -/

/-- The event of the orphan. -/
def orphanEvent : EventId := ⟨"0191f3a2-7c44-7d10-8a6e-5f2b9c0d1e23", by decide⟩

/-- A stream with an entry of another event. -/
def earlierStream : Stream RawFields :=
  Stream.empty.append (.ofMs 1) [("event_id".toUTF8, "x".toUTF8)] Deadletter.lastId_empty_lt

/-- Then the orphan is appended, and after it an entry that has no event. -/
def laterStream : Stream RawFields :=
  (earlierStream.append (.ofMs 2) [("event_id".toUTF8, orphanEvent.text.toUTF8)] (by decide)).append
    (.ofMs 3) [("payload".toUTF8, ⟨#[0xff]⟩)] (by decide)

def worldOf (st : Stream RawFields) : World Unit where
  streams n := if n = "aslan.kap.filings.new" then some st else none
  db := .ofRows fun _ => none

theorem get_worldOf (st : Stream RawFields) :
    (worldOf st).streams.get "aslan.kap.filings.new" = st := by
  have hsome : (worldOf st).streams "aslan.kap.filings.new" = some st := by
    simp only [worldOf, if_true]
  rw [Streams.get, hsome, Option.getD_some]

theorem meanwhile_refl {n : String} (s : World Unit) : Meanwhile n () s s := ⟨.refl n s, .refl _ _⟩

/-- The orphan gets its row, by six commands. -/
theorem repairs_orphan : ∃ (start s' : World Unit) (steps : List (World Unit × World Unit)),
    Repairs "aslan.kap.filings.new" orphanEvent (StreamId.ofMs 1).succ 3
      (.ofMs 2, [("event_id".toUTF8, orphanEvent.text.toUTF8)]) start steps (.ok (some ())) s' := by
  have hcapture : (captureStreamLowerBound "aslan.kap.filings.new").runSteps (exec false ()) [{}]
      (worldOf earlierStream) = some ([(worldOf earlierStream, worldOf earlierStream)],
        .ok (StreamId.ofMs 1).succ, worldOf earlierStream) := rfl
  have hrun : ((reconcileUnindexedXadd false "aslan.kap.filings.new" orphanEvent
      (StreamId.ofMs 1).succ 3).runSteps (exec false ()) (List.replicate 6 {})
        (worldOf laterStream)).any (fun x => x.2.1.toOption = some (some ())) = true := by
    decide +kernel
  obtain ⟨⟨steps, r, s'⟩, hrun, hr⟩ := Option.any_eq_true _ _ |>.1 hrun
  have hr : r = .ok (some ()) := by
    rcases r with e | x
    · cases of_decide_eq_true hr
    · rw [Option.some.inj (of_decide_eq_true hr)]
  subst hr
  have happended : ((worldOf laterStream).streams.get "aslan.kap.filings.new").entries =
      ((worldOf earlierStream).streams.get "aslan.kap.filings.new").entries ++
        [(.ofMs 2, [("event_id".toUTF8, orphanEvent.text.toUTF8)]),
          (.ofMs 3, [("payload".toUTF8, ⟨#[0xff]⟩)])] := by
    rw [get_worldOf, get_worldOf]
    rfl
  obtain ⟨start, -, hrepairs⟩ := repairs_of_captured (.of_runSteps hcapture meanwhile_refl) happended
    List.mem_cons_self (.of_runSteps hrun meanwhile_refl)
  exact ⟨start, s', steps, hrepairs⟩

end Repair

end Outbox

end AslanCore
