import AslanCore.Timeseries.WriteCalls

/-!
# Bulk writes are serial

Any number of writers run `ObservationWriter.write`, in transactions of any number of calls.

* `valid_writeOutline`: the programs keep to the outline of the writers;
* `serial_of_reach`: what is stored is what the transactions that were committed make of it, one
  after the other, and one observation after the other, with the counts that they return;
* `raises_of_healthy`: a job that raises cannot be done, unless the database fails;
* `trail_of_reach`: every event has as many keys as it says, with the hashes of the observations,
  and every observation has been inserted under just one event.
-/

set_option linter.unusedSectionVars false

namespace AslanCore

namespace Timeseries

namespace Writing

open Insertion Database Outline

section

variable {P : Type} [DecidableEq P] {env : Env} {rows : (k : Key) → Option (RowOf k)} {first : ℕ}
  {healthy : Prop} {g : Guard Cmd P WriteJob Choice (World P)} {p : P} {s s' : World P}
  {job : WriteJob} {db : Database P Key RowOf}

/-! ### Transactions -/

/-- Before its first call, a writer has done nothing. -/
theorem working_of_idle {caller : Caller} (hready : db.status p = .ready)
    (hpending : db.pending p = fun _ => none) :
    Working env first caller p [] [] [] [] ∅ none db := by
  have hview : db.view p = db.committed := by
    funext key
    rw [Database.view, hpending, Option.getD_none]
  refine ⟨hready, ⟨_, rfl, by rw [hview]; rfl, by simp⟩, ?_⟩
  refine ⟨fun n e => ?_, fun n k c => ?_, ?_, ?_, ?_, fun k => ?_, ?_, ?_⟩
  · rw [hpending]
    simp
  · rw [hpending]
    simp
  · rintro b ⟨⟩
  · exact List.nodup_nil
  · rintro b ⟨⟩
  · rw [hpending]
    simp
  · rintro b ⟨⟩
  · rintro k ⟨⟩

/-- What has become of a job: it has been done, or it cannot be. -/
def Ended (env : Env) (healthy : Prop) (job : WriteJob) (r : Except WriteError (List WriteCount))
    (s : World P) : Prop :=
  match r with
  | .ok counts => (job, counts) ∈ s.history
  | .error e => Raises env healthy job e s

theorem ended_stable {r : Except WriteError (List WriteCount)} :
    (writeOutline P env rows first healthy).Stable p (Ended env healthy job r) := by
  rintro s s' ⟨-, hkeeps, hprefix⟩ h
  rcases r with e | counts
  · exact h.stable hkeeps
  · exact hprefix.subset h

theorem safe_transaction (hg : Careful g healthy env rows)
    (hstorable : healthy → Storable env rows job) (hready : s.db.status p = .ready)
    (hpending : s.db.pending p = fun _ => none) :
    (writeOutline P env rows first healthy).Safe (system env P) g p (transaction env job)
      (Ended env healthy job) s := by
  refine safe_bind.2 ((safe_foldlM (Q := outcome (fun counts s' => ∃ batches,
    Working env first job.caller p job.calls counts batches [] ∅ none s'.db)
    fun e s' => Raises env healthy job e s') (fun counts todo (s : World P) =>
    ∃ done batches, job.calls = done ++ todo ∧
      Working env first job.caller p done counts batches [] ∅ none s.db)
    (fun counts s' hend => ?_) (fun counts call todo s' hloop => ?_)
    ⟨[], [], rfl, working_of_idle hready hpending⟩).mono ?_)
  · obtain ⟨done, batches, heq, h⟩ := hend
    rw [List.append_nil] at heq
    exact ⟨batches, heq ▸ h⟩
  · obtain ⟨done, batches, heq, h⟩ := hloop
    refine safe_bind.2 ((safe_write hg heq hstorable h).mono ?_)
    rintro (e | count) s₁ h₁
    · exact h₁
    · obtain ⟨batches', h₁⟩ := h₁
      exact ⟨done ++ [call], batches', by rw [heq, List.append_assoc, List.singleton_append], h₁⟩
  rintro (e | counts) s₁ h₁
  · exact h₁
  have hcommit : (writeOutline P env rows first healthy).Safe (system env P) g p
      (request (.commit job counts)) (outcome (fun _ s' => (job, counts) ∈ s'.history)
        fun e s' => Raises env healthy job e s') s₁ := by
    refine safe_request hg (fun db => ∃ batches,
      Working env first job.caller p job.calls counts batches [] ∅ none db)
      (fun hf hk ⟨batches, h⟩ => ⟨batches, h.stable hf hk⟩) h₁ (fun _ h => h)
      fun c r s₂ s₃ _ ⟨batches, h⟩ hfault hex => ?_
    rcases exec_commit h.ready hex with ⟨rfl, hne, -, -⟩ | ⟨-, hhistory, rfl | ⟨rfl, hne⟩⟩
    · exact .inl ⟨rfl, fun hh => hne (hfault hh)⟩
    · rw [outcome, hhistory]
      exact List.mem_append_right _ (List.mem_singleton_self _)
    · exact .inl ⟨rfl, fun hh => hne (hfault hh)⟩
  refine safe_bind.2 (hcommit.mono ?_)
  rintro (e | _) s₂ h₂
  · exact h₂
  · exact h₂

/-- Whatever becomes of a transaction, its session is closed. -/
theorem safe_program (hg : Careful g healthy env rows)
    (hstorable : healthy → Storable env rows job) (hready : s.db.status p = .ready)
    (hpending : s.db.pending p = fun _ => none) :
    (writeOutline P env rows first healthy).Safe (system env P) g p (job.program env)
      ((writeOutline P env rows first healthy).post p job) s := by
  refine safe_ensuring.2 ((safe_transaction hg hstorable hready hpending).mono fun r s₁ h₁ => ?_)
  refine safe_perform (Ended env healthy job r) ended_stable h₁ fun s₂ hi h₂ =>
    ⟨trivial, fun o x s₃ ho hex _ => ?_⟩
  have hfault : healthy → o.fault = .none := fun hh => hg.fault hh ho
  rcases hclose : s₂.db.close p o.fault WriteError.sql with ⟨r', db⟩
  simp only [system, World.exec, hclose] at hex
  cases hex
  obtain ⟨rfl, hr⟩ := close_cases hclose
  have hidle : (s₂.db.abort p .ready).status p = .ready ∧
      (s₂.db.abort p .ready).pending p = fun _ => none := ⟨status_abort_self, pending_abort_self⟩
  rcases hr with rfl | ⟨rfl, hne⟩
  · rcases r with e | counts
    · exact ⟨hidle, h₂⟩
    · exact ⟨hidle, h₂⟩
  · exact ⟨hidle, .inl ⟨rfl, fun hh => hne (hfault hh)⟩⟩

theorem valid_writeOutline (hg : Careful g healthy env rows) :
    (writeOutline P env rows first healthy).Valid (system env P) g where
  rely_refl p s := ⟨.refl p s.db, .refl s.db, List.prefix_rfl⟩
  rely_trans p s s' s'' h h' :=
    ⟨h.1.trans h'.1, h.2.1.trans h'.2.1, h.2.2.trans h'.2.2⟩
  inv_step p c o s r s' hi hk _ hex := inv_exec hi hk hex
  rely_step p q c o s r s' hq hi _ _ hex := (executed_exec hi.unsaved hex).rely hi.fresh hq.symm
  inv_kill p s hi _ := by
    have heff : Database.Effect p (Inserts p) s.db (s.db.abort p .ready) := .undone undone_abort
    exact ⟨heff.unsaved hi.unsaved, heff.fresh hi.fresh, hi.kept, hi.le, hi.numbered.abort, hi.serial,
      hi.trail⟩
  rely_kill p q s hq _ _ := ⟨frame_abort hq.symm, .of_eq rfl, List.prefix_rfl⟩
  idle_kill p s _ := ⟨status_abort_self, pending_abort_self⟩
  idle_stable := by
    rintro p s s' ⟨hf, -, -⟩ ⟨hready, hpending⟩
    exact ⟨hf.status.trans hready, hf.pending.trans hpending⟩
  post_stable := by
    rintro p job r s s' hr ⟨⟨hready, hpending⟩, h⟩
    exact ⟨⟨hr.1.status.trans hready, hr.1.pending.trans hpending⟩, ended_stable _ _ hr h⟩
  post_idle p job r s h := h.1
  body p job s _ hidle hstart :=
    safe_program hg (fun hh => hg.start hh hstart) hidle.1 hidle.2

/-! ### Runs -/

/-- Before anything is written, the invariant holds, if the events from `first` on are yet to come. -/
theorem inv_ofRows (hevent : ∀ n, first ≤ n → rows (.event n) = none)
    (hkey : ∀ n k, first ≤ n → rows (.batchKey n k) = none) :
    Inv env rows first (World.ofRows rows first : World P) := by
  refine ⟨fun _ => rfl, fresh_ofRows rows, fun _ _ h => h, le_rfl, ?_, .nil, ?_⟩
  · rintro k v (h | h | ⟨h, -⟩)
    · rcases k with _ | _ | _ | n | _ | _ <;> try exact trivial
      refine lt_of_not_ge fun hle => ?_
      cases (hevent n hle).symm.trans h
    · cases h
    · cases h
  · refine ⟨fun {n k c} hn hc => ?_, fun {n e} hn he => ?_, fun k => ⟨?_, ?_⟩,
      fun {n n' k c c'} hn _ hc => ?_⟩
    · cases (hkey n k hn).symm.trans hc
    · cases (hevent n hn).symm.trans he
    · rintro ⟨hsome, hnone⟩
      have hsome' : (Writing.observations rows k).isSome := hsome
      rw [hnone] at hsome'
      cases hsome'
    · rintro ⟨n, c, hn, hc, -⟩
      cases (hkey n k hn).symm.trans hc
    · cases (hkey n k hn).symm.trans hc

/-- Every job of a run ends as its outline says. -/
theorem ended_of_reach (hg : Careful g healthy env rows)
    (hevent : ∀ n, first ≤ n → rows (.event n) = none)
    (hkey : ∀ n k, first ≤ n → rows (.batchKey n k) = none)
    {cfg : Config Cmd Reply WriteError (List WriteCount) P WriteJob (World P)}
    (h : (system env P).Reach g.Holds ((system env P).initial (.ofRows rows first)) cfg) :
    Inv env rows first cfg.shared ∧
      (∀ p job counts, cfg.proc p = some (job, .ret counts) →
        (job, counts) ∈ cfg.shared.history) ∧
      ∀ p job e, cfg.proc p = some (job, .raise e) → Raises env healthy job e cfg.shared := by
  have hsafe := (valid_writeOutline hg).safe (inv_ofRows hevent hkey)
    (fun p => (⟨rfl, rfl⟩ : (writeOutline P env rows first healthy).idle p (.ofRows rows first))) h
  refine ⟨hsafe.1, fun p job counts hp => ?_, fun p job e hp => ?_⟩
  · have hproc := hsafe.2 p
    rw [hp] at hproc
    exact hproc.2
  · have hproc := hsafe.2 p
    rw [hp] at hproc
    exact hproc.2

/-- In a healthy run, no statement fails, and the database can store what is written. -/
def healthyRun (P : Type) (env : Env) (rows : (k : Key) → Option (RowOf k)) :
    Guard Cmd P WriteJob Choice (World P) where
  start _ job _ := Storable env rows job
  step _ _ o _ := o.fault = .none

/-- Nothing is asked of a run. -/
theorem careful_trivial :
    Careful (⟨fun _ _ _ => True, fun _ _ _ _ => True, fun _ _ => True⟩ :
      Guard Cmd P WriteJob Choice (World P)) False env rows :=
  ⟨False.elim, False.elim⟩

section

variable (hevent : ∀ n, first ≤ n → rows (.event n) = none)
  (hkey : ∀ n k, first ≤ n → rows (.batchKey n k) = none)
  {cfg : Config Cmd Reply WriteError (List WriteCount) P WriteJob (World P)}

include hevent hkey

/-- What is stored is what the transactions that were committed make of what was there before, one
    after the other, and one observation after the other, with the counts that they have returned.
    The others have failed in the database, or their calls cannot be made. -/
theorem serial_of_reach (h : (system env P).Reach (fun _ _ => True)
      ((system env P).initial (.ofRows rows first)) cfg) :
    Serial env (Writing.observations rows) cfg.shared.history
        (Writing.observations cfg.shared.db.committed) ∧
      (∀ p job counts, cfg.proc p = some (job, .ret counts) →
        (job, counts) ∈ cfg.shared.history) ∧
      ∀ p job e, cfg.proc p = some (job, .raise e) → e = .sql ∨ Unhashable env job ∨
        applyAll env job.caller (Writing.observations cfg.shared.db.committed) job.calls = none := by
  obtain ⟨hinv, hret, hraise⟩ := ended_of_reach careful_trivial hevent hkey
    (h.mono fun cfg e _ => Guard.holds_trivial cfg e)
  exact ⟨hinv.serial, hret, fun p job e hp => (hraise p job e hp).imp_left And.left⟩

/-- Every event has as many keys as it says, with the hashes of the observations, and every
    observation that was not there before has been inserted under just one event. -/
theorem trail_of_reach (h : (system env P).Reach (fun _ _ => True)
      ((system env P).initial (.ofRows rows first)) cfg) :
    Trail first (Writing.observations rows) cfg.shared.db.committed :=
  (ended_of_reach careful_trivial hevent hkey
    (h.mono fun cfg e _ => Guard.holds_trivial cfg e)).1.trail

/-- In a healthy run, a job raises only if its calls cannot be made on what is stored, or one of them
    has no batch hash. -/
theorem raises_of_healthy (h : (system env P).Reach (healthyRun P env rows).Holds
      ((system env P).initial (.ofRows rows first)) cfg) {p : P} {job : WriteJob} {e : WriteError}
    (hp : cfg.proc p = some (job, .raise e)) : Unhashable env job ∨
      applyAll env job.caller (Writing.observations cfg.shared.db.committed) job.calls = none := by
  have hg : Careful (healthyRun P env rows) True env rows := ⟨fun _ => id, fun _ => id⟩
  rcases (ended_of_reach hg hevent hkey h).2.2 p job e hp with ⟨-, hne⟩ | hraise
  · exact absurd trivial hne
  · exact hraise

end

end

/-! ### A series with one observation -/

/-- A database with a series and a run. -/
def oneSeries : (k : Key) → Option (RowOf k)
  | .series 1 => some "kap"
  | .ingestionRun 1 => some ()
  | _ => none

theorem event_oneSeries (n : ℕ) : oneSeries (.event n) = none := rfl

theorem batchKey_oneSeries (n : ℕ) (k : ObservationKey) : oneSeries (.batchKey n k) = none := rfl

def plainEnv : Env where
  nfc := id
  sha256 bytes := toString bytes.length
  numericKey _ := false
  hashtext s := s.length
  auditStrict := false
  setOrder := id
  setOrder_perm _ := .refl _
  admits _ := true

/-- An observation is written. -/
def oneObservation : WriteJob where
  caller := ⟨none, 1⟩
  calls := [⟨1, [⟨some midnight, some midnight, some 0, none, 0, []⟩]⟩]

/-- Its run, alone. -/
def oneObservationRun : List (Event Bool WriteJob Choice) :=
  .start true oneObservation :: List.replicate 8 (.step true {})

/-- The job has returned these counts. -/
def returned (counts : List WriteCount)
    (cfg : Config Cmd Reply WriteError (List WriteCount) Bool WriteJob (World Bool)) : Bool :=
  match cfg.proc true with
  | some (_, .ret counts') => counts' = counts
  | _ => false

theorem exists_oneObservation : ∃ cfg, (system plainEnv Bool).Reach (fun _ _ => True)
    ((system plainEnv Bool).initial (.ofRows oneSeries 1)) cfg ∧
      returned [⟨1, 1, 0, 0⟩] cfg = true :=
  have hrun : ((system plainEnv Bool).run (fun _ _ => True) oneObservationRun
      ((system plainEnv Bool).initial (.ofRows oneSeries 1))).any (returned [⟨1, 1, 0, 0⟩]) = true := by
    decide +kernel
  System.Reach.exists_of_run hrun

/-- The observation is stored, and the history has its job. -/
theorem serial_oneObservation : ∃ cfg : Config Cmd Reply WriteError (List WriteCount) Bool WriteJob
    (World Bool), returned [⟨1, 1, 0, 0⟩] cfg = true ∧
      Serial plainEnv (observations oneSeries) cfg.shared.history
        (observations cfg.shared.db.committed) ∧
      (∀ p job counts, cfg.proc p = some (job, .ret counts) →
        (job, counts) ∈ cfg.shared.history) ∧
      ∀ p job e, cfg.proc p = some (job, .raise e) → e = .sql ∨ Unhashable plainEnv job ∨
        applyAll plainEnv job.caller (observations cfg.shared.db.committed) job.calls = none := by
  obtain ⟨cfg, hreach, hreturned⟩ := exists_oneObservation
  exact ⟨cfg, hreturned, serial_of_reach (fun n _ => event_oneSeries n)
    (fun n k _ => batchKey_oneSeries n k) hreach⟩

/-- It is inserted under the event 1. -/
theorem trail_oneObservation : ∃ cfg : Config Cmd Reply WriteError (List WriteCount) Bool WriteJob
    (World Bool), returned [⟨1, 1, 0, 0⟩] cfg = true ∧
      Trail 1 (observations oneSeries) cfg.shared.db.committed := by
  obtain ⟨cfg, hreach, hreturned⟩ := exists_oneObservation
  exact ⟨cfg, hreturned, trail_of_reach (fun n _ => event_oneSeries n)
    (fun n k _ => batchKey_oneSeries n k) hreach⟩

/-- An observation whose `ts` has no offset. -/
def naiveObservation : WriteJob where
  caller := ⟨none, 1⟩
  calls := [⟨1, [⟨none, some midnight, some 0, none, 0, []⟩]⟩]

theorem storable_naiveObservation : Storable plainEnv oneSeries naiveObservation where
  seriesId call hcall := by
    obtain rfl := List.mem_singleton.1 hcall
    decide
  series call hcall := by
    obtain rfl := List.mem_singleton.1 hcall
    rfl
  ingestionRun := rfl
  admits _ _ _ _ _ _ := rfl

/-- It cannot be written. -/
theorem raises_naiveObservation : ∃ cfg : Config Cmd Reply WriteError (List WriteCount) Bool WriteJob
    (World Bool), cfg.proc true = some (naiveObservation, .raise (.naiveTs 0)) ∧
      (Unhashable plainEnv naiveObservation ∨ applyAll plainEnv naiveObservation.caller
        (observations cfg.shared.db.committed) naiveObservation.calls = none) := by
  have hstart : (system plainEnv Bool).Reach (healthyRun Bool plainEnv oneSeries).Holds
      ((system plainEnv Bool).initial (.ofRows oneSeries 1)) _ :=
    .step (.start true naiveObservation) .init storable_naiveObservation rfl
  have hclose : (system plainEnv Bool).Reach (healthyRun Bool plainEnv oneSeries).Holds
      ((system plainEnv Bool).initial (.ofRows oneSeries 1)) _ :=
    .step (.step true {}) hstart (rfl : ({} : Choice).fault = .none) rfl
  exact ⟨_, rfl, raises_of_healthy (p := true) (e := .naiveTs 0) (fun n _ => event_oneSeries n)
    (fun n k _ => batchKey_oneSeries n k) hclose rfl⟩

end Writing

end Timeseries

end AslanCore
