import AslanCore.Documents.Effect
import AslanCore.Process.Alone

/-!
# Uploads that are taken back

`put_filing` uploads objects before it knows whether the filing is stored. The keys are tracked in a
list, each of them before its upload, and after a hit or an exception the objects of this list are
deleted.

* `Within`: the bucket differs at most under some keys, where nothing was before;
* `Kept`: these are the keys of the list, and there are objects under all of them;
* `tracks_uploadAndStore`, `alone_cleanUp`: what the body of the `try` block, and its handler, make
  of this;
* `compensated_of_runs`: so a call that raises leaves all buckets as they were, and one that returns
  has added objects under just the keys that it returns, which are all keys of the call, or none
  after a hit.

A call runs alone here, and its deletions succeed.
-/

set_option linter.unusedSectionVars false

namespace AslanCore

namespace Documents

open Outline Prog

section

variable {P : Type} [DecidableEq P] {env : Env} {p : P} {s s' s₀ : World P} {c : Cmd} {o : Choice}
  {bucket key : String} {keys : List String} {body : Bytes} {k k' : String × String}
  {caller : Caller} {call : PutFilingCall} {filingId : PgUuid} {sha : String}

/-! ### Objects -/

theorem lookup_filter_ne {α β : Type} [BEq α] [LawfulBEq α] [DecidableEq α] {l : List (α × β)}
    {a a' : α} : (l.filter fun x => x.1 ≠ a).lookup a' = if a' = a then none else l.lookup a' := by
  induction l with
  | nil => simp
  | cons x l ih =>
    by_cases hx : x.1 = a
    · rw [List.filter_cons_of_neg (by simpa using hx), ih, List.lookup_cons]
      split_ifs with ha
      · rfl
      · rw [beq_false_of_ne (fun h => ha (h.trans hx))]
    · rw [List.filter_cons_of_pos (by simpa using hx), List.lookup_cons, List.lookup_cons, ih]
      by_cases ha : a' = a
      · subst ha
        rw [beq_false_of_ne (Ne.symm hx), if_pos rfl]
      · rw [if_neg ha, if_neg ha]

theorem getObject_deleteObject :
    (s.deleteObject k).getObject k' = if k' = k then none else s.getObject k' :=
  lookup_filter_ne

theorem getObject_putObject : (s.putObject k body).getObject k' =
    if k' = k then some body else s.getObject k' := by
  have hcons : (s.putObject k body).getObject k' =
      ((k, body) :: s.objects.filter fun o => o.1 ≠ k).lookup k' := rfl
  rw [hcons, List.lookup_cons]
  split_ifs with hk
  · rw [hk, beq_self_eq_true]
  · rw [beq_false_of_ne hk]
    exact lookup_filter_ne.trans (if_neg hk)

/-- The identifier occurs in no key. -/
def World.Unused (id : PgUuid) (s : World P) : Prop :=
  ∀ k, uuidText id <:+: k.2.toList → s.getObject k = none

/-- There is nothing under the keys of a filing with a new identifier. -/
theorem World.Unused.objectKey (h : s.Unused filingId) (role : List Char) (filename : String) :
    s.getObject (bucket, call.objectKey filingId role filename) = none :=
  h _ PutFilingCall.uuidText_infix_objectKey

/-- Deletions succeed, and an identifier that is drawn is a new one. -/
def compensating (P : Type) : Guard Cmd P Job Choice (World P) where
  step _ c o s := match c with
    | .deleteObject _ _ _ => o.fault = .none ∧ o.interrupt = .none
    | .uuid4 => s.Unused o.id
    | _ => True

/-- The commands that leave the objects and the list as they are. -/
def Cmd.Quiet : Cmd → Prop
  | .uploadedKeys _ | .putObject _ _ _ | .deleteObject _ _ _ => False
  | _ => True

theorem quiet_exec {r : Except Exn (Reply c)} (hc : c.Quiet)
    (h : World.exec env p c o s = some (r, s')) :
    s'.objects = s.objects ∧ s'.uploaded = s.uploaded := by
  rcases exec_cases h with ⟨-, rfl⟩ | ⟨r', hrun, -⟩
  · exact ⟨rfl, rfl⟩
  cases c with
  | uploadedKeys | putObject | deleteObject => cases hc
  | uuid4 | commit | close =>
    cases hrun
    exact ⟨rfl, rfl⟩
  | advisoryLock | findCanonicalByRef | selectForUpdate | insertAttachment | selectFiling =>
    rw [(World.sql_cases hrun).1]
    exact ⟨rfl, rfl⟩
  | upsert v =>
    obtain ⟨⟨x, s₁⟩, hsql, heq⟩ := Option.map_eq_some_iff.1 hrun
    cases heq
    rw [(World.sql_cases hsql).1]
    exact ⟨rfl, rfl⟩
  | insertAudit e =>
    obtain ⟨⟨x, s₁⟩, hsql, heq⟩ := Option.map_eq_some_iff.1 hrun
    cases heq
    rw [(World.sql_cases hsql).1]
    exact ⟨rfl, rfl⟩

/-! ### What is tracked -/

/-- The bucket differs at most under these keys, where nothing was before. -/
structure Within (bucket : String) (keys : List String) (s₀ s : World P) : Prop where
  same : ∀ k, k.1 ≠ bucket ∨ k.2 ∉ keys → s.getObject k = s₀.getObject k
  fresh : ∀ key ∈ keys, s₀.getObject (bucket, key) = none

/-- The bucket differs at most under the keys of the list. -/
def Tracked (bucket : String) (p : P) (s₀ s : World P) : Prop :=
  Within bucket (s.uploaded p) s₀ s

/-- A key is tracked after others, under all of which there are objects. -/
structure Pending (bucket : String) (p : P) (keys : List String) (key : String) (s₀ s : World P) :
    Prop extends Within bucket (keys ++ [key]) s₀ s where
  uploaded : s.uploaded p = keys ++ [key]
  present : ∀ key' ∈ keys, (s.getObject (bucket, key')).isSome

/-- These keys are tracked, and there are objects under all of them. -/
structure Kept (bucket : String) (p : P) (keys : List String) (s₀ s : World P) :
    Prop extends Within bucket keys s₀ s where
  uploaded : s.uploaded p = keys
  present : ∀ key ∈ keys, (s.getObject (bucket, key)).isSome

theorem Pending.tracked (h : Pending bucket p keys key s₀ s) : Tracked bucket p s₀ s := by
  rw [Tracked, h.uploaded]
  exact h.toWithin

theorem Kept.tracked (h : Kept bucket p keys s₀ s) : Tracked bucket p s₀ s := by
  rw [Tracked, h.uploaded]
  exact h.toWithin

theorem Within.congr (h : Within bucket keys s₀ s) (ho : s'.objects = s.objects) :
    Within bucket keys s₀ s' where
  same k hk := by
    rw [World.getObject, ho]
    exact h.same k hk
  fresh := h.fresh

theorem Kept.congr (h : Kept bucket p keys s₀ s) (ho : s'.objects = s.objects)
    (hu : s'.uploaded = s.uploaded) : Kept bucket p keys s₀ s' where
  toWithin := h.toWithin.congr ho
  uploaded := by rw [hu, h.uploaded]
  present key hkey := by
    rw [World.getObject, ho]
    exact h.present key hkey

/-- A key whose object is deleted need not be tracked any more. -/
theorem Within.delete (h : Within bucket (key :: keys) s₀ s) :
    Within bucket keys s₀ (s.deleteObject (bucket, key)) where
  same k hk := by
    rw [getObject_deleteObject]
    split_ifs with heq
    · rw [heq, h.fresh key List.mem_cons_self]
    · by_cases hbucket : k.1 = bucket
      · have hkey : k.2 ≠ key := fun hkey => heq (Prod.ext hbucket hkey)
        have hnot : k.2 ∉ keys := hk.resolve_left (not_not_intro hbucket)
        exact h.same k (.inr (List.not_mem_cons_of_ne_of_not_mem hkey hnot))
      · exact h.same k (.inl hbucket)
  fresh key' hkey' := h.fresh key' (List.mem_cons_of_mem _ hkey')

theorem Pending.put (h : Pending bucket p keys key s₀ s) :
    Kept bucket p (keys ++ [key]) s₀ (s.putObject (bucket, key) body) where
  same k hk := by
    have hne : k ≠ (bucket, key) := by
      rintro rfl
      exact hk.elim (fun hne => hne rfl) fun hnot => hnot List.mem_concat_self
    rw [getObject_putObject, if_neg hne]
    exact h.same k hk
  fresh := h.fresh
  uploaded := h.uploaded
  present key' hkey' := by
    rw [getObject_putObject]
    split_ifs with hkey
    · rfl
    · rcases List.mem_append.1 hkey' with hmem | hmem
      · exact h.present key' hmem
      · exact absurd (by rw [List.mem_singleton.1 hmem]) hkey

/-- The result of a call is right about the objects: they are new, and those of all keys of the
    call, or of none after a hit. -/
structure Manifest (call : PutFilingCall) (filingId : PgUuid) (result : PutFilingResult)
    (s₀ s : World P) : Prop extends Within result.bucket result.objectKeys s₀ s where
  keys : result.objectKeys = if result.created then call.keys filingId else []
  present : ∀ key ∈ result.objectKeys, (s.getObject (result.bucket, key)).isSome

/-- All objects are as they were. -/
def Restored (s₀ s : World P) : Prop := ∀ k, s.getObject k = s₀.getObject k

theorem Within.restored (h : Within bucket [] s₀ s) : Restored s₀ s := fun k =>
  h.same k (.inr List.not_mem_nil)

/-! ### Programs -/

/-- A program that the process `p` runs alone. -/
abbrev Alone (env : Env) (p : P) {α : Type} (m : Program α) (Q : Except Exn α → World P → Prop)
    (s : World P) : Prop :=
  (alone Cmd Exn (Option PutFilingResult) P Job (World P)).Safe (system env P) (compensating P) p m
    Q s

theorem alone_request {Q : Except Exn (Reply c) → World P → Prop}
    (h : ∀ o r s', (compensating P).step p c o s → World.exec env p c o s = some (r, s') → Q r s') :
    Alone env p (request c) Q s :=
  safe_perform (fun s₁ => s₁ = s) (stable_alone _ _) rfl fun _ _ hs =>
    ⟨trivial, fun o r s₂ ho hex _ => h o r s₂ (hs ▸ ho) (hs ▸ hex)⟩

/-- The list is changed, and read. -/
theorem alone_uploadedKeys {f : List String → List String}
    {Q : Except Exn (List String) → World P → Prop}
    (h : Q (.ok (f (s.uploaded p)))
      { s with uploaded := Function.update s.uploaded p (f (s.uploaded p)) }) :
    Alone env p (request (.uploadedKeys f)) Q s := by
  refine alone_request fun o r s' _ hex => ?_
  cases hex
  exact h

theorem alone_deleteObject {loop : Cleanup} {Q : Except Exn Unit → World P → Prop}
    (h : Q (.ok ()) (s.deleteObject (bucket, key))) :
    Alone env p ((request (.deleteObject loop bucket key)).tryCatch fun e =>
      if e.isException then pure () else throw e) Q s := by
  refine safe_tryCatch.2 (alone_request fun o r s' ho hex => ?_)
  obtain ⟨hfault, hinterrupt⟩ := ho
  simp only [World.exec, World.run, Cmd.isAwaited, hinterrupt, hfault, World.storage] at hex
  cases hex
  exact h

/-- A program that runs alone, and tracks what it uploads even when it raises. -/
abbrev Tracks (env : Env) (p : P) (bucket : String) (s₀ : World P) {α : Type} (m : Program α)
    (Q : α → World P → Prop) (s : World P) : Prop :=
  Alone env p m (outcome Q fun _ => Tracked bucket p s₀) s

theorem tracks_bind {α β : Type} {m : Program α} {f : α → Program β} {a : α → World P → Prop}
    {Q : β → World P → Prop} (hm : Tracks env p bucket s₀ m a s)
    (hf : ∀ x s', a x s' → Tracks env p bucket s₀ (f x) Q s') :
    Tracks env p bucket s₀ (m >>= f) Q s := by
  refine safe_bind.2 (hm.mono fun r s' h => ?_)
  cases r with
  | ok x => exact hf x s' h
  | error e => exact h

/-- What leaves the objects and the list alone keeps what is said of them. -/
theorem tracks_quiet {α : Type} {m : Program α} (hm : m.Issues Cmd.Quiet)
    (h : Kept bucket p keys s₀ s) :
    Tracks env p bucket s₀ m (fun _ => Kept bucket p keys s₀) s := by
  have hkept : Alone env p m (fun _ => Kept bucket p keys s₀) s :=
    safe_keeps hm (stable_alone _ _) (fun _ _ _ => trivial)
      (fun c o s r s' hc _ h hex => h.congr (quiet_exec hc hex).1 (quiet_exec hc hex).2) h
  refine hkept.mono fun r s' h' => ?_
  cases r with
  | ok x => exact h'
  | error e => exact h'.tracked

/-! ### Uploads -/

theorem tracks_track (hfresh : s₀.getObject (bucket, key) = none) (h : Kept bucket p keys s₀ s) :
    Tracks env p bucket s₀ (track key) (fun _ => Pending bucket p keys key s₀) s := by
  refine safe_bind.2 (alone_uploadedKeys ?_)
  refine ⟨⟨fun k hk => h.same k (hk.imp_right fun hnot hmem => hnot (List.mem_append_left _ hmem)),
    fun key' hkey' => ?_⟩, ?_, h.present⟩
  · rcases List.mem_append.1 hkey' with hmem | hmem
    · exact h.fresh key' hmem
    · rw [List.mem_singleton.1 hmem, hfresh]
  · exact (Function.update_self ..).trans (by rw [h.uploaded])

/-- The object of a key that is tracked is uploaded; where this fails, perhaps it is too. -/
theorem tracks_putObject (h : Pending bucket p keys key s₀ s) :
    Tracks env p bucket s₀ (request (.putObject bucket key body))
      (fun _ => Kept bucket p (keys ++ [key]) s₀) s := by
  refine alone_request fun o r s' _ hex => ?_
  have hput : Kept bucket p (keys ++ [key]) s₀ (s.putObject (bucket, key) body) := h.put
  rcases exec_cases hex with ⟨rfl, rfl⟩ | ⟨r', hrun, hr⟩
  · exact h.tracked
  · -- The object is there, or not, when the answer is lost: its key is tracked in any case.
    rcases World.storage_cases hrun with ⟨rfl, rfl, -⟩ | ⟨rfl, -, rfl | rfl⟩
    · rcases hr with rfl | rfl
      · exact hput
      · exact hput.tracked
    · rcases hr with rfl | rfl <;> exact h.tracked
    · rcases hr with rfl | rfl <;> exact hput.tracked

theorem tracks_uploadPrimary (hfresh : s₀.getObject (bucket, key) = none)
    (h : Kept bucket p keys s₀ s) :
    Tracks env p bucket s₀ (uploadPrimary bucket key body)
      (fun _ => Kept bucket p (keys ++ [key]) s₀) s := by
  refine tracks_bind (tracks_track hfresh h) fun _ _ h₁ => ?_
  refine safe_tryCatch.2 ((tracks_putObject h₁).mono fun r s₂ h₂ => ?_)
  cases r with
  | ok _ => exact h₂
  | error e =>
    dsimp only [outcome]
    split_ifs <;> exact h₂

theorem tracks_uploadXbrl (hunused : s₀.Unused filingId) (h : Kept bucket p keys s₀ s) :
    Tracks env p bucket s₀ (uploadXbrl bucket call filingId)
      (fun _ => Kept bucket p (keys ++ (call.xbrlKey filingId).toList) s₀) s := by
  rw [uploadXbrl]
  cases hkey : call.xbrlKey filingId with
  | none =>
    rw [Option.toList_none, List.append_nil]
    exact h
  | some key =>
    obtain ⟨body, filename, hbody, rfl⟩ := PutFilingCall.exists_of_xbrlKey hkey
    rw [hbody]
    -- Keys with the identifier of the call are new, whatever follows it.
    exact tracks_bind (tracks_track (hunused.objectKey _ _) h) fun _ _ h₁ => tracks_putObject h₁

theorem tracks_persistAttachments (hunused : s₀.Unused filingId) (h : Kept bucket p keys s₀ s) :
    Tracks env p bucket s₀ (persistAttachments env bucket call filingId)
      (fun _ => Kept bucket p
        (keys ++ call.attachments.map (call.attachmentKey filingId)) s₀) s := by
  -- What is tracked, and the keys of the attachments that are left, are all keys.
  refine safe_forEach (fun atts s' => ∃ keys', keys' ++ atts.map (call.attachmentKey filingId) =
    keys ++ call.attachments.map (call.attachmentKey filingId) ∧ Kept bucket p keys' s₀ s')
    ?_ ?_ ⟨keys, rfl, h⟩
  · rintro s' ⟨keys', hkeys, h'⟩
    rw [List.map_nil, List.append_nil] at hkeys
    rw [hkeys] at h'
    exact h'
  · rintro att atts s' ⟨keys', hkeys, h'⟩
    refine tracks_bind (tracks_track (hunused.objectKey _ _) h') fun _ s₁ h₁ =>
      tracks_bind (tracks_putObject h₁) fun _ s₂ h₂ => ?_
    refine (tracks_quiet (issues_perform (by trivial)) h₂).mono fun r s₃ h₃ => ?_
    cases r with
    | ok _ =>
      refine ⟨_, ?_, h₃⟩
      rw [← hkeys, List.append_assoc, List.map_cons, List.singleton_append]
    | error e => exact h₃

/-! ### Deletions -/

theorem tracks_dropUploads (h : Kept bucket p keys s₀ s) :
    Tracks env p bucket s₀ (dropUploads bucket) (fun _ => Kept bucket p [] s₀) s := by
  refine safe_bind.2 (alone_uploadedKeys ?_)
  -- The list is what the loop has not deleted.
  refine safe_forEach (fun keys s' => s'.uploaded p = keys ∧ Within bucket keys s₀ s') ?_ ?_ ?_
  · rintro s' ⟨huploaded, hwithin⟩
    exact ⟨hwithin, huploaded, nofun⟩
  · rintro key keys s' ⟨huploaded, hwithin⟩
    refine safe_bind.2 (alone_deleteObject (safe_bind.2 (alone_uploadedKeys ?_)))
    refine ⟨?_, hwithin.delete.congr rfl⟩
    have hkeys : (s'.deleteObject (bucket, key)).uploaded p = key :: keys := huploaded
    exact (Function.update_self ..).trans (by rw [hkeys, List.erase_cons_head])
  · exact ⟨Function.update_self .., h.tracked.congr rfl⟩

/-- The clean-up leaves all buckets as they were. -/
theorem alone_cleanUp {α : Type} {e : Exn} (h : Tracked bucket p s₀ s) :
    Alone env p (cleanUp (α := α) bucket e) (outcome (fun _ _ => False) fun _ => Restored s₀) s := by
  refine safe_bind.2 (alone_uploadedKeys ?_)
  refine safe_bind.2 (safe_forEach (fun keys s' => Within bucket keys s₀ s') (fun s' hwithin => ?_)
    (fun key keys s' hwithin => alone_deleteObject hwithin.delete) (h.congr rfl))
  dsimp only [outcome]
  split_ifs <;> exact hwithin.restored

/-! ### Calls -/

theorem tracks_finishUploads {up : Upserted} (hunused : s₀.Unused filingId)
    (hup : up.created = true → up.filingId = filingId)
    (hkeys : keys ++ call.attachments.map (call.attachmentKey filingId) = call.keys filingId)
    (h : Kept bucket p keys s₀ s) :
    Tracks env p bucket s₀ (finishUploads env bucket call up)
      (fun _ => Kept bucket p (if up.created then call.keys filingId else []) s₀) s := by
  rw [finishUploads]
  split_ifs with hcreated
  · rw [hup hcreated, ← hkeys]
    exact tracks_persistAttachments hunused h
  · exact tracks_dropUploads h

theorem tracks_finishCall {up : Upserted} {pre : Option FilingRow} (hunused : s₀.Unused filingId)
    (hup : up.created = true → up.filingId = filingId)
    (hkeys : keys ++ call.attachments.map (call.attachmentKey filingId) = call.keys filingId)
    (h : Kept bucket p keys s₀ s) :
    Tracks env p bucket s₀ (finishCall env caller bucket call sha pre up)
      (fun result s' => result.bucket = bucket ∧ Manifest call filingId result s₀ s') s := by
  refine tracks_bind (tracks_finishUploads hunused hup hkeys h) fun _ s₁ h₁ => ?_
  refine tracks_bind (tracks_quiet (issues_getFiling (fun _ => trivial) _) h₁) fun _ s₂ h₂ => ?_
  refine tracks_bind (tracks_quiet (issues_classify _ _ _) h₂) fun _ s₃ h₃ => ?_
  refine tracks_bind (tracks_quiet (issues_recordEvent (fun _ => trivial) _ _ _ _ _ _) h₃)
    fun _ s₄ h₄ => ?_
  exact safe_bind.2 (alone_uploadedKeys
    ⟨rfl, h₄.tracked.congr rfl, h₄.uploaded, h₄.uploaded.symm ▸ h₄.present⟩)

/-- The upsert creates a filing with the identifier of the call, or none. -/
theorem tracks_upsert {v : FilingValues} (h : Kept bucket p keys s₀ s) :
    Tracks env p bucket s₀ (request (.upsert v)) (fun up s' => Kept bucket p keys s₀ s' ∧
      (up.created = true → up.filingId = v.filingId)) s := by
  refine alone_request fun o r s' _ hex => ?_
  obtain ⟨hobjects, huploaded⟩ := quiet_exec (by trivial) hex
  have h' := h.congr hobjects huploaded
  cases r with
  | error e => exact h'.tracked
  | ok up =>
    refine ⟨h', fun hcreated => ?_⟩
    obtain ⟨⟨x, s₁⟩, hsql, heq⟩ := Option.map_eq_some_iff.1 (run_of_exec hex)
    cases heq
    obtain ⟨db, hups, -⟩ := World.sql_eq_ok hsql
    -- A hit answers with the identifier of the row that was there.
    rcases upsert_cases hups with ⟨rfl, -⟩ | ⟨old, rfl, -⟩
    · rfl
    · cases hcreated

theorem tracks_storeFiling {prior : Option Filing} {pre : Option FilingRow}
    (hunused : s₀.Unused filingId)
    (hkeys : keys ++ call.attachments.map (call.attachmentKey filingId) = call.keys filingId)
    (h : Kept bucket p keys s₀ s) :
    Tracks env p bucket s₀ (storeFiling env caller bucket call sha filingId prior pre)
      (fun result s' => result.bucket = bucket ∧ Manifest call filingId result s₀ s') s := by
  rw [storeFiling]
  split
  · exact h.tracked
  · exact tracks_bind (tracks_upsert h) fun up s₁ h₁ => tracks_finishCall hunused h₁.2 hkeys h₁.1

theorem tracks_uploadAndStore (hunused : s₀.Unused filingId) (h : Kept bucket p [] s₀ s) :
    Tracks env p bucket s₀ (uploadAndStore env caller bucket call sha filingId)
      (fun result s' => result.bucket = bucket ∧ Manifest call filingId result s₀ s') s := by
  refine tracks_bind (tracks_uploadPrimary (hunused.objectKey _ _) h) fun _ s₁ h₁ => ?_
  refine tracks_bind (tracks_quiet (issues_perform trivial) h₁) fun _ s₂ h₂ => ?_
  refine tracks_bind (tracks_quiet (issues_perform trivial) h₂) fun prior s₃ h₃ => ?_
  refine tracks_bind (tracks_uploadXbrl hunused h₃) fun _ s₄ h₄ => ?_
  refine tracks_bind (tracks_quiet (issues_perform trivial) h₄) fun pre s₅ h₅ => ?_
  exact tracks_storeFiling hunused (by simp [PutFilingCall.keys]) h₅

/-- How a call ends: it returns a result that is right about the objects, or it raises, and all
    objects are as they were. -/
def Compensated (env : Env) (call : PutFilingCall) (s : World P) :
    Except Exn PutFilingResult → World P → Prop
  | .ok result, s' => result.bucket = env.bucket call.sourceId ∧ result.objectKeys.Nodup ∧
      ∃ filingId, Manifest call filingId result s s'
  | .error _, s' => Restored s s'

theorem nodup_of_checkAttachments {sha256 : Bytes → String} {seenPairs : List (ℤ × String)}
    {seenHashes : List String} {atts : List AttachmentIn}
    (h : checkAttachments sha256 seenPairs seenHashes atts = .ok ()) :
    (atts.map fun att => (att.sequence, att.filename)).Nodup ∧
      ∀ att ∈ atts, (att.sequence, att.filename) ∉ seenPairs := by
  induction atts generalizing seenPairs seenHashes with
  | nil => exact ⟨List.nodup_nil, nofun⟩
  | cons att atts ih =>
    rw [checkAttachments] at h
    split_ifs at h with hpair hhash
    obtain ⟨hnodup, hnot⟩ := ih h
    refine ⟨List.nodup_cons.2 ⟨fun hmem => ?_, hnodup⟩, fun att' hatt' => ?_⟩
    · obtain ⟨att', hatt', heq⟩ := List.mem_map.1 hmem
      exact hnot att' hatt' (heq ▸ List.mem_cons_self)
    · rcases List.mem_cons.1 hatt' with rfl | hatt'
      · exact hpair
      · exact fun hmem => hnot att' hatt' (List.mem_cons_of_mem _ hmem)

theorem nodup_of_checkCall (h : checkCall env caller call = .ok ()) :
    (call.attachments.map fun att => (att.sequence, att.filename)).Nodup := by
  cases hatts : checkAttachments env.sha256 [] [] call.attachments with
  | ok _ => exact (nodup_of_checkAttachments hatts).1
  | error e =>
    rw [checkCall, hatts] at h
    split_ifs at h
    · cases h
    · cases hxbrl : checkXbrl call <;> rw [hxbrl] at h <;> cases h

theorem alone_putFiling :
    Alone env p (putFiling env caller call) (Compensated env call s) s := by
  rw [putFiling]
  split
  · exact fun _ => rfl
  · rename_i hcheck
    refine safe_bind.2 (alone_request fun o r s₁ hunused hex => ?_)
    cases hex
    refine safe_bind.2 (alone_uploadedKeys (safe_tryCatch.2 ?_))
    -- Nothing has been uploaded when the `try` block is entered.
    have hkept : Kept (env.bucket call.sourceId) p [] s
        { s with uploaded := Function.update s.uploaded p [] } :=
      ⟨⟨fun _ _ => rfl, nofun⟩, Function.update_self .., nofun⟩
    refine (tracks_uploadAndStore hunused hkept).mono fun r s₂ h => ?_
    cases r with
    | ok result =>
      refine ⟨h.1, ?_, _, h.2⟩
      rw [h.2.keys]
      split_ifs
      · exact PutFilingCall.nodup_keys (nodup_of_checkCall hcheck)
      · exact List.nodup_nil
    | error e =>
      refine (alone_cleanUp h).mono fun r s₃ h₃ => ?_
      cases r with
      | ok _ => exact h₃.elim
      | error _ => exact h₃

/-- A call that raises leaves all objects as they were, and one that returns is right about them. -/
theorem compensated_of_runs {r : Except Exn PutFilingResult}
    (h : (system env P).Runs (compensating P) p (putFiling env caller call) s r s') :
    Compensated env call s r s' :=
  alone_putFiling.of_runs h

end

/-- The upload of the primary document fails, and yet there is the object: it is deleted. -/
theorem compensated_lostUpload : ∃ s' : World Bool, (system plainEnv Bool).Runs (compensating Bool)
    true (putFiling plainEnv plainCaller (plainCall "r" [1])) .empty (.error .objectStore) s' ∧
      Compensated plainEnv (plainCall "r" [1]) .empty (.error .objectStore) s' := by
  obtain ⟨s', hrun⟩ : ∃ s' : World Bool, (system plainEnv Bool).Runs (compensating Bool) true
      (putFiling plainEnv plainCaller (plainCall "r" [1])) .empty (.error .objectStore) s' :=
    ⟨_, {}, _, _, fun _ _ => rfl, rfl, {}, _, _, trivial, rfl, {}, _, _, trivial, rfl,
      { fault := .lost }, _, _, trivial, rfl, {}, _, _, trivial, rfl, {}, _, _, ⟨rfl, rfl⟩, rfl,
      rfl, rfl⟩
  exact ⟨s', hrun, compensated_of_runs hrun⟩

end Documents

end AslanCore
