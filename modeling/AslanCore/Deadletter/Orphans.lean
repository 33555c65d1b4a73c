import AslanCore.Deadletter.Alone

/-!
# The search for an orphan

A worker that adopts an intent searches the dead-letter stream for the entry that its owner may have
appended, page by page, up to the entry that is the last one when the search starts.

* `searchOrphan`: the search with its page size, for a number of turns of its loop;
* `World.along`: the search, while other processes append to the stream;
* `FindsOrphan`: it ends with the first entry that carries the failure, and reads no entry twice;
* `findsOrphan_iff`: it does so where it can decode what it walks over, and does not take the entry
  of another failure for one of the failure `-1`.

The fields of an entry are decoded before the block that skips a failure that is not a number, so
that a field that is not text ends the search.
-/

namespace AslanCore

namespace Deadletter

variable {P : Type} [DecidableEq P] {env : Env} {p : P} {stream : String} {pageSize : ℕ}
  {lower upperBound cursor : StreamId} {target : ℤ} {s : ℕ → World P}
  {xs ys page : List (StreamId × RawFields)} {e : StreamId × RawFields} {fields : RawFields}

/-! ### The search -/

/-- The loop over the pages, for some turns: it has a result unless there are more pages. -/
def searchPages (env : Env) (stream : String) (upperBound : StreamId) (pageSize : ℕ) (target : ℤ) :
    ℕ → StreamId → Program (Option (Option StreamId))
  | 0, _ => pure none
  | turns + 1, cursor => do
    let page ← request (.xrange (deadletterStream stream) cursor upperBound (some pageSize))
    match page.getLast? with
    | none => pure (some none)
    | some (lastId, _) =>
      match findInPage env target page with
      | .error e => throw e
      | .ok (some entryId) => pure (some (some entryId))
      | .ok none =>
        let cursor := redisIdIncrement lastId
        if 0 < redisIdCompare cursor upperBound then pure (some none)
        else searchPages env stream upperBound pageSize target turns cursor

/-- `find_orphan_in_deadletter_stream`, with its page size, for some turns of its loop. -/
def searchOrphan (env : Env) (stream : String) (pageSize : ℕ) (lower : StreamId) (target : ℤ)
    (turns : ℕ) : Program (Option (Option StreamId)) := do
  let lastEntry ← (request (.xinfoStream (deadletterStream stream))).tryCatch fun
    | .redis true => pure none
    | e => throw e
  match lastEntry with
  | none => pure (some none)
  | some upperBound =>
    if upperBound = .zero then pure (some none)
    else searchPages env stream upperBound pageSize target turns lower

/-- The pages of a worker have ten thousand entries. -/
theorem findInPages_eq (turns : ℕ) (cursor : StreamId) :
    findInPages env stream upperBound target turns cursor =
      (searchPages env stream upperBound 10000 target turns cursor).bind fun r => .ret r.join := by
  induction turns generalizing cursor with
  | zero => rfl
  | succ turns ih =>
    refine congrArg (Prog.call _) (funext fun r => ?_)
    rcases r with e | page
    · rfl
    cases hlast : page.getLast? with
    | none => simp only [Prog.bind, hlast]; rfl
    | some l =>
      obtain ⟨lastId, fields⟩ := l
      rcases hfind : findInPage env target page with e | _ | entryId
      · simp only [Prog.bind, hlast, hfind]; rfl
      · simp only [Prog.bind, hlast, hfind]
        split_ifs
        · rfl
        · exact ih _
      · simp only [Prog.bind, hlast, hfind]; rfl

/-! ### What others do meanwhile -/

/-- The entries that a command reads. -/
def entriesRead : (c : Cmd) → Except Exn (Reply c) → List (StreamId × RawFields)
  | .xrange _ _ _ _, .ok page => page
  | _, _ => []

/-- The outcome of a program whose commands are executed in some worlds, where nothing goes wrong,
    with the entries that it reads. -/
def World.along (env : Env) (p : P) (s : ℕ → World P) {α : Type} :
    ℕ → Program α → Option (Except Exn α × List (StreamId × RawFields))
  | _, .ret a => some (.ok a, [])
  | _, .raise e => some (.error e, [])
  | k, .call c f =>
    match World.exec env p c {} (s k) with
    | none => none
    | some (r, _) => (World.along env p s (k + 1) (f r)).map fun y => (y.1, entriesRead c r ++ y.2)

theorem along_call {α : Type} {k : ℕ} {c : Cmd} {f : Except Exn (Reply c) → Program α}
    {r : Except Exn (Reply c)} {s' : World P} (h : World.exec env p c {} (s k) = some (r, s')) :
    World.along env p s k (.call c f) =
      (World.along env p s (k + 1) (f r)).map fun y => (y.1, entriesRead c r ++ y.2) := by
  rw [World.along, h]

/-- From one command to the next, entries are appended to the stream. None is under `0-0`. -/
structure Appending (n : String) (s : ℕ → World P) : Prop where
  appended : ∀ k, ∃ tail,
    ((s (k + 1)).streams.get n).entries = ((s k).streams.get n).entries ++ tail
  positive : ∀ k, ∀ e ∈ ((s k).streams.get n).entries, StreamId.zero < e.1

/-! ### The entry that is searched for -/

/-- The value of a field. -/
def fieldOf (name : String) (d : RawFields) : Option ByteArray :=
  (d.find? fun f => f.1 = name.toUTF8).map (·.2)

/-- The text under `failure_id`. -/
def failureIdText (fields : RawFields) : Option String :=
  (fieldOf "failure_id" (dictOf fields)).bind decode

/-- The `failure_id` of an entry is the failure. -/
def CarriesFailure (env : Env) (target : ℤ) (fields : RawFields) : Prop :=
  (failureIdText fields).bind env.parseInt = some target

instance : Decidable (CarriesFailure env target fields) := inferInstanceAs (Decidable (_ = _))

/-- There is a field of the name `failure_id`. -/
def HasFailureId (fields : RawFields) : Prop := fieldOf "failure_id" (dictOf fields) ≠ none

instance : Decidable (HasFailureId fields) := inferInstanceAs (Decidable (_ ≠ _))

/-- The entries from the lower bound on. -/
def entriesFrom (st : Stream RawFields) (lower : StreamId) : List (StreamId × RawFields) :=
  st.entries.filter fun e => lower ≤ e.1

/-- The first entry that carries the failure. -/
def firstCarrier (env : Env) (target : ℤ) (xs : List (StreamId × RawFields)) : Option StreamId :=
  (xs.find? fun e => CarriesFailure env target e.2).map (·.1)

/-- The search ends, with the first entry of the stream, as it is when the search starts, that
    carries the failure, and what it reads is read in order, once. -/
structure FindsOrphan (env : Env) (p : P) (stream : String) (pageSize : ℕ) (lower : StreamId)
    (target : ℤ) (s : ℕ → World P) : Prop where
  next : ∀ x : StreamId, IsLeast {y | x < y} (redisIdIncrement x)
  reads : ∀ turns, ∃ x read,
    World.along env p s 0 (searchOrphan env stream pageSize lower target turns) = some (x, read) ∧
      read <+: entriesFrom ((s 0).streams.get (deadletterStream stream)) lower
  finds : ∃ n, ∀ turns ≥ n, ∃ read,
    World.along env p s 0 (searchOrphan env stream pageSize lower target turns) =
      some (.ok (some (firstCarrier env target
        (entriesFrom ((s 0).streams.get (deadletterStream stream)) lower))), read)

/-- The entries up to the first one that carries the failure are text, and say which failure they
    are of if the failure is `-1`. -/
def Walkable (env : Env) (target : ℤ) (xs : List (StreamId × RawFields)) : Prop :=
  ∀ l e l', xs = l ++ e :: l' → (∀ x ∈ l, ¬CarriesFailure env target x.2) →
    decodeFields e.2 ≠ none ∧ (env.parseInt "-1" = some target → HasFailureId e.2)

/-- The client can decode the pages up to the one that carries the failure. -/
def Readable (env : Env) (pageSize : ℕ) (target : ℤ) (xs : List (StreamId × RawFields)) : Prop :=
  ∀ l e l', xs = l ++ e :: l' →
    (∀ x ∈ l.take (l.length / pageSize * pageSize), ¬CarriesFailure env target x.2) → ¬Unreadable env [e]

/-- The search can read the entries, and the ends of the stream. -/
structure Searchable (env : Env) (pageSize : ℕ) (lower : StreamId) (target : ℤ)
    (st : Stream RawFields) : Prop where
  ends : ¬Unreadable env (st.entries.head?.toList ++ st.entries.getLast?.toList)
  walkable : Walkable env target (entriesFrom st lower)
  readable : Readable env pageSize target (entriesFrom st lower)

/-! ### One page -/

theorem eq_toUTF8_iff {name : ByteArray} {k n : String} (h : decode name = some k) :
    name = n.toUTF8 ↔ k = n := by
  constructor
  · rintro rfl
    rw [decode_toUTF8] at h
    exact (Option.some.inj h).symm
  · rintro rfl
    simp only [decode, String.fromUTF8?] at h
    split_ifs at h
    rw [← Option.some.inj h]
    rfl

theorem fieldOf_cons (n : String) (f : ByteArray × ByteArray) (d : RawFields) :
    fieldOf n (f :: d) = if f.1 = n.toUTF8 then some f.2 else fieldOf n d := by
  rw [fieldOf, fieldOf, List.find?_cons]
  split_ifs with h
  · rw [decide_eq_true h]
    rfl
  · rw [decide_eq_false h]

/-- A field of a dictionary that is decoded is the field that is there. -/
theorem lookup_of_mapM {d : RawFields} {d' : Fields} (h : d.mapM decodeField = some d')
    (n : String) : d'.lookup n = (fieldOf n d).bind decode ∧
      (d'.lookup n = none → fieldOf n d = none) := by
  induction d generalizing d' with
  | nil =>
    obtain rfl : [] = d' := Option.some.inj h
    exact ⟨rfl, fun _ => rfl⟩
  | cons f d ih =>
    rw [List.mapM_cons] at h
    obtain ⟨⟨k, v⟩, hf, h⟩ := Option.bind_eq_some_iff.1 h
    obtain ⟨d₁, hd, h⟩ := Option.bind_eq_some_iff.1 h
    obtain rfl := Option.some.inj h
    obtain ⟨k', hk, hf⟩ := Option.bind_eq_some_iff.1 hf
    obtain ⟨v', hv, hf⟩ := Option.bind_eq_some_iff.1 hf
    obtain ⟨rfl, rfl⟩ := Prod.mk.inj (Option.some.inj hf)
    rw [fieldOf_cons]
    by_cases hn : k' = n
    · subst hn
      rw [List.lookup_cons_self, if_pos ((eq_toUTF8_iff hk).2 rfl), Option.bind_some, hv]
      exact ⟨rfl, nofun⟩
    · have hne : (n == k') = false := beq_eq_false_iff_ne.2 fun heq => hn heq.symm
      rw [List.lookup_cons, hne, if_neg fun hname => hn ((eq_toUTF8_iff hk).1 hname)]
      exact ih hd

/-- The failure that the search finds in an entry that is decoded: one without `failure_id` is
    taken for an entry of `-1`. -/
theorem parseInt_failure_id {d : Fields} (h : decodeFields fields = some d) :
    env.parseInt ((d.lookup "failure_id").getD "-1") = some target ↔
      CarriesFailure env target fields ∨ env.parseInt "-1" = some target ∧ ¬HasFailureId fields := by
  obtain ⟨hlookup, hnone⟩ := lookup_of_mapM h "failure_id"
  rw [CarriesFailure, failureIdText, ← hlookup, HasFailureId, not_not]
  cases hv : d.lookup "failure_id" with
  | none =>
    rw [Option.getD_none, Option.bind_none]
    exact ⟨fun heq => .inr ⟨heq, hnone hv⟩, fun h => (h.resolve_left nofun).1⟩
  | some v =>
    rw [Option.getD_some, Option.bind_some]
    refine ⟨.inl, fun h => h.resolve_right fun ⟨_, hfield⟩ => ?_⟩
    rw [hlookup, hfield] at hv
    cases hv

theorem walkable_nil : Walkable env target [] := by
  intro l e l' h
  exact absurd h (by simp)

theorem walkable_cons : Walkable env target (e :: xs) ↔
    (decodeFields e.2 ≠ none ∧ (env.parseInt "-1" = some target → HasFailureId e.2)) ∧
      (¬CarriesFailure env target e.2 → Walkable env target xs) := by
  constructor
  · intro h
    refine ⟨h [] e xs rfl (by simp), fun hne l e' l' hxs hl => ?_⟩
    refine h (e :: l) e' l' (by rw [hxs]; rfl) fun x hx => ?_
    rcases List.mem_cons.1 hx with rfl | hx
    · exact hne
    · exact hl x hx
  · rintro ⟨hfirst, hrest⟩ l e' l' hxs hl
    rcases l with _ | ⟨x, l⟩
    · obtain ⟨rfl, rfl⟩ := List.cons.inj hxs
      exact hfirst
    · obtain ⟨rfl, htail⟩ := List.cons.inj hxs
      exact hrest (hl e List.mem_cons_self) l e' l' htail fun x hx => hl x (List.mem_cons_of_mem _ hx)

theorem walkable_append : Walkable env target (xs ++ ys) ↔
    Walkable env target xs ∧ ((∀ x ∈ xs, ¬CarriesFailure env target x.2) → Walkable env target ys) := by
  induction xs with
  | nil => simp [walkable_nil]
  | cons e xs ih =>
    rw [List.cons_append, walkable_cons, walkable_cons, ih, List.forall_mem_cons]
    constructor
    · rintro ⟨hfirst, hrest⟩
      exact ⟨⟨hfirst, fun hne => (hrest hne).1⟩, fun ⟨hne, hnone⟩ => (hrest hne).2 hnone⟩
    · rintro ⟨⟨hfirst, hrest⟩, hys⟩
      exact ⟨hfirst, fun hne => ⟨hrest hne, fun hnone => hys ⟨hne, hnone⟩⟩⟩

theorem firstCarrier_cons (e : StreamId × RawFields) (xs : List (StreamId × RawFields)) :
    firstCarrier env target (e :: xs) =
      if CarriesFailure env target e.2 then some e.1 else firstCarrier env target xs := by
  rw [firstCarrier, firstCarrier, List.find?_cons]
  split_ifs with h
  · rw [decide_eq_true h]
    rfl
  · rw [decide_eq_false h]

theorem firstCarrier_append (h : ∀ x ∈ xs, ¬CarriesFailure env target x.2) :
    firstCarrier env target (xs ++ ys) = firstCarrier env target ys := by
  induction xs with
  | nil => rfl
  | cons e xs ih =>
    obtain ⟨he, h⟩ := List.forall_mem_cons.1 h
    rw [List.cons_append, firstCarrier_cons, if_neg he, ih h]

theorem exists_of_firstCarrier {i : StreamId} (h : firstCarrier env target xs = some i) :
    ∃ e ∈ xs, e.1 = i := by
  obtain ⟨e, he, rfl⟩ := Option.map_eq_some_iff.1 h
  exact ⟨e, List.mem_of_find?_eq_some he, rfl⟩

theorem findInPage_cons_none (hd : decodeFields e.2 = none) :
    findInPage env target (e :: xs) = .error .value := by
  obtain ⟨i, fields⟩ := e
  simp only [findInPage, hd]

theorem findInPage_cons_some {d : Fields} (hd : decodeFields e.2 = some d) :
    findInPage env target (e :: xs) =
      if CarriesFailure env target e.2 ∨ env.parseInt "-1" = some target ∧ ¬HasFailureId e.2 then
        .ok (some e.1)
      else findInPage env target xs := by
  obtain ⟨i, fields⟩ := e
  simp only [findInPage, hd]
  exact if_congr (parseInt_failure_id hd) rfl rfl

/-- What can be walked over is searched. -/
theorem findInPage_of_walkable (h : Walkable env target xs) :
    findInPage env target xs = .ok (firstCarrier env target xs) := by
  induction xs with
  | nil => rfl
  | cons e xs ih =>
    obtain ⟨⟨htext, hnamed⟩, hrest⟩ := walkable_cons.1 h
    obtain ⟨d, hd⟩ := Option.ne_none_iff_exists'.1 htext
    have hmissing : ¬(env.parseInt "-1" = some target ∧ ¬HasFailureId e.2) :=
      fun ⟨hone, hmissing⟩ => hmissing (hnamed hone)
    rw [findInPage_cons_some hd, firstCarrier_cons]
    by_cases hc : CarriesFailure env target e.2
    · rw [if_pos (.inl hc), if_pos hc]
    · rw [if_neg (not_or.2 ⟨hc, hmissing⟩), if_neg hc]
      exact ih (hrest hc)

/-- In what cannot be walked over, the search stops, and not where it should. -/
theorem findInPage_of_not_walkable (hsorted : (xs ++ ys).Pairwise (·.1 < ·.1))
    (h : ¬Walkable env target xs) : findInPage env target xs ≠ .ok none ∧
      findInPage env target xs ≠ .ok (firstCarrier env target (xs ++ ys)) := by
  induction xs with
  | nil => exact absurd walkable_nil h
  | cons e xs ih =>
    obtain ⟨hlt, hsorted⟩ := List.pairwise_cons.1 hsorted
    rw [walkable_cons] at h
    cases hd : decodeFields e.2 with
    | none =>
      rw [findInPage_cons_none hd]
      exact ⟨nofun, nofun⟩
    | some d =>
      rw [findInPage_cons_some hd, List.cons_append, firstCarrier_cons]
      by_cases hmissing : env.parseInt "-1" = some target ∧ ¬HasFailureId e.2
      · -- The entry is taken for one of the failure, and is before any that carries it.
        have hc : ¬CarriesFailure env target e.2 := by
          rw [CarriesFailure, failureIdText, not_not.1 hmissing.2]
          nofun
        rw [if_pos (.inr hmissing), if_neg hc]
        refine ⟨nofun, fun heq => ?_⟩
        obtain ⟨e', he', heq⟩ := exists_of_firstCarrier (Except.ok.inj heq).symm
        exact (hlt e' he').ne heq.symm
      · have hnamed : env.parseInt "-1" = some target → HasFailureId e.2 :=
          fun hone => by_contra fun hnot => hmissing ⟨hone, hnot⟩
        have hrest : ¬(¬CarriesFailure env target e.2 → Walkable env target xs) :=
          fun hrest => h ⟨⟨by rw [hd]; nofun, hnamed⟩, hrest⟩
        obtain ⟨hc, hxs⟩ := Classical.not_imp.1 hrest
        rw [if_neg (not_or.2 ⟨hc, hmissing⟩), if_neg hc]
        exact ih hsorted hxs

theorem firstCarrier_eq_none : firstCarrier env target xs = none ↔
    ∀ x ∈ xs, ¬CarriesFailure env target x.2 := by
  rw [firstCarrier, Option.map_eq_none_iff, List.find?_eq_none]
  simp only [decide_eq_true_iff]

/-! ### All pages -/

/-- The pages that are read are the first one, and those after it unless it carries the failure. -/
theorem readable_append (hpage : page.length ≤ pageSize)
    (hfull : ys ≠ [] → page.length = pageSize) (hsize : 0 < pageSize) :
    Readable env pageSize target (page ++ ys) ↔ ¬Unreadable env page ∧
      ((∀ x ∈ page, ¬CarriesFailure env target x.2) → Readable env pageSize target ys) := by
  constructor
  · intro h
    constructor
    · rintro ⟨hdecode, e, he, hfield⟩
      obtain ⟨l, l', rfl⟩ := List.append_of_mem he
      have hlt : l.length < pageSize := by
        rw [List.length_append, List.length_cons] at hpage
        omega
      refine h l e (l' ++ ys) (by simp) ?_ ⟨hdecode, e, List.mem_cons_self, hfield⟩
      rw [Nat.div_eq_of_lt hlt, Nat.zero_mul, List.take_zero]
      nofun
    · rintro hnone l e l' rfl hl
      have hlength := hfull (by simp)
      refine h (page ++ l) e l' (by simp) fun x hx => ?_
      rw [List.length_append, hlength, Nat.add_div_left _ hsize, Nat.succ_mul, Nat.add_comm,
        ← hlength, List.take_length_add_append] at hx
      rcases List.mem_append.1 hx with hx | hx
      · exact hnone x hx
      · rw [hlength] at hx
        exact hl x hx
  · rintro ⟨hread, hys⟩ l e l' heq hl ⟨hdecode, hfield⟩
    by_cases hlt : l.length < page.length
    · -- The entry is in the first page.
      refine hread ⟨hdecode, e, ?_, ?_⟩
      · have hget : (page ++ ys)[l.length]? = some e := by
          rw [heq, List.getElem?_append_right le_rfl, Nat.sub_self]
          rfl
        rw [List.getElem?_append_left hlt] at hget
        exact List.mem_of_getElem? hget
      · obtain ⟨e', he', hf⟩ := hfield
        rwa [List.mem_singleton.1 he'] at hf
    · obtain ⟨l₂, rfl⟩ : ∃ l₂, l = page ++ l₂ := by
        have hpage : page <+: page ++ ys := List.prefix_append _ _
        have hl : l <+: page ++ ys := heq ▸ List.prefix_append _ _
        have hprefix : page <+: l := List.prefix_of_prefix_length_le hpage hl (by omega)
        obtain ⟨l₂, rfl⟩ := hprefix
        exact ⟨l₂, rfl⟩
      rw [List.append_assoc] at heq
      have hys' := List.append_cancel_left heq
      have hlength := hfull (by rw [hys']; simp)
      rw [List.length_append, hlength, Nat.add_div_left _ hsize, Nat.succ_mul, Nat.add_comm,
        ← hlength, List.take_length_add_append] at hl
      rw [hlength] at hl
      exact hys (fun x hx => hl x (List.mem_append_left _ hx)) l₂ e l' hys'
        (fun x hx => hl x (List.mem_append_right _ hx)) ⟨hdecode, hfield⟩

theorem firstCarrier_append_some {i : StreamId} (h : firstCarrier env target xs = some i) :
    firstCarrier env target (xs ++ ys) = some i := by
  rw [firstCarrier, Option.map_eq_some_iff] at h
  obtain ⟨e, he, rfl⟩ := h
  rw [firstCarrier, List.find?_append, he]
  rfl

section Run

variable {st : Stream RawFields} {n : String} {last : StreamId × RawFields}

omit [DecidableEq P] in
/-- What is appended meanwhile is not in the bounds of the search. -/
theorem range_eq (h : Appending n s)
    (hlast : ((s 0).streams.get n).entries.getLast? = some last) (k : ℕ) (lo : StreamId) (count : ℕ) :
    ((s k).streams.get n).range lo last.1 count =
      (entriesFrom ((s 0).streams.get n) lo).take count := by
  have htail : ∃ tail, ((s k).streams.get n).entries = ((s 0).streams.get n).entries ++ tail := by
    induction k with
    | zero => exact ⟨[], (List.append_nil _).symm⟩
    | succ k ih =>
      obtain ⟨tail, htail⟩ := ih
      obtain ⟨tail', htail'⟩ := h.appended k
      exact ⟨tail ++ tail', by rw [htail', htail, List.append_assoc]⟩
  obtain ⟨tail, htail⟩ := htail
  exact Stream.range_eq_since htail hlast lo count

/-- After a page come the entries after its last one. -/
theorem entriesFrom_succ {l : StreamId × RawFields} {lo : StreamId}
    (h : ((entriesFrom st lo).take pageSize).getLast? = some l) :
    entriesFrom st (redisIdIncrement l.1) = (entriesFrom st lo).drop pageSize := by
  rw [redisIdIncrement_eq]
  exact Stream.since_succ h

/-- One turn of the loop. -/
theorem along_searchPages (h : Appending (deadletterStream stream) s)
    (hlast : ((s 0).streams.get (deadletterStream stream)).entries.getLast? = some last) (k turns : ℕ)
    (lo : StreamId)
    (hpage : (entriesFrom ((s 0).streams.get (deadletterStream stream)) lo).take pageSize = page) :
    World.along env p s k (searchPages env stream last.1 pageSize target (turns + 1) lo) =
      if Unreadable env page then some (.error .value, [])
      else match page.getLast? with
        | none => some (.ok (some none), page)
        | some (lastId, _) =>
          match findInPage env target page with
          | .error e => some (.error e, page)
          | .ok (some entryId) => some (.ok (some (some entryId)), page)
          | .ok none =>
            if 0 < redisIdCompare (redisIdIncrement lastId) last.1 then some (.ok (some none), page)
            else (World.along env p s (k + 1) (searchPages env stream last.1 pageSize target turns
              (redisIdIncrement lastId))).map fun (x, read) => (x, page ++ read) := by
  have hexec : World.exec env p (.xrange (deadletterStream stream) lo last.1 (some pageSize)) {}
      (s k) = some (World.reply env page, s k) := by
    rw [World.xrange rfl, Option.getD_some, range_eq h hlast, hpage]
  refine (along_call hexec).trans ?_
  rw [World.reply]
  by_cases hread : Unreadable env page
  · rw [if_pos hread, if_pos hread]
    rfl
  rw [if_neg hread, if_neg hread]
  show (World.along env p s (k + 1) (match page.getLast? with
    | none => pure (some none)
    | some (lastId, _) => _)).map (fun y => (y.1, page ++ y.2)) = _
  rcases page.getLast? with _ | ⟨lastId, fields⟩
  · show some (_, page ++ []) = some (_, page)
    rw [List.append_nil]
  dsimp only
  rcases findInPage env target page with e | _ | entryId
  · show some (_, page ++ []) = some (_, page)
    rw [List.append_nil]
  · dsimp only
    split_ifs
    · show some (_, page ++ []) = some (_, page)
      rw [List.append_nil]
    · rfl
  · show some (_, page ++ []) = some (_, page)
    rw [List.append_nil]

/-- The loop reads the entries in order, and if it has enough turns for them, it finds the first one
    that carries the failure exactly where it can read them. -/
theorem run_searchPages (h : Appending (deadletterStream stream) s)
    (hlast : ((s 0).streams.get (deadletterStream stream)).entries.getLast? = some last)
    (hsize : 0 < pageSize) (turns k : ℕ) (lo : StreamId) {xs : List (StreamId × RawFields)}
    (hxs : entriesFrom ((s 0).streams.get (deadletterStream stream)) lo = xs) :
    ∃ x read, World.along env p s k (searchPages env stream last.1 pageSize target turns lo) =
        some (x, read) ∧ read <+: xs ∧ (xs.length < turns →
          (x = .ok (some (firstCarrier env target xs)) ↔
            Walkable env target xs ∧ Readable env pageSize target xs)) := by
  induction turns generalizing k lo xs with
  | zero => exact ⟨.ok none, [], rfl, List.nil_prefix, fun hlt => absurd hlt (Nat.not_lt_zero _)⟩
  | succ turns ih =>
    have hsorted : xs.Pairwise (·.1 < ·.1) := by
      rw [← hxs]
      exact (Stream.sorted _ |>.sublist (Stream.sublist _)).filter _
    have hbounded : ∀ x ∈ xs, x.1 ≤ last.1 := by
      rw [← hxs]
      exact fun x hx => Stream.le_of_getLast? hlast (List.mem_filter.1 hx).1
    obtain ⟨page, hpage⟩ : ∃ page, xs.take pageSize = page := ⟨_, rfl⟩
    obtain ⟨rest, hrest⟩ : ∃ rest, xs.drop pageSize = rest := ⟨_, rfl⟩
    have hsplit : xs = page ++ rest := by rw [← hpage, ← hrest, List.take_append_drop]
    have hprefix : page <+: xs := ⟨rest, hsplit.symm⟩
    have hread : Readable env pageSize target xs ↔ ¬Unreadable env page ∧
        ((∀ x ∈ page, ¬CarriesFailure env target x.2) → Readable env pageSize target rest) := by
      rw [hsplit]
      refine readable_append ?_ (fun hne => ?_) hsize
      · rw [← hpage]
        exact List.length_take_le _ _
      · rw [← hpage, List.length_take, min_eq_left]
        by_contra hle
        exact hne (hrest ▸ List.drop_eq_nil_of_le (by omega))
    have hwalk : Walkable env target xs ↔ Walkable env target page ∧
        ((∀ x ∈ page, ¬CarriesFailure env target x.2) → Walkable env target rest) := by
      rw [hsplit, walkable_append]
    rw [along_searchPages h hlast k turns lo (by rw [hxs, hpage])]
    by_cases hunread : Unreadable env page
    · rw [if_pos hunread]
      exact ⟨_, _, rfl, List.nil_prefix, fun _ => ⟨nofun, fun hgood => absurd hunread (hread.1 hgood.2).1⟩⟩
    rw [if_neg hunread]
    cases hl : page.getLast? with
    | none =>
      -- There are no entries left.
      have hnil : xs = [] := by
        rw [List.getLast?_eq_none_iff.1 hl, List.take_eq_nil_iff] at hpage
        exact hpage.resolve_left (by omega)
      refine ⟨_, _, rfl, hprefix, fun _ => ?_⟩
      rw [hnil]
      exact ⟨fun _ => ⟨walkable_nil, by simp [Readable]⟩, fun _ => rfl⟩
    | some l =>
      dsimp only
      by_cases hw : Walkable env target page
      · rw [findInPage_of_walkable hw]
        cases hc : firstCarrier env target page with
        | some i =>
          refine ⟨_, _, rfl, hprefix, fun _ => ?_⟩
          have hsome : ¬∀ x ∈ page, ¬CarriesFailure env target x.2 := fun hnone => by
            rw [firstCarrier_eq_none.2 hnone] at hc
            cases hc
          rw [hwalk, hread, hsplit, firstCarrier_append_some hc]
          exact ⟨fun _ => ⟨⟨hw, fun hnone => absurd hnone hsome⟩, hunread, fun hnone =>
            absurd hnone hsome⟩, fun _ => rfl⟩
        | none =>
          have hnone := firstCarrier_eq_none.1 hc
          have hmem : l ∈ page := List.mem_of_getLast? hl
          dsimp only
          have hfirst : firstCarrier env target xs = firstCarrier env target rest := by
            rw [hsplit, firstCarrier_append hnone]
          have hwalk' : Walkable env target xs ↔ Walkable env target rest :=
            hwalk.trans ⟨fun h => h.2 hnone, fun h => ⟨hw, fun _ => h⟩⟩
          have hread' : Readable env pageSize target xs ↔ Readable env pageSize target rest :=
            hread.trans ⟨fun h => h.2 hnone, fun h => ⟨hunread, fun _ => h⟩⟩
          rw [hfirst, hwalk', hread']
          by_cases hend : 0 < redisIdCompare (redisIdIncrement l.1) last.1
          · -- The last entry of the page is the last one there is.
            rw [if_pos hend]
            rw [redisIdCompare_pos, redisIdIncrement_eq] at hend
            have hnil : rest = [] := by
              refine List.eq_nil_iff_forall_not_mem.2 fun x hx => ?_
              rw [hsplit] at hsorted
              have hlt := (List.pairwise_append.1 hsorted).2.2 l hmem x hx
              have hle := hbounded x (hsplit ▸ List.mem_append_right _ hx)
              rw [StreamId.lt_iff_succ_le] at hlt
              exact (hend.trans_le (hlt.trans hle)).false
            refine ⟨_, _, rfl, hprefix, fun _ => ?_⟩
            rw [hnil]
            exact ⟨fun _ => ⟨walkable_nil, by simp [Readable]⟩, fun _ => rfl⟩
          · rw [if_neg hend]
            have hnext : entriesFrom ((s 0).streams.get (deadletterStream stream))
                (redisIdIncrement l.1) = rest := by
              rw [← hrest, ← hxs]
              refine entriesFrom_succ ?_
              rw [hxs, hpage, hl]
            obtain ⟨x, read, hrun, hpre, hiff⟩ := ih (k + 1) (redisIdIncrement l.1) hnext
            refine ⟨x, page ++ read, by rw [hrun]; rfl, ?_, fun hlt => hiff ?_⟩
            · rw [hsplit]
              exact (List.prefix_append_right_inj page).2 hpre
            · rw [hsplit, List.length_append] at hlt
              have hpos := List.length_pos_of_mem hmem
              omega
      · -- The search stops, and not where it should.
        obtain ⟨hne, hne'⟩ := findInPage_of_not_walkable (hsplit ▸ hsorted) hw
        rw [← hsplit] at hne'
        have hbad : ¬(Walkable env target xs ∧ Readable env pageSize target xs) :=
          fun hgood => hw (hwalk.1 hgood.1).1
        rcases hf : findInPage env target page with e | _ | i
        · exact ⟨_, _, rfl, hprefix, fun _ => ⟨nofun, fun hgood => absurd hgood hbad⟩⟩
        · exact absurd hf hne
        · refine ⟨_, _, rfl, hprefix, fun _ => ⟨fun heq => ?_, fun hgood => absurd hgood hbad⟩⟩
          rw [hf] at hne'
          exact absurd (congrArg Except.ok (Option.some.inj (Except.ok.inj heq))) hne'

/-- The search starts with the last entry of the stream. -/
theorem along_searchOrphan (hpos : ∀ e ∈ ((s 0).streams.get (deadletterStream stream)).entries,
    StreamId.zero < e.1) (turns : ℕ)
    (hst : (s 0).streams.get (deadletterStream stream) = st) :
    World.along env p s 0 (searchOrphan env stream pageSize lower target turns) =
      if Unreadable env (st.entries.head?.toList ++ st.entries.getLast?.toList) then
        some (.error .value, [])
      else match st.entries.getLast? with
        | none => some (.ok (some none), [])
        | some last =>
          World.along env p s 1 (searchPages env stream last.1 pageSize target turns lower) := by
  -- A stream that does not exist is like an empty one.
  cases hn : (s 0).streams (deadletterStream stream) with
  | none =>
    have hexec : World.exec env p (.xinfoStream (deadletterStream stream)) {} (s 0) =
        some (.error (.redis true), s 0) := by
      rw [World.exec, hn]
      rfl
    have hempty : st = .empty := by rw [← hst, Streams.get, hn, Option.getD_none]
    subst hempty
    refine (along_call hexec).trans ?_
    rw [if_neg (by simp [Unreadable, Stream.empty])]
    rfl
  | some st' =>
    have heq : st' = st := by rw [← hst, Streams.get, hn, Option.getD_some]
    subst heq
    have hexec : World.exec env p (.xinfoStream (deadletterStream stream)) {} (s 0) =
        some ((World.reply env (st'.entries.head?.toList ++ st'.entries.getLast?.toList)).map
          fun ends => ends.getLast?.map (·.1), s 0) := by
      rw [World.exec, hn]
      rfl
    refine (along_call hexec).trans ?_
    rw [World.reply]
    by_cases hread : Unreadable env (st'.entries.head?.toList ++ st'.entries.getLast?.toList)
    · rw [if_pos hread, if_pos hread]
      rfl
    rw [if_neg hread, if_neg hread]
    cases hl : st'.entries.getLast? with
    | none =>
      rw [List.getLast?_eq_none_iff.1 hl]
      rfl
    | some last =>
      have hlast : (st'.entries.head?.toList ++ (some last).toList).getLast? = some last := by
        rw [Option.toList_some, List.getLast?_concat]
      have hzero : last.1 ≠ .zero := (hpos last (hst ▸ List.mem_of_getLast? hl)).ne'
      rw [Except.map, hlast, Option.map_some]
      show (World.along env p s 1 (if last.1 = .zero then pure (some none) else
        searchPages env stream last.1 pageSize target turns lower)).map
          (fun y => (y.1, [] ++ y.2)) = _
      rw [if_neg hzero]
      exact Option.map_id'

end Run

theorem isLeast_redisIdIncrement (x : StreamId) : IsLeast {y | x < y} (redisIdIncrement x) := by
  rw [redisIdIncrement_eq]
  exact ⟨StreamId.lt_iff_succ_le.2 le_rfl, fun y hy => StreamId.lt_iff_succ_le.1 hy⟩

/-- The search ends with the first entry of the stream that carries the failure, whatever is appended
    meanwhile, exactly if it can read the entries up to that one. -/
theorem findsOrphan_iff (hsize : 0 < pageSize) (h : Appending (deadletterStream stream) s) :
    FindsOrphan env p stream pageSize lower target s ↔
      Searchable env pageSize lower target ((s 0).streams.get (deadletterStream stream)) := by
  obtain ⟨st, hst⟩ : ∃ st, (s 0).streams.get (deadletterStream stream) = st := ⟨_, rfl⟩
  have hrun : ∀ turns, World.along env p s 0 (searchOrphan env stream pageSize lower target turns) = _ :=
    fun turns => along_searchOrphan (h.positive 0) turns hst
  rw [hst]
  by_cases hread : Unreadable env (st.entries.head?.toList ++ st.entries.getLast?.toList)
  · simp only [if_pos hread] at hrun
    refine ⟨fun hfinds => ?_, fun hsearch => absurd hread hsearch.ends⟩
    obtain ⟨n, hn⟩ := hfinds.finds
    obtain ⟨read, hread⟩ := hn n le_rfl
    rw [hrun] at hread
    cases hread
  simp only [if_neg hread] at hrun
  cases hlast : st.entries.getLast? with
  | none =>
    simp only [hlast] at hrun
    have hnil : entriesFrom st lower = [] := by
      rw [entriesFrom, List.getLast?_eq_none_iff.1 hlast, List.filter_nil]
    refine ⟨fun _ => ⟨hread, ?_, ?_⟩, fun _ => ⟨isLeast_redisIdIncrement, fun turns => ?_, 0,
      fun turns _ => ⟨[], ?_⟩⟩⟩
    · rw [hnil]
      exact walkable_nil
    · rw [hnil]
      simp [Readable]
    · exact ⟨_, _, hrun turns, List.nil_prefix⟩
    · rw [hst, hnil]
      exact hrun turns
  | some last =>
    simp only [hlast] at hrun
    have hpages : ∀ turns, ∃ x read, World.along env p s 1 (searchPages env stream last.1 pageSize
        target turns lower) = some (x, read) ∧ read <+: entriesFrom st lower ∧
          ((entriesFrom st lower).length < turns →
            (x = .ok (some (firstCarrier env target (entriesFrom st lower))) ↔
              Walkable env target (entriesFrom st lower) ∧
                Readable env pageSize target (entriesFrom st lower))) :=
      fun turns => run_searchPages h (hst ▸ hlast) hsize turns 1 lower (by rw [hst])
    constructor
    · intro hfinds
      obtain ⟨n, hn⟩ := hfinds.finds
      obtain ⟨read, hfound⟩ := hn (n + (entriesFrom st lower).length + 1) (by omega)
      obtain ⟨x, read', hx, -, hiff⟩ := hpages (n + (entriesFrom st lower).length + 1)
      rw [hrun, hx, hst] at hfound
      obtain ⟨hwalk, hpage⟩ := (hiff (by omega)).1 (Prod.mk.inj (Option.some.inj hfound)).1
      exact ⟨hread, hwalk, hpage⟩
    · intro hsearch
      refine ⟨isLeast_redisIdIncrement, fun turns => ?_, (entriesFrom st lower).length + 1,
        fun turns hturns => ?_⟩
      · obtain ⟨x, read, hx, hprefix, -⟩ := hpages turns
        exact ⟨x, read, (hrun turns).trans hx, hst ▸ hprefix⟩
      · obtain ⟨x, read, hx, -, hiff⟩ := hpages turns
        refine ⟨read, ?_⟩
        rw [hrun, hx, hst, (hiff (by omega)).2 ⟨hsearch.walkable, hsearch.readable⟩]

/-! ### A stream of dead letters -/

/-- A dead letter of a failure, after an entry of other fields. -/
def orphanStream (fields : RawFields) : Stream RawFields where
  entries := [(.ofMs 1, fields), (.ofMs 2, encodeFields [("failure_id", "7")])]
  appended := [(.ofMs 1, fields), (.ofMs 2, encodeFields [("failure_id", "7")])]
  sublist := .refl _
  sorted := List.pairwise_pair.2 (StreamId.lt_iff.2 (by decide : (1 : ℕ) * 2 ^ 64 + 0 < 2 * 2 ^ 64 + 0))

def orphanWorld (fields : RawFields) : World Unit :=
  .ofRows 8
    (fun n => if n = deadletterStream "aslan.kap.filings.new" then some (orphanStream fields) else none)
    fun _ => none

theorem get_orphanWorld (fields : RawFields) :
    (orphanWorld fields).streams.get (deadletterStream "aslan.kap.filings.new") =
      orphanStream fields := by
  have hsome : (orphanWorld fields).streams (deadletterStream "aslan.kap.filings.new") =
      some (orphanStream fields) := by
    unfold orphanWorld World.ofRows
    dsimp only
    exact if_pos rfl
  rw [Streams.get, hsome, Option.getD_some]

theorem appending_orphanWorld (fields : RawFields) :
    Appending (deadletterStream "aslan.kap.filings.new") fun _ => orphanWorld fields := by
  refine ⟨fun k => ⟨[], (List.append_nil _).symm⟩, fun k e he => ?_⟩
  rw [get_orphanWorld] at he
  rcases List.mem_pair.1 he with rfl | rfl
  · exact StreamId.lt_iff.2 (by decide : (0 : ℕ) < 1 * 2 ^ 64 + 0)
  · exact StreamId.lt_iff.2 (by decide : (0 : ℕ) < 2 * 2 ^ 64 + 0)

theorem entriesFrom_orphanStream (fields : RawFields) :
    entriesFrom (orphanStream fields) .zero = (orphanStream fields).entries :=
  List.filter_eq_self.2 fun e _ => decide_eq_true (StreamId.zero_le e.1)

/-- The entry is found behind one whose failure is not a number. -/
theorem findsOrphan_orphanWorld : FindsOrphan plainEnv () "aslan.kap.filings.new" 1 .zero 7
    fun _ => orphanWorld (encodeFields [("failure_id", "x")]) := by
  have htext : ∀ v, decodeFields (encodeFields [("failure_id", v)]) ≠ none := by
    intro v
    have hdec : decodeFields (encodeFields [("failure_id", v)]) = some [("failure_id", v)] := by
      show [("failure_id".toUTF8, v.toUTF8)].mapM decodeField = _
      rw [List.mapM_cons, decodeField_toUTF8]
      rfl
    rw [hdec]
    nofun
  have hnamed : ∀ v, HasFailureId (encodeFields [("failure_id", v)]) := by
    intro v
    show fieldOf "failure_id" [("failure_id".toUTF8, v.toUTF8)] ≠ none
    rw [fieldOf_cons, if_pos rfl]
    nofun
  have hread : ∀ xs, (∀ e ∈ xs, ∃ v, e.2 = encodeFields [("failure_id", v)]) →
      ¬Unreadable plainEnv xs := by
    rintro xs hxs ⟨-, e, he, f, hf, hnone⟩
    obtain ⟨v, hv⟩ := hxs e he
    rw [hv] at hf
    obtain rfl := List.mem_singleton.1 hf
    rw [decodeField_toUTF8] at hnone
    cases hnone
  refine (findsOrphan_iff Nat.one_pos (appending_orphanWorld _)).2 ?_
  rw [get_orphanWorld]
  have hentries : ∀ e ∈ (orphanStream (encodeFields [("failure_id", "x")])).entries,
      ∃ v, e.2 = encodeFields [("failure_id", v)] := by
    intro e he
    rcases List.mem_pair.1 he with rfl | rfl
    · exact ⟨_, rfl⟩
    · exact ⟨_, rfl⟩
  refine ⟨hread _ hentries, ?_, ?_⟩
  · rw [entriesFrom_orphanStream]
    exact walkable_cons.2 ⟨⟨htext _, fun _ => hnamed _⟩, fun _ =>
      walkable_cons.2 ⟨⟨htext _, fun _ => hnamed _⟩, fun _ => walkable_nil⟩⟩
  · rw [entriesFrom_orphanStream]
    rintro l e l' heq -
    refine hread _ fun e' he' => ?_
    rw [List.mem_singleton.1 he']
    exact hentries e (heq ▸ by simp)

/-- A client that returns bytes. -/
def bytesEnv : Env := { plainEnv with decodeResponses := false }

/-- Behind an entry with a field that is not text, it is not. -/
theorem not_findsOrphan_orphanWorld : ¬FindsOrphan bytesEnv () "aslan.kap.filings.new" 10000 .zero 7
    fun _ => orphanWorld [("payload".toUTF8, ⟨#[0xff]⟩)] := by
  intro h
  obtain ⟨n, hn⟩ := h.finds
  obtain ⟨read, hfound⟩ := hn (n + 3) (by omega)
  have happ := appending_orphanWorld [("payload".toUTF8, ⟨#[0xff]⟩)]
  have hget := get_orphanWorld [("payload".toUTF8, ⟨#[0xff]⟩)]
  have hlast : (orphanStream [("payload".toUTF8, ⟨#[0xff]⟩)]).entries.getLast? =
      some (.ofMs 2, encodeFields [("failure_id", "7")]) := rfl
  obtain ⟨x, read', hx, -, hiff⟩ := run_searchPages happ (by rw [hget, hlast]) (by decide : 0 < 10000)
    (n + 3) 1 .zero (by rw [hget, entriesFrom_orphanStream])
  have hread : ¬Unreadable bytesEnv ((orphanStream [("payload".toUTF8, ⟨#[0xff]⟩)]).entries.head?.toList ++
      (orphanStream [("payload".toUTF8, ⟨#[0xff]⟩)]).entries.getLast?.toList) :=
    fun hunread => Bool.false_ne_true hunread.1
  rw [along_searchOrphan (happ.positive 0) (n + 3) hget, if_neg hread, hlast] at hfound
  dsimp only at hfound
  rw [hx, hget, entriesFrom_orphanStream] at hfound
  have hwalk := ((hiff (by simp [orphanStream])).1 (Prod.mk.inj (Option.some.inj hfound)).1).1
  -- The first entry cannot be decoded.
  refine (walkable_cons.1 hwalk).1.1 ?_
  have hbyte : decode ⟨#[0xff]⟩ = none := by decide +kernel
  show [("payload".toUTF8, ⟨#[0xff]⟩)].mapM decodeField = none
  rw [List.mapM_cons, decodeField, decode_toUTF8, hbyte]
  rfl

end Deadletter

end AslanCore
