import AslanCore.Timeseries.Patterns
import AslanCore.Timeseries.Scrub

/-!
# What the scrub leaves

Which strings `scrub_in_python` leaves, for findings of `find_pii_in_metadata` in the same metadata: in
the string of a path, the spans of its findings are replaced.

* `filter_walk`: the findings of a path are those in the string that is there;
* `redactGroup_eq_iff`: the spans of one string are replaced as they should be if no two of them
  overlap, and only then;
* `ScrubsExactly`: the scrub raises nothing, and what it returns is the metadata with the spans
  replaced;
* `scrubsExactly_iff`: exactly when it is so.
-/

namespace AslanCore.Timeseries

variable {table : PatternTable} {path rest : List PathElem} {v : PyValue} {vs : List PyValue}
  {fields : List (PyKey × PyValue)} {k : PyKey} {i : ℕ} {f : PiiFinding} {s : String}

/-! ### Findings at their paths -/

theorem path_of_mem_scanPii (h : f ∈ scanPii table path s) : f.path = path := by
  obtain ⟨p, -, hf⟩ := List.mem_flatMap.1 h
  obtain ⟨q, -, rfl⟩ := List.mem_map.1 hf
  rfl

mutual

/-- The findings in a value have paths in it. -/
theorem prefix_of_mem_walk : ∀ {path : List PathElem} (v : PyValue), f ∈ walk table path v →
    path <+: f.path
  | path, .str s, h => by
    rw [walk] at h
    rw [path_of_mem_scanPii h]
  | path, .dict fields, h => by
    rw [walk] at h
    obtain ⟨k, -, hk⟩ := prefix_of_mem_walkFields fields h
    exact (List.prefix_append _ _).trans hk
  | path, .list vs, h => by
    rw [walk] at h
    obtain ⟨j, -, hj⟩ := prefix_of_mem_walkItems vs h
    exact (List.prefix_append _ _).trans hj
  | path, .tuple vs, h => by
    rw [walk] at h
    obtain ⟨j, -, hj⟩ := prefix_of_mem_walkItems vs h
    exact (List.prefix_append _ _).trans hj
  | path, .none, h | path, .bool _, h | path, .int _, h | path, .float _, h => by
    simp [walk] at h

theorem prefix_of_mem_walkFields : ∀ {path : List PathElem} (fields : List (PyKey × PyValue)),
    f ∈ walkFields table path fields →
    ∃ k, k ∈ fields.map Prod.fst ∧ path ++ [.key k] <+: f.path
  | path, [], h => by simp [walkFields] at h
  | path, (k, v) :: fields, h => by
    rw [walkFields, List.mem_append] at h
    rcases h with h | h
    · exact ⟨k, List.mem_cons_self, prefix_of_mem_walk v h⟩
    · obtain ⟨k', hk', hprefix⟩ := prefix_of_mem_walkFields fields h
      exact ⟨k', List.mem_cons_of_mem _ hk', hprefix⟩

theorem prefix_of_mem_walkItems : ∀ {path : List PathElem} {i : ℕ} (vs : List PyValue),
    f ∈ walkItems table path i vs → ∃ j, i ≤ j ∧ path ++ [.index j] <+: f.path
  | path, i, [], h => by simp [walkItems] at h
  | path, i, v :: vs, h => by
    rw [walkItems, List.mem_append] at h
    rcases h with h | h
    · exact ⟨i, Nat.le_refl i, prefix_of_mem_walk v h⟩
    · obtain ⟨j, hj, hprefix⟩ := prefix_of_mem_walkItems vs h
      exact ⟨j, Nat.le_of_succ_le hj, hprefix⟩

end

/-- The findings in the string of a path. -/
def scanAt (table : PatternTable) (path : List PathElem) (s : Option String) : List PiiFinding :=
  s.elim [] (scanPii table path)

/-- Findings whose paths go on with other elements have other paths. -/
theorem filter_eq_nil_of_prefix {findings : List PiiFinding}
    (h : ∀ f ∈ findings, ∃ e, some e ≠ rest.head? ∧ path ++ [e] <+: f.path) :
    findings.filter (·.path = path ++ rest) = [] := by
  refine List.filter_eq_nil_iff.2 fun f hf heq => ?_
  obtain ⟨e, hne, t, ht⟩ := h f hf
  rw [decide_eq_true_iff] at heq
  rw [heq, List.append_assoc, List.append_cancel_left_eq] at ht
  rw [← ht] at hne
  exact hne rfl

theorem filter_walkFields_of_forall_ne (h : ∀ k, some (.key k) ≠ rest.head?) :
    (walkFields table path fields).filter (·.path = path ++ rest) = [] := by
  refine filter_eq_nil_of_prefix fun f hf => ?_
  obtain ⟨k, -, hk⟩ := prefix_of_mem_walkFields fields hf
  exact ⟨_, h k, hk⟩

theorem filter_walkItems_of_forall_ne (h : ∀ j, some (.index j) ≠ rest.head?) :
    (walkItems table path i vs).filter (·.path = path ++ rest) = [] := by
  refine filter_eq_nil_of_prefix fun f hf => ?_
  obtain ⟨j, -, hj⟩ := prefix_of_mem_walkItems vs hf
  exact ⟨_, h j, hj⟩

mutual

/-- The findings of a path are those in its string. -/
theorem filter_walk : ∀ (path rest : List PathElem) (v : PyValue), v.Valid →
    (walk table path v).filter (·.path = path ++ rest) = scanAt table (path ++ rest) (v.textAt rest)
  | path, [], .str s, _ => by
    rw [walk, List.append_nil, PyValue.textAt, scanAt, Option.elim_some, List.filter_eq_self]
    exact fun f hf => decide_eq_true (path_of_mem_scanPii hf)
  | path, e :: rest, .str s, _ => by
    rw [walk, List.filter_eq_nil_iff.2]
    · rfl
    · intro f hf
      simp [path_of_mem_scanPii hf]
  | path, .key k :: rest, .dict fields, hv => by
    rw [walk, PyValue.textAt]
    exact filter_walkFields path k rest fields (nodup_of_valid hv) hv.2.2
  | path, [], .dict fields, _ | path, .index j :: rest, .dict fields, _ => by
    rw [walk, filter_walkFields_of_forall_ne (by simp)]
    rfl
  | path, .index j :: rest, .list vs, hv | path, .index j :: rest, .tuple vs, hv => by
    have hitems := filter_walkItems path 0 j rest vs hv
    rw [Nat.zero_add] at hitems
    rw [walk, PyValue.textAt, hitems]
  | path, [], .list vs, _ | path, .key k :: rest, .list vs, _
  | path, [], .tuple vs, _ | path, .key k :: rest, .tuple vs, _ => by
    rw [walk, filter_walkItems_of_forall_ne (by simp)]
    rfl
  | path, rest, .none, _ | path, rest, .bool _, _ | path, rest, .int _, _
  | path, rest, .float _, _ => by
    cases rest <;> simp [walk, PyValue.textAt, scanAt]

theorem filter_walkFields : ∀ (path : List PathElem) (k : PyKey) (rest : List PathElem)
    (fields : List (PyKey × PyValue)), (fields.map Prod.fst).Nodup → FieldsValid fields →
    (walkFields table path fields).filter (·.path = path ++ .key k :: rest) =
      scanAt table (path ++ .key k :: rest) ((fields.lookup k).bind (·.textAt rest))
  | path, k, rest, [], _, _ => rfl
  | path, k, rest, (k', v) :: fields, hn, hv => by
    obtain ⟨hk', hn⟩ := List.nodup_cons.1 hn
    rw [walkFields, List.filter_append, List.lookup_cons]
    by_cases hk : k = k'
    · subst hk
      have hother : (walkFields table path fields).filter (·.path = path ++ .key k :: rest) = [] := by
        refine filter_eq_nil_of_prefix fun f hf => ?_
        obtain ⟨k'', hmem, hprefix⟩ := prefix_of_mem_walkFields fields hf
        refine ⟨_, fun heq => hk' ?_, hprefix⟩
        rwa [← PathElem.key.inj (Option.some.inj heq)]
      have hfirst := filter_walk (path ++ [.key k]) rest v hv.1
      rw [List.append_assoc, List.singleton_append] at hfirst
      rw [hfirst, hother, List.append_nil, beq_self_eq_true]
      rfl
    · have hfirst : (walk table (path ++ [.key k']) v).filter (·.path = path ++ .key k :: rest) = [] :=
        filter_eq_nil_of_prefix fun f hf => ⟨_, fun heq =>
          hk (PathElem.key.inj (Option.some.inj heq)).symm, prefix_of_mem_walk v hf⟩
      rw [hfirst, List.nil_append, beq_false_of_ne hk]
      exact filter_walkFields path k rest fields hn hv.2

theorem filter_walkItems : ∀ (path : List PathElem) (i j : ℕ) (rest : List PathElem)
    (vs : List PyValue), ItemsValid vs →
    (walkItems table path i vs).filter (·.path = path ++ .index (i + j) :: rest) =
      scanAt table (path ++ .index (i + j) :: rest) (vs[j]?.bind (·.textAt rest))
  | path, i, j, rest, [], _ => rfl
  | path, i, 0, rest, v :: vs, hv => by
    have hother : (walkItems table path (i + 1) vs).filter (·.path = path ++ .index i :: rest) = [] := by
      refine filter_eq_nil_of_prefix fun f hf => ?_
      obtain ⟨j, hj, hprefix⟩ := prefix_of_mem_walkItems vs hf
      refine ⟨_, fun heq => ?_, hprefix⟩
      have := PathElem.index.inj (Option.some.inj heq)
      omega
    have hfirst := filter_walk (path ++ [.index i]) rest v hv.1
    rw [List.append_assoc, List.singleton_append] at hfirst
    rw [walkItems, List.filter_append, Nat.add_zero, hfirst, hother, List.append_nil]
    rfl
  | path, i, j + 1, rest, v :: vs, hv => by
    have hfirst : (walk table (path ++ [.index i]) v).filter
        (·.path = path ++ .index (i + (j + 1)) :: rest) = [] := by
      refine filter_eq_nil_of_prefix fun f hf => ⟨_, fun heq => ?_, prefix_of_mem_walk v hf⟩
      have := PathElem.index.inj (Option.some.inj heq)
      omega
    have hrest := filter_walkItems path (i + 1) j rest vs hv.2
    rw [Nat.add_assoc, Nat.add_comm 1] at hrest
    rw [walkItems, List.filter_append, hfirst, List.nil_append, hrest]
    rfl

end

variable {m : PyDict} {π : List PathElem} {findings group : List PiiFinding}

/-- The metadata without the top-level `subjects`. -/
def searched (m : PyDict) : PyDict := m.filter fun p => p.1 ≠ .str "subjects"

theorem findPiiInMetadata_eq :
    findPiiInMetadata table (some m) = walk table [] (.dict (searched m)) := by
  rw [walk, findPiiInMetadata, searched]
  induction m with
  | nil => rfl
  | cons p m ih =>
    obtain ⟨k, v⟩ := p
    rw [List.flatMap_cons, ih]
    show (if k = .str "subjects" then [] else walk table [.key k] v) ++ _ = _
    by_cases hk : k = .str "subjects"
    · rw [if_pos hk, List.filter_cons_of_neg (by simpa using hk), List.nil_append]
    · rw [if_neg hk, List.filter_cons_of_pos (by simpa using hk), walkFields]
      rfl

theorem valid_searched (hm : (PyValue.dict m).Valid) : (PyValue.dict (searched m)).Valid := by
  obtain ⟨hn, hnan, hv⟩ := hm
  have hsub : (searched m).Sublist m := List.filter_sublist
  exact ⟨hn.sublist (hsub.map _), fun p hp => hnan p (hsub.subset hp),
    fieldsValid_iff.2 fun p hp => fieldsValid_iff.1 hv p (hsub.subset hp)⟩

/-- The strings that are searched. -/
theorem textAt_searched : (PyValue.dict (searched m)).textAt π =
    if π.head? = some (.key (.str "subjects")) then none else (PyValue.dict m).textAt π := by
  rcases π with _ | ⟨k | i, π⟩
  · rfl
  · have hlookup : (searched m).lookup k = if k = .str "subjects" then none else m.lookup k := by
      rw [searched]
      induction m with
      | nil => rw [List.filter_nil, List.lookup_nil, ite_self]
      | cons p m ih =>
        obtain ⟨k', v⟩ := p
        by_cases hk' : k' = .str "subjects"
        · rw [List.filter_cons_of_neg (by simpa using hk'), ih]
          split_ifs with hk
          · rfl
          · rw [List.lookup_cons, beq_false_of_ne fun h => hk (h.trans hk')]
        · rw [List.filter_cons_of_pos (by simpa using hk'), List.lookup_cons, List.lookup_cons, ih]
          by_cases hkk : k = k'
          · rw [hkk, beq_self_eq_true, if_neg hk', if_neg hk']
          · rw [beq_false_of_ne hkk]
    rw [PyValue.textAt, PyValue.textAt, hlookup]
    by_cases hk : k = .str "subjects"
    · rw [if_pos hk, if_pos (by rw [hk]; rfl)]
      rfl
    · rw [if_neg hk, if_neg (by simpa using hk)]
  · rw [if_neg (by simp)]
    rfl

/-- The findings of a path in the metadata are those in its string. -/
theorem filter_findPiiInMetadata (hm : (PyValue.dict m).Valid) (π : List PathElem) :
    (findPiiInMetadata table (some m)).filter (·.path = π) =
      scanAt table π ((PyValue.dict (searched m)).textAt π) := by
  rw [findPiiInMetadata_eq]
  exact filter_walk [] π _ (valid_searched hm)

/-- A finding is in the string of its path. -/
theorem textAt_of_mem_findPii (hm : (PyValue.dict m).Valid) (hf : f ∈ findPiiInMetadata table (some m)) :
    ∃ s, (PyValue.dict m).textAt f.path = some s ∧ f ∈ scanPii table f.path s := by
  have hmem := List.mem_filter_of_mem (p := fun g => decide (g.path = f.path)) hf (decide_eq_true rfl)
  rw [filter_findPiiInMetadata hm, textAt_searched] at hmem
  split_ifs at hmem
  · cases hmem
  · rcases hs : (PyValue.dict m).textAt f.path with _ | s
    · rw [hs] at hmem
      cases hmem
    · rw [hs] at hmem
      exact ⟨s, rfl, hmem⟩

/-! ### The spans of one string -/

theorem redactGroup_eq : redactGroup group s =
    String.ofList (Patch.applyAll ((reverseSpans group).reverse.map PiiFinding.patch) s.toList) := by
  rw [redactGroup, Patch.applyAll, List.foldr_map, List.foldr_reverse]

/-- The spans of one string are replaced as they should be, in whatever order they are, if no two of
    them overlap, and only then. -/
theorem redactGroup_eq_iff (hperm : group.Perm findings)
    (hfits : ∀ f ∈ group, f.patch.Fits s.toList.length) :
    redactGroup group s =
        String.ofList (Patch.replaced (findings.map PiiFinding.patch) 0 s.toList) ↔
      findings.Pairwise fun f g => f.patch.Apart g.patch := by
  rw [redactGroup_eq, String.ofList_inj, Patch.applyAll_eq_replaced_perm_iff, List.pairwise_map]
  · exact (((List.reverse_perm _).trans (List.perm_insertionSort _ _)).trans hperm).map _
  · intro p hp
    obtain ⟨f, hf, rfl⟩ := List.mem_map.1 hp
    exact hfits f ((List.mem_insertionSort _).1 (List.mem_reverse.1 hf))
  · have hsorted := List.pairwise_insertionSort (fun f g : PiiFinding => toLex g.span ≤ toLex f.span)
      group
    rw [List.pairwise_map, List.pairwise_reverse]
    refine hsorted.imp fun {f g} h => ?_
    rcases Prod.Lex.le_iff.1 h with h | ⟨h, -⟩
    · exact Nat.le_of_lt h
    · exact Nat.le_of_eq h

/-! ### What the scrub returns -/

/-- The string of a path, as it should be: the spans of its findings are gone, and what replaces them
    is where they start. -/
def exactText (findings : List PiiFinding) (π : List PathElem) (s : String) : String :=
  String.ofList
    (Patch.replaced ((findings.filter (·.path = π)).map PiiFinding.patch) 0 s.toList)

/-- The scrub raises nothing, and returns the metadata with other strings, as they should be. -/
def ScrubsExactly (m : PyDict) (findings : List PiiFinding) : Prop :=
  scrubInPython m findings = some (fieldsMapTexts (exactText findings) [] m)

variable {isWord : Char → Bool}

theorem toList_append_append (a b c : String) :
    (a ++ b ++ c).toList = a.toList ++ (b.toList ++ c.toList) := by
  rw [String.toList_append, String.toList_append, List.append_assoc]

theorem toList_redaction (matchedPattern : String) : (redaction matchedPattern).toList =
    "[REDACTED:Art.17:".toList ++ (matchedPattern.toList ++ "]".toList) :=
  toList_append_append _ _ _

theorem fits_patch (hf : f ∈ scanPii (piiPatterns isWord) path s) : f.patch.Fits s.toList.length := by
  obtain ⟨hlt, hle⟩ := lt_of_mem_scanPii hf
  refine ⟨hlt, hle, ?_⟩
  have hne : "[REDACTED:Art.17:".toList ≠ [] := by decide
  rw [PiiFinding.patch, toList_redaction]
  exact List.append_ne_nil_of_left_ne_nil hne _

/-- The string of a path is as it should be if no two of its findings overlap, and only then. -/
theorem scrubText_eq_iff (h : ∀ f ∈ findings, f.path = π → f.patch.Fits s.toList.length) :
    scrubText findings π s = exactText findings π s ↔
      findings.Pairwise fun f g => f.path = π → g.path = π → f.patch.Apart g.patch := by
  rw [scrubText, exactText, redactGroup_eq_iff ((List.perm_insertionSort _ _).filter _),
    List.pairwise_filter]
  · simp only [decide_eq_true_iff]
  · intro f hf
    obtain ⟨hf, hπ⟩ := List.mem_filter.1 hf
    exact h f ((List.mem_insertionSort _).1 hf) (of_decide_eq_true hπ)

/-- The scrub is exact if and only if the paths can be compared, no string is an item of a tuple, and
    no two findings of one string overlap. -/
theorem scrubsExactly_iff (hm : (PyValue.dict m).Valid)
    (hfindings : findings.Sublist (findPiiInMetadata (piiPatterns isWord) (some m))) :
    ScrubsExactly m findings ↔
      (∀ f ∈ findings, ∀ g ∈ findings, comparable f.path g.path) ∧
        (∀ f ∈ findings, (PyValue.dict m).inTuple f.path = false) ∧
        findings.Pairwise fun f g => f.path = g.path → f.patch.Apart g.patch := by
  have hmem := fun f hf => textAt_of_mem_findPii hm (hfindings.subset (a := f) hf)
  have htext : ∀ f ∈ findings, (PyValue.dict m).textAt f.path = some f.fullValue := by
    intro f hf
    obtain ⟨s, hs, hscan⟩ := hmem f hf
    rw [(mem_scanPii_iff.1 hscan).2.1, hs]
  have hfits : ∀ π s, (PyValue.dict m).textAt π = some s → ∀ f ∈ findings, f.path = π →
      f.patch.Fits s.toList.length := by
    rintro _ s hs f hf rfl
    obtain ⟨s', hs', hscan⟩ := hmem f hf
    obtain rfl := Option.some.inj (hs'.symm.trans hs)
    exact fits_patch hscan
  -- The strings are compared one by one.
  have hiff : fieldsMapTexts (scrubText findings) [] m = fieldsMapTexts (exactText findings) [] m ↔
      findings.Pairwise fun f g => f.path = g.path → f.patch.Apart g.patch := by
    constructor
    · intro heq
      have hall : ∀ π s, (PyValue.dict m).textAt π = some s →
          scrubText findings π s = exactText findings π s := by
        intro π s hs
        have hat := congrArg (fun fields => (PyValue.dict fields).textAt π) heq
        have hmap : ∀ g, (PyValue.dict (fieldsMapTexts g [] m)).textAt π = some (g π s) := by
          intro g
          have := textAt_mapTexts (f := g) (.dict m) [] π
          rwa [PyValue.mapTexts, hs] at this
        exact Option.some.inj ((hmap _).symm.trans (hat.trans (hmap _)))
      refine List.pairwise_iff_forall_sublist.2 fun {f g} hsub hfg => ?_
      have hs := htext f (hsub.subset List.mem_cons_self)
      have hpair := (scrubText_eq_iff (hfits _ _ hs)).1 (hall _ _ hs)
      exact List.pairwise_iff_forall_sublist.1 hpair hsub rfl hfg.symm
    · intro hpair
      have hv : (PyValue.dict m).mapTexts (scrubText findings) [] =
          (PyValue.dict m).mapTexts (exactText findings) [] :=
        mapTexts_congr (.dict m) hm fun π s hs =>
          (scrubText_eq_iff (hfits π s hs)).2 (hpair.imp fun {f g} h hf hg => h (hf.trans hg.symm))
      rw [PyValue.mapTexts, PyValue.mapTexts] at hv
      exact PyValue.dict.inj hv
  rw [ScrubsExactly, scrubInPython_eq hm htext]
  split_ifs with hcond
  · rw [Option.some.injEq, hiff]
    exact ⟨fun h => ⟨hcond.1, hcond.2, h⟩, fun h => h.2.2⟩
  · exact iff_of_false (by rintro ⟨⟩) fun h => hcond ⟨h.1, h.2.1⟩

/-- A name, and an e-mail address. -/
def noteMetadata : PyDict := [(.str "note", .str "John Doe, jd@x.com")]

theorem valid_singleton (key text : String) :
    (PyValue.dict [(.str key, .str text)]).Valid := by
  refine ⟨List.nodup_singleton _, List.forall_mem_singleton.2 ?_, trivial, trivial⟩
  show (5 : ℤ) ≠ 4
  decide

theorem scrubsExactly_noteMetadata : ScrubsExactly noteMetadata
    (findPiiInMetadata (piiPatterns Char.isAlphanum) (some noteMetadata)) :=
  (scrubsExactly_iff (valid_singleton _ _) (List.Sublist.refl _)).2 (by decide +kernel)

/-- A name that goes on into an e-mail address. -/
def overlappingMetadata : PyDict := [(.str "note", .str "John Doe@x.com")]

theorem not_scrubsExactly_overlapping :
    ¬∀ (m : PyDict) (findings : List PiiFinding), (PyValue.dict m).Valid →
      findings.Sublist (findPiiInMetadata (piiPatterns Char.isAlphanum) (some m)) →
      ScrubsExactly m findings := by
  intro h
  have hexact := h overlappingMetadata _ (valid_singleton _ _) (List.Sublist.refl _)
  have htext := congrArg (·.bind fun out => (PyValue.dict out).textAt [.key (.str "note")]) hexact
  revert htext
  decide +kernel

end AslanCore.Timeseries
