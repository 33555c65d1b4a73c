import AslanCore.Timeseries.Scrubbing

/-!
# A second sweep

What `find_pii_in_metadata` finds in what `scrub_in_python` returns for all findings in the metadata.
A match of a string is not a match of what is left of it, but a text may become one: where a match is
replaced that goes on in a word, there is a boundary that was not there.

* `stringPatches`: the spans of a string, in order, and what replaces them;
* `Exposed`: a part of the string that is left has a text of the shape of a name in it, between
  characters that are not part of words, or next to a span;
* `matches_redacted_iff`: there is a match in the string with its spans replaced if and only if it is
  exposed;
* `sweepsOnce_iff`: a second sweep finds nothing if and only if no string is exposed.
-/

namespace AslanCore.Timeseries

open Regex

/-- What the characters of words are, as far as the patterns depend on it. -/
structure WordClass (isWord : Char → Bool) : Prop where
  upper : ∀ c, isUpper c → isWord c
  lower : ∀ c, isLower c → isWord c
  left_bracket : isWord '[' = false
  right_bracket : isWord ']' = false

variable {isWord : Char → Bool} {b b' : Option Char} {c : Char} {w rest rest' : List Char}

/-! ### The two expressions -/

theorem bare_piiEmail : piiEmail.bare := rfl

theorem bare_nameShape : nameShape.bare := rfl

theorem consumes_piiEmail : piiEmail.consumes := rfl

theorem consumes_piiName : piiName.consumes := rfl

/-- The code points of letters. -/
theorem toNat_of_isLetter (h : isLetter c) :
    65 ≤ c.toNat ∧ c.toNat ≤ 122 ∨ c.toNat ∈ [0x130, 0x131, 0x17f, 0x212a] := by
  simp only [isLetter, Bool.or_eq_true, Bool.and_eq_true, decide_eq_true_iff, Char.le_def,
    UInt32.le_iff_toNat_le, List.contains_iff_mem] at h
  rcases h with (⟨hle, hge⟩ | ⟨hle, hge⟩) | h
  · have h1 : 97 ≤ c.toNat := hle
    have h2 : c.toNat ≤ 122 := hge
    omega
  · have h1 : 65 ≤ c.toNat := hle
    have h2 : c.toNat ≤ 90 := hge
    omega
  · exact .inr (List.mem_map_of_mem (f := Char.toNat) h)

/-- No whitespace is part of an e-mail address. -/
theorem not_accepts_of_isSpace (hc : isSpace c) : piiEmail.accepts c = false := by
  refine Bool.eq_false_iff.2 fun h => ?_
  have hnat : 37 ≤ c.toNat ∧ c.toNat ≤ 122 ∨ c.toNat ∈ [0x130, 0x131, 0x17f, 0x212a] := by
    have hdigit : c.isDigit → 48 ≤ c.toNat ∧ c.toNat ≤ 57 := by
      simp only [Char.isDigit, Bool.and_eq_true, decide_eq_true_iff, UInt32.le_iff_toNat_le, ge_iff_le]
      exact id
    have hletter : isLetter c → _ := toNat_of_isLetter
    have hall : (['.', '_', '%', '+', '-', '@'].all
        fun c => 37 ≤ c.toNat ∧ c.toNat ≤ 122) = true := by decide
    have hmem : c ∈ ['.', '_', '%', '+', '-', '@'] → 37 ≤ c.toNat ∧ c.toNat ≤ 122 := fun hmem =>
      of_decide_eq_true (List.all_eq_true.1 hall c hmem)
    simp only [piiEmail, accepts, isLocal, isDomain, Bool.or_eq_true, beq_iff_eq,
      List.contains_iff_mem, List.mem_cons, List.not_mem_nil, or_false] at h hmem
    grind
  simp only [isSpace, decide_eq_true_iff] at hc
  simp only [List.mem_cons, List.not_mem_nil, or_false] at hnat
  omega

theorem at_mem_of_matches (h : piiEmail.Matches isWord b w rest) : '@' ∈ w := by
  obtain ⟨u, v, rfl, -, u', v', rfl, ⟨c, rfl, hc⟩, -⟩ := h
  rw [beq_iff_eq.1 hc]
  simp

/-- The parts of a text of the shape of a name that matter. -/
theorem exists_of_nameShape (h : nameShape.Matches isWord b w rest) :
    (∃ c ∈ w.head?, isUpper c) ∧ (∃ c ∈ w.getLast?, isLower c) ∧ ∃ c ∈ w, isSpace c := by
  obtain ⟨_, v₁, rfl, ⟨c, rfl, hc⟩, l₁, v₂, rfl, -, m, v₃, rfl, -, l₂, v₄, rfl, hspace, _, l₃, rfl, -,
    hlower⟩ := h
  obtain ⟨d, l₂, rfl⟩ := List.exists_cons_of_ne_nil hspace.1
  refine ⟨⟨c, rfl, hc⟩, ⟨l₃.getLast hlower.1, ?_, hlower.2 _ (List.getLast_mem _)⟩,
    d, by simp, hspace.2 d List.mem_cons_self⟩
  simp only [List.getLast?_append, List.getLast?_eq_some_getLast hlower.1, Option.some_or,
    Option.mem_def]

theorem ne_nil_of_nameShape (h : nameShape.Matches isWord b w rest) : w ≠ [] := by
  obtain ⟨⟨c, hc, -⟩, -⟩ := exists_of_nameShape h
  rintro rfl
  cases hc

/-- A name is a text of its shape between characters that are not part of words. -/
theorem matches_piiName_iff (hw : WordClass isWord) : piiName.Matches isWord b w rest ↔
    nameShape.Matches isWord none w [] ∧ wordAt isWord b = false ∧
      wordAt isWord rest.head? = false := by
  -- The ends of such a text are part of words.
  have hends : ∀ {b w rest}, nameShape.Matches isWord b w rest →
      wordAt isWord (w ++ rest).head? = true ∧ wordAt isWord (lastOr b w) = true := by
    intro b w rest h
    obtain ⟨⟨c, hc, hupper⟩, ⟨d, hd, hlower⟩, -⟩ := exists_of_nameShape h
    have hne := ne_nil_of_nameShape h
    rw [List.head?_append_of_ne_nil _ hne, Option.mem_def.1 hc, lastOr, Option.mem_def.1 hd]
    exact ⟨hw.upper c hupper, hw.lower d hlower⟩
  constructor
  · rintro ⟨_, v, rfl, ⟨rfl, hleft⟩, u, _, rfl, hu, rfl, hright⟩
    obtain ⟨hfirst, hlast⟩ := hends hu
    simp only [List.nil_append, List.append_nil] at hfirst hleft ⊢
    refine ⟨matches_of_bare bare_nameShape hu, ?_, ?_⟩
    · rw [hfirst] at hleft
      exact Bool.eq_false_iff.2 hleft
    · rw [hlast] at hright
      exact Bool.eq_false_iff.2 hright.symm
  · rintro ⟨h, hleft, hright⟩
    have h : nameShape.Matches isWord b w ([] ++ rest) := matches_of_bare bare_nameShape h
    obtain ⟨hfirst, hlast⟩ := hends h
    refine ⟨[], w, rfl, ⟨rfl, ?_⟩, w, [], (List.append_nil w).symm, h, rfl, ?_⟩
    · rw [List.nil_append] at hfirst
      rw [hleft, hfirst]
      exact Bool.false_ne_true
    · rw [hright, lastOr_nil, hlast]
      exact Bool.false_ne_true.symm

/-! ### The spans of a string -/

variable (isWord) in
/-- The matches of an expression, and what replaces them. -/
def patchesOf (name : String) (r : Regex) (s : List Char) : List (Patch Char) :=
  (r.finditer isWord s).map fun p => ⟨p.1, p.2, (redaction name).toList⟩

variable (isWord) in
/-- The matches of the two patterns in a string, in order, and what replaces them. -/
def stringPatches (s : List Char) : List (Patch Char) :=
  (patchesOf isWord "email" piiEmail s ++ patchesOf isWord "name" piiName s).insertionSort
    fun p q => toLex (p.start, p.stop) ≤ toLex (q.start, q.stop)

variable {s : List Char} {p q : ℕ × ℕ} {P Q : Patch Char}

theorem mem_stringPatches (h : P ∈ stringPatches isWord s) :
    (∃ p ∈ piiEmail.finditer isWord s, P = ⟨p.1, p.2, (redaction "email").toList⟩) ∨
      ∃ p ∈ piiName.finditer isWord s, P = ⟨p.1, p.2, (redaction "name").toList⟩ := by
  rw [stringPatches, List.mem_insertionSort, List.mem_append, patchesOf, patchesOf, List.mem_map,
    List.mem_map] at h
  simpa only [eq_comm] using h

theorem email_mem_stringPatches (h : p ∈ piiEmail.finditer isWord s) :
    ⟨p.1, p.2, (redaction "email").toList⟩ ∈ stringPatches isWord s := by
  rw [stringPatches, List.mem_insertionSort]
  exact List.mem_append_left _ (List.mem_map_of_mem h)

theorem name_mem_stringPatches (h : p ∈ piiName.finditer isWord s) :
    ⟨p.1, p.2, (redaction "name").toList⟩ ∈ stringPatches isWord s := by
  rw [stringPatches, List.mem_insertionSort]
  exact List.mem_append_right _ (List.mem_map_of_mem h)

theorem redaction_ne_nil (name : String) : (redaction name).toList ≠ [] := by
  have hne : "[REDACTED:Art.17:".toList ≠ [] := by decide
  rw [toList_redaction]
  exact List.append_ne_nil_of_left_ne_nil hne _

theorem fits_of_mem (h : P ∈ stringPatches isWord s) : P.Fits s.length := by
  obtain ⟨p, hp, rfl⟩ | ⟨p, hp, rfl⟩ := mem_stringPatches h
  · exact ⟨(lt_of_mem_finditer hp).1, (lt_of_mem_finditer hp).2, redaction_ne_nil _⟩
  · exact ⟨(lt_of_mem_finditer hp).1, (lt_of_mem_finditer hp).2, redaction_ne_nil _⟩

/-- A name has whitespace in it, an e-mail address has not: neither is inside the other. -/
theorem not_nested (hp : p ∈ piiEmail.finditer isWord s) (hq : q ∈ piiName.finditer isWord s) :
    ¬(p.1 ≤ q.1 ∧ q.2 ≤ p.2) ∧ ¬(q.1 ≤ p.1 ∧ p.2 ≤ q.2) := by
  obtain ⟨b, w, rest, hw, hmem⟩ := exists_matches_of_mem_finditer hp
  obtain ⟨b', w', rest', hw', hmem'⟩ := exists_matches_of_mem_finditer hq
  constructor
  · rintro ⟨hle, hge⟩
    obtain ⟨_, v, rfl, ⟨rfl, -⟩, u, _, rfl, hshape, -⟩ := hw'
    obtain ⟨c, hc, hspace⟩ := (exists_of_nameShape hshape).2.2
    obtain ⟨i, hi, hlt, hs⟩ := (hmem' c).1 (by simpa using .inl hc)
    have haccepts := accepts_of_matches hw c ((hmem c).2 ⟨i, hle.trans hi, hlt.trans_le hge, hs⟩)
    rw [not_accepts_of_isSpace hspace] at haccepts
    cases haccepts
  · rintro ⟨hle, hge⟩
    obtain ⟨i, hi, hlt, hs⟩ := (hmem '@').1 (at_mem_of_matches hw)
    have hmemAt := hmem' '@'
    have haccepts := accepts_of_matches hw' '@'
      (hmemAt.2 ⟨i, hle.trans hi, hlt.trans_le hge, hs⟩)
    exact absurd haccepts (by decide)

/-- Two matches that start one after the other end so. -/
theorem stop_le_of_start_lt (hP : P ∈ stringPatches isWord s) (hQ : Q ∈ stringPatches isWord s)
    (hlt : P.start < Q.start) : P.stop ≤ Q.stop := by
  have hQlt := (fits_of_mem hQ).start_lt
  obtain ⟨p, hp, rfl⟩ | ⟨p, hp, rfl⟩ := mem_stringPatches hP <;>
    obtain ⟨q, hq, rfl⟩ | ⟨q, hq, rfl⟩ := mem_stringPatches hQ
  · obtain rfl | h | h := eq_or_le_of_mem_finditer hp hq
    · exact le_refl _
    · exact h.trans hQlt.le
    · exact absurd (hlt.trans hQlt) (not_lt.2 h)
  · exact (not_le.1 fun h => (not_nested hp hq).1 ⟨hlt.le, h⟩).le
  · exact (not_le.1 fun h => (not_nested hq hp).2 ⟨hlt.le, h⟩).le
  · obtain rfl | h | h := eq_or_le_of_mem_finditer hp hq
    · exact le_refl _
    · exact h.trans hQlt.le
    · exact absurd (hlt.trans hQlt) (not_lt.2 h)

theorem pairwise_stringPatches : (stringPatches isWord s).Pairwise fun P Q =>
    toLex (P.start, P.stop) ≤ toLex (Q.start, Q.stop) :=
  List.pairwise_insertionSort _ _

theorem pairwise_start : (stringPatches isWord s).Pairwise fun P Q => P.start ≤ Q.start := by
  refine pairwise_stringPatches.imp fun {P Q} h => ?_
  rcases Prod.Lex.le_iff.1 h with h | ⟨h, -⟩
  · exact Nat.le_of_lt h
  · exact Nat.le_of_eq h

theorem pairwise_stop : (stringPatches isWord s).Pairwise fun P Q => P.stop ≤ Q.stop := by
  refine pairwise_stringPatches.imp_of_mem fun {P Q} hP hQ h => ?_
  rcases Prod.Lex.le_iff.1 h with h | ⟨-, h⟩
  · exact stop_le_of_start_lt hP hQ h
  · exact h

/-- A span is replaced by one text. -/
theorem eq_of_span_eq (hP : P ∈ stringPatches isWord s) (hQ : Q ∈ stringPatches isWord s)
    (hstart : P.start = Q.start) (hstop : P.stop = Q.stop) : P = Q := by
  obtain ⟨p, hp, rfl⟩ | ⟨p, hp, rfl⟩ := mem_stringPatches hP <;>
    obtain ⟨q, hq, rfl⟩ | ⟨q, hq, rfl⟩ := mem_stringPatches hQ
  · obtain rfl : p = q := Prod.ext hstart hstop
    rfl
  · exact absurd ⟨hstart.le, hstop.ge⟩ (not_nested hp hq).1
  · exact absurd ⟨hstart.le, hstop.ge⟩ (not_nested hq hp).2
  · obtain rfl : p = q := Prod.ext hstart hstop
    rfl

/-- The spans of the findings in a string, in order, whatever their path is. -/
theorem map_patch_eq {group : List PiiFinding} {path : List PathElem} {t : String}
    (h : group.Perm (scanPii (piiPatterns isWord) path t)) :
    (reverseSpans group).reverse.map PiiFinding.patch = stringPatches isWord t.toList := by
  have hscan : (scanPii (piiPatterns isWord) path t).map PiiFinding.patch =
      patchesOf isWord "email" piiEmail t.toList ++ patchesOf isWord "name" piiName t.toList := by
    simp only [scanPii, piiPatterns, matchesOf, List.flatMap_cons, List.flatMap_nil, List.append_nil,
      List.map_append, List.map_map]
    rfl
  have hperm : ((reverseSpans group).reverse.map PiiFinding.patch).Perm
      (stringPatches isWord t.toList) := by
    refine List.Perm.trans ?_ (List.perm_insertionSort _ _).symm
    rw [← hscan]
    exact (((List.reverse_perm _).trans (List.perm_insertionSort _ _)).trans h).map _
  have hsorted : ((reverseSpans group).reverse.map PiiFinding.patch).Pairwise fun P Q =>
      toLex (P.start, P.stop) ≤ toLex (Q.start, Q.stop) := by
    rw [List.pairwise_map, List.pairwise_reverse]
    exact List.pairwise_insertionSort _ _
  refine List.Perm.eq_of_pairwise (fun P Q hP hQ hle hge => ?_) hsorted pairwise_stringPatches hperm
  have heq := Prod.ext_iff.1 (toLex.injective (le_antisymm hle hge))
  exact eq_of_span_eq (hperm.mem_iff.1 hP) hQ heq.1 heq.2

/-! ### What is left of a string -/

variable (isWord) in
/-- The string with its spans replaced. -/
def redacted (s : List Char) : List Char := Patch.applyAll (stringPatches isWord s) s

variable (isWord) in
/-- A part of the string that is left has a text of the shape of a name in it. The characters next to
    the text are not part of words, or they are not left. -/
def Exposed (s : List Char) : Prop :=
  ∃ lo hi, Patch.Piece (stringPatches isWord s) 0 s.length lo hi ∧
    ∃ u w v, s = u ++ (w ++ v) ∧ nameShape.Matches isWord none w [] ∧
      lo ≤ u.length ∧ u.length + w.length ≤ hi ∧
      (wordAt isWord u.getLast? → u.length = lo) ∧
      (wordAt isWord v.head? → u.length + w.length = hi)

theorem redacted_eq : redacted isWord s = Patch.assemble (stringPatches isWord s) 0 s :=
  Patch.applyAll_eq_assemble (fun _ => fits_of_mem) pairwise_start

/-- What replaces the spans is not mistaken for a match. -/
theorem guards_of_mem (hw : WordClass isWord) (hP : P ∈ stringPatches isWord s)
    (hleft : '[' ∉ w) (hright : ']' ∉ w) (hmem : ∃ c ∈ w, c = '@' ∨ isSpace c) :
    Patch.Guards (wordAt isWord) w P.text := by
  have htext : P.text = (redaction "email").toList ∨ P.text = (redaction "name").toList := by
    obtain ⟨p, -, rfl⟩ | ⟨p, -, rfl⟩ := mem_stringPatches hP
    · exact .inl rfl
    · exact .inr rfl
  have hends : P.text.head? = some '[' ∧ P.text.getLast? = some ']' ∧
      (P.text.all fun c => c ≠ '@' ∧ isSpace c = false) = true := by
    rcases htext with htext | htext <;> rw [htext]
    · exact ⟨by decide +kernel, by decide +kernel, by decide +kernel⟩
    · exact ⟨by decide +kernel, by decide +kernel, by decide +kernel⟩
  obtain ⟨hhead, hlast, hnone⟩ := hends
  have hnone : ∀ c ∈ P.text, c ≠ '@' ∧ isSpace c = false := fun c hc =>
    of_decide_eq_true (List.all_eq_true.1 hnone c hc)
  refine ⟨?_, ?_, ?_, ?_, ?_⟩
  · rw [hhead]
    exact hw.left_bracket
  · rw [hlast]
    exact hw.right_bracket
  · rw [hhead]
    rintro _ ⟨⟩
    exact hleft
  · rw [hlast]
    rintro _ ⟨⟩
    exact hright
  · obtain ⟨c, hc, hat | hspace⟩ := hmem
    · exact ⟨c, hc, fun h => (hnone c h).1 hat⟩
    · refine ⟨c, hc, fun h => ?_⟩
      rw [(hnone c h).2] at hspace
      cases hspace

/-- No e-mail address is left, and none comes about. -/
theorem not_email_of_redacted (hw : WordClass isWord) {x y : List Char}
    (h : redacted isWord s = x ++ (w ++ y)) : ¬piiEmail.Matches isWord b w y := by
  intro hm
  have hne := ne_nil_of_matches consumes_piiEmail hm
  have haccepts := accepts_of_matches hm
  rw [redacted_eq] at h
  obtain ⟨lo, hi, hpiece, ⟨u, v, rfl, hlo, hhi, -⟩⟩ := Patch.exists_piece (g := wordAt isWord)
    (b := none) rfl rfl (fun _ => fits_of_mem) (fun P hP => guards_of_mem hw hP
      (fun hc => absurd (haccepts _ hc) (by decide)) (fun hc => absurd (haccepts _ hc) (by decide))
      ⟨'@', at_mem_of_matches hm, .inl rfl⟩) hne h
  have hpos := List.length_pos_iff.2 hne
  -- The address is a match of the string, where no span is.
  have hbare : piiEmail.Matches isWord u.getLast? w v := matches_of_bare bare_piiEmail hm
  obtain ⟨p, hp, hle, hlt⟩ := exists_mem_finditer consumes_piiEmail rfl hbare
  exact Patch.not_covers_of_piece pairwise_start pairwise_stop hpiece hlo (by omega)
    ⟨_, email_mem_stringPatches hp, hle, hlt⟩

theorem not_mem_of_nameShape (h : nameShape.Matches isWord b w rest) (hc : nameShape.accepts c = false) :
    c ∉ w := fun hmem => by
  have := accepts_of_matches h c hmem
  rw [hc] at this
  cases this

theorem guards_of_nameShape (hw : WordClass isWord) (h : nameShape.Matches isWord b w rest)
    (hP : P ∈ stringPatches isWord s) : Patch.Guards (wordAt isWord) w P.text := by
  obtain ⟨c, hc, hspace⟩ := (exists_of_nameShape h).2.2
  exact guards_of_mem hw hP (not_mem_of_nameShape h (by decide)) (not_mem_of_nameShape h (by decide))
    ⟨c, hc, .inr hspace⟩

/-- A name is in the redacted string if and only if it was exposed. -/
theorem exists_name_iff (hw : WordClass isWord) : (∃ x w y, redacted isWord s = x ++ (w ++ y) ∧
    piiName.Matches isWord x.getLast? w y) ↔ Exposed isWord s := by
  rw [redacted_eq]
  constructor
  · rintro ⟨x, w, y, h, hm⟩
    obtain ⟨hshape, hbefore, hafter⟩ := (matches_piiName_iff hw).1 hm
    obtain ⟨lo, hi, hpiece, ⟨u, v, rfl, hlo, hhi, hleft, hright⟩⟩ := Patch.exists_piece
      (g := wordAt isWord) (b := none) rfl rfl (fun _ => fits_of_mem)
      (fun P hP => guards_of_nameShape hw hshape hP) (ne_nil_of_nameShape hshape) h
    rw [Option.or_none, hbefore] at hleft
    rw [hafter] at hright
    refine ⟨lo, hi, hpiece, u, w, v, rfl, hshape, hlo, hhi, fun hword => ?_, fun hword => ?_⟩
    · rw [hword, Bool.and_true] at hleft
      exact not_not.1 (of_decide_eq_false hleft.symm)
    · rw [hword, Bool.and_true] at hright
      exact not_not.1 (of_decide_eq_false hright.symm)
  · rintro ⟨lo, hi, hpiece, u, w, v, hs, hshape, hlo, hhi, hbefore, hafter⟩
    obtain ⟨x, y, h, hleft, hright⟩ := Patch.exists_occurrence (g := wordAt isWord) (b := none) rfl rfl
      (fun _ => fits_of_mem) (fun P hP => guards_of_nameShape hw hshape hP)
      (ne_nil_of_nameShape hshape) hpiece hs hlo hhi
    refine ⟨x, w, y, h, (matches_piiName_iff hw).2 ⟨hshape, ?_, ?_⟩⟩
    · rw [Option.or_none] at hleft
      rw [hleft, Bool.and_eq_false_iff]
      by_cases hword : wordAt isWord u.getLast? = true
      · exact .inl (decide_eq_false (not_not.2 (hbefore hword)))
      · exact .inr (Bool.eq_false_iff.2 hword)
    · rw [hright, Bool.and_eq_false_iff]
      by_cases hword : wordAt isWord v.head? = true
      · exact .inl (decide_eq_false (not_not.2 (hafter hword)))
      · exact .inr (Bool.eq_false_iff.2 hword)

/-- Nothing is found in the redacted string if and only if the string is not exposed. -/
theorem scanPii_redacted_iff (hw : WordClass isWord) {path : List PathElem} :
    scanPii (piiPatterns isWord) path (String.ofList (redacted isWord s)) = [] ↔
      ¬Exposed isWord s := by
  have hemail : piiEmail.finditer isWord (redacted isWord s) = [] :=
    (finditer_eq_nil_iff consumes_piiEmail).2 fun _ _ _ h => not_email_of_redacted hw h
  have hname : piiName.finditer isWord (redacted isWord s) = [] ↔ ¬Exposed isWord s := by
    rw [finditer_eq_nil_iff consumes_piiName, ← exists_name_iff hw]
    simp only [not_exists, not_and]
  rw [← hname, scanPii_eq_nil_iff, PatternTable.Matches]
  simp [piiPatterns, matchesOf, hemail]

/-! ### JSON metadata -/

mutual

/-- A value as it is read from JSON: the keys are texts, and there are no tuples. -/
def PyValue.IsJson : PyValue → Prop
  | .dict fields => (∀ f ∈ fields, ∃ k, f.1 = .str k) ∧ (fields.map Prod.fst).Nodup ∧
    FieldsJson fields
  | .list vs => ItemsJson vs
  | .tuple _ => False
  | _ => True

def FieldsJson : List (PyKey × PyValue) → Prop
  | [] => True
  | (_, v) :: fields => v.IsJson ∧ FieldsJson fields

def ItemsJson : List PyValue → Prop
  | [] => True
  | v :: vs => v.IsJson ∧ ItemsJson vs

end

variable {v : PyValue} {vs : List PyValue} {fields : List (PyKey × PyValue)} {k : PyKey} {i : ℕ}
  {π π' path : List PathElem} {t t' : String} {m : PyDict}

theorem sortKey_str_inj {k k' : String} (h : (PyKey.str k).sortKey = (PyKey.str k').sortKey) :
    k = k' :=
  (Prod.ext_iff.1 (Prod.ext_iff.1 h).2).2

theorem json_of_lookup (h : FieldsJson fields) (hk : fields.lookup k = some v) : v.IsJson := by
  induction fields with
  | nil => cases hk
  | cons p fields ih =>
    obtain ⟨k', v'⟩ := p
    rw [List.lookup_cons] at hk
    split at hk
    · exact Option.some.inj hk ▸ h.1
    · exact ih h.2 hk

theorem json_of_getElem? (h : ItemsJson vs) (hi : vs[i]? = some v) : v.IsJson := by
  induction vs generalizing i with
  | nil => cases hi
  | cons v' vs ih =>
    rcases i with _ | i
    · exact Option.some.inj hi ▸ h.1
    · exact ih h.2 hi

mutual

theorem valid_of_json : ∀ v : PyValue, v.IsJson → v.Valid
  | .dict fields, h => by
    obtain ⟨hstr, hn, hfields⟩ := h
    refine ⟨?_, fun f hf => ?_, fieldsValid_of_json fields hfields⟩
    · refine (List.nodup_map_iff_inj_on (hn.of_map _)).2 fun f hf g hg hfg => ?_
      obtain ⟨k, hk⟩ := hstr f hf
      obtain ⟨k', hk'⟩ := hstr g hg
      rw [hk, hk'] at hfg
      exact List.inj_on_of_nodup_map hn hf hg (by rw [hk, hk', sortKey_str_inj hfg])
    · obtain ⟨k, hk⟩ := hstr f hf
      rw [hk]
      show (5 : ℤ) ≠ 4
      decide
  | .list vs, h => itemsValid_of_json vs h
  | .tuple vs, h => h.elim
  | .none, _ | .bool _, _ | .int _, _ | .float _, _ | .str _, _ => by simp only [PyValue.Valid]

theorem fieldsValid_of_json : ∀ fields : List (PyKey × PyValue), FieldsJson fields →
    FieldsValid fields
  | [], _ => trivial
  | (_, v) :: fields, h => ⟨valid_of_json v h.1, fieldsValid_of_json fields h.2⟩

theorem itemsValid_of_json : ∀ vs : List PyValue, ItemsJson vs → ItemsValid vs
  | [], _ => trivial
  | v :: vs, h => ⟨valid_of_json v h.1, itemsValid_of_json vs h.2⟩

end

/-- No value of JSON is in a tuple. -/
theorem inTuple_of_json (hv : v.IsJson) : v.inTuple π = false := by
  induction π generalizing v with
  | nil => cases v <;> rfl
  | cons e π ih =>
    have hany : ∀ o : Option PyValue, (∀ v ∈ o, v.IsJson) → o.any (·.inTuple π) = false := by
      rintro (_ | v') h
      · rfl
      · exact ih (h v' rfl)
    rcases v with _ | _ | _ | _ | _ | vs | vs | fields <;> rcases e with k | i <;>
      try rfl
    · exact hany _ fun v hi => json_of_getElem? hv hi
    · exact hv.elim
    · exact hany _ fun v hk => json_of_lookup hv.2.2 hk

/-- Paths of strings of a value of JSON can be compared. -/
theorem comparable_of_json (hv : v.IsJson) (hs : v.textAt π = some t) (ht : v.textAt π' = some t') :
    comparable π π' = true := by
  induction π generalizing v π' with
  | nil => rw [comparable]; nofun
  | cons e π ih =>
    rcases π' with _ | ⟨e', π'⟩
    · rw [comparable]
      nofun
    rw [comparable]
    rcases v with _ | _ | _ | _ | _ | vs | vs | fields <;> rcases e with k | i <;>
      rcases e' with k' | i' <;> simp only [PyValue.textAt, reduceCtorEq] at hs ht
    · obtain ⟨w, hw, hws⟩ := Option.bind_eq_some_iff.1 hs
      obtain ⟨w', hw', hws'⟩ := Option.bind_eq_some_iff.1 ht
      split_ifs with heq
      · have hii : i = i' := by
          have hone : (Binary64.one : ℤ) ≠ 0 := Nat.cast_ne_zero.2 Binary64.one_pos.ne'
          have := (Prod.ext_iff.1 (Prod.ext_iff.1 heq).2).1
          exact Nat.cast_injective (mul_right_cancel₀ hone this)
        rw [hii, hw', Option.some.injEq] at hw
        rw [← hw] at hws
        exact ih (json_of_getElem? hv hw') hws hws'
      · rfl
    · exact hv.elim
    · obtain ⟨w, hw, hws⟩ := Option.bind_eq_some_iff.1 hs
      obtain ⟨w', hw', hws'⟩ := Option.bind_eq_some_iff.1 ht
      obtain ⟨s, rfl⟩ := hv.1 _ (mem_of_lookup hw)
      obtain ⟨s', rfl⟩ := hv.1 _ (mem_of_lookup hw')
      split_ifs with heq
      · obtain rfl := sortKey_str_inj heq
        obtain rfl := Option.some.inj (hw.symm.trans hw')
        exact ih (json_of_lookup hv.2.2 hw) hws hws'
      · rfl

mutual

/-- The value with other strings has the same keys. -/
theorem valid_mapTexts {f : List PathElem → String → String} :
    ∀ {path : List PathElem} (v : PyValue), v.Valid → (v.mapTexts f path).Valid
  | path, .dict fields, h => by
    obtain ⟨hn, hnan, hv⟩ := h
    rw [PyValue.mapTexts]
    refine ⟨?_, ?_, fieldsValid_mapTexts fields hv⟩
    · rwa [fieldsMapTexts_eq, List.map_map]
    · rw [fieldsMapTexts_eq]
      exact List.forall_mem_map.2 hnan
  | path, .list vs, h | path, .tuple vs, h => by
    rw [PyValue.mapTexts]
    exact itemsValid_mapTexts vs h
  | path, .none, _ | path, .bool _, _ | path, .int _, _ | path, .float _, _ | path, .str _, _ => by
    simp only [PyValue.mapTexts, PyValue.Valid]

theorem fieldsValid_mapTexts {f : List PathElem → String → String} :
    ∀ {path : List PathElem} (fields : List (PyKey × PyValue)), FieldsValid fields →
      FieldsValid (fieldsMapTexts f path fields)
  | path, [], _ => trivial
  | path, (k, v) :: fields, h => by
    rw [fieldsMapTexts]
    exact ⟨valid_mapTexts v h.1, fieldsValid_mapTexts fields h.2⟩

theorem itemsValid_mapTexts {f : List PathElem → String → String} :
    ∀ {path : List PathElem} {i : ℕ} (vs : List PyValue), ItemsValid vs →
      ItemsValid (itemsMapTexts f path i vs)
  | path, i, [], _ => trivial
  | path, i, v :: vs, h => by
    rw [itemsMapTexts]
    exact ⟨valid_mapTexts v h.1, itemsValid_mapTexts vs h.2⟩

end

/-! ### The second sweep -/

theorem searched_fieldsMapTexts {f : List PathElem → String → String} :
    searched (fieldsMapTexts f [] m) = fieldsMapTexts f [] (searched m) := by
  rw [searched, searched, fieldsMapTexts_eq, fieldsMapTexts_eq, List.filter_map]
  rfl

/-- Nothing is found if and only if nothing is found in the string of any path. -/
theorem findPiiInMetadata_eq_nil_iff_textAt {table : PatternTable} (hm : (PyValue.dict m).Valid) :
    findPiiInMetadata table (some m) = [] ↔
      ∀ π t, (PyValue.dict (searched m)).textAt π = some t → scanPii table π t = [] := by
  constructor
  · intro h π t ht
    have hfilter : (findPiiInMetadata table (some m)).filter (·.path = π) = _ :=
      filter_findPiiInMetadata hm π
    rw [h, ht] at hfilter
    exact hfilter.symm
  · intro h
    refine List.eq_nil_iff_forall_not_mem.2 fun f hf => ?_
    have hmem := List.mem_filter_of_mem (p := fun g => decide (g.path = f.path)) hf (decide_eq_true rfl)
    rw [filter_findPiiInMetadata hm] at hmem
    rcases ht : (PyValue.dict (searched m)).textAt f.path with _ | t
    · rw [ht] at hmem
      cases hmem
    · rw [ht, scanAt, Option.elim_some, h _ t ht] at hmem
      cases hmem

/-- Each string that is searched has its spans replaced. -/
theorem scrubText_findPii (hm : (PyValue.dict m).Valid)
    (ht : (PyValue.dict (searched m)).textAt π = some t) :
    scrubText (findPiiInMetadata (piiPatterns isWord) (some m)) π t =
      String.ofList (redacted isWord t.toList) := by
  have hperm := (List.perm_insertionSort (fun f g : PiiFinding => f.sortKey ≤ g.sortKey)
    (findPiiInMetadata (piiPatterns isWord) (some m))).filter (·.path = π)
  rw [filter_findPiiInMetadata hm, ht] at hperm
  rw [scrubText, redactGroup_eq, map_patch_eq hperm, redacted]

variable (isWord m) in
/-- After all findings are replaced, nothing is found, and a second scrub changes nothing. -/
def SweepsOnce : Prop :=
  ∃ out, scrubInPython m (findPiiInMetadata (piiPatterns isWord) (some m)) = some out ∧
    findPiiInMetadata (piiPatterns isWord) (some out) = [] ∧
    scrubInPython out (findPiiInMetadata (piiPatterns isWord) (some out)) = some out

/-- One sweep is enough if and only if no string that is searched is exposed. -/
theorem sweepsOnce_iff (hw : WordClass isWord) (hm : (PyValue.dict m).IsJson) :
    SweepsOnce isWord m ↔
      ∀ π t, (PyValue.dict (searched m)).textAt π = some t → ¬Exposed isWord t.toList := by
  have hvalid := valid_of_json _ hm
  set findings := findPiiInMetadata (piiPatterns isWord) (some m) with hfindings
  have htext : ∀ f ∈ findings, (PyValue.dict m).textAt f.path = some f.fullValue := by
    intro f hf
    obtain ⟨s, hs, hscan⟩ := textAt_of_mem_findPii hvalid hf
    rw [(mem_scanPii_iff.1 hscan).2.1, hs]
  have hscrub : scrubInPython m findings = some (fieldsMapTexts (scrubText findings) [] m) := by
    rw [scrubInPython_eq hvalid htext, if_pos]
    exact ⟨fun f hf g hg => comparable_of_json hm (htext f hf) (htext g hg),
      fun f _ => inTuple_of_json hm⟩
  have hout : (PyValue.dict (fieldsMapTexts (scrubText findings) [] m)).Valid := by
    have hmap : ((PyValue.dict m).mapTexts (scrubText findings) []).Valid := valid_mapTexts _ hvalid
    rwa [PyValue.mapTexts] at hmap
  -- The strings of the result are those with their spans replaced.
  have hstrings : findPiiInMetadata (piiPatterns isWord)
      (some (fieldsMapTexts (scrubText findings) [] m)) = [] ↔
        ∀ π t, (PyValue.dict (searched m)).textAt π = some t → ¬Exposed isWord t.toList := by
    rw [findPiiInMetadata_eq_nil_iff_textAt hout, searched_fieldsMapTexts]
    have hat : ∀ π, (PyValue.dict (fieldsMapTexts (scrubText findings) [] (searched m))).textAt π =
        ((PyValue.dict (searched m)).textAt π).map (scrubText findings π) := by
      intro π
      have := textAt_mapTexts (f := scrubText findings) (.dict (searched m)) [] π
      rwa [PyValue.mapTexts] at this
    refine forall_congr' fun π => ?_
    rw [hat]
    rcases ht : (PyValue.dict (searched m)).textAt π with _ | t
    · exact iff_of_true nofun nofun
    · simp only [Option.map_some, Option.some.injEq, forall_eq']
      rw [hfindings, scrubText_findPii hvalid ht, scanPii_redacted_iff hw]
  rw [← hstrings, SweepsOnce, hscrub]
  constructor
  · rintro ⟨out, hsome, hnil, -⟩
    rwa [Option.some.inj hsome]
  · intro hnil
    exact ⟨_, rfl, hnil, by rw [hnil, scrubInPython, if_pos rfl]⟩

/-- ASCII, and the letters of names. -/
def basicWord (c : Char) : Bool := c.isAlphanum || c == '_' || isUpper c || isLower c

theorem wordClass_basicWord : WordClass basicWord where
  upper c h := by simp [basicWord, h]
  lower c h := by simp [basicWord, h]
  left_bracket := by decide
  right_bracket := by decide

theorem json_singleton (key text : String) : (PyValue.dict [(.str key, .str text)]).IsJson :=
  ⟨List.forall_mem_singleton.2 ⟨key, rfl⟩, List.nodup_singleton _, trivial, trivial⟩

/-- A string without capital letters is not exposed. -/
theorem not_exposed_of_forall (h : ∀ c ∈ s, isUpper c = false) : ¬Exposed isWord s := by
  rintro ⟨lo, hi, -, u, w, v, rfl, hshape, -⟩
  obtain ⟨c, hc, hupper⟩ := (exists_of_nameShape hshape).1
  have := h c (List.mem_append_right _ (List.mem_append_left _ (List.mem_of_head? hc)))
  rw [hupper] at this
  cases this

/-- An e-mail address. -/
def contactMetadata : PyDict := [(.str "contact", .str "jd@x.com")]

theorem sweepsOnce_contactMetadata : SweepsOnce basicWord contactMetadata := by
  refine (sweepsOnce_iff wordClass_basicWord (json_singleton _ _)).2 fun π t ht => ?_
  have htext : t = "jd@x.com" := by
    rcases π with _ | ⟨k | i, π⟩
    · cases ht
    · rw [PyValue.textAt] at ht
      obtain ⟨v, hv, ht⟩ := Option.bind_eq_some_iff.1 ht
      have hmem := (List.filter_sublist (l := contactMetadata)).subset (mem_of_lookup hv)
      obtain rfl : v = .str "jd@x.com" := congrArg Prod.snd (List.mem_singleton.1 hmem)
      rcases π with _ | ⟨e, π⟩
      · exact (Option.some.inj ht).symm
      · cases ht
    · cases ht
  rw [htext]
  have hall : ("jd@x.com".toList.all fun c => isUpper c = false) = true := by decide +kernel
  exact not_exposed_of_forall fun c hc => of_decide_eq_true (List.all_eq_true.1 hall c hc)

/-- An e-mail address that goes on into a name. -/
def adjacentMetadata : PyDict := [(.str "note", .str "a@b.cÇelik Demir")]

theorem not_sweepsOnce_adjacent :
    ¬∀ m : PyDict, (PyValue.dict m).IsJson → SweepsOnce basicWord m := by
  intro h
  obtain ⟨out, hout, hnil, -⟩ := h adjacentMetadata (json_singleton _ _)
  have hfound := congrArg (·.map fun out => findPiiInMetadata (piiPatterns basicWord) (some out)) hout
  rw [Option.map_some, hnil] at hfound
  revert hfound
  decide +kernel

end AslanCore.Timeseries
