import Mathlib.Algebra.Order.Ring.Nat
import Mathlib.Tactic.Ring
import AslanCore.Observability.Redactor

/-!
# Redacting twice

A text in the place of a payload is a payload again, of another length. When is an event that is
redacted once not changed by a second redaction?

* `filingMarker_stable_iff`, `payloadMarker_stable_iff`: which lengths a text in the place of a value
  has itself;
* `redact_redact_iff`: the payloads that the walk comes to must have these.
-/

namespace AslanCore.Observability

/-! ### Lengths -/

/-- The length of a text around a number. -/
theorem length_append_toString {s t : String} {a b : ℕ} (hs : s.length = a) (ht : t.length = b)
    (m : ℕ) : (s ++ toString m ++ t).length = a + b + (Nat.toDigits 10 m).length := by
  have hm : (toString m).length = (Nat.toDigits 10 m).length := by
    rw [← String.length_toList, Nat.toString_eq_repr, Nat.toList_repr]
  rw [String.length_append, String.length_append, hs, ht, hm]
  omega

/-- A number that counts its own digits, and others that are fewer than a hundred with them, has two
    digits. -/
theorem add_length_toDigits_eq_iff {c m : ℕ} (hc : 8 < c) (hc' : c < 90) :
    c + (Nat.toDigits 10 m).length = m ↔ m = c + 2 := by
  have hle : ∀ k, 0 < k → ((Nat.toDigits 10 m).length ≤ k ↔ m < 10 ^ k) := fun k hk =>
    Nat.length_toDigits_le_iff (by decide) hk
  have hpos : 0 < (Nat.toDigits 10 m).length := Nat.length_toDigits_pos
  generalize (Nat.toDigits 10 m).length = n at hle hpos ⊢
  constructor
  · rintro rfl
    rcases n with _ | _ | _ | n
    · exact absurd hpos (lt_irrefl 0)
    · have hlt := (hle 1 Nat.one_pos).1 le_rfl
      omega
    · rfl
    · -- With three digits or more it would be greater.
      have hge : 10 ^ (n + 2) ≤ c + (n + 3) := by
        refine Nat.not_lt.1 fun hlt => ?_
        have := (hle (n + 2) (by omega)).2 hlt
        omega
      have hlt : n < 10 ^ n := Nat.lt_pow_self (by decide)
      rw [pow_add] at hge
      omega
  · rintro rfl
    have h₁ := hle 1 (by decide)
    have h₂ := hle 2 (by decide)
    omega

/-- A text around a number tells the number. -/
theorem append_toString_inj {m n : ℕ} {s t : String} (h : s ++ toString m ++ t = s ++ toString n ++ t) :
    m = n := by
  have hlist := congrArg String.toList h
  simp only [String.toList_append, Nat.toString_eq_repr, Nat.toList_repr] at hlist
  have hdigits := List.append_cancel_left (List.append_cancel_right hlist)
  rw [← @Nat.ofDigitChars_ten_toDigits m, hdigits, Nat.ofDigitChars_ten_toDigits]

theorem filingMarker_stable_iff {n : Option ℕ} :
    filingMarker (some (filingMarker n).length) = filingMarker n ↔ n = some 37 := by
  rcases n with _ | m
  · exact iff_of_false (by decide +kernel) (by simp)
  · have hlength : (filingMarker (some m)).length = 35 + (Nat.toDigits 10 m).length :=
      length_append_toString (a := 27) (b := 8) (by decide +kernel) (by decide +kernel) m
    rw [hlength, Option.some.injEq]
    refine Iff.trans ?_ (add_length_toDigits_eq_iff (c := 35) (by decide) (by decide))
    exact ⟨append_toString_inj, fun h => congrArg (filingMarker ∘ some) h⟩

theorem payloadMarker_stable_iff {n : Option ℕ} :
    payloadMarker (some (payloadMarker n).length) = payloadMarker n ↔ n = some 45 := by
  rcases n with _ | m
  · exact iff_of_false (by decide +kernel) (by simp)
  · have hlength : (payloadMarker (some m)).length = 43 + (Nat.toDigits 10 m).length :=
      length_append_toString (a := 20) (b := 23) (by decide +kernel) (by decide +kernel) m
    rw [hlength, Option.some.injEq]
    refine Iff.trans ?_ (add_length_toDigits_eq_iff (c := 43) (by decide) (by decide))
    exact ⟨append_toString_inj, fun h => congrArg (payloadMarker ∘ some) h⟩

/-! ### Events -/

variable {K L : Type} {str : K → String} {shape : Bool} {k : K} {e v : EventTree K L}
  {items : List (K × EventTree K L)} {xs : List (EventTree K L)}

/-- No name is that of a filing payload and of one that has a sibling. -/
theorem notMem_filingPayloadKeys {name : String} (h : name ∈ ambiguousPayloadKeys) :
    name ∉ filingPayloadKeys := by
  revert name
  decide

variable (str) in
/-- The value of a key has the length that the text in its place has. -/
def StableValue (shape : Bool) (k : K) (v : EventTree K L) : Prop :=
  (str k ∈ filingPayloadKeys → safeLen v = some 37) ∧
    (shape → str k ∈ ambiguousPayloadKeys → safeLen v = some 45)

/-- A value is replaced by a text that is replaced by itself. -/
theorem redactValue_redactValue_iff (hmarked : IsPayload str shape k) (hs : ¬IsSecret str k) :
    redactValue str shape k (redactValue str shape k v) = redactValue str shape k v ↔
      StableValue str shape k v := by
  rcases hmarked with hf | ⟨hshape, ha⟩
  · have hvalue : ∀ v : EventTree K L,
        redactValue str shape k v = .text (filingMarker (safeLen v)) := fun v => by
      rw [redactValue, replacement_of_mem hs hf]
    have hna : str k ∉ ambiguousPayloadKeys := fun ha => notMem_filingPayloadKeys ha hf
    rw [hvalue, hvalue, EventTree.text.injEq]
    exact filingMarker_stable_iff.trans
      ⟨fun h => ⟨fun _ => h, fun _ ha => absurd ha hna⟩, fun h => h.1 hf⟩
  · have hnf := notMem_filingPayloadKeys ha
    have hvalue : ∀ v : EventTree K L,
        redactValue str shape k v = .text (payloadMarker (safeLen v)) := fun v => by
      rw [redactValue, replacement_of_sibling hs hnf ⟨hshape, ha⟩]
    rw [hvalue, hvalue, EventTree.text.injEq]
    exact payloadMarker_stable_iff.trans
      ⟨fun h => ⟨fun hf => absurd hf hnf, fun _ _ => h⟩, fun h => h.2 hshape ha⟩

theorem stableValue_of_not (hp : ¬IsPayload str shape k) : StableValue str shape k v :=
  ⟨fun hf => absurd (.inl hf) hp, fun hshape ha => absurd (.inr ⟨hshape, ha⟩) hp⟩

variable (str) in
/-- Every payload that the walk comes to has the length that the text in its place has. -/
def StablePayloads (e : EventTree K L) : Prop :=
  ∀ items, Reached str (.dict items) e → ∀ f ∈ items, ¬IsSecret str f.1 →
    StableValue str (isPayloadDict str (items.map Prod.fst)) f.1 f.2

theorem stablePayloads_dict : StablePayloads str (.dict items) ↔
    ∀ f ∈ items, ¬IsSecret str f.1 →
      StableValue str (isPayloadDict str (items.map Prod.fst)) f.1 f.2 ∧
        (¬IsPayload str (isPayloadDict str (items.map Prod.fst)) f.1 → StablePayloads str f.2) := by
  constructor
  · exact fun h f hf hs =>
      ⟨h items .here f hf hs, fun hp items' hr => h items' (.dict hf hs hp hr)⟩
  · rintro h items' (_ | ⟨hf, hs, hp, hr⟩)
    · exact fun f hf hs => (h f hf hs).1
    · exact (h _ hf hs).2 hp items' hr

theorem stablePayloads_list :
    StablePayloads str (.list xs) ↔ ∀ x ∈ xs, StablePayloads str x := by
  constructor
  · exact fun h x hx items' hr => h items' (.list hx hr)
  · rintro h items' (_ | _ | ⟨hx, hr⟩)
    exact h _ hx items' hr

/-- A byte string, or what is in its place, is not changed. -/
theorem redact_capSize {bs : List UInt8} {obj : EventTree K L}
    (h : obj = .bytes bs ∨ obj = .bytearray bs) : redact str (capSize obj bs) = capSize obj bs := by
  rw [capSize]
  split_ifs with hlong
  · rfl
  · rcases h with rfl | rfl <;> exact if_neg hlong

/-- A second redaction changes nothing if and only if every payload that the walk comes to has the
    length of the text in its place. -/
theorem redact_redact_iff (e : EventTree K L) :
    redact str (redact str e) = redact str e ↔ StablePayloads str e := by
  induction e using EventTree.induct with
  | hdict items ih =>
    have hfst : (items.map fun f => (f.1, redactValue str
        (isPayloadDict str (items.map Prod.fst)) f.1 f.2)).map Prod.fst = items.map Prod.fst := by
      rw [List.map_map]
      rfl
    rw [redact_dict, redact_dict, hfst, EventTree.dict.injEq, List.map_map, List.map_inj_left,
      stablePayloads_dict]
    refine forall₂_congr fun f hf => ?_
    rw [Function.comp_apply, Prod.mk.injEq, eq_self, true_and]
    by_cases hs : IsSecret str f.1
    · obtain ⟨s, hvalue⟩ := redactValue_of_isMarked (v := f.2) (.inl hs)
      refine iff_of_true ?_ (absurd hs)
      rw [hvalue _ (.inl hs), hvalue _ (.inl hs)]
    · rw [imp_iff_right hs]
      by_cases hp : IsPayload str (isPayloadDict str (items.map Prod.fst)) f.1
      · rw [redactValue_redactValue_iff hp hs]
        exact ⟨fun h => ⟨h, absurd hp⟩, And.left⟩
      · rw [redactValue_of_not hs hp, redactValue_of_not hs hp, ih f hf]
        exact ⟨fun h => ⟨stableValue_of_not hp, fun _ => h⟩, fun h => h.2 hp⟩
  | hlist xs ih =>
    rw [redact_list, redact_list, EventTree.list.injEq, List.map_map, List.map_inj_left,
      stablePayloads_list]
    exact forall₂_congr ih
  | htuple xs => exact iff_of_true rfl fun items hr => nomatch hr
  | hbytes bs => exact iff_of_true (redact_capSize (.inl rfl)) fun items hr => nomatch hr
  | hbytearray bs => exact iff_of_true (redact_capSize (.inr rfl)) fun items hr => nomatch hr
  | htext | hleaf => exact iff_of_true rfl fun items hr => nomatch hr

/-- The text in the place of a short one is longer. -/
theorem not_redact_redact_body :
    redact id (redact id (.dict [("body_text", .text "tiny")] : EventTree String Unit)) ≠
      redact id (.dict [("body_text", .text "tiny")]) := by
  intro h
  rw [redact_dict, redact_dict, EventTree.dict.injEq] at h
  have hitem : redactValue id (isPayloadDict id ["body_text"]) "body_text"
      (redactValue id (isPayloadDict id ["body_text"]) "body_text" (.text "tiny")) =
      (redactValue id (isPayloadDict id ["body_text"]) "body_text" (.text "tiny") :
        EventTree String Unit) :=
    congrArg Prod.snd (List.cons.inj h).1
  have hpayload : "body_text" ∈ filingPayloadKeys := by decide
  have hs : ¬IsSecret id "body_text" := by decide +kernel
  have hstable := (redactValue_redactValue_iff (.inl hpayload) hs).1 hitem
  exact absurd (hstable.1 hpayload) (by decide +kernel)

end AslanCore.Observability
