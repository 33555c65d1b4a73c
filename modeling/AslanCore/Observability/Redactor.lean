import AslanCore.Regex

/-!
# The redaction of error reports

`_redact` of `sentry.py` walks through an event and replaces what must not be sent: the values of
keys that look like secrets, the payloads of filings, and long byte strings.

* `redact`: the walk;
* `replacement`: the text in the place of the value of a key, which depends on its length at most;
* `Reached`: the values that the walk comes to;
* `redact_dict`, `redact_list`: the keys and the items are walked through one by one.
-/

namespace AslanCore.Observability

/-- A value of an event, with keys of `K` and leaves of `L` that are neither text nor bytes. -/
inductive EventTree (K L : Type)
  | dict (items : List (K × EventTree K L))
  | list (xs : List (EventTree K L))
  | tuple (xs : List (EventTree K L))
  | bytes (bs : List UInt8)
  | bytearray (bs : List UInt8)
  | text (s : String)
  | leaf (a : L)

/-! ### Redaction tables -/

/-- A letter of a pattern that ignores cases: it stands for both cases, and for the letters of
    Unicode that have it as one. -/
def ignoreCase (p c : Char) : Bool :=
  c.toLower == p || p == 'i' && ['İ', 'ı'].contains c || p == 's' && c == '\u017f' ||
    p == 'k' && c == '\u212a'

/-- A word of a pattern. -/
def word : Char → List Char → Regex
  | c, [] => .one (ignoreCase c)
  | c, d :: ds => .seq (.one (ignoreCase c)) (word d ds)

/-- The alternatives of `_SECRET_KEY_PATTERN`. -/
def secretKeyPattern : List Regex :=
  [word 'p' "assword".toList, word 't' "oken".toList, word 's' "ecret".toList,
    .seq (word 'a' "pi".toList) (.seq (.maybe (.one ['_', '-'].contains)) (word 'k' "ey".toList)),
    word 'c' "redentials".toList, word 'c' "ookie".toList, word 'a' "uthorization".toList]

/-- `search`, of one of the alternatives. No boundary of words is in them. -/
def search (pattern : List Regex) (s : String) : Bool :=
  s.toList.tails.any fun cs => pattern.any fun r => r.lengths (fun _ => false) none cs ≠ []

/-- `_FILING_PAYLOAD_KEYS`. -/
def filingPayloadKeys : List String :=
  ["primary_bytes", "xbrl_bytes", "body_text", "attachment_bytes", "att_bytes"]

/-- `_MIME_SIBLING_KEYS`. -/
def mimeSiblingKeys : List String := ["mime", "mime_type", "content_type"]

/-- `_AMBIGUOUS_PAYLOAD_KEYS`. -/
def ambiguousPayloadKeys : List String := ["bytes", "data", "content", "body"]

/-- `_SIZE_CAP_BYTES`. -/
def sizeCapBytes : ℕ := 8192

example : search secretKeyPattern "db_Password" ∧ search secretKeyPattern "x-API-KEY" ∧
    ¬search secretKeyPattern "api__key" := by
  decide +kernel

/-! ### The walk -/

section

variable {K L : Type} (str : K → String)

/-- `_is_payload_dict`, of the keys of a dictionary. -/
def isPayloadDict (ks : List K) : Bool :=
  (ks.any fun k => str k ∈ ambiguousPayloadKeys) && ks.any fun k => str k ∈ mimeSiblingKeys

/-- `_safe_len`. -/
def safeLen : EventTree K L → Option ℕ
  | .bytes bs | .bytearray bs => some bs.length
  | .text s => some s.length
  | _ => none

/-- The text in the place of a filing payload, of the length that it has. -/
def filingMarker : Option ℕ → String
  | some n => "[Redacted: filing payload (" ++ toString n ++ " bytes)]"
  | none => "[Redacted: filing payload]"

/-- The text in the place of a payload that has a sibling with its type. -/
def payloadMarker : Option ℕ → String
  | some n => "[Redacted: payload (" ++ toString n ++ " bytes, sibling: mime)]"
  | none => "[Redacted: payload]"

/-- The first three layers: the text in the place of the value of a key, of the length that the value
    has. -/
def replacement (isPayloadShape : Bool) (k : K) (size : Option ℕ) : Option String :=
  if search secretKeyPattern (str k) then some "[Redacted: secret]"
  else if str k ∈ filingPayloadKeys then some (filingMarker size)
  else if isPayloadShape ∧ str k ∈ ambiguousPayloadKeys then some (payloadMarker size)
  else none

/-- The fourth layer. -/
def capSize (obj : EventTree K L) (bs : List UInt8) : EventTree K L :=
  if sizeCapBytes < bs.length then .text ("[Redacted: " ++ toString bs.length ++ " bytes]") else obj

mutual

/-- `_redact`. -/
def redact : EventTree K L → EventTree K L
  | .dict items => .dict (redactItems (isPayloadDict str (items.map Prod.fst)) items)
  | .list xs => .list (redactList xs)
  | .bytes bs => capSize (.bytes bs) bs
  | .bytearray bs => capSize (.bytearray bs) bs
  | obj => obj

/-- The items of a dictionary. -/
def redactItems (isPayloadShape : Bool) :
    List (K × EventTree K L) → List (K × EventTree K L)
  | [] => []
  | (k, v) :: items =>
    (k, match replacement str isPayloadShape k (safeLen v) with
      | some s => .text s
      | none => redact v) :: redactItems isPayloadShape items

/-- The items of a list. -/
def redactList : List (EventTree K L) → List (EventTree K L)
  | [] => []
  | x :: xs => redact x :: redactList xs

end

end

variable {K L : Type} {str : K → String} {shape : Bool} {k : K} {n n' : Option ℕ}
  {items : List (K × EventTree K L)} {xs : List (EventTree K L)} {bs : List UInt8}

/-! ### Keys -/

variable (str) in
/-- The key looks like that of a secret. -/
def IsSecret (k : K) : Prop := search secretKeyPattern (str k)

variable (str) in
/-- The value of the key is taken for a payload, in a dictionary of that shape. -/
def IsPayload (shape : Bool) (k : K) : Prop :=
  str k ∈ filingPayloadKeys ∨ shape ∧ str k ∈ ambiguousPayloadKeys

instance : Decidable (IsSecret str k) := inferInstanceAs (Decidable (_ = true))

instance : Decidable (IsPayload str shape k) := inferInstanceAs (Decidable (_ ∨ _))

theorem replacement_of_isSecret (h : IsSecret str k) :
    replacement str shape k n = some "[Redacted: secret]" := if_pos h

theorem replacement_eq_none_iff :
    replacement str shape k n = none ↔ ¬IsSecret str k ∧ ¬IsPayload str shape k := by
  unfold replacement IsSecret IsPayload
  split_ifs with h₁ h₂ h₃ <;> simp [*]

theorem replacement_of_mem (hs : ¬IsSecret str k) (h : str k ∈ filingPayloadKeys) :
    replacement str shape k n = some (filingMarker n) :=
  (if_neg hs).trans (if_pos h)

theorem replacement_of_sibling (hs : ¬IsSecret str k) (hf : str k ∉ filingPayloadKeys)
    (h : shape ∧ str k ∈ ambiguousPayloadKeys) :
    replacement str shape k n = some (payloadMarker n) :=
  (if_neg hs).trans ((if_neg hf).trans (if_pos h))

/-! ### Containers -/

theorem redactList_eq_map : redactList str xs = xs.map (redact str) := by
  induction xs with
  | nil => rfl
  | cons x xs ih => rw [redactList, ih, List.map_cons]

/-- The value of a key. -/
def redactValue (str : K → String) (shape : Bool) (k : K) (v : EventTree K L) : EventTree K L :=
  match replacement str shape k (safeLen v) with
  | some s => .text s
  | none => redact str v

theorem redactItems_eq_map :
    redactItems str shape items = items.map fun f => (f.1, redactValue str shape f.1 f.2) := by
  induction items with
  | nil => rfl
  | cons f items ih =>
    rw [redactItems, ih]
    rfl

/-- Marked values of one length, or of secrets, are replaced by one text. -/
theorem redactValue_of_isMarked {v : EventTree K L}
    (h : IsSecret str k ∨ IsPayload str shape k) : ∃ s, ∀ v' : EventTree K L,
      IsSecret str k ∨ safeLen v = safeLen v' → redactValue str shape k v' = .text s := by
  rcases hs : replacement str shape k (safeLen v) with _ | s
  · obtain ⟨hns, hnp⟩ := replacement_eq_none_iff.1 hs
    exact (h.elim hns hnp).elim
  · refine ⟨s, fun v' hv' => ?_⟩
    have hs' : replacement str shape k (safeLen v') = some s := by
      rcases hv' with hk | hlen
      · rw [← hs, replacement_of_isSecret hk, replacement_of_isSecret hk]
      · rw [← hs, hlen]
    rw [redactValue, hs']

theorem redactValue_of_not {v : EventTree K L} (hs : ¬IsSecret str k)
    (hp : ¬IsPayload str shape k) : redactValue str shape k v = redact str v := by
  rw [redactValue, replacement_eq_none_iff.2 ⟨hs, hp⟩]

theorem redact_dict : redact str (.dict items) = .dict (items.map fun f =>
    (f.1, redactValue str (isPayloadDict str (items.map Prod.fst)) f.1 f.2)) := by
  rw [redact, redactItems_eq_map]

theorem redact_list : redact str (.list xs) = .list (xs.map (redact str)) := by
  rw [redact, redactList_eq_map]

theorem redact_tuple : redact str (.tuple xs) = .tuple xs := rfl

variable (str) in
/-- The walk comes to a value. -/
inductive Reached (u : EventTree K L) : EventTree K L → Prop
  | here : Reached u u
  | dict {items : List (K × EventTree K L)} {f : K × EventTree K L} (hf : f ∈ items)
    (hs : ¬IsSecret str f.1) (hp : ¬IsPayload str (isPayloadDict str (items.map Prod.fst)) f.1)
    (h : Reached u f.2) : Reached u (.dict items)
  | list {xs : List (EventTree K L)} {x : EventTree K L} (hx : x ∈ xs) (h : Reached u x) :
    Reached u (.list xs)

/-- What holds of a container if it does of what is in it, holds of all values. -/
@[elab_as_elim]
theorem EventTree.induct {P : EventTree K L → Prop}
    (hdict : ∀ items : List (K × EventTree K L), (∀ f ∈ items, P f.2) → P (.dict items))
    (hlist : ∀ xs : List (EventTree K L), (∀ x ∈ xs, P x) → P (.list xs))
    (htuple : ∀ xs : List (EventTree K L), (∀ x ∈ xs, P x) → P (.tuple xs))
    (hbytes : ∀ bs, P (.bytes bs)) (hbytearray : ∀ bs, P (.bytearray bs))
    (htext : ∀ s, P (.text s)) (hleaf : ∀ a, P (.leaf a)) : ∀ e, P e
  | .dict items => hdict items fun f hf =>
    have : sizeOf f.2 < 1 + sizeOf items := by
      have hlt := List.sizeOf_lt_of_mem hf
      rw [Prod.mk.sizeOf_spec] at hlt
      omega
    induct hdict hlist htuple hbytes hbytearray htext hleaf f.2
  | .list xs => hlist xs fun x _ => induct hdict hlist htuple hbytes hbytearray htext hleaf x
  | .tuple xs => htuple xs fun x _ => induct hdict hlist htuple hbytes hbytearray htext hleaf x
  | .bytes bs => hbytes bs
  | .bytearray bs => hbytearray bs
  | .text s => htext s
  | .leaf a => hleaf a

end AslanCore.Observability
