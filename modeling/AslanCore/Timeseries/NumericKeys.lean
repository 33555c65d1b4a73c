import Mathlib.Data.String.Basic
import AslanCore.Timeseries.Identifying

/-!
# Numeric keys

`jsonb_set` is given a path as texts, and each of them is a name or an index by the kind of the
container it is met in. So that no path can be mistaken for another one, the writer refuses a
dictionary with a key of digits (`validateNoNumericStringKeys`); the deletion runtime looks for such
keys in the rows it reads (`hasNumericStringKeys`). The writer does not look into tuples, which
are stored as arrays.

* `Jsonb.read`: what Python reads of a document;
* `pathToJsonbSetTextArray`, `Jsonb.setPosition`: the texts of a path, and the position they mean;
* `PyValue.tupleKeys`: the keys that are stored from the dictionaries inside the tuples;
* `cleanRow_iff`: metadata that the writer accepts are stored without a key of digits, and with
  every finding where its path says, if and only if no key inside a tuple is one of digits.
-/

namespace AslanCore.Timeseries

/-! ### The check of the runtime -/

section

variable (isDecimal : Char → Bool)

/-- `_NUMERIC_KEY_RE`, and `_NUMERIC_STRING_KEY_RE`: `^\d+$`, where `$` is the end of the string, or
    the place before a last line break. What `\d` matches is a parameter. -/
def numericStringKey (s : String) : Bool :=
  let digits := s.toList.takeWhile isDecimal
  let rest := s.toList.dropWhile isDecimal
  digits ≠ [] && (rest = [] || rest = ['\n'])

mutual

/-- `_walk_for_numeric_keys`: the paths to the keys of digits. -/
def walkForNumericKeys (path : List PathElem) : PyValue → List (List PathElem)
  | .dict fields => walkFieldsForNumericKeys path fields
  | .list vs => walkItemsForNumericKeys path 0 vs
  | .tuple vs => walkItemsForNumericKeys path 0 vs
  | _ => []

def walkFieldsForNumericKeys (path : List PathElem) :
    List (PyKey × PyValue) → List (List PathElem)
  | [] => []
  | (.str k, v) :: fields =>
    (if numericStringKey isDecimal k then [path ++ [.key (.str k)]] else []) ++
      walkForNumericKeys (path ++ [.key (.str k)]) v ++ walkFieldsForNumericKeys path fields
  | (k, v) :: fields =>
    walkForNumericKeys (path ++ [.key k]) v ++ walkFieldsForNumericKeys path fields

def walkItemsForNumericKeys (path : List PathElem) (i : ℕ) : List PyValue → List (List PathElem)
  | [] => []
  | v :: vs =>
    walkForNumericKeys (path ++ [.index i]) v ++ walkItemsForNumericKeys path (i + 1) vs

end

/-- `has_numeric_string_keys`, of metadata or of any other value: there is nothing to walk in one
    that is false. -/
def hasNumericStringKeys (metadata : PyValue) : List (List PathElem) :=
  walkForNumericKeys isDecimal [] metadata

end

/-! ### Reading -/

mutual

/-- What Python reads of a document: a number is an integer if there are no digits after the
    point. -/
def Jsonb.read : Jsonb → PyValue
  | .null => .none
  | .bool b => .bool b
  | .num n =>
    if n.scale = 0 then .int n.coeff
    else .float (Json.floatBits (n.coeff < 0) (Binary64.ofDecimal n.coeff.natAbs (-n.scale)))
  | .str s => .str s
  | .arr js => .list (itemsRead js)
  | .obj fields => .dict (fieldsRead fields)

def itemsRead : List Jsonb → List PyValue
  | [] => []
  | j :: js => j.read :: itemsRead js

def fieldsRead : List (String × Jsonb) → List (PyKey × PyValue)
  | [] => []
  | (k, j) :: fields => (.str k, j.read) :: fieldsRead fields

end

/-! ### Positions -/

/-- `str` of a key. -/
def PyKey.pyStr : PyKey → String
  | none => "None"
  | bool true => "True"
  | bool false => "False"
  | float bits =>
    if Binary64.infinity < Json.floatMagnitude bits then "nan"
    else if Json.floatMagnitude bits < Binary64.infinity then (float bits).text
    else if Json.floatNeg bits then "-inf" else "inf"
  | k => k.text

/-- `str(elem)`. -/
def PathElem.text : PathElem → String
  | .key k => k.pyStr
  | .index i => (PyKey.int i).pyStr

/-- `path_to_jsonb_set_text_array`. -/
def pathToJsonbSetTextArray (path : List PathElem) : List String := path.map PathElem.text

/-- The index that a text means in an array of `n` items: it is counted from the end if it is
    negative. -/
def arrayIndex (n : ℕ) (t : String) : Option ℕ :=
  let (neg, digits) := scanSign t.toList
  let i := Nat.ofDigitChars 10 digits 0
  if digits = [] ∨ ¬digits.all Char.isDigit then none
  else if neg = true ∧ 0 < i then (if i ≤ n then some (n - i) else none)
  else if i < n then some i else none

/-- The position that `jsonb_set` writes to, if it is in the document. -/
def Jsonb.setPosition : Jsonb → List String → Option (List PathElem)
  | _, [] => some []
  | .obj fields, t :: ts => do
    let j ← fields.lookup t
    let path ← j.setPosition ts
    some (.key (.str t) :: path)
  | .arr js, t :: ts => do
    let i ← arrayIndex js.length t
    let j ← js[i]?
    let path ← j.setPosition ts
    some (.index i :: path)
  | _, _ :: _ => none

/-! ### What is stored -/

mutual

/-- The keys of a document. -/
def Jsonb.keys : Jsonb → List String
  | .obj fields => fieldsKeys fields
  | .arr js => itemsKeys js
  | _ => []

def fieldsKeys : List (String × Jsonb) → List String
  | [] => []
  | (k, j) :: fields => k :: (j.keys ++ fieldsKeys fields)

def itemsKeys : List Jsonb → List String
  | [] => []
  | j :: js => j.keys ++ itemsKeys js

end

mutual

/-- The keys that are stored: of two fields with one name, the last one counts. -/
def PyValue.storedKeys : PyValue → List String
  | .dict fields => fieldsStoredKeys fields
  | .list vs => itemsStoredKeys vs
  | .tuple vs => itemsStoredKeys vs
  | _ => []

def fieldsStoredKeys : List (PyKey × PyValue) → List String
  | [] => []
  | (k, v) :: fields =>
    (if k.text ∈ fields.map fun f => f.1.text then [] else k.text :: v.storedKeys) ++
      fieldsStoredKeys fields

def itemsStoredKeys : List PyValue → List String
  | [] => []
  | v :: vs => v.storedKeys ++ itemsStoredKeys vs

end

mutual

/-- Those of them that are keys of dictionaries inside tuples. -/
def PyValue.tupleKeys : PyValue → List String
  | .dict fields => fieldsTupleKeys fields
  | .list vs => itemsTupleKeys vs
  | .tuple vs => itemsStoredKeys vs
  | _ => []

def fieldsTupleKeys : List (PyKey × PyValue) → List String
  | [] => []
  | (k, v) :: fields =>
    (if k.text ∈ fields.map fun f => f.1.text then [] else v.tupleKeys) ++ fieldsTupleKeys fields

def itemsTupleKeys : List PyValue → List String
  | [] => []
  | v :: vs => v.tupleKeys ++ itemsTupleKeys vs

end

/-- A row is clean: the runtime finds no key of digits in it, and `jsonb_set` writes to where the
    finding is, which is another place for every other path. -/
structure CleanRow (isDecimal : Char → Bool) (table : PatternTable) (j : Jsonb) : Prop where
  noNumericKeys : hasNumericStringKeys isDecimal j.read = []
  setPosition : ∀ metadata, j.read = .dict metadata →
    ∀ f ∈ findPiiInMetadata table (some metadata),
      j.setPosition (pathToJsonbSetTextArray f.path) = some f.path
  injective : ∀ metadata, j.read = .dict metadata →
    ∀ f ∈ findPiiInMetadata table (some metadata), ∀ g ∈ findPiiInMetadata table (some metadata),
      pathToJsonbSetTextArray f.path = pathToJsonbSetTextArray g.path → f.path = g.path

mutual

/-- The fields of every object are in the order of their names. -/
def Jsonb.Ordered : Jsonb → Prop
  | .obj fields => (fields.Pairwise fun f g => f.1 < g.1) ∧ FieldsOrdered fields
  | .arr js => ItemsOrdered js
  | _ => True

def FieldsOrdered : List (String × Jsonb) → Prop
  | [] => True
  | (_, j) :: fields => j.Ordered ∧ FieldsOrdered fields

def ItemsOrdered : List Jsonb → Prop
  | [] => True
  | j :: js => j.Ordered ∧ ItemsOrdered js

end

variable {isDecimal : Char → Bool} {numericKey : String → Bool} {table : PatternTable} {s k : String}
  {j : Jsonb} {acc fields : List (String × Jsonb)}

theorem fieldsOrdered_iff : FieldsOrdered fields ↔ ∀ f ∈ fields, f.2.Ordered := by
  induction fields with
  | nil => exact iff_of_true trivial nofun
  | cons f fields ih => rw [FieldsOrdered, ih, List.forall_mem_cons]

theorem mem_fieldsKeys : s ∈ fieldsKeys fields ↔ ∃ f ∈ fields, s = f.1 ∨ s ∈ f.2.keys := by
  induction fields with
  | nil => simp [fieldsKeys]
  | cons f fields ih =>
    simp only [fieldsKeys, List.mem_cons, List.mem_append, ih, exists_eq_or_imp, or_assoc]

/-- Fields in order are still in order when a field is put in its place, and then they have
    the new one in place of one of its name. -/
theorem pairwise_putField (h : acc.Pairwise fun f g => f.1 < g.1) :
    ((putField k j acc).Pairwise fun f g => f.1 < g.1) ∧
      ∀ f, f ∈ putField k j acc ↔ f = (k, j) ∨ f ∈ acc ∧ f.1 ≠ k := by
  induction acc with
  | nil => exact ⟨List.pairwise_singleton _ _, fun f => by simp [putField]⟩
  | cons f' acc ih =>
    obtain ⟨k', j'⟩ := f'
    obtain ⟨hlt, hacc⟩ := List.pairwise_cons.1 h
    obtain ⟨hordered, hmem⟩ := ih hacc
    rw [putField]
    split_ifs with hk heq
    · -- The name comes before all those that are there.
      have hall : ∀ f ∈ (k', j') :: acc, k < f.1 := by
        refine List.forall_mem_cons.2 ⟨hk, fun f hf => hk.trans (hlt f hf)⟩
      refine ⟨List.pairwise_cons.2 ⟨hall, h⟩, fun f => ?_⟩
      rw [List.mem_cons]
      exact or_congr_right ⟨fun hf => ⟨hf, (hall f hf).ne'⟩, And.left⟩
    · subst heq
      refine ⟨List.pairwise_cons.2 ⟨hlt, hacc⟩, fun f => ?_⟩
      rw [List.mem_cons, List.mem_cons]
      refine or_congr_right ⟨fun hf => ⟨.inr hf, (hlt f hf).ne'⟩, ?_⟩
      rintro ⟨hf, hne⟩
      exact hf.resolve_left fun heq => hne (heq ▸ rfl)
    · have hk' : k' < k := lt_of_le_of_ne (not_lt.1 hk) (Ne.symm heq)
      refine ⟨List.pairwise_cons.2 ⟨fun f hf => ?_, hordered⟩, fun f => ?_⟩
      · rcases (hmem f).1 hf with rfl | ⟨hf, -⟩
        · exact hk'
        · exact hlt f hf
      · rw [List.mem_cons, List.mem_cons, hmem f]
        constructor
        · rintro (rfl | hf | ⟨hf, hne⟩)
          · exact .inr ⟨.inl rfl, hk'.ne⟩
          · exact .inl hf
          · exact .inr ⟨.inr hf, hne⟩
        · rintro (hf | ⟨hf | hf, hne⟩)
          · exact .inr (.inl hf)
          · exact .inl hf
          · exact .inr (.inr ⟨hf, hne⟩)

/-- A step of `fieldsJsonb`. -/
theorem fieldsJsonb_cons {key : PyKey} {v : PyValue} {metadata : PyDict}
    (h : fieldsJsonb acc ((key, v) :: metadata) = some fields) :
    ∃ j, v.jsonb = some j ∧ fieldsJsonb (putField key.text j acc) metadata = some fields := by
  simp only [fieldsJsonb] at h
  split at h
  · rename_i j hj
    split_ifs at h
    exact ⟨j, hj, h⟩
  · cases h

/-- A step of `itemsJsonb`. -/
theorem itemsJsonb_cons {v : PyValue} {vs : List PyValue} {js : List Jsonb}
    (h : itemsJsonb (v :: vs) = some js) :
    ∃ j js', v.jsonb = some j ∧ itemsJsonb vs = some js' ∧ js = j :: js' := by
  simp only [itemsJsonb] at h
  split at h
  · rename_i j js' hj hjs
    exact ⟨j, js', hj, hjs, (Option.some.inj h).symm⟩
  · cases h

mutual

/-- What is stored has its fields in order, and the keys that are stored. -/
theorem stored_jsonb :
    ∀ {v : PyValue} {j : Jsonb}, v.jsonb = some j →
      j.Ordered ∧ ∀ s, s ∈ j.keys ↔ s ∈ v.storedKeys
  | .none, j, h | .bool b, j, h => by
    rw [PyValue.jsonb] at h
    obtain rfl := Option.some.inj h
    simp [Jsonb.Ordered, Jsonb.keys, PyValue.storedKeys]
  | .int n, j, h | .float bits, j, h | .str t, j, h => by
    rw [PyValue.jsonb] at h
    split_ifs at h
    obtain rfl := Option.some.inj h
    simp [Jsonb.Ordered, Jsonb.keys, PyValue.storedKeys]
  | .list vs, j, h | .tuple vs, j, h => by
    rw [PyValue.jsonb] at h
    obtain ⟨js, hjs, rfl⟩ := Option.map_eq_some_iff.1 h
    simpa only [Jsonb.Ordered, Jsonb.keys, PyValue.storedKeys] using stored_itemsJsonb hjs
  | .dict metadata, j, h => by
    rw [PyValue.jsonb] at h
    obtain ⟨fields, hfields, rfl⟩ := Option.map_eq_some_iff.1 h
    obtain ⟨hordered, hkeys⟩ :=
      stored_fieldsJsonb hfields List.Pairwise.nil fun f hf => absurd hf List.not_mem_nil
    refine ⟨by simpa only [Jsonb.Ordered] using hordered, fun s => ?_⟩
    rw [Jsonb.keys, PyValue.storedKeys, hkeys s]
    exact or_iff_left fun ⟨f, hf, _⟩ => absurd hf List.not_mem_nil

theorem stored_itemsJsonb :
    ∀ {vs : List PyValue} {js : List Jsonb}, itemsJsonb vs = some js →
      ItemsOrdered js ∧ ∀ s, s ∈ itemsKeys js ↔ s ∈ itemsStoredKeys vs
  | [], js, h => by
    rw [itemsJsonb] at h
    obtain rfl := Option.some.inj h
    simp [ItemsOrdered, itemsKeys, itemsStoredKeys]
  | v :: vs, js, h => by
    obtain ⟨j, js, hj, hjs, rfl⟩ := itemsJsonb_cons h
    obtain ⟨hordered, hkeys⟩ := stored_jsonb hj
    obtain ⟨hordereds, hkeyss⟩ := stored_itemsJsonb hjs
    refine ⟨⟨hordered, hordereds⟩, fun s => ?_⟩
    rw [itemsKeys, itemsStoredKeys, List.mem_append, List.mem_append, hkeys s, hkeyss s]

theorem stored_fieldsJsonb :
    ∀ {metadata : List (PyKey × PyValue)} {acc fields : List (String × Jsonb)},
      fieldsJsonb acc metadata = some fields → (acc.Pairwise fun f g => f.1 < g.1) →
      (∀ f ∈ acc, f.2.Ordered) →
      ((fields.Pairwise fun f g => f.1 < g.1) ∧ FieldsOrdered fields) ∧
        ∀ s, s ∈ fieldsKeys fields ↔ s ∈ fieldsStoredKeys metadata ∨
          ∃ f ∈ acc, f.1 ∉ (metadata.map fun f => f.1.text) ∧ (s = f.1 ∨ s ∈ f.2.keys)
  | [], acc, fields, h, hacc, hordered => by
    rw [fieldsJsonb] at h
    obtain rfl := Option.some.inj h
    exact ⟨⟨hacc, fieldsOrdered_iff.2 hordered⟩, fun s => by simp [mem_fieldsKeys, fieldsStoredKeys]⟩
  | (key, v) :: metadata, acc, fields, h, hacc, hordered => by
    obtain ⟨j, hj, h⟩ := fieldsJsonb_cons h
    obtain ⟨hvalue, hkeys⟩ := stored_jsonb hj
    obtain ⟨hput, hmem⟩ := pairwise_putField (k := key.text) (j := j) hacc
    have hordered' : ∀ f ∈ putField key.text j acc, f.2.Ordered := by
      intro f hf
      rcases (hmem f).1 hf with rfl | ⟨hf, -⟩
      · exact hvalue
      · exact hordered f hf
    obtain ⟨hfields, hstored⟩ := stored_fieldsJsonb h hput hordered'
    refine ⟨hfields, fun s => ?_⟩
    -- A field that was there is kept if its name is neither the new one nor one of the rest.
    have hkept : (∃ f ∈ putField key.text j acc,
          f.1 ∉ (metadata.map fun f => f.1.text) ∧ (s = f.1 ∨ s ∈ f.2.keys)) ↔
        (key.text ∉ (metadata.map fun f => f.1.text) ∧ (s = key.text ∨ s ∈ j.keys)) ∨
          ∃ f ∈ acc, f.1 ∉ (((key, v) :: metadata).map fun f => f.1.text) ∧
            (s = f.1 ∨ s ∈ f.2.keys) := by
      simp only [hmem, or_and_right, exists_or, exists_eq_left, List.map_cons, List.mem_cons, not_or,
        and_assoc]
    have hnew : s ∈ (if key.text ∈ metadata.map fun f => f.1.text then []
          else key.text :: v.storedKeys) ↔
        key.text ∉ (metadata.map fun f => f.1.text) ∧ (s = key.text ∨ s ∈ j.keys) := by
      split_ifs with hlater
      · simp only [hlater, List.not_mem_nil, not_true, false_and]
      · simp only [hlater, not_false_iff, true_and, List.mem_cons, hkeys s]
    rw [hstored s, fieldsStoredKeys, List.mem_append, hkept, hnew]
    exact ⟨fun h => h.elim (.inl ∘ .inr) fun h => h.imp_left .inl,
      fun h => h.elim (fun h => h.symm.imp_right .inl) fun h => .inr (.inr h)⟩

end

/-! ### What is accepted -/

mutual

/-- The stored keys of a value that the writer accepts are those inside its tuples, and others
    that are not of digits. -/
theorem storedKeys_of_validate :
    ∀ {v : PyValue}, validateNoNumericStringKeys numericKey v = true →
      ((∀ k ∈ v.storedKeys, numericKey k = false) ↔ ∀ k ∈ v.tupleKeys, numericKey k = false)
  | .none, _ | .bool _, _ | .int _, _ | .float _, _ | .str _, _ => by
    simp only [PyValue.storedKeys, PyValue.tupleKeys]
  | .tuple vs, _ => by simp only [PyValue.storedKeys, PyValue.tupleKeys]
  | .list vs, h => by
    rw [validateNoNumericStringKeys] at h
    simpa only [PyValue.storedKeys, PyValue.tupleKeys] using storedKeys_of_validateItems h
  | .dict metadata, h => by
    rw [validateNoNumericStringKeys] at h
    simpa only [PyValue.storedKeys, PyValue.tupleKeys] using storedKeys_of_validateFields h

theorem storedKeys_of_validateItems :
    ∀ {vs : List PyValue}, validateItems numericKey vs = true →
      ((∀ k ∈ itemsStoredKeys vs, numericKey k = false) ↔
        ∀ k ∈ itemsTupleKeys vs, numericKey k = false)
  | [], _ => by simp only [itemsStoredKeys, itemsTupleKeys]
  | v :: vs, h => by
    rw [validateItems, Bool.and_eq_true] at h
    simp only [itemsStoredKeys, itemsTupleKeys, List.forall_mem_append]
    exact and_congr (storedKeys_of_validate h.1) (storedKeys_of_validateItems h.2)

theorem storedKeys_of_validateFields :
    ∀ {metadata : List (PyKey × PyValue)}, validateFields numericKey metadata = true →
      ((∀ k ∈ fieldsStoredKeys metadata, numericKey k = false) ↔
        ∀ k ∈ fieldsTupleKeys metadata, numericKey k = false)
  | [], _ => by simp only [fieldsStoredKeys, fieldsTupleKeys]
  | (.str k, v) :: metadata, h => by
    simp only [validateFields, Bool.and_eq_true, Bool.not_eq_true'] at h
    obtain ⟨⟨hk, hv⟩, hmetadata⟩ := h
    simp only [fieldsStoredKeys, fieldsTupleKeys, List.forall_mem_append]
    refine and_congr ?_ (storedKeys_of_validateFields hmetadata)
    split_ifs
    · exact Iff.rfl
    · rw [List.forall_mem_cons]
      exact (and_iff_right hk).trans (storedKeys_of_validate hv)
  | (.none, v) :: metadata, h | (.bool _, v) :: metadata, h | (.int _, v) :: metadata, h
  | (.float _, v) :: metadata, h => by
    simp only [validateFields, Bool.false_eq_true] at h

end

/-! ### What is found -/

mutual

/-- The runtime finds a key of digits if there is one. -/
theorem walkForNumericKeys_read (path : List PathElem) :
    ∀ j : Jsonb, walkForNumericKeys isDecimal path j.read = [] ↔
      ∀ k ∈ j.keys, numericStringKey isDecimal k = false
  | .null | .bool _ | .str _ => by simp [Jsonb.read, walkForNumericKeys, Jsonb.keys]
  | .num n => by
    rw [Jsonb.read]
    split_ifs <;> simp [walkForNumericKeys, Jsonb.keys]
  | .arr js => by
    simp only [Jsonb.read, walkForNumericKeys, Jsonb.keys]
    exact walkItemsForNumericKeys_read path 0 js
  | .obj fields => by
    simp only [Jsonb.read, walkForNumericKeys, Jsonb.keys]
    exact walkFieldsForNumericKeys_read path fields

theorem walkItemsForNumericKeys_read (path : List PathElem) (i : ℕ) :
    ∀ js : List Jsonb, walkItemsForNumericKeys isDecimal path i (itemsRead js) = [] ↔
      ∀ k ∈ itemsKeys js, numericStringKey isDecimal k = false
  | [] => by simp [itemsRead, walkItemsForNumericKeys, itemsKeys]
  | j :: js => by
    simp only [itemsRead, walkItemsForNumericKeys, itemsKeys, List.append_eq_nil_iff,
      List.forall_mem_append]
    exact and_congr (walkForNumericKeys_read _ j) (walkItemsForNumericKeys_read path (i + 1) js)

theorem walkFieldsForNumericKeys_read (path : List PathElem) :
    ∀ fields : List (String × Jsonb),
      walkFieldsForNumericKeys isDecimal path (fieldsRead fields) = [] ↔
        ∀ k ∈ fieldsKeys fields, numericStringKey isDecimal k = false
  | [] => by simp [fieldsRead, walkFieldsForNumericKeys, fieldsKeys]
  | (k, j) :: fields => by
    simp only [fieldsRead, walkFieldsForNumericKeys, fieldsKeys, List.append_eq_nil_iff,
      List.forall_mem_cons, List.forall_mem_append]
    rw [and_assoc]
    refine and_congr ?_ (and_congr (walkForNumericKeys_read _ j)
      (walkFieldsForNumericKeys_read path fields))
    split_ifs with hk <;> simp [hk]

end

/-! ### Where it is -/

/-- The decimal text of an index means it. -/
theorem arrayIndex_text {n i : ℕ} (h : i < n) : arrayIndex n (PathElem.index i).text = some i := by
  have htext : (PathElem.index i).text.toList = Nat.toDigits 10 i := by
    simp [PathElem.text, PyKey.pyStr, PyKey.text, NumberText.ofInt, NumberText.chars,
      NumberText.fracChars, NumberText.expChars]
  have hdigits : ∀ c ∈ Nat.toDigits 10 i, c.isDigit := fun c hc =>
    Nat.isDigit_of_mem_toDigits (by omega) (by omega) hc
  have hsign : scanSign (Nat.toDigits 10 i) = (false, Nat.toDigits 10 i) := by
    unfold scanSign
    split
    · rename_i cs heq
      exact absurd (hdigits '-' (heq ▸ List.mem_cons_self)) (by decide)
    · rename_i cs heq
      exact absurd (hdigits '+' (heq ▸ List.mem_cons_self)) (by decide)
    · rfl
  have hne : Nat.toDigits 10 i ≠ [] := Nat.toDigits_ne_nil
  rw [arrayIndex, htext, hsign]
  simp only [hne, List.all_eq_true.2 hdigits, not_true, or_self, if_false, Bool.false_eq_true,
    false_and, Nat.ofDigitChars_ten_toDigits, h, if_true]

/-- A field of an object is found under its name. -/
theorem lookup_of_pairwise {f : String × Jsonb} (h : fields.Pairwise fun f g => f.1 < g.1)
    (hf : f ∈ fields) : fields.lookup f.1 = some f.2 := by
  induction fields with
  | nil => exact absurd hf List.not_mem_nil
  | cons g fields ih =>
    obtain ⟨hlt, hfields⟩ := List.pairwise_cons.1 h
    rcases List.mem_cons.1 hf with rfl | hf
    · exact List.lookup_cons_self
    · rw [List.lookup_cons, beq_false_of_ne (hlt f hf).ne']
      exact ih hfields hf

mutual

/-- A finding is at a position of the document, and the texts of its path mean that position. -/
theorem setPosition_walk (path : List PathElem) {f : PiiFinding} :
    ∀ {j : Jsonb}, j.Ordered → f ∈ walk table path j.read →
      ∃ p, f.path = path ++ p ∧ j.setPosition (pathToJsonbSetTextArray p) = some p
  | .null, _, hf | .bool _, _, hf => by simp [Jsonb.read, walk] at hf
  | .num n, _, hf => by
    rw [Jsonb.read] at hf
    split_ifs at hf <;> simp [walk] at hf
  | .str s, _, hf => by
    simp only [Jsonb.read, walk, scanPii, List.mem_flatMap, List.mem_map] at hf
    obtain ⟨_, _, _, _, rfl⟩ := hf
    exact ⟨[], (List.append_nil _).symm, by simp [pathToJsonbSetTextArray, Jsonb.setPosition]⟩
  | .arr js, hj, hf => by
    simp only [Jsonb.Ordered] at hj
    rw [Jsonb.read, walk] at hf
    obtain ⟨i, j, p, hi, hpath, hp⟩ := setPosition_walkItems path 0 hj hf
    rw [Nat.zero_add] at hpath
    refine ⟨_, hpath, ?_⟩
    have hlt : i < js.length := (List.getElem?_eq_some_iff.1 hi).1
    rw [pathToJsonbSetTextArray] at hp
    simp only [pathToJsonbSetTextArray, List.map_cons, Jsonb.setPosition, arrayIndex_text hlt, hi, hp,
      Option.bind_eq_bind, Option.bind_some]
  | .obj fields, hj, hf => by
    simp only [Jsonb.Ordered] at hj
    rw [Jsonb.read, walk] at hf
    obtain ⟨g, hg, p, hpath, hp⟩ := setPosition_walkFields path hj.2 hf
    refine ⟨_, hpath, ?_⟩
    have htext : (PathElem.key (.str g.1)).text = g.1 := rfl
    rw [pathToJsonbSetTextArray] at hp
    simp only [pathToJsonbSetTextArray, List.map_cons, Jsonb.setPosition, htext,
      lookup_of_pairwise hj.1 hg, hp, Option.bind_eq_bind, Option.bind_some]

theorem setPosition_walkItems (path : List PathElem) (i : ℕ) {f : PiiFinding} :
    ∀ {js : List Jsonb}, ItemsOrdered js → f ∈ walkItems table path i (itemsRead js) →
      ∃ n j p, js[n]? = some j ∧ f.path = path ++ (.index (i + n) :: p) ∧
        j.setPosition (pathToJsonbSetTextArray p) = some p
  | [], _, hf => by simp [itemsRead, walkItems] at hf
  | j :: js, hjs, hf => by
    rw [itemsRead, walkItems] at hf
    rcases List.mem_append.1 hf with hf | hf
    · obtain ⟨p, hpath, hp⟩ := setPosition_walk _ hjs.1 hf
      exact ⟨0, j, p, rfl, by rw [hpath, List.append_assoc]; rfl, hp⟩
    · obtain ⟨n, j, p, hn, hpath, hp⟩ := setPosition_walkItems path (i + 1) hjs.2 hf
      exact ⟨n + 1, j, p, hn, by rw [hpath, Nat.add_assoc, Nat.add_comm 1 n], hp⟩

theorem setPosition_walkFields (path : List PathElem) {f : PiiFinding} :
    ∀ {fields : List (String × Jsonb)}, FieldsOrdered fields →
      f ∈ walkFields table path (fieldsRead fields) →
      ∃ g ∈ fields, ∃ p, f.path = path ++ (.key (.str g.1) :: p) ∧
        g.2.setPosition (pathToJsonbSetTextArray p) = some p
  | [], _, hf => by simp [fieldsRead, walkFields] at hf
  | (k, j) :: fields, hfields, hf => by
    rw [fieldsRead, walkFields] at hf
    rcases List.mem_append.1 hf with hf | hf
    · obtain ⟨p, hpath, hp⟩ := setPosition_walk _ hfields.1 hf
      exact ⟨_, List.mem_cons_self, p, by rw [hpath, List.append_assoc]; rfl, hp⟩
    · obtain ⟨g, hg, hfound⟩ := setPosition_walkFields path hfields.2 hf
      exact ⟨g, List.mem_cons_of_mem _ hg, hfound⟩

end

/-- A finding of a document is where the texts of its path say. -/
theorem setPosition_of_finding (hj : j.Ordered) {metadata : PyDict} (hread : j.read = .dict metadata)
    {f : PiiFinding} (hf : f ∈ findPiiInMetadata table (some metadata)) :
    j.setPosition (pathToJsonbSetTextArray f.path) = some f.path := by
  have hwalk : f ∈ walk table [] j.read := by
    rw [hread, walk]
    -- The walk of all the fields also finds what `subjects` is skipped for.
    have hsub : ∀ m : PyDict, f ∈ findPiiInMetadata table (some m) → f ∈ walkFields table [] m := by
      intro m hm
      induction m with
      | nil => simp [findPiiInMetadata] at hm
      | cons g m ih =>
        obtain ⟨k, v⟩ := g
        simp only [findPiiInMetadata, List.flatMap_cons, List.mem_append] at hm ih
        rw [walkFields, List.mem_append]
        refine hm.imp (fun hm => ?_) ih
        split_ifs at hm
        · exact absurd hm List.not_mem_nil
        · exact hm
    exact hsub metadata hf
  obtain ⟨p, hpath, hp⟩ := setPosition_walk [] hj hwalk
  rw [List.nil_append] at hpath
  rw [hpath, hp]

/-- What the writer accepts is stored as a clean row if and only if no key of a dictionary
    inside a tuple is one of digits. -/
theorem cleanRow_iff {metadata : PyValue}
    (hvalid : validateNoNumericStringKeys (numericStringKey isDecimal) metadata = true)
    (hj : metadata.jsonb = some j) :
    CleanRow isDecimal table j ↔
      ∀ k ∈ metadata.tupleKeys, numericStringKey isDecimal k = false := by
  obtain ⟨hordered, hkeys⟩ := stored_jsonb hj
  have hclean : hasNumericStringKeys isDecimal j.read = [] ↔
      ∀ k ∈ metadata.tupleKeys, numericStringKey isDecimal k = false := by
    rw [hasNumericStringKeys, walkForNumericKeys_read, ← storedKeys_of_validate hvalid]
    exact forall_congr' fun k => by rw [hkeys k]
  refine ⟨fun h => hclean.1 h.noNumericKeys, fun h => ⟨hclean.2 h, ?_, ?_⟩⟩
  · exact fun m hm f hf => setPosition_of_finding hordered hm hf
  · intro m hm f hf g hg heq
    have hf := setPosition_of_finding hordered hm hf
    rw [heq, setPosition_of_finding hordered hm hg] at hf
    exact (Option.some.inj hf).symm

/-! ### A key inside a tuple -/

/-- Metadata with a key of digits, in a dictionary inside a tuple. -/
def tupleMetadata : PyValue := .dict [(.str "t", .tuple [.dict [(.str "42", .str "x")]])]

/-- What is stored for `tupleMetadata`. -/
def tupleRow : Jsonb := .obj [("t", .arr [.obj [("42", .str "x")]])]

/-- The writer accepts the metadata, and the runtime finds the key in the row. -/
theorem not_cleanRow_tuple :
    validateNoNumericStringKeys (numericStringKey Char.isDigit) tupleMetadata = true ∧
      tupleMetadata.jsonb = some tupleRow ∧ ¬CleanRow Char.isDigit addressPatterns tupleRow := by
  refine ⟨by decide, rfl, fun h => ?_⟩
  have hfound : hasNumericStringKeys Char.isDigit tupleRow.read =
      [[.key (.str "t"), .index 0, .key (.str "42")]] := by decide
  exact absurd (hfound.symm.trans h.noNumericKeys) (List.cons_ne_nil _ _)

/-- Metadata with an address in a list, and with a tuple. -/
def listMetadata : PyValue :=
  .dict [(.str "t", .tuple [.dict [(.str "n", .int 1)]]), (.str "a", .list [.str "a@b.c"])]

/-- Its row is clean. -/
theorem cleanRow_list : CleanRow Char.isDigit addressPatterns
    (.obj [("a", .arr [.str "a@b.c"]), ("t", .arr [.obj [("n", .num ⟨1, 0⟩)]])]) := by
  have hvalid : validateNoNumericStringKeys (numericStringKey Char.isDigit) listMetadata = true := by
    decide
  exact (cleanRow_iff hvalid rfl).2 (by decide)

end AslanCore.Timeseries
