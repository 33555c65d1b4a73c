import Mathlib.Data.List.Lex
import Mathlib.Data.List.Sort
import Mathlib.Data.Prod.Lex
import Mathlib.Data.String.Basic
import AslanCore.Dict
import AslanCore.Splice
import AslanCore.Timeseries.Pii

/-!
# The scrub

`scrub_in_python`: the findings in the metadata are sorted by their paths and their spans, those of one
path are replaced in the string that they are in, and the string is set at its path, in a copy of the
metadata.

* `PathElem.sortKey` and `comparable`: how Python compares paths, and when it cannot;
* `redactGroup`: the spans of one string are replaced, from the last one to the first one;
* `setAtPath`: a string is set at its path, unless it is an item of a tuple;
* `PyValue.mapTexts`: the metadata with other strings at the same paths;
* `scrubInPython_eq`: the scrub is one of these, if nothing is raised.
-/

namespace AslanCore.Timeseries

/-! ### Paths -/

/-- A float that is no finite number, among the numbers: it is infinite, or not a number. -/
def floatRank (bits : BitVec 64) : ℤ :=
  if Json.floatMagnitude bits = Binary64.infinity then if Json.floatNeg bits then 1 else 3 else 4

/-- A key as it is compared: `None`, a number, or a text. -/
def PyKey.sortKey : PyKey → ℤ ×ₗ ℤ ×ₗ String
  | .none => toLex (0, toLex (0, ""))
  | .bool b => toLex (2, toLex (boolUnits b, ""))
  | .int n => toLex (2, toLex (n * Binary64.one, ""))
  | .float bits =>
    match floatUnits bits with
    | .some units => toLex (2, toLex (units, ""))
    | .none => toLex (floatRank bits, toLex (0, ""))
  | .str s => toLex (5, toLex (0, s))

/-- The types of keys that can be compared with each other. -/
inductive KeyType
  | none
  | number
  | text
  deriving DecidableEq

def PyKey.keyType : PyKey → KeyType
  | .none => .none
  | .str _ => .text
  | _ => .number

/-- An index is compared as a number. -/
def PathElem.asKey : PathElem → PyKey
  | .key k => k
  | .index i => .int i

def PathElem.sortKey (e : PathElem) : ℤ ×ₗ ℤ ×ₗ String := e.asKey.sortKey

/-- `p < q` of paths raises no `TypeError`: the first elements that differ are of types that can be
    compared. -/
def comparable : List PathElem → List PathElem → Bool
  | e :: p, e' :: q =>
    if e.sortKey = e'.sortKey then comparable p q else e.asKey.keyType = e'.asKey.keyType
  | _, _ => true

/-- `(f.path, f.span)`. -/
def PiiFinding.sortKey (f : PiiFinding) : List (ℤ ×ₗ ℤ ×ₗ String) ×ₗ ℕ ×ₗ ℕ :=
  toLex (f.path.map PathElem.sortKey, toLex f.span)

/-- `sorted(findings, key=…)`, unless it raises a `TypeError`. -/
def sortFindings (findings : List PiiFinding) : Option (List PiiFinding) :=
  if ∀ f ∈ findings, ∀ g ∈ findings, comparable f.path g.path then
    some (findings.insertionSort fun f g => f.sortKey ≤ g.sortKey)
  else none

/-- The two findings have the same path. -/
def samePath (f g : PiiFinding) : Bool :=
  f.path.map PathElem.sortKey = g.path.map PathElem.sortKey

/-- `itertools.groupby`, of findings by their paths. -/
def groupFindings : List PiiFinding → List (List PiiFinding)
  | [] => []
  | f :: fs =>
    match groupFindings fs with
    | (g :: group) :: groups =>
      if samePath f g then (f :: g :: group) :: groups else [f] :: (g :: group) :: groups
    | groups => [f] :: groups

/-! ### Replacing -/

/-- `[REDACTED:Art.17:…]`. -/
def redaction (matchedPattern : String) : String := "[REDACTED:Art.17:" ++ matchedPattern ++ "]"

/-- A finding, and what replaces it. -/
def PiiFinding.patch (f : PiiFinding) : Patch Char :=
  ⟨f.span.1, f.span.2, (redaction f.matchedPattern).toList⟩

/-- `sorted(group_list, key=…, reverse=True)`. -/
def reverseSpans (group : List PiiFinding) : List PiiFinding :=
  group.insertionSort fun f g => toLex g.span ≤ toLex f.span

/-- The string of a group of findings, after its spans are replaced. -/
def redactGroup (group : List PiiFinding) (fullValue : String) : String :=
  String.ofList ((reverseSpans group).foldl (fun value f => f.patch.apply value) fullValue.toList)

/-- `_set_at_path`, unless it raises: the items of tuples cannot be set. -/
def setAtPath : PyValue → List PathElem → String → Option PyValue
  | container, [], _ => some container
  | .dict fields, .key k :: rest, newValue =>
    if rest = [] then some (.dict (dictSet k (.str newValue) fields))
    else ((fields.lookup k).bind (setAtPath · rest newValue)).map fun v =>
      .dict (dictSet k v fields)
  | .list vs, .index i :: rest, newValue =>
    if rest = [] then if i < vs.length then some (.list (vs.set i (.str newValue))) else none
    else (vs[i]?.bind (setAtPath · rest newValue)).map fun v => .list (vs.set i v)
  | .tuple vs, .index i :: rest, newValue =>
    if rest = [] then none
    else (vs[i]?.bind (setAtPath · rest newValue)).map fun v => .tuple (vs.set i v)
  | _, _ :: _, _ => none

/-- What is set for a group of findings. -/
def setGroup (container : PyValue) : List PiiFinding → Option PyValue
  | [] => some container
  | f :: group => setAtPath container f.path (redactGroup (f :: group) f.fullValue)

/-- `scrub_in_python`, unless it raises. Values are not changed in place, so that the metadata need
    no copy. -/
def scrubInPython (metadata : PyDict) (findings : List PiiFinding) : Option PyDict :=
  if findings = [] then some metadata
  else do
    let sortedFindings ← sortFindings findings
    let out ← (groupFindings sortedFindings).foldlM setGroup (.dict metadata)
    match out with
    | .dict out => some out
    | _ => none

/-! ### Strings at paths -/

/-- The string at a path. -/
def PyValue.textAt : PyValue → List PathElem → Option String
  | .str s, [] => some s
  | .dict fields, .key k :: rest => (fields.lookup k).bind (textAt · rest)
  | .list vs, .index i :: rest => vs[i]?.bind (textAt · rest)
  | .tuple vs, .index i :: rest => vs[i]?.bind (textAt · rest)
  | _, _ => Option.none

/-- The value at a path is an item of a tuple. -/
def PyValue.inTuple : PyValue → List PathElem → Bool
  | .dict fields, .key k :: rest => (fields.lookup k).any (inTuple · rest)
  | .list vs, .index i :: rest => vs[i]?.any (inTuple · rest)
  | .tuple vs, .index i :: rest => rest = [] || vs[i]?.any (inTuple · rest)
  | _, _ => false

mutual

/-- The keys of a dictionary are distinct, and so are those of the dictionaries in it: each of them
    is equal to itself, and to no other one. -/
def PyValue.Valid : PyValue → Prop
  | .dict fields => (fields.map fun f => f.1.sortKey).Nodup ∧
    (∀ f ∈ fields, (ofLex f.1.sortKey).1 ≠ 4) ∧ FieldsValid fields
  | .list vs => ItemsValid vs
  | .tuple vs => ItemsValid vs
  | _ => True

def FieldsValid : List (PyKey × PyValue) → Prop
  | [] => True
  | (_, v) :: fields => v.Valid ∧ FieldsValid fields

def ItemsValid : List PyValue → Prop
  | [] => True
  | v :: vs => v.Valid ∧ ItemsValid vs

end

variable (f g : List PathElem → String → String)

mutual

/-- The value with other strings, each of which may depend on its path. -/
def PyValue.mapTexts (path : List PathElem) : PyValue → PyValue
  | .str s => .str (f path s)
  | .dict fields => .dict (fieldsMapTexts path fields)
  | .list vs => .list (itemsMapTexts path 0 vs)
  | .tuple vs => .tuple (itemsMapTexts path 0 vs)
  | v => v

def fieldsMapTexts (path : List PathElem) : List (PyKey × PyValue) → List (PyKey × PyValue)
  | [] => []
  | (k, v) :: fields => (k, v.mapTexts (path ++ [.key k])) :: fieldsMapTexts path fields

def itemsMapTexts (path : List PathElem) (i : ℕ) : List PyValue → List PyValue
  | [] => []
  | v :: vs => v.mapTexts (path ++ [.index i]) :: itemsMapTexts path (i + 1) vs

end

variable {f g} {v v' : PyValue} {vs : List PyValue} {fields : List (PyKey × PyValue)} {k : PyKey}
  {s t : String} {path rest : List PathElem} {i j : ℕ}

theorem fieldsValid_iff : FieldsValid fields ↔ ∀ f ∈ fields, f.2.Valid := by
  induction fields with
  | nil => exact iff_of_true trivial (List.forall_mem_nil _)
  | cons f fields ih => rw [FieldsValid, ih, List.forall_mem_cons]

theorem itemsValid_iff : ItemsValid vs ↔ ∀ v ∈ vs, v.Valid := by
  induction vs with
  | nil => exact iff_of_true trivial (List.forall_mem_nil _)
  | cons v vs ih => rw [ItemsValid, ih, List.forall_mem_cons]

theorem fieldsMapTexts_eq (fields : List (PyKey × PyValue)) : fieldsMapTexts f path fields =
    fields.map fun p => (p.1, p.2.mapTexts f (path ++ [.key p.1])) := by
  induction fields with
  | nil => rfl
  | cons p fields ih => rw [fieldsMapTexts, ih, List.map_cons]

theorem itemsMapTexts_eq (vs : List PyValue) : itemsMapTexts f path i vs =
    vs.mapIdx fun j v => v.mapTexts f (path ++ [.index (i + j)]) := by
  induction vs generalizing i with
  | nil => rfl
  | cons v vs ih =>
    simp only [itemsMapTexts, ih, List.mapIdx_cons, Nat.add_zero, Nat.add_assoc, Nat.add_comm 1]

theorem nodup_of_valid (h : (PyValue.dict fields).Valid) : (fields.map Prod.fst).Nodup := by
  rw [PyValue.Valid] at h
  have hn := h.1
  rw [show (fields.map fun f => f.1.sortKey) = (fields.map Prod.fst).map PyKey.sortKey by
    rw [List.map_map]; rfl] at hn
  exact hn.of_map _

theorem textAt_of_mem {p : PyKey × PyValue} (h : (PyValue.dict fields).Valid) (hp : p ∈ fields) :
    (PyValue.dict fields).textAt (.key p.1 :: rest) = p.2.textAt rest := by
  rw [PyValue.textAt, lookup_of_mem (nodup_of_valid h) hp, Option.bind_some]

mutual

/-- Only the strings of the value matter. -/
theorem mapTexts_congr : ∀ {path : List PathElem} (v : PyValue), v.Valid →
    (∀ rest s, v.textAt rest = some s → f (path ++ rest) s = g (path ++ rest) s) →
    v.mapTexts f path = v.mapTexts g path
  | path, .str s, _, h => by
    have hs := h [] s rfl
    rw [List.append_nil] at hs
    rw [PyValue.mapTexts, PyValue.mapTexts, hs]
  | path, .dict fields, hv, h => by
    have hfields : FieldsValid fields := hv.2.2
    rw [PyValue.mapTexts, PyValue.mapTexts, fieldsMapTexts_congr fields hfields fun p hp rest s hs =>
      h _ s ((textAt_of_mem hv hp).trans hs)]
  | path, .list vs, hv, h => by
    rw [PyValue.mapTexts, PyValue.mapTexts, itemsMapTexts_congr vs hv fun j v hj rest s hs => ?_]
    rw [Nat.zero_add]
    refine h _ s ?_
    rw [PyValue.textAt, hj, Option.bind_some, hs]
  | path, .tuple vs, hv, h => by
    rw [PyValue.mapTexts, PyValue.mapTexts, itemsMapTexts_congr vs hv fun j v hj rest s hs => ?_]
    rw [Nat.zero_add]
    refine h _ s ?_
    rw [PyValue.textAt, hj, Option.bind_some, hs]
  | path, .none, _, _ | path, .bool _, _, _ | path, .int _, _, _ | path, .float _, _, _ => by
    simp only [PyValue.mapTexts]

theorem fieldsMapTexts_congr : ∀ {path : List PathElem} (fields : List (PyKey × PyValue)),
    FieldsValid fields → (∀ p ∈ fields, ∀ rest s, p.2.textAt rest = some s →
      f (path ++ .key p.1 :: rest) s = g (path ++ .key p.1 :: rest) s) →
    fieldsMapTexts f path fields = fieldsMapTexts g path fields
  | path, [], _, _ => rfl
  | path, (k, v) :: fields, hv, h => by
    obtain ⟨hfirst, hrest⟩ := List.forall_mem_cons.1 h
    rw [fieldsMapTexts, fieldsMapTexts, fieldsMapTexts_congr fields hv.2 hrest,
      mapTexts_congr v hv.1 fun rest s hs => ?_]
    rw [List.append_assoc]
    exact hfirst rest s hs

theorem itemsMapTexts_congr : ∀ {path : List PathElem} {i : ℕ} (vs : List PyValue),
    ItemsValid vs → (∀ j v, vs[j]? = some v → ∀ rest s, v.textAt rest = some s →
      f (path ++ .index (i + j) :: rest) s = g (path ++ .index (i + j) :: rest) s) →
    itemsMapTexts f path i vs = itemsMapTexts g path i vs
  | path, i, [], _, _ => rfl
  | path, i, v :: vs, hv, h => by
    rw [itemsMapTexts, itemsMapTexts, itemsMapTexts_congr vs hv.2 fun j v' hj rest s hs => ?_,
      mapTexts_congr v hv.1 fun rest s hs => ?_]
    · rw [List.append_assoc]
      exact h 0 v rfl rest s hs
    · have := h (j + 1) v' (by simpa using hj) rest s hs
      rwa [Nat.add_comm j, ← Nat.add_assoc] at this

end

theorem lookup_fieldsMapTexts : (fieldsMapTexts f path fields).lookup k =
    (fields.lookup k).map (·.mapTexts f (path ++ [.key k])) := by
  induction fields with
  | nil => rfl
  | cons p fields ih =>
    obtain ⟨k', v⟩ := p
    rw [fieldsMapTexts]
    by_cases hk : k = k'
    · rw [hk, List.lookup_cons_self, List.lookup_cons_self, Option.map_some]
    · rw [List.lookup_cons, List.lookup_cons, beq_false_of_ne hk]
      exact ih

theorem getElem?_itemsMapTexts : (itemsMapTexts f path 0 vs)[i]? =
    vs[i]?.map (·.mapTexts f (path ++ [.index i])) := by
  rw [itemsMapTexts_eq, List.getElem?_mapIdx]
  simp only [Nat.zero_add]

/-- The strings of the value with other strings. -/
theorem textAt_mapTexts (v : PyValue) (path rest : List PathElem) :
    (v.mapTexts f path).textAt rest = (v.textAt rest).map (f (path ++ rest)) := by
  induction rest generalizing v path with
  | nil => cases v <;> simp [PyValue.mapTexts, PyValue.textAt]
  | cons e rest ih =>
    have hih : ∀ o : Option PyValue,
        (o.map (·.mapTexts f (path ++ [e]))).bind (PyValue.textAt · rest) =
          (o.bind (PyValue.textAt · rest)).map (f (path ++ e :: rest)) := by
      rintro (_ | v')
      · rfl
      · rw [Option.map_some, Option.bind_some, Option.bind_some, ih, List.append_assoc]
        rfl
    rcases e with k | i <;> rcases v with _ | _ | _ | _ | _ | vs | vs | fields <;>
      simp only [PyValue.mapTexts, PyValue.textAt, lookup_fieldsMapTexts, getElem?_itemsMapTexts,
        hih, Option.map_none]

/-- What is in a tuple stays in it. -/
theorem inTuple_mapTexts (v : PyValue) (path rest : List PathElem) :
    (v.mapTexts f path).inTuple rest = v.inTuple rest := by
  induction rest generalizing v path with
  | nil => cases v <;> simp [PyValue.mapTexts, PyValue.inTuple]
  | cons e rest ih =>
    have hih : ∀ o : Option PyValue,
        (o.map (·.mapTexts f (path ++ [e]))).any (PyValue.inTuple · rest) =
          o.any (PyValue.inTuple · rest) := by
      rintro (_ | v')
      · rfl
      · exact ih v' _
    rcases e with k | i <;> rcases v with _ | _ | _ | _ | _ | vs | vs | fields <;>
      simp only [PyValue.mapTexts, PyValue.inTuple, lookup_fieldsMapTexts, getElem?_itemsMapTexts,
        hih]

/-! ### Setting a string -/

theorem valid_of_lookup (h : (PyValue.dict fields).Valid) (hk : fields.lookup k = some v) :
    v.Valid := by
  have hv : FieldsValid fields := h.2.2
  exact fieldsValid_iff.1 hv _ (mem_of_lookup hk)

theorem valid_of_getElem? (h : ItemsValid vs) (hi : vs[i]? = some v) : v.Valid :=
  itemsValid_iff.1 h v (List.mem_of_getElem? hi)

/-- A string of a dictionary is set: the other fields are the same. -/
theorem dictSet_fieldsMapTexts (hn : (fields.map Prod.fst).Nodup) (hk : fields.lookup k = some v)
    (hother : ∀ p ∈ fields, p.1 ≠ k →
      p.2.mapTexts f (path ++ [.key p.1]) = p.2.mapTexts g (path ++ [.key p.1])) :
    dictSet k (v.mapTexts g (path ++ [.key k])) (fieldsMapTexts f path fields) =
      fieldsMapTexts g path fields := by
  induction fields with
  | nil => cases hk
  | cons p fields ih =>
    obtain ⟨k', v'⟩ := p
    obtain ⟨hk', hn⟩ := List.nodup_cons.1 hn
    obtain ⟨hfirst, hrest⟩ := List.forall_mem_cons.1 hother
    rw [fieldsMapTexts, fieldsMapTexts, dictSet]
    by_cases heq : k = k'
    · subst heq
      rw [List.lookup_cons_self, Option.some.injEq] at hk
      rw [if_pos rfl, hk, fieldsMapTexts_eq, fieldsMapTexts_eq]
      congr 1
      refine List.map_congr_left fun p hp => ?_
      rw [hrest p hp]
      rintro rfl
      exact hk' (List.mem_map.2 ⟨p, hp, rfl⟩)
    · rw [List.lookup_cons, beq_false_of_ne heq] at hk
      rw [if_neg (Ne.symm heq), ih hn hk hrest, hfirst (Ne.symm heq)]

/-- An item of a list is set: the other items are the same. -/
theorem set_itemsMapTexts (hi : vs[i]? = some v)
    (hother : ∀ j v', vs[j]? = some v' → j ≠ i →
      v'.mapTexts f (path ++ [.index j]) = v'.mapTexts g (path ++ [.index j])) :
    (itemsMapTexts f path 0 vs).set i (v.mapTexts g (path ++ [.index i])) =
      itemsMapTexts g path 0 vs := by
  refine List.ext_getElem? fun j => ?_
  rw [List.getElem?_set, getElem?_itemsMapTexts, getElem?_itemsMapTexts]
  by_cases hj : i = j
  · subst hj
    have hlt : i < (itemsMapTexts f path 0 vs).length := by
      rw [itemsMapTexts_eq, List.length_mapIdx]
      exact (List.getElem?_eq_some_iff.1 hi).1
    rw [if_pos rfl, if_pos hlt, hi, Option.map_some]
  · rw [if_neg hj]
    cases hv : vs[j]? with
    | none => rfl
    | some v' => rw [Option.map_some, Option.map_some, hother j v' hv (Ne.symm hj)]

/-- The strings, with another one at a path. -/
def setText (π : List PathElem) (t : String) (f : List PathElem → String → String) :
    List PathElem → String → String :=
  fun π' s => if π' = π then t else f π' s

theorem mapTexts_setText_of_ne {e e' : PathElem} (hv : v.Valid) (hne : e' ≠ e) :
    v.mapTexts f (path ++ [e']) = v.mapTexts (setText (path ++ e :: rest) t f) (path ++ [e']) := by
  refine mapTexts_congr v hv fun r s _ => (if_neg fun heq => ?_).symm
  rw [List.append_assoc, List.append_cancel_left_eq] at heq
  exact hne (List.cons.inj heq).1

theorem eq_str_of_textAt (h : v.textAt [] = some s) : v = .str s := by
  cases v <;> simp_all [PyValue.textAt]

theorem mapTexts_setText_str {e : PathElem} :
    (PyValue.str s).mapTexts (setText (path ++ [e]) t f) (path ++ [e]) = .str t := by
  rw [PyValue.mapTexts, setText, if_pos rfl]

theorem dictSet_setText (hv : (PyValue.dict fields).Valid) (hk : fields.lookup k = some v) :
    dictSet k (v.mapTexts (setText (path ++ .key k :: rest) t f) (path ++ [.key k]))
      (fieldsMapTexts f path fields) =
        fieldsMapTexts (setText (path ++ .key k :: rest) t f) path fields := by
  have hvs : FieldsValid fields := hv.2.2
  exact dictSet_fieldsMapTexts (nodup_of_valid hv) hk fun p hp hpk =>
    mapTexts_setText_of_ne (fieldsValid_iff.1 hvs p hp) fun h => hpk (PathElem.key.inj h)

theorem set_setText (hv : ItemsValid vs) (hi : vs[i]? = some v) :
    (itemsMapTexts f path 0 vs).set i
        (v.mapTexts (setText (path ++ .index i :: rest) t f) (path ++ [.index i])) =
      itemsMapTexts (setText (path ++ .index i :: rest) t f) path 0 vs :=
  set_itemsMapTexts hi fun _ _ hj hji =>
    mapTexts_setText_of_ne (valid_of_getElem? hv hj) fun h => hji (PathElem.index.inj h)

/-- A string is set at its path, unless it is an item of a tuple. -/
theorem setAtPath_mapTexts (v : PyValue) (path : List PathElem) (hv : v.Valid) (hne : rest ≠ [])
    (hs : v.textAt rest = some s) :
    setAtPath (v.mapTexts f path) rest t =
      if v.inTuple rest then none else some (v.mapTexts (setText (path ++ rest) t f) path) := by
  induction rest generalizing v path with
  | nil => exact absurd rfl hne
  | cons e rest ih =>
    -- The value that another one is set in.
    have hset : ∀ v' : PyValue, v'.Valid → v'.textAt rest = some s → rest ≠ [] →
        setAtPath (v'.mapTexts f (path ++ [e])) rest t = if v'.inTuple rest then none
          else some (v'.mapTexts (setText (path ++ e :: rest) t f) (path ++ [e])) := by
      intro v' hv' hs' hrest
      rw [ih v' (path ++ [e]) hv' hrest hs', List.append_assoc]
      rfl
    rcases e with k | i <;> rcases v with _ | _ | _ | _ | _ | vs | vs | fields <;>
      simp only [PyValue.textAt, reduceCtorEq] at hs
    · obtain ⟨v', hk, hs⟩ := Option.bind_eq_some_iff.1 hs
      simp only [PyValue.mapTexts, setAtPath, PyValue.inTuple, lookup_fieldsMapTexts, hk,
        Option.any_some, Option.map_some, Option.bind_some]
      by_cases hrest : rest = []
      · subst hrest
        obtain rfl := eq_str_of_textAt hs
        rw [if_pos rfl, ← dictSet_setText hv hk, mapTexts_setText_str]
        simp [PyValue.inTuple]
      · rw [if_neg hrest, hset v' (valid_of_lookup hv hk) hs hrest]
        split_ifs
        · rfl
        · rw [Option.map_some, dictSet_setText hv hk]
    · obtain ⟨v', hi, hs⟩ := Option.bind_eq_some_iff.1 hs
      simp only [PyValue.mapTexts, setAtPath, PyValue.inTuple, getElem?_itemsMapTexts, hi,
        Option.any_some, Option.map_some, Option.bind_some]
      by_cases hrest : rest = []
      · subst hrest
        obtain rfl := eq_str_of_textAt hs
        have hlt : i < (itemsMapTexts f path 0 vs).length := by
          rw [itemsMapTexts_eq, List.length_mapIdx]
          exact (List.getElem?_eq_some_iff.1 hi).1
        rw [if_pos rfl, if_pos hlt, ← set_setText hv hi, mapTexts_setText_str]
        simp [PyValue.inTuple]
      · rw [if_neg hrest, hset v' (valid_of_getElem? hv hi) hs hrest]
        split_ifs
        · rfl
        · rw [Option.map_some, set_setText hv hi]
    · obtain ⟨v', hi, hs⟩ := Option.bind_eq_some_iff.1 hs
      simp only [PyValue.mapTexts, setAtPath, PyValue.inTuple, getElem?_itemsMapTexts, hi,
        Option.any_some, Option.map_some, Option.bind_some]
      by_cases hrest : rest = []
      · simp [hrest]
      · rw [if_neg hrest, hset v' (valid_of_getElem? hv hi) hs hrest, decide_eq_false hrest,
          Bool.false_or]
        split_ifs
        · rfl
        · rw [Option.map_some, set_setText hv hi]

/-! ### Groups -/

theorem samePath_iff {x y : PiiFinding} :
    samePath x y = true ↔ x.path.map PathElem.sortKey = y.path.map PathElem.sortKey :=
  decide_eq_true_iff

/-- Findings of a path that is greater. -/
theorem path_le_of_sortKey_le {x y : PiiFinding} (h : x.sortKey ≤ y.sortKey) :
    x.path.map PathElem.sortKey ≤ y.path.map PathElem.sortKey := by
  rcases Prod.Lex.le_iff.1 h with h | ⟨h, -⟩
  · exact le_of_lt h
  · exact le_of_eq h

/-- The groups are those of the paths. -/
structure Groups (findings : List PiiFinding) (groups : List (List PiiFinding)) : Prop where
  flatten : groups.flatten = findings
  filter : ∀ group ∈ groups, ∃ x rest, group = x :: rest ∧ group = findings.filter (samePath x)

theorem samePath_self (x : PiiFinding) : samePath x x = true := samePath_iff.2 rfl

theorem samePath_congr {x y : PiiFinding} (h : samePath x y = true) : samePath x = samePath y := by
  funext z
  rw [samePath, samePath, samePath_iff.1 h]

theorem groups_groupFindings {findings : List PiiFinding}
    (h : findings.Pairwise fun x y => x.sortKey ≤ y.sortKey) :
    Groups findings (groupFindings findings) := by
  induction findings with
  | nil => exact ⟨rfl, List.forall_mem_nil _⟩
  | cons x findings ih =>
    obtain ⟨hx, h⟩ := List.pairwise_cons.1 h
    obtain ⟨hflatten, hfilter⟩ := ih h
    -- A group that has none of the findings of the first path.
    have hother : ∀ group, (∃ z rest, group = z :: rest ∧ group = findings.filter (samePath z)) →
        (∀ z ∈ group, samePath z x = false) →
        ∃ z rest, group = z :: rest ∧ group = (x :: findings).filter (samePath z) := by
      rintro group ⟨z, rest, rfl, hgroup⟩ hz
      refine ⟨z, rest, rfl, ?_⟩
      rwa [List.filter_cons_of_neg (Bool.eq_false_iff.1 (hz z List.mem_cons_self))]
    rw [groupFindings]
    split
    · rename_i y group groups heq
      rw [heq] at hflatten hfilter
      obtain ⟨hfirst, hrest⟩ := List.forall_mem_cons.1 hfilter
      obtain ⟨y', group', hcons, hgroup⟩ := hfirst
      obtain ⟨rfl, rfl⟩ := List.cons.inj hcons
      have hy : y ∈ findings := List.mem_of_mem_filter (hgroup ▸ List.mem_cons_self)
      split_ifs with hxy
      · refine ⟨congrArg (x :: ·) hflatten, List.forall_mem_cons.2 ⟨⟨x, y :: group, rfl, ?_⟩, ?_⟩⟩
        · rw [List.filter_cons_of_pos (samePath_self x), samePath_congr hxy, ← hgroup]
        · -- All findings of the path are in the first group.
          intro group' hgroup'
          refine hother group' (hrest group' hgroup') fun z hz => Bool.eq_false_iff.2 fun hzx => ?_
          have hyz : samePath y z = true :=
            samePath_iff.2 ((samePath_iff.1 hzx).trans (samePath_iff.1 hxy)).symm
          have hall : (y :: group).filter (samePath y) = y :: group := by
            rw [hgroup, List.filter_filter]
            simp only [Bool.and_self]
          have hnil : groups.flatten.filter (samePath y) = [] := by
            have := congrArg (List.filter (samePath y)) hflatten
            rw [List.flatten_cons, List.filter_append, hall, ← hgroup] at this
            exact List.append_right_eq_self.1 this
          exact List.filter_eq_nil_iff.1 hnil z (List.mem_flatten.2 ⟨group', hgroup', hz⟩) hyz
      · -- The other paths are greater than the first one.
        have hlt : ∀ z ∈ findings, x.path.map PathElem.sortKey < z.path.map PathElem.sortKey := by
          have hlt : x.path.map PathElem.sortKey < y.path.map PathElem.sortKey :=
            lt_of_le_of_ne (path_le_of_sortKey_le (hx y hy)) fun h => hxy (samePath_iff.2 h)
          intro z hz
          refine hlt.trans_le ?_
          rw [← hflatten, List.flatten_cons, List.cons_append] at hz h
          rcases List.mem_cons.1 hz with rfl | hz
          · exact le_refl _
          · exact path_le_of_sortKey_le ((List.pairwise_cons.1 h).1 z hz)
        refine ⟨congrArg (x :: ·) hflatten, List.forall_mem_cons.2 ⟨⟨x, [], rfl, ?_⟩, ?_⟩⟩
        · rw [List.filter_cons_of_pos (samePath_self x), List.filter_eq_nil_iff.2]
          exact fun z hz hxz => (hlt z hz).ne (samePath_iff.1 hxz)
        · intro group' hgroup'
          refine hother group' (hfilter group' hgroup') fun z hz => Bool.eq_false_iff.2 fun hzx => ?_
          have hmem : z ∈ findings := hflatten ▸ List.mem_flatten.2 ⟨group', hgroup', hz⟩
          exact (hlt z hmem).ne' (samePath_iff.1 hzx)
    · rename_i groups hne
      have hnil : groupFindings findings = [] := by
        cases hgroups : groupFindings findings with
        | nil => rfl
        | cons group groups =>
          obtain ⟨y, rest, rfl, -⟩ := hfilter group (hgroups ▸ List.mem_cons_self)
          exact absurd hgroups (hne y rest groups)
      rw [hnil] at hflatten ⊢
      obtain rfl : findings = [] := hflatten.symm
      refine ⟨rfl, List.forall_mem_singleton.2 ⟨x, [], rfl, ?_⟩⟩
      rw [List.filter_cons_of_pos (samePath_self x), List.filter_nil]

/-! ### The scrub as a whole -/

/-- Paths of strings of one value are equal if they cannot be told apart. -/
theorem path_eq_of_sortKey_eq {π π' : List PathElem} (hv : v.Valid) (hs : v.textAt π = some s)
    (ht : v.textAt π' = some t) (h : π.map PathElem.sortKey = π'.map PathElem.sortKey) :
    π = π' := by
  induction π generalizing v π' with
  | nil => exact (List.map_eq_nil_iff.1 h.symm).symm
  | cons e π ih =>
    obtain ⟨e', π', rfl, he, hπ⟩ := List.map_eq_cons_iff.1 h.symm
    have hindex : ∀ i i' : ℕ, (PathElem.index i').sortKey = (PathElem.index i).sortKey → i = i' := by
      intro i i' hii
      have hone : (Binary64.one : ℤ) ≠ 0 := Nat.cast_ne_zero.2 Binary64.one_pos.ne'
      have := (Prod.ext_iff.1 (Prod.ext_iff.1 hii).2).1
      exact Nat.cast_injective (mul_right_cancel₀ hone this).symm
    rcases v with _ | _ | _ | _ | _ | vs | vs | fields <;> rcases e with k | i <;>
      rcases e' with k' | i' <;> simp only [PyValue.textAt, reduceCtorEq] at hs ht
    · obtain ⟨w, hw, hs'⟩ := Option.bind_eq_some_iff.1 hs
      obtain ⟨w', hw', ht'⟩ := Option.bind_eq_some_iff.1 ht
      obtain rfl := hindex i i' he
      obtain rfl := Option.some.inj (hw.symm.trans hw')
      rw [ih (valid_of_getElem? hv hw) hs' ht' hπ.symm]
    · obtain ⟨w, hw, hs'⟩ := Option.bind_eq_some_iff.1 hs
      obtain ⟨w', hw', ht'⟩ := Option.bind_eq_some_iff.1 ht
      obtain rfl := hindex i i' he
      obtain rfl := Option.some.inj (hw.symm.trans hw')
      rw [ih (valid_of_getElem? hv hw) hs' ht' hπ.symm]
    · obtain ⟨w, hw, hs'⟩ := Option.bind_eq_some_iff.1 hs
      obtain ⟨w', hw', ht'⟩ := Option.bind_eq_some_iff.1 ht
      obtain rfl : k' = k := congrArg Prod.fst
        (List.inj_on_of_nodup_map hv.1 (mem_of_lookup hw') (mem_of_lookup hw) he)
      obtain rfl := Option.some.inj (hw.symm.trans hw')
      rw [ih (valid_of_lookup hv hw) hs' ht' hπ.symm]

mutual

/-- The value with the same strings. -/
theorem mapTexts_id : ∀ {path : List PathElem} (v : PyValue), v.mapTexts (fun _ s => s) path = v
  | path, .str s => by rw [PyValue.mapTexts]
  | path, .dict fields => by rw [PyValue.mapTexts, fieldsMapTexts_id fields]
  | path, .list vs => by rw [PyValue.mapTexts, itemsMapTexts_id vs]
  | path, .tuple vs => by rw [PyValue.mapTexts, itemsMapTexts_id vs]
  | path, .none | path, .bool _ | path, .int _ | path, .float _ => by simp only [PyValue.mapTexts]

theorem fieldsMapTexts_id : ∀ {path : List PathElem} (fields : List (PyKey × PyValue)),
    fieldsMapTexts (fun _ s => s) path fields = fields
  | path, [] => rfl
  | path, (k, v) :: fields => by rw [fieldsMapTexts, mapTexts_id v, fieldsMapTexts_id fields]

theorem itemsMapTexts_id : ∀ {path : List PathElem} {i : ℕ} (vs : List PyValue),
    itemsMapTexts (fun _ s => s) path i vs = vs
  | path, i, [] => rfl
  | path, i, v :: vs => by rw [itemsMapTexts, mapTexts_id v, itemsMapTexts_id vs]

end

/-- The groups are set one after another, each at its path. -/
theorem foldlM_setGroup {groups : List (List PiiFinding)} (hv : v.Valid)
    (h : ∀ group ∈ groups, ∃ x rest, group = x :: rest ∧ x.path ≠ [] ∧
      v.textAt x.path = some x.fullValue ∧ (∀ y ∈ group, y.path = x.path) ∧
      redactGroup group x.fullValue = g x.path x.fullValue) :
    groups.foldlM setGroup (v.mapTexts f []) =
      if ∃ x ∈ groups.flatten, v.inTuple x.path then none
      else some (v.mapTexts (fun π s => if ∃ x ∈ groups.flatten, x.path = π then g π s else f π s)
        []) := by
  induction groups generalizing f with
  | nil => simp [pure]
  | cons group groups ih =>
    obtain ⟨hfirst, hrest⟩ := List.forall_mem_cons.1 h
    obtain ⟨x, rest, rfl, hne, hs, hpath, htext⟩ := hfirst
    -- The first group has one path.
    have hflatten : ∀ p : List PathElem → Prop, (∃ y ∈ ((x :: rest) :: groups).flatten, p y.path) ↔
        p x.path ∨ ∃ y ∈ groups.flatten, p y.path := by
      intro p
      simp only [List.flatten_cons, List.mem_append, or_and_right, exists_or]
      refine or_congr ⟨?_, fun hp => ⟨x, List.mem_cons_self, hp⟩⟩ Iff.rfl
      rintro ⟨y, hy, hp⟩
      rwa [hpath y hy] at hp
    rw [List.foldlM_cons, setGroup, setAtPath_mapTexts v [] hv hne hs, htext, List.nil_append]
    simp only [hflatten fun π => v.inTuple π = true]
    by_cases hx : v.inTuple x.path
    · rw [if_pos hx, if_pos (.inl hx)]
      rfl
    · rw [if_neg hx, Option.bind_eq_bind, Option.bind_some, ih hrest]
      simp only [hx, Bool.false_eq_true, false_or]
      split_ifs
      · rfl
      · congr 1
        refine mapTexts_congr v hv fun π t ht => ?_
        simp only [List.nil_append, hflatten fun π' => π' = π]
        by_cases hπ : x.path = π
        · subst hπ
          obtain rfl := Option.some.inj (hs.symm.trans ht)
          simp [setText]
        · rw [if_congr (or_iff_right hπ) rfl rfl, setText, if_neg (Ne.symm hπ)]

/-- The string of a path, with its findings replaced. -/
def scrubText (findings : List PiiFinding) (π : List PathElem) (s : String) : String :=
  redactGroup ((findings.insertionSort fun f g => f.sortKey ≤ g.sortKey).filter (·.path = π)) s

theorem scrubText_of_forall_ne {findings : List PiiFinding} {π : List PathElem}
    (h : ∀ f ∈ findings, f.path ≠ π) : scrubText findings π s = s := by
  rw [scrubText, List.filter_eq_nil_iff.2]
  · exact String.ofList_toList
  · intro f hf
    simpa using h f ((List.mem_insertionSort _).1 hf)

/-- The scrub replaces the findings of each string, unless it raises. -/
theorem scrubInPython_eq {m : PyDict} {findings : List PiiFinding} (hm : (PyValue.dict m).Valid)
    (h : ∀ f ∈ findings, (PyValue.dict m).textAt f.path = some f.fullValue) :
    scrubInPython m findings =
      if (∀ f ∈ findings, ∀ g ∈ findings, comparable f.path g.path) ∧
        ∀ f ∈ findings, (PyValue.dict m).inTuple f.path = false
      then some (fieldsMapTexts (scrubText findings) [] m) else none := by
  rw [scrubInPython]
  by_cases hnil : findings = []
  · subst hnil
    rw [if_pos rfl, if_pos ⟨List.forall_mem_nil _, List.forall_mem_nil _⟩,
      show scrubText [] = fun _ s => s by
        funext π s
        exact scrubText_of_forall_ne (List.forall_mem_nil _),
      fieldsMapTexts_id]
  rw [if_neg hnil, sortFindings]
  by_cases hcomp : ∀ f ∈ findings, ∀ g ∈ findings, comparable f.path g.path
  · rw [if_pos hcomp]
    set sorted := findings.insertionSort fun f g => f.sortKey ≤ g.sortKey with hsorted
    have hmem : ∀ f, f ∈ sorted ↔ f ∈ findings := fun f => List.mem_insertionSort _
    obtain ⟨hflatten, hfilter⟩ := groups_groupFindings (List.pairwise_insertionSort _ findings)
    rw [← hsorted] at hflatten hfilter
    have hgroups : ∀ group ∈ groupFindings sorted, ∃ x rest, group = x :: rest ∧ x.path ≠ [] ∧
        (PyValue.dict m).textAt x.path = some x.fullValue ∧ (∀ y ∈ group, y.path = x.path) ∧
        redactGroup group x.fullValue = scrubText findings x.path x.fullValue := by
      intro group hgroup
      obtain ⟨x, rest, rfl, hx⟩ := hfilter group hgroup
      have hxs := h x ((hmem x).1 (List.mem_of_mem_filter (hx ▸ List.mem_cons_self)))
      have hsame : ∀ y ∈ sorted, samePath x y = true ↔ y.path = x.path := by
        intro y hy
        rw [samePath_iff]
        exact ⟨fun hxy => path_eq_of_sortKey_eq hm (h y ((hmem y).1 hy)) hxs hxy.symm,
          fun hxy => by rw [hxy]⟩
      refine ⟨x, rest, rfl, ?_, hxs, fun y hy => ?_, ?_⟩
      · intro hpath
        rw [hpath] at hxs
        cases hxs
      · rw [hx] at hy
        exact (hsame y (List.mem_of_mem_filter hy)).1 (List.of_mem_filter hy)
      · rw [scrubText, ← hsorted, hx]
        congr 1
        refine List.filter_congr fun y hy => ?_
        rw [Bool.eq_iff_iff, hsame y hy, decide_eq_true_iff]
    have hfold := foldlM_setGroup (f := fun _ s => s) hm hgroups
    rw [mapTexts_id, hflatten] at hfold
    rw [Option.bind_eq_bind, Option.bind_some, hfold]
    simp only [hmem]
    by_cases htuple : ∃ x ∈ findings, (PyValue.dict m).inTuple x.path = true
    · rw [if_pos htuple, if_neg]
      · rfl
      · rintro ⟨-, hall⟩
        obtain ⟨x, hx, htrue⟩ := htuple
        rw [hall x hx] at htrue
        cases htrue
    · rw [if_neg htuple, if_pos ⟨hcomp, fun f hf => Bool.eq_false_iff.2 fun htrue =>
        htuple ⟨f, hf, htrue⟩⟩, Option.bind_eq_bind, Option.bind_some]
      have hcongr : (PyValue.dict m).mapTexts
          (fun π s => if ∃ x ∈ findings, x.path = π then scrubText findings π s else s) [] =
            (PyValue.dict m).mapTexts (scrubText findings) [] := by
        refine mapTexts_congr _ hm fun π t _ => ?_
        split_ifs with hπ
        · rfl
        · exact (scrubText_of_forall_ne fun f hf hfπ => hπ ⟨f, hf, hfπ⟩).symm
      rw [hcongr, PyValue.mapTexts]
  · rw [if_neg hcomp, if_neg fun hall => hcomp hall.1]
    rfl

end AslanCore.Timeseries
