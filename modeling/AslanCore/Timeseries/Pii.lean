import AslanCore.Timeseries.Metadata

/-!
# Patterns of personal data

The search for strings that look like personal data: an e-mail address, or a name. It looks at
the values of the metadata, at any depth, outside the top-level `subjects`; it does not look at
the names of the fields. What the regular expressions find is a parameter.

* `findPiiInClearText`, `findPiiInMetadata`: the two searches;
* `findPiiInMetadata_eq_nil_iff`: the second finds nothing if there is no match in any value;
* `strings_jsonb`: what is stored has no other strings than the values and the names;
* `not_matches_metadataStrings`: so there is no match in the values that are stored, and none in
  the names if there was none.
-/

namespace AslanCore.Timeseries

/-- The fields of a dictionary. -/
abbrev PyDict := List (PyKey × PyValue)

/-- An element of the path to a value. -/
inductive PathElem
  | key (k : PyKey)
  | index (i : ℕ)
  deriving DecidableEq

/-- A match, with the path to the string it is in. -/
structure PiiFinding where
  path : List PathElem
  matchedPattern : String
  matchedText : String
  span : ℕ × ℕ
  fullValue : String
  deriving DecidableEq

/-- `_PATTERN_TABLE`: the names of the patterns, with `finditer` of each, which gives the text
    and the span of every match. -/
abbrev PatternTable := List (String × (String → List (String × ℕ × ℕ)))

/-- There is a match in the string. -/
def PatternTable.Matches (table : PatternTable) (s : String) : Prop :=
  ∃ p ∈ table, p.2 s ≠ []

variable (table : PatternTable)

/-- `_scan_string`: one finding for each match. -/
def scanPii (path : List PathElem) (fullValue : String) : List PiiFinding :=
  table.flatMap fun (matchedPattern, finditer) =>
    (finditer fullValue).map fun (matchedText, span) =>
      { path, matchedPattern, matchedText, span, fullValue }

/-- `find_pii_in_clear_text`. -/
def findPiiInClearText (fieldName : String) : Option String → List PiiFinding
  | none => []
  | some value => scanPii table [.key (.str fieldName)] value

mutual

/-- `_walk`: the findings in the strings of a value. -/
def walk (path : List PathElem) : PyValue → List PiiFinding
  | .str s => scanPii table path s
  | .dict fields => walkFields path fields
  | .list vs => walkItems path 0 vs
  | .tuple vs => walkItems path 0 vs
  | _ => []

def walkFields (path : List PathElem) : List (PyKey × PyValue) → List PiiFinding
  | [] => []
  | (k, v) :: fields => walk (path ++ [.key k]) v ++ walkFields path fields

def walkItems (path : List PathElem) (i : ℕ) : List PyValue → List PiiFinding
  | [] => []
  | v :: vs => walk (path ++ [.index i]) v ++ walkItems path (i + 1) vs

end

/-- `find_pii_in_metadata`, which skips the top-level `subjects`. -/
def findPiiInMetadata : Option PyDict → List PiiFinding
  | none => []
  | some metadata =>
    metadata.flatMap fun (k, v) => if k = .str "subjects" then [] else walk table [.key k] v

/-! ### Strings -/

mutual

/-- The strings among the values. -/
def PyValue.texts : PyValue → List String
  | .str s => [s]
  | .dict fields => fieldsTexts fields
  | .list vs => itemsTexts vs
  | .tuple vs => itemsTexts vs
  | _ => []

def fieldsTexts : List (PyKey × PyValue) → List String
  | [] => []
  | (_, v) :: fields => v.texts ++ fieldsTexts fields

def itemsTexts : List PyValue → List String
  | [] => []
  | v :: vs => v.texts ++ itemsTexts vs

end

mutual

/-- The names of the fields. -/
def PyValue.names : PyValue → List String
  | .dict fields => fieldsNames fields
  | .list vs => itemsNames vs
  | .tuple vs => itemsNames vs
  | _ => []

def fieldsNames : List (PyKey × PyValue) → List String
  | [] => []
  | (k, v) :: fields => k.text :: (v.names ++ fieldsNames fields)

def itemsNames : List PyValue → List String
  | [] => []
  | v :: vs => v.names ++ itemsNames vs

end

mutual

/-- The strings of a document, with or without the names of its fields. -/
def Jsonb.strings (names : Bool) : Jsonb → List String
  | .str s => [s]
  | .obj fields => fieldsStrings names fields
  | .arr js => itemsStrings names js
  | _ => []

def fieldsStrings (names : Bool) : List (String × Jsonb) → List String
  | [] => []
  | (k, j) :: fields =>
    (if names then [k] else []) ++ j.strings names ++ fieldsStrings names fields

def itemsStrings (names : Bool) : List Jsonb → List String
  | [] => []
  | j :: js => j.strings names ++ itemsStrings names js

end

/-- The strings of the metadata of a row, outside the top-level `subjects`. -/
def Jsonb.metadataStrings (names : Bool) : Jsonb → List String
  | .obj fields => fieldsStrings names (fields.filter fun f => f.1 ≠ "subjects")
  | j => j.strings names

variable {table} {path : List PathElem} {s : String} {k : String} {j : Jsonb} {names : Bool}
  {fields : List (String × Jsonb)}

theorem scanPii_eq_nil_iff : scanPii table path s = [] ↔ ¬table.Matches s := by
  simp only [scanPii, List.flatMap_eq_nil_iff, List.map_eq_nil_iff, PatternTable.Matches, not_exists,
    not_and, not_not]

theorem findPiiInClearText_eq_nil_iff {fieldName : String} {value : Option String} :
    findPiiInClearText table fieldName value = [] ↔ ∀ s ∈ value, ¬table.Matches s := by
  cases value with
  | none => exact iff_of_true rfl nofun
  | some s => simp only [findPiiInClearText, scanPii_eq_nil_iff, Option.mem_def, Option.some.injEq,
      forall_eq']

mutual

theorem walk_eq_nil_iff (path : List PathElem) :
    ∀ v : PyValue, walk table path v = [] ↔ ∀ s ∈ v.texts, ¬table.Matches s
  | .str s => by
    simp only [walk, scanPii_eq_nil_iff, PyValue.texts, List.mem_singleton, forall_eq]
  | .dict fields => by
    simp only [walk, PyValue.texts]
    exact walkFields_eq_nil_iff path fields
  | .list vs => by
    simp only [walk, PyValue.texts]
    exact walkItems_eq_nil_iff path 0 vs
  | .tuple vs => by
    simp only [walk, PyValue.texts]
    exact walkItems_eq_nil_iff path 0 vs
  | .none | .bool _ | .int _ | .float _ => by simp [walk, PyValue.texts]

theorem walkFields_eq_nil_iff (path : List PathElem) :
    ∀ fields : List (PyKey × PyValue),
      walkFields table path fields = [] ↔ ∀ s ∈ fieldsTexts fields, ¬table.Matches s
  | [] => by simp [walkFields, fieldsTexts]
  | (k, v) :: fields => by
    simp only [walkFields, fieldsTexts, List.append_eq_nil_iff, List.forall_mem_append]
    exact and_congr (walk_eq_nil_iff _ v) (walkFields_eq_nil_iff path fields)

theorem walkItems_eq_nil_iff (path : List PathElem) (i : ℕ) :
    ∀ vs : List PyValue, walkItems table path i vs = [] ↔ ∀ s ∈ itemsTexts vs, ¬table.Matches s
  | [] => by simp [walkItems, itemsTexts]
  | v :: vs => by
    simp only [walkItems, itemsTexts, List.append_eq_nil_iff, List.forall_mem_append]
    exact and_congr (walk_eq_nil_iff _ v) (walkItems_eq_nil_iff path (i + 1) vs)

end

/-- Nothing is found in the metadata if there is no match in a value outside `subjects`. -/
theorem findPiiInMetadata_eq_nil_iff {metadata : PyDict} :
    findPiiInMetadata table (some metadata) = [] ↔
      ∀ f ∈ metadata, f.1 ≠ .str "subjects" → ∀ s ∈ f.2.texts, ¬table.Matches s := by
  simp only [findPiiInMetadata, List.flatMap_eq_nil_iff]
  refine forall₂_congr fun f _ => ?_
  by_cases hk : f.1 = .str "subjects"
  · simp only [hk, if_true, ne_eq, not_true, false_implies]
  · simp only [hk, if_false, ne_eq, not_false_iff, true_implies, walk_eq_nil_iff]

/-! ### What is stored -/

theorem mem_putField {f : String × Jsonb} (h : f ∈ putField k j fields) :
    f = (k, j) ∨ f ∈ fields := by
  induction fields with
  | nil => exact .inl (List.mem_singleton.1 h)
  | cons f' fields ih =>
    obtain ⟨k', j'⟩ := f'
    rw [putField] at h
    split_ifs at h with hlt heq
    · exact List.mem_cons.1 h
    · exact (List.mem_cons.1 h).imp_right (List.mem_cons_of_mem _)
    · rcases List.mem_cons.1 h with rfl | h
      · exact .inr List.mem_cons_self
      · exact (ih h).imp_right (List.mem_cons_of_mem _)

theorem mem_fieldsStrings :
    s ∈ fieldsStrings names fields ↔
      ∃ f ∈ fields, names = true ∧ s = f.1 ∨ s ∈ f.2.strings names := by
  induction fields with
  | nil => simp [fieldsStrings]
  | cons f fields ih =>
    simp only [fieldsStrings, List.mem_cons, List.mem_append, ih, exists_eq_or_imp]
    cases names <;> simp

theorem mem_fieldsStrings_putField (h : s ∈ fieldsStrings names (putField k j fields)) :
    names = true ∧ s = k ∨ s ∈ j.strings names ∨ s ∈ fieldsStrings names fields := by
  obtain ⟨f, hf, hs⟩ := mem_fieldsStrings.1 h
  rcases mem_putField hf with rfl | hf
  · exact hs.imp_right .inl
  · exact .inr (.inr (mem_fieldsStrings.2 ⟨f, hf, hs⟩))

/-- A stored field is one that was there, or one of the dictionary. -/
theorem mem_fieldsJsonb {acc : List (String × Jsonb)} {f : String × Jsonb} :
    ∀ {metadata : PyDict}, fieldsJsonb acc metadata = some fields → f ∈ fields →
      f ∈ acc ∨ ∃ g ∈ metadata, f.1 = g.1.text ∧ g.2.jsonb = some f.2
  | [], h, hf => .inl (by
    rw [fieldsJsonb] at h
    exact Option.some.inj h ▸ hf)
  | (k, v) :: metadata, h, hf => by
    simp only [fieldsJsonb] at h
    split at h
    · rename_i j hj
      split_ifs at h
      rcases mem_fieldsJsonb h hf with hf | ⟨g, hg, hfg⟩
      · rcases mem_putField hf with rfl | hf
        · exact .inr ⟨(k, v), List.mem_cons_self, rfl, hj⟩
        · exact .inl hf
      · exact .inr ⟨g, List.mem_cons_of_mem _ hg, hfg⟩
    · cases h

mutual

/-- The strings of what is stored are those of the value, and the names are those of its
    fields. -/
theorem strings_jsonb :
    ∀ {v : PyValue} {j : Jsonb}, v.jsonb = some j → s ∈ j.strings names →
      s ∈ v.texts ∨ names = true ∧ s ∈ v.names
  | .str t, j, h, hs => by
    rw [PyValue.jsonb] at h
    split_ifs at h
    obtain rfl := Option.some.inj h
    exact .inl hs
  | .list vs, j, h, hs => by
    rw [PyValue.jsonb] at h
    obtain ⟨js, hjs, rfl⟩ := Option.map_eq_some_iff.1 h
    exact itemsStrings_jsonb hjs hs
  | .tuple vs, j, h, hs => by
    rw [PyValue.jsonb] at h
    obtain ⟨js, hjs, rfl⟩ := Option.map_eq_some_iff.1 h
    exact itemsStrings_jsonb hjs hs
  | .dict metadata, j, h, hs => by
    rw [PyValue.jsonb] at h
    obtain ⟨fields, hfields, rfl⟩ := Option.map_eq_some_iff.1 h
    exact (fieldsStrings_jsonb hfields hs).resolve_left List.not_mem_nil
  | .none, j, h, hs => by
    rw [PyValue.jsonb] at h
    obtain rfl := Option.some.inj h
    exact absurd hs List.not_mem_nil
  | .bool b, j, h, hs => by
    rw [PyValue.jsonb] at h
    obtain rfl := Option.some.inj h
    exact absurd hs List.not_mem_nil
  | .int n, j, h, hs => by
    rw [PyValue.jsonb] at h
    split_ifs at h
    obtain rfl := Option.some.inj h
    exact absurd hs List.not_mem_nil
  | .float bits, j, h, hs => by
    rw [PyValue.jsonb] at h
    split_ifs at h
    obtain rfl := Option.some.inj h
    exact absurd hs List.not_mem_nil

theorem itemsStrings_jsonb :
    ∀ {vs : List PyValue} {js : List Jsonb}, itemsJsonb vs = some js →
      s ∈ itemsStrings names js → s ∈ itemsTexts vs ∨ names = true ∧ s ∈ itemsNames vs
  | [], js, h, hs => by
    rw [itemsJsonb] at h
    obtain rfl := Option.some.inj h
    exact absurd hs List.not_mem_nil
  | v :: vs, js, h, hs => by
    simp only [itemsJsonb] at h
    split at h
    · rename_i j js' hj hjs
      obtain rfl := Option.some.inj h
      simp only [itemsTexts, itemsNames, List.mem_append]
      rcases List.mem_append.1 hs with hs | hs
      · exact (strings_jsonb hj hs).imp .inl (.imp_right .inl)
      · exact (itemsStrings_jsonb hjs hs).imp .inr (.imp_right .inr)
    · cases h

theorem fieldsStrings_jsonb :
    ∀ {metadata : List (PyKey × PyValue)} {acc fields : List (String × Jsonb)},
      fieldsJsonb acc metadata = some fields → s ∈ fieldsStrings names fields →
      s ∈ fieldsStrings names acc ∨ s ∈ fieldsTexts metadata ∨
        names = true ∧ s ∈ fieldsNames metadata
  | [], acc, fields, h, hs => by
    rw [fieldsJsonb] at h
    exact .inl (Option.some.inj h ▸ hs)
  | (k, v) :: metadata, acc, fields, h, hs => by
    simp only [fieldsJsonb] at h
    split at h
    · rename_i j hj
      split_ifs at h
      simp only [fieldsTexts, fieldsNames, List.mem_append, List.mem_cons]
      rcases fieldsStrings_jsonb h hs with hs | hs | ⟨hnames, hs⟩
      · rcases mem_fieldsStrings_putField hs with ⟨hnames, rfl⟩ | hs | hs
        · exact .inr (.inr ⟨hnames, .inl rfl⟩)
        · rcases strings_jsonb hj hs with hs | ⟨hnames, hs⟩
          · exact .inr (.inl (.inl hs))
          · exact .inr (.inr ⟨hnames, .inr (.inl hs)⟩)
        · exact .inl hs
      · exact .inr (.inl (.inr hs))
      · exact .inr (.inr ⟨hnames, .inr (.inr hs)⟩)
    · cases h

end

/-- There is no match in the name of a field, outside the top-level `subjects`. -/
def NamesClear (table : PatternTable) (metadata : PyDict) : Prop :=
  ∀ f ∈ metadata, f.1 ≠ .str "subjects" → ∀ s ∈ f.1.text :: f.2.names, ¬table.Matches s

/-- Metadata in which nothing is found are stored without a match in the values; and without
    one in the names, if there was none. -/
theorem not_matches_metadataStrings {metadata : PyDict}
    (hj : (PyValue.dict metadata).jsonb = some j)
    (hpii : findPiiInMetadata table (some metadata) = [])
    (hnames : names = true → NamesClear table metadata) :
    ∀ s ∈ j.metadataStrings names, ¬table.Matches s := by
  intro s hs
  rw [PyValue.jsonb] at hj
  obtain ⟨fields, hfields, rfl⟩ := Option.map_eq_some_iff.1 hj
  obtain ⟨f, hf, hsf⟩ := mem_fieldsStrings.1 hs
  obtain ⟨hf, hsubjects⟩ := List.mem_filter.1 hf
  obtain ⟨g, hg, hname, hvalue⟩ := (mem_fieldsJsonb hfields hf).resolve_left List.not_mem_nil
  have hg' : g.1 ≠ .str "subjects" := by
    intro heq
    rw [heq] at hname
    exact of_decide_eq_true hsubjects hname
  rcases hsf with ⟨htrue, rfl⟩ | hsf
  · exact hnames htrue g hg hg' _ (hname ▸ List.mem_cons_self)
  · rcases strings_jsonb hvalue hsf with hs | ⟨htrue, hs⟩
    · exact findPiiInMetadata_eq_nil_iff.1 hpii g hg hg' s hs
    · exact hnames htrue g hg hg' s (List.mem_cons_of_mem _ hs)

end AslanCore.Timeseries
