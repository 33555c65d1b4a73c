import AslanCore.Json.Locations
import AslanCore.Json.Same

/-!
# Limits of JSON texts

A value of JSON is written and read back as it is, if its integers have few digits and its containers
are not nested too deeply.

* `Json.readable_iff`: it is so exactly then;
* `loadsDict`: what `json.loads` returns for the text of an object, also if names are no texts;
* `loadsDict_render`: an object that is written is read as its fields.
-/

namespace AslanCore

/-! ### Values that are written and read back -/

mutual

/-- How deep containers are in one another. -/
def Json.nesting : Json → ℕ
  | .arr js => itemsNesting js + 1
  | .obj fields => fieldsNesting fields + 1
  | _ => 0

def itemsNesting : List Json → ℕ
  | [] => 0
  | j :: js => max j.nesting (itemsNesting js)

def fieldsNesting : JsonObject → ℕ
  | [] => 0
  | (_, j) :: fields => max j.nesting (fieldsNesting fields)

end

mutual

/-- Floats are numbers, strings are texts, and no object has two fields of one name. -/
def Json.IsJson : Json → Prop
  | .float bits => Json.floatMagnitude bits < Binary64.infinity
  | .notText => False
  | .arr js => ItemsJson js
  | .obj fields => JsonObject.NodupKeys fields ∧ FieldsJson fields
  | _ => True

def ItemsJson : List Json → Prop
  | [] => True
  | j :: js => j.IsJson ∧ ItemsJson js

def FieldsJson : JsonObject → Prop
  | [] => True
  | (_, j) :: fields => j.IsJson ∧ FieldsJson fields

end

variable {j : Json} {js : List Json} {fields : JsonObject} {d : ℕ}

theorem itemsNesting_le_iff : itemsNesting js ≤ d ↔ ∀ j ∈ js, j.nesting ≤ d := by
  induction js with
  | nil => exact iff_of_true (Nat.zero_le d) nofun
  | cons j js ih => rw [itemsNesting, max_le_iff, ih, List.forall_mem_cons]

theorem fieldsNesting_le_iff : fieldsNesting fields ≤ d ↔ ∀ f ∈ fields, f.2.nesting ≤ d := by
  induction fields with
  | nil => exact iff_of_true (Nat.zero_le d) nofun
  | cons f fields ih => rw [fieldsNesting, max_le_iff, ih, List.forall_mem_cons]

theorem itemsJson_iff : ItemsJson js ↔ ∀ j ∈ js, j.IsJson := by
  induction js with
  | nil => exact iff_of_true trivial nofun
  | cons j js ih => rw [ItemsJson, ih, List.forall_mem_cons]

theorem fieldsJson_iff : FieldsJson fields ↔ ∀ f ∈ fields, f.2.IsJson := by
  induction fields with
  | nil => exact iff_of_true trivial nofun
  | cons f fields ih => rw [FieldsJson, ih, List.forall_mem_cons]

namespace Json

theorem readable_arr_iff : (arr js).Readable (d + 1) ↔ ∀ j ∈ js, j.Readable d := by
  refine ⟨fun h => ?_, .arr⟩
  rcases h with _ | _ | _ | _ | _ | h
  exact h

theorem readable_obj_iff :
    (obj fields).Readable (d + 1) ↔ fields.NodupKeys ∧ ∀ f ∈ fields, f.2.Readable d := by
  refine ⟨fun h => ?_, fun h => .obj h.1 h.2⟩
  rcases h with _ | _ | _ | _ | _ | _ | ⟨hn, h⟩
  exact ⟨hn, h⟩

/-- A value is read back as it is exactly if its integers have few digits, and its containers are not
    nested too deeply. -/
theorem readable_iff (hj : j.IsJson) : j.Readable d ↔ j.writable = true ∧ j.nesting ≤ d := by
  induction j using induct generalizing d with
  | hleaf j hleaf =>
    rcases j with _ | b | n | bits | s | _ | _ | _
    · exact iff_of_true .null ⟨rfl, Nat.zero_le d⟩
    · exact iff_of_true (.bool b) ⟨rfl, Nat.zero_le d⟩
    · rw [writable, decide_eq_true_iff]
      refine ⟨fun h => ?_, fun h => .int h.1⟩
      rcases h with _ | _ | h
      exact ⟨h, Nat.zero_le d⟩
    · exact iff_of_true (.float hj) ⟨rfl, Nat.zero_le d⟩
    · exact iff_of_true (.str s) ⟨rfl, Nat.zero_le d⟩
    · exact hj.elim
    · exact hleaf.elim
    · exact hleaf.elim
  | harr js ih =>
    rw [IsJson, itemsJson_iff] at hj
    rcases d with _ | d
    · refine iff_of_false (fun h => ?_) fun h => absurd h.2 (by rw [nesting]; omega)
      rcases h
    · rw [readable_arr_iff, writable, itemsWritable_iff, nesting, Nat.add_le_add_iff_right,
        itemsNesting_le_iff]
      refine ⟨fun h => ⟨fun j hmem => ((ih j hmem (hj j hmem)).1 (h j hmem)).1,
        fun j hmem => ((ih j hmem (hj j hmem)).1 (h j hmem)).2⟩, fun h j hmem => ?_⟩
      exact (ih j hmem (hj j hmem)).2 ⟨h.1 j hmem, h.2 j hmem⟩
  | hobj fields ih =>
    rw [IsJson, fieldsJson_iff] at hj
    rcases d with _ | d
    · refine iff_of_false (fun h => ?_) fun h => absurd h.2 (by rw [nesting]; omega)
      rcases h
    · rw [readable_obj_iff, writable, fieldsWritable_iff, nesting, Nat.add_le_add_iff_right,
        fieldsNesting_le_iff]
      refine ⟨fun h => ⟨fun f hf => ((ih f hf (hj.2 f hf)).1 (h.2 f hf)).1,
        fun f hf => ((ih f hf (hj.2 f hf)).1 (h.2 f hf)).2⟩, fun h => ⟨hj.1, fun f hf => ?_⟩⟩
      exact (ih f hf (hj.2 f hf)).2 ⟨h.1 f hf, h.2 f hf⟩

end Json

/-! ### Dictionaries -/

/-- The fields that are read for an object, by the names that are texts. -/
abbrev LoadedDict := List (Option String × Json)

/-- `payload.get(key)`: of fields with one name the last one is kept. -/
def LoadedDict.get (o : LoadedDict) (key : String) : Option Json := o.reverse.lookup (some key)

/-- Of fields with different names each is found. -/
theorem LoadedDict.get_map (hn : fields.NodupKeys) (key : String) :
    LoadedDict.get (fields.map fun f => (some f.1, f.2)) key = fields.lookup key := by
  rw [LoadedDict.get, ← List.map_reverse, JsonObject.lookup_perm hn (List.reverse_perm _).symm]
  induction fields.reverse with
  | nil => rfl
  | cons f fields ih =>
    rw [List.map_cons, List.lookup_cons, List.lookup_cons, ih]
    congr 1

/-- The fields after the bracket of an object. -/
def scanDict (depth : ℕ) (cs : List Char) : Except LoadsError (LoadedDict × List Char) :=
  match skipBlanks cs with
  | '}' :: cs => .ok ([], cs)
  | cs => scanFields (scanValue depth) cs.length cs

/-- `json.loads`, if the text is that of an object; nothing is said of what else it is. -/
def loadsDict (depth : ℕ) (text : String) : Except LoadsError (Option LoadedDict) :=
  match depth, skipBlanks text.toList with
  | depth + 1, '{' :: cs => do
    let (o, cs) ← scanDict depth cs
    if skipBlanks cs = [] then .ok (some o) else .error .decode
  | _, _ => (loads depth text).map fun _ => none

theorem scanValue_dict (cs : List Char) :
    scanValue (d + 1) ('{' :: cs) = (scanDict d cs).map fun r => (objectOf r.1, r.2) := by
  rw [scanValue]
  generalize hds : skipBlanks cs = ds
  split
  · rw [scanDict, hds]
    rfl
  · rename_i hne
    rw [scanDict, hds]
    split
    · exact absurd rfl (hne _)
    · rfl

variable {text : String}

/-- The text of an object begins with a bracket. -/
theorem loadsDict_eq_some_iff {o : LoadedDict} : loadsDict d text = .ok (some o) ↔
    ∃ d' cs rest, d = d' + 1 ∧ skipBlanks text.toList = '{' :: cs ∧ scanDict d' cs = .ok (o, rest) ∧
      skipBlanks rest = [] := by
  rw [loadsDict.eq_def]
  split
  · rename_i d' cs hstart
    simp only [bind, except_bind_eq_ok]
    constructor
    · rintro ⟨⟨o', rest⟩, hscan, h⟩
      dsimp only at h
      split_ifs at h with hrest
      cases h
      exact ⟨d', cs, rest, rfl, hstart, hscan, hrest⟩
    · rintro ⟨d'', cs', rest, hd, hstart', hscan, hrest⟩
      cases hd
      cases hstart.symm.trans hstart'
      exact ⟨(o, rest), hscan, if_pos hrest⟩
  · rename_i hne
    constructor
    · intro h
      generalize loads _ text = r at h
      rcases r with e | j <;> cases h
    · rintro ⟨d', cs, rest, rfl, hstart, -⟩
      exact absurd hstart (hne d' cs rfl)

/-- The fields are those of the value that is read. -/
theorem loads_of_loadsDict {o : LoadedDict} (h : loadsDict d text = .ok (some o)) :
    loads d text = .ok (objectOf o) := by
  obtain ⟨d', cs, rest, rfl, hstart, hscan, hrest⟩ := loadsDict_eq_some_iff.1 h
  rw [loads, hstart, scanValue_dict, hscan]
  exact if_pos hrest

/-- An object that is written is read as its fields. -/
theorem loadsDict_render {st : DumpStyle} (hst : st.Valid)
    (h : (Json.obj fields).Readable (d + 1)) :
    loadsDict (d + 1) (String.ofList ((Json.obj fields).render st)) =
      .ok (some (fields.map fun f => (some f.1, f.2))) := by
  obtain ⟨hn, hfields⟩ := Json.readable_obj_iff.1 h
  have hstart : skipBlanks (String.ofList ((Json.obj fields).render st)).toList =
      (Json.obj fields).render st := by
    rw [String.toList_ofList]
    exact (startsValue_render h).skipBlanks
  refine loadsDict_eq_some_iff.2 ?_
  rw [hstart]
  rcases fields with _ | ⟨⟨k, j⟩, fields⟩
  · exact ⟨d, ['}'], [], rfl, by rw [Json.render], rfl, rfl⟩
  · obtain ⟨hj, hrest⟩ := List.forall_mem_cons.1 hfields
    have hlen : fields.length < (renderString st.ensureAscii k ++ (st.keySeparator ++
        (j.render st ++ (renderFields st fields ++ [])))).length := by
      have := length_renderFields hst fields
      simp only [List.length_append]
      omega
    refine ⟨d, _, [], rfl, by rw [Json.render], ?_, rfl⟩
    have hscan : scanFields (scanValue d) _ (renderString st.ensureAscii k ++ (st.keySeparator ++
        (j.render st ++ (renderFields st fields ++ [])))) = .ok (_, []) :=
      scanFields_render hst hj hrest (fun f hf => scanValue_render hst (hfields f hf)) hlen
    rw [List.append_nil] at hscan
    simp only [List.append_assoc]
    rw [scanDict]
    exact hscan

end AslanCore
