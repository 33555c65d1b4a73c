import Mathlib.Data.String.Basic
import AslanCore.Dict
import AslanCore.Json.Canonical

/-!
# Equal trees

Two JSON values are the same tree (`Json.Same`) if they differ only in the order of the fields of
their objects. What `sort_keys` writes is the same for the same tree, and for no other, if no
object has two fields of one name (`Json.Distinct`).

* `same_of_sortKeys`: values with one sorted form are the same tree;
* `sortKeys_of_same`: the same tree has one sorted form;
* `Json.Same.distinct`: names that are distinct in a tree are so in the same tree;
* `same_of_render`: values that can be read back, and are written in one way, are the same tree;
* `Json.Same.lookup`: what is found in an object is the same in the same object.
-/

namespace AslanCore

/-- The same tree, up to the order of the fields of objects. -/
inductive Json.Same : Json → Json → Prop
  | null : Same .null .null
  | bool (b : Bool) : Same (.bool b) (.bool b)
  | int (n : ℤ) : Same (.int n) (.int n)
  | float (bits : BitVec 64) : Same (.float bits) (.float bits)
  | str (s : String) : Same (.str s) (.str s)
  | notText : Same .notText .notText
  | nil : Same (.arr []) (.arr [])
  | cons {j j' : Json} {js js' : List Json} (h : Same j j') (hs : Same (.arr js) (.arr js')) :
    Same (.arr (j :: js)) (.arr (j' :: js'))
  | empty : Same (.obj []) (.obj [])
  | field {k : String} {j j' : Json} {fields before after : JsonObject} (h : Same j j')
    (hs : Same (.obj fields) (.obj (before ++ after))) :
    Same (.obj ((k, j) :: fields)) (.obj (before ++ (k, j') :: after))

mutual

/-- No object of the value has two fields of one name. -/
def Json.Distinct : Json → Prop
  | .arr js => ItemsDistinct js
  | .obj fields => JsonObject.NodupKeys fields ∧ FieldsDistinct fields
  | _ => True

def ItemsDistinct : List Json → Prop
  | [] => True
  | j :: js => j.Distinct ∧ ItemsDistinct js

def FieldsDistinct : JsonObject → Prop
  | [] => True
  | (_, j) :: fields => j.Distinct ∧ FieldsDistinct fields

end

variable {j j' : Json} {fields fields' : JsonObject}

theorem fieldsDistinct_iff : FieldsDistinct fields ↔ ∀ f ∈ fields, f.2.Distinct := by
  induction fields with
  | nil => exact iff_of_true trivial nofun
  | cons f fields ih => rw [FieldsDistinct, ih, List.forall_mem_cons]

theorem itemsDistinct_iff {js : List Json} : ItemsDistinct js ↔ ∀ j ∈ js, j.Distinct := by
  induction js with
  | nil => exact iff_of_true trivial nofun
  | cons j js ih => rw [ItemsDistinct, ih, List.forall_mem_cons]

theorem sortFields_eq (fields : JsonObject) :
    sortFields fields = fields.map fun f => (f.1, f.2.sortKeys) := by
  induction fields with
  | nil => rfl
  | cons f fields ih => rw [sortFields, ih, List.map_cons]

/-- Objects that have the same fields, in any order, have one sorted form. -/
theorem mergeSort_eq_of_perm (hn : fields.NodupKeys) (h : fields.Perm fields') :
    (fields.mergeSort fun f g => f.1 ≤ g.1) = fields'.mergeSort fun f g => f.1 ≤ g.1 := by
  have hpairwise : ∀ l : JsonObject,
      (l.mergeSort fun f g => f.1 ≤ g.1).Pairwise fun f g => f.1 ≤ g.1 := by
    intro l
    have hle : (l.mergeSort fun f g => f.1 ≤ g.1).Pairwise fun f g => decide (f.1 ≤ g.1) = true :=
      List.pairwise_mergeSort (fun f g h => by simpa using le_trans)
        (fun f g => by simpa using le_total _ _) l
    exact hle.imp of_decide_eq_true
  refine List.Perm.eq_of_pairwise (fun f g hf hg hle hge => ?_) (hpairwise _) (hpairwise _)
    ((List.mergeSort_perm _ _).trans (h.trans (List.mergeSort_perm _ _).symm))
  -- Two fields of one name are one field.
  have hf : f ∈ fields := List.mem_mergeSort.1 hf
  have hg : g ∈ fields := h.mem_iff.2 (List.mem_mergeSort.1 hg)
  exact List.inj_on_of_nodup_map hn hf hg (le_antisymm hle hge)

mutual

/-- Values with one sorted form are the same tree. -/
theorem same_of_sortKeys : ∀ {j j' : Json}, j.sortKeys = j'.sortKeys → j.Same j'
  | .null, j', h | .bool b, j', h | .int n, j', h | .float bits, j', h | .str s, j', h
  | .notText, j', h => by
    rcases j' with _ | _ | _ | _ | _ | _ | _ | _ <;> simp only [Json.sortKeys, reduceCtorEq] at h
    all_goals cases h; constructor
  | .arr js, j', h => by
    rcases j' with _ | _ | _ | _ | _ | _ | js' | _ <;>
      simp only [Json.sortKeys, reduceCtorEq, Json.arr.injEq] at h
    exact same_of_sortItems h
  | .obj fields, j', h => by
    rcases j' with _ | _ | _ | _ | _ | _ | _ | fields' <;>
      simp only [Json.sortKeys, reduceCtorEq, Json.obj.injEq] at h
    exact same_of_perm ((List.mergeSort_perm _ _).symm.trans
      ((List.Perm.of_eq h).trans (List.mergeSort_perm _ _)))

theorem same_of_sortItems :
    ∀ {js js' : List Json}, sortItems js = sortItems js' → (Json.arr js).Same (.arr js')
  | [], [], _ => .nil
  | [], j' :: js', h => by simp only [sortItems, reduceCtorEq] at h
  | j :: js, [], h => by simp only [sortItems, reduceCtorEq] at h
  | j :: js, j' :: js', h => by
    simp only [sortItems, List.cons.injEq] at h
    exact .cons (same_of_sortKeys h.1) (same_of_sortItems h.2)

theorem same_of_perm : ∀ {fields fields' : JsonObject},
    (sortFields fields).Perm (sortFields fields') → (Json.obj fields).Same (.obj fields')
  | [], fields', h => by
    rw [sortFields, List.nil_perm, sortFields_eq, List.map_eq_nil_iff] at h
    exact h ▸ .empty
  | (k, j) :: fields, fields', h => by
    -- The first field is one of the others, and the rest are the rest.
    have hmem : (k, j.sortKeys) ∈ fields'.map fun f => (f.1, f.2.sortKeys) :=
      sortFields_eq fields' ▸ h.mem_iff.1 List.mem_cons_self
    obtain ⟨⟨k', j'⟩, hf, heq⟩ := List.mem_map.1 hmem
    obtain ⟨before, after, rfl⟩ := List.append_of_mem hf
    obtain ⟨rfl, hsort⟩ := Prod.mk.inj heq
    refine .field (same_of_sortKeys hsort.symm) (same_of_perm ?_)
    rw [sortFields, sortFields_eq (before ++ _), List.map_append, List.map_cons, heq] at h
    have hrest := (h.trans List.perm_middle).cons_inv
    rwa [sortFields_eq (before ++ after), List.map_append]

end

theorem sortItems_eq (js : List Json) : sortItems js = js.map Json.sortKeys := by
  induction js with
  | nil => rfl
  | cons j js ih => rw [sortItems, ih, List.map_cons]

theorem keys_sortFields (fields : JsonObject) :
    (sortFields fields).map Prod.fst = fields.map Prod.fst := by
  rw [sortFields_eq, List.map_map]
  rfl

/-- Sorted forms are equal if the fields are, in any order. -/
theorem sortKeys_obj_of_perm (hn : fields.NodupKeys)
    (h : (sortFields fields).Perm (sortFields fields')) :
    (Json.obj fields).sortKeys = (Json.obj fields').sortKeys := by
  have hn' : JsonObject.NodupKeys (sortFields fields) := by
    rwa [JsonObject.NodupKeys, keys_sortFields]
  rw [Json.sortKeys, Json.sortKeys, mergeSort_eq_of_perm hn' h]

/-- The fields of an object with one field apart. -/
theorem perm_of_same (h : (Json.obj fields).Same (.obj fields')) :
    (fields.map Prod.fst).Perm (fields'.map Prod.fst) := by
  generalize hj : Json.obj fields = j at h
  generalize hj' : Json.obj fields' = j' at h
  induction h generalizing fields fields' with
  | empty =>
    cases hj
    cases hj'
    exact .refl _
  | @field k j j' fields before after _ _ _ ih =>
    cases hj
    cases hj'
    rw [List.map_append, List.map_cons, List.map_cons]
    refine (List.Perm.cons k (ih rfl rfl)).trans ?_
    rw [List.map_append]
    exact List.perm_middle.symm
  | _ => cases hj

/-- Names that are distinct in a tree are so in the same tree. -/
theorem Json.Same.distinct (h : j.Same j') : j.Distinct ↔ j'.Distinct := by
  induction h with
  | cons _ _ ih ihs =>
    simp only [Json.Distinct, ItemsDistinct] at ihs ⊢
    exact and_congr ih ihs
  | @field k j j' fields before after hj hfields ih ihs =>
    have hkeys := perm_of_same (Json.Same.field (k := k) hj hfields)
    simp only [Json.Distinct, FieldsDistinct, JsonObject.NodupKeys] at ihs ⊢
    rw [← hkeys.nodup_iff]
    refine and_congr_right fun hn => ?_
    have hn := (List.nodup_cons.1 hn).2
    have hrest := (and_iff_right hn).symm.trans
      (ihs.trans (and_iff_right ((perm_of_same hfields).nodup_iff.1 hn)))
    simp only [hrest, ih, fieldsDistinct_iff, List.forall_mem_append, List.forall_mem_cons]
    exact and_left_comm
  | _ => exact Iff.rfl

/-- The same tree has one sorted form. -/
theorem sortKeys_of_same (h : j.Same j') (hj : j.Distinct) : j.sortKeys = j'.sortKeys := by
  induction h with
  | cons _ _ ih ihs =>
    simp only [Json.Distinct, ItemsDistinct] at hj ihs
    have hs := ihs hj.2
    simp only [Json.sortKeys, Json.arr.injEq] at hs ⊢
    rw [sortItems, sortItems, ih hj.1, hs]
  | @field k j j' fields before after _ _ ih ihs =>
    simp only [Json.Distinct, FieldsDistinct] at hj ihs
    obtain ⟨hn, hj, hfields⟩ := hj
    have hs := ihs ⟨(List.nodup_cons.1 hn).2, hfields⟩
    refine sortKeys_obj_of_perm hn ?_
    simp only [Json.sortKeys, Json.obj.injEq] at hs
    have hperm := (List.mergeSort_perm _ _).symm.trans
      ((List.Perm.of_eq hs).trans (List.mergeSort_perm _ _))
    rw [sortFields_eq (before ++ after), List.map_append] at hperm
    rw [sortFields, sortFields_eq (before ++ (k, j') :: after), List.map_append, List.map_cons, ih hj]
    exact (hperm.cons _).trans List.perm_middle.symm
  | _ => rfl

/-- Keys that are sorted stay as they are. -/
theorem Json.sortKeys_sortKeys : ∀ j : Json, j.sortKeys.sortKeys = j.sortKeys
  | .null | .bool _ | .int _ | .float _ | .str _ | .notText => rfl
  | .arr js => by
    have hitems : ∀ j ∈ js, j.sortKeys.sortKeys = j.sortKeys := fun j _ => sortKeys_sortKeys j
    simp only [sortKeys, sortItems_eq, List.map_map, arr.injEq]
    exact List.map_congr_left hitems
  | .obj fields => by
    have hfields : ∀ f ∈ fields, f.2.sortKeys.sortKeys = f.2.sortKeys := fun f hf =>
      have : sizeOf f.2 < 1 + sizeOf fields := by
        have hlt := List.sizeOf_lt_of_mem hf
        rw [Prod.mk.sizeOf_spec] at hlt
        omega
      sortKeys_sortKeys f.2
    have hsorted : sortFields ((sortFields fields).mergeSort fun f g => f.1 ≤ g.1) =
        (sortFields fields).mergeSort fun f g => f.1 ≤ g.1 := by
      rw [sortFields_eq]
      refine (List.map_congr_left (g := id) fun f hf => ?_).trans (List.map_id _)
      rw [List.mem_mergeSort, sortFields_eq] at hf
      obtain ⟨g, hg, rfl⟩ := List.mem_map.1 hf
      exact Prod.ext rfl (hfields g hg)
    rw [sortKeys, sortKeys, hsorted, List.mergeSort_of_pairwise]
    exact List.pairwise_mergeSort (fun f g h => by simpa using le_trans)
      (fun f g => by simpa using le_total _ _) _

/-- What is found in an object with sorted keys. -/
theorem lookup_sortKeys (hn : fields.NodupKeys) (k : String) :
    ((sortFields fields).mergeSort fun f g => f.1 ≤ g.1).lookup k =
      (fields.lookup k).map Json.sortKeys := by
  have hn' : JsonObject.NodupKeys (sortFields fields) := by
    rwa [JsonObject.NodupKeys, keys_sortFields]
  rw [← JsonObject.lookup_perm hn' (List.mergeSort_perm _ _).symm, sortFields_eq, lookup_map]

/-! ### What is written -/

variable {st : DumpStyle} {d d' : ℕ} {k : String}

theorem itemsWritable_iff {js : List Json} :
    itemsWritable js = true ↔ ∀ j ∈ js, j.writable = true := by
  induction js with
  | nil => exact ⟨nofun, fun _ => rfl⟩
  | cons j js ih => rw [itemsWritable, Bool.and_eq_true, ih, List.forall_mem_cons]

/-- What can be read back can be written. -/
theorem Json.Readable.writable (h : j.Readable d) : j.writable = true := by
  induction h with
  | int h => exact decide_eq_true h
  | arr _ ih => exact itemsWritable_iff.2 ih
  | obj _ _ ih => exact fieldsWritable_iff.2 ih
  | _ => rfl

theorem Json.Readable.mono (h : j.Readable d) (hd : d ≤ d') : j.Readable d' := by
  induction h generalizing d' with
  | arr _ ih =>
    obtain ⟨d', rfl⟩ := Nat.exists_eq_add_one_of_ne_zero (show d' ≠ 0 by omega)
    exact .arr fun j hj => ih j hj (by omega)
  | obj hn _ ih =>
    obtain ⟨d', rfl⟩ := Nat.exists_eq_add_one_of_ne_zero (show d' ≠ 0 by omega)
    exact .obj hn fun f hf => ih f hf (by omega)
  | int h => exact .int h
  | float h => exact .float h
  | null => exact .null
  | bool b => exact .bool b
  | str s => exact .str s

/-- Sorting the keys changes nothing of that. -/
theorem Json.Readable.sortKeys (h : j.Readable d) : j.sortKeys.Readable d := by
  induction h with
  | arr _ ih =>
    rw [Json.sortKeys, sortItems_eq]
    exact .arr (List.forall_mem_map.2 ih)
  | @obj d fields hn _ ih =>
    rw [Json.sortKeys]
    have hperm := List.mergeSort_perm (sortFields fields) fun f g => f.1 ≤ g.1
    refine .obj ?_ fun f hf => ?_
    · rwa [JsonObject.NodupKeys, (hperm.map Prod.fst).nodup_iff, keys_sortFields]
    · rw [hperm.mem_iff, sortFields_eq] at hf
      obtain ⟨g, hg, rfl⟩ := List.mem_map.1 hf
      exact ih g hg
  | int h => exact .int h
  | float h => exact .float h
  | null => exact .null
  | bool b => exact .bool b
  | str s => exact .str s

/-- Values that are written with sorted keys in the same way, and can be read back, are the same
    tree. -/
theorem same_of_render (hst : st.Valid) (h : j.Readable d) (h' : j'.Readable d')
    (heq : j.sortKeys.render st = j'.sortKeys.render st) : j.Same j' := by
  have hd := h.sortKeys.mono (le_max_left d d')
  have hd' := h'.sortKeys.mono (le_max_right d d')
  have htext : j.sortKeys.dumps st = some (String.ofList (j.sortKeys.render st)) :=
    if_pos hd.writable
  have htext' : j'.sortKeys.dumps st = some (String.ofList (j.sortKeys.render st)) :=
    heq ▸ if_pos hd'.writable
  have hload := (loads_dumps hst hd htext).symm.trans (loads_dumps hst hd' htext')
  exact same_of_sortKeys (Except.ok.inj hload)

/-- What can be read back has no two fields of one name. -/
theorem Json.Readable.distinct (h : j.Readable d) : j.Distinct := by
  induction h with
  | arr _ ih =>
    rw [Json.Distinct]
    exact itemsDistinct_iff.2 ih
  | obj hn _ ih =>
    rw [Json.Distinct]
    exact ⟨hn, fieldsDistinct_iff.2 ih⟩
  | _ => trivial

/-- The same tree can be read back too. -/
theorem Json.Same.readable (h : j.Same j') (hj : j.Readable d) : j'.Readable d := by
  induction h generalizing d with
  | cons _ _ ih ihs =>
    rcases hj with _ | _ | _ | _ | _ | hjs
    have hrest := ihs (.arr fun j hj => hjs j (List.mem_cons_of_mem _ hj))
    rcases hrest with _ | _ | _ | _ | _ | hrest
    exact .arr (List.forall_mem_cons.2 ⟨ih (hjs _ List.mem_cons_self), hrest⟩)
  | @field k j j' fields before after hj' hfields ih ihs =>
    have hkeys := perm_of_same (Json.Same.field (k := k) hj' hfields)
    rcases hj with _ | _ | _ | _ | _ | _ | ⟨hn, hjs⟩
    obtain ⟨hfield, hothers⟩ := List.forall_mem_cons.1 hjs
    have hrest := ihs (.obj (List.nodup_cons.1 hn).2 hothers)
    rcases hrest with _ | _ | _ | _ | _ | _ | ⟨-, hrest⟩
    obtain ⟨hbefore, hafter⟩ := List.forall_mem_append.1 hrest
    exact .obj (hkeys.nodup_iff.1 hn)
      (List.forall_mem_append.2 ⟨hbefore, List.forall_mem_cons.2 ⟨ih hfield, hafter⟩⟩)
  | _ => exact hj

/-- The same object has the same fields. -/
theorem Json.Same.lookup (h : (Json.obj fields).Same (.obj fields')) (hn : fields.NodupKeys)
    (hj : fields.lookup k = some j) : ∃ j', fields'.lookup k = some j' ∧ j.Same j' := by
  have hn' : fields'.NodupKeys := (perm_of_same h).nodup_iff.1 hn
  suffices hmem : ∃ j', (k, j') ∈ fields' ∧ j.Same j' by
    obtain ⟨j', hj', hsame⟩ := hmem
    exact ⟨j', (JsonObject.lookup_eq_some_iff hn').2 hj', hsame⟩
  replace hj := (JsonObject.lookup_eq_some_iff hn).1 hj
  clear hn hn'
  generalize ho : Json.obj fields = o at h
  generalize ho' : Json.obj fields' = o' at h
  induction h generalizing fields fields' with
  | empty =>
    cases ho
    cases hj
  | @field k' i i' rest before after hi hrest _ ih =>
    cases ho
    cases ho'
    rcases List.mem_cons.1 hj with heq | hmem
    · cases heq
      exact ⟨i', List.mem_append_right _ List.mem_cons_self, hi⟩
    · obtain ⟨j', hj', hsame⟩ := ih hmem rfl rfl
      refine ⟨j', ?_, hsame⟩
      rcases List.mem_append.1 hj' with hj' | hj'
      · exact List.mem_append_left _ hj'
      · exact List.mem_append_right _ (List.mem_cons_of_mem _ hj')
  | _ => cases ho

/-- The same text. -/
theorem Json.Same.str_inj {s s' : String} (h : (Json.str s).Same (.str s')) : s = s' := by
  cases h
  rfl

end AslanCore
