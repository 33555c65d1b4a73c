import Mathlib.Data.Finset.Card
import Mathlib.Data.List.Nodup
import Mathlib.Logic.Function.Basic

/-!
# Rows that are inserted once

Rows under keys, to which others are added one by one: a row under a new key is inserted, and one
whose key is there is refused, unless it has the hash of the row that is there (`add`, `addAll`).

* `insertAll`: `INSERT … ON CONFLICT DO NOTHING`, whatever the hashes are;
* `addAll_isSome_iff`, `addAll_of_agrees`: rows can be added one by one when they agree with those
  that are there after the insertion of all, and then this is what they leave;
* `card_inserted`: as many rows are inserted as there are new keys;
* `insertAll_firstsFrom`: all but the first row of every key may be left out;
* `addAll_congr`: the rows under other keys do not matter;
* `addAll_isSome_of_below`: what can be added to some rows can be added to less of them.
-/

namespace AslanCore

namespace Insertion

variable {K V H : Type} [DecidableEq K] [DecidableEq H]

/-- What becomes of a row that is added. -/
inductive Outcome
  | inserted
  | unchanged
  deriving DecidableEq

/-- A row is added, unless the row under its key has another hash. -/
def add (hash : V → H) (rows : K → Option V) (x : K × V) : Option (Outcome × (K → Option V)) :=
  match rows x.1 with
  | none => some (.inserted, Function.update rows x.1 (some x.2))
  | some v => if hash v = hash x.2 then some (.unchanged, rows) else none

/-- Rows are added, one after the other. -/
def addAll (hash : V → H) : (K → Option V) → List (K × V) → Option (List Outcome × (K → Option V))
  | rows, [] => some ([], rows)
  | rows, x :: xs => do
    let (o, rows) ← add hash rows x
    let (os, rows) ← addAll hash rows xs
    some (o :: os, rows)

/-- A row is inserted, unless there is one under its key. -/
def insertNew (rows : K → Option V) (x : K × V) : K → Option V :=
  if (rows x.1).isSome then rows else Function.update rows x.1 (some x.2)

/-- Rows are inserted, one after the other. -/
def insertAll (rows : K → Option V) (xs : List (K × V)) : K → Option V := xs.foldl insertNew rows

/-- The first row of every key, after those of `acc`. -/
def firstsFrom (acc : List (K × V)) : List (K × V) → List (K × V)
  | [] => acc
  | x :: xs => if x.1 ∈ acc.map Prod.fst then firstsFrom acc xs else firstsFrom (acc ++ [x]) xs

/-- The rows have the hashes of those that are there after their insertion. -/
def Agrees (hash : V → H) (rows : K → Option V) (xs : List (K × V)) : Prop :=
  ∀ x ∈ xs, ∀ v ∈ insertAll rows xs x.1, hash v = hash x.2

/-- Every row is there in `rows'`, or one with its hash. -/
def Below (hash : V → H) (rows rows' : K → Option V) : Prop :=
  ∀ k, ∀ v ∈ rows k, ∃ v' ∈ rows' k, hash v' = hash v

variable {hash : V → H} {rows rows' r r' : K → Option V} {x : K × V} {xs ys acc : List (K × V)}
  {os : List Outcome} {k : K} {v : V}

/-! ### Insertions -/

theorem insertNew_apply :
    insertNew rows x k = (rows k).or (if x.1 = k then some x.2 else none) := by
  rw [insertNew]
  by_cases hk : x.1 = k
  · subst hk
    rw [if_pos rfl]
    cases hrow : rows x.1 with
    | none => simp
    | some v => simp [hrow]
  · rw [if_neg hk, Option.or_none]
    split_ifs
    · rfl
    · exact Function.update_of_ne (Ne.symm hk) _ _

theorem insertAll_cons : insertAll rows (x :: xs) = insertAll (insertNew rows x) xs := rfl

theorem insertAll_append : insertAll rows (xs ++ ys) = insertAll (insertAll rows xs) ys :=
  List.foldl_append

theorem insertAll_concat : insertAll rows (xs ++ [x]) = insertNew (insertAll rows xs) x :=
  insertAll_append

/-- The row of a key is the one that was there, or else the first that is inserted. -/
theorem insertAll_apply :
    insertAll rows xs k = (rows k).or ((xs.find? fun x => x.1 = k).map Prod.snd) := by
  induction xs generalizing rows with
  | nil => simp [insertAll]
  | cons x xs ih =>
    rw [insertAll_cons, ih, insertNew_apply, Option.or_assoc, List.find?_cons]
    by_cases hk : x.1 = k
    · simp [hk]
    · simp [hk]

/-- A row that is there stays. -/
theorem insertAll_of_eq_some (h : rows k = some v) : insertAll rows xs k = some v := by
  rw [insertAll_apply, h, Option.some_or]

theorem insertNew_of_isSome (h : (rows x.1).isSome) : insertNew rows x = rows := if_pos h

theorem insertNew_self_of_eq_none (h : rows x.1 = none) : insertNew rows x x.1 = some x.2 := by
  rw [insertNew_apply, h, if_pos rfl, Option.none_or]

theorem insertNew_of_ne (h : x.1 ≠ k) : insertNew rows x k = rows k := by
  rw [insertNew_apply, if_neg h, Option.or_none]

theorem find?_eq_none_of_notMem (h : k ∉ xs.map Prod.fst) :
    xs.find? (fun x => x.1 = k) = none := by
  rw [List.find?_eq_none]
  rintro x hx hk
  exact h (List.mem_map.2 ⟨x, hx, of_decide_eq_true hk⟩)

theorem insertAll_of_notMem (h : k ∉ xs.map Prod.fst) : insertAll rows xs k = rows k := by
  rw [insertAll_apply, find?_eq_none_of_notMem h, Option.map_none, Option.or_none]

theorem isSome_insertAll (h : k ∈ xs.map Prod.fst) : (insertAll rows xs k).isSome := by
  obtain ⟨x, hx, rfl⟩ := List.mem_map.1 h
  have hfind : (xs.find? fun y => y.1 = x.1).isSome :=
    List.find?_isSome.2 ⟨x, hx, decide_eq_true rfl⟩
  rw [insertAll_apply, Option.isSome_or, Option.isSome_map, hfind, Bool.or_true]

/-- The rows under other keys do not matter. -/
theorem insertAll_congr (h : ∀ k ∈ xs.map Prod.fst, rows' k = rows k) (hk : k ∈ xs.map Prod.fst) :
    insertAll rows' xs k = insertAll rows xs k := by
  rw [insertAll_apply, insertAll_apply, h k hk]

/-! ### Additions -/

theorem add_of_eq_none (h : rows x.1 = none) :
    add hash rows x = some (.inserted, insertNew rows x) := by
  rw [add, h, insertNew, if_neg (by simp [h])]

theorem add_of_eq_some (h : rows x.1 = some v) (hv : hash v = hash x.2) :
    add hash rows x = some (.unchanged, insertNew rows x) := by
  rw [add, h, insertNew_of_isSome (by simp [h])]
  exact if_pos hv

theorem add_eq_none_iff : add hash rows x = none ↔ ∃ v, rows x.1 = some v ∧ hash v ≠ hash x.2 := by
  rw [add]
  rcases rows x.1 with _ | v
  · simp
  · simp

theorem add_isSome_iff : (add hash rows x).isSome ↔ ∀ v ∈ rows x.1, hash v = hash x.2 := by
  rw [Option.isSome_iff_ne_none, Ne, add_eq_none_iff]
  simp

theorem rows_of_add {o : Outcome} (h : add hash rows x = some (o, r)) : r = insertNew rows x := by
  rcases hrow : rows x.1 with _ | v
  · rw [add_of_eq_none hrow] at h
    cases h
    rfl
  · have hv := add_isSome_iff.1 (Option.isSome_iff_exists.2 ⟨_, h⟩) v hrow
    rw [add_of_eq_some hrow hv] at h
    cases h
    rfl

theorem addAll_cons_eq_some : addAll hash rows (x :: xs) = some (os, r) ↔
    ∃ o os', add hash rows x = some (o, insertNew rows x) ∧
      addAll hash (insertNew rows x) xs = some (os', r) ∧ os = o :: os' := by
  constructor
  · intro h
    obtain ⟨⟨o, rows₁⟩, ho, h⟩ := Option.bind_eq_some_iff.1 h
    obtain ⟨⟨os', rows₂⟩, hos, h⟩ := Option.bind_eq_some_iff.1 h
    cases h
    obtain rfl := rows_of_add ho
    exact ⟨o, os', ho, hos, rfl⟩
  · rintro ⟨o, os', ho, hos, rfl⟩
    exact Option.bind_eq_some_iff.2 ⟨_, ho, Option.bind_eq_some_iff.2 ⟨_, hos, rfl⟩⟩

theorem rows_of_addAll (h : addAll hash rows xs = some (os, r)) : r = insertAll rows xs := by
  induction xs generalizing rows os with
  | nil =>
    cases h
    rfl
  | cons x xs ih =>
    obtain ⟨o, os', -, hos, rfl⟩ := addAll_cons_eq_some.1 h
    exact ih hos

/-- Rows that are added agree with those that are there in the end, and the other way round. -/
theorem addAll_isSome_iff : (addAll hash rows xs).isSome ↔ Agrees hash rows xs := by
  induction xs generalizing rows with
  | nil => simp [addAll, Agrees]
  | cons x xs ih =>
    constructor
    · intro h
      obtain ⟨⟨os, r⟩, h⟩ := Option.isSome_iff_exists.1 h
      obtain ⟨o, os', ho, hos, rfl⟩ := addAll_cons_eq_some.1 h
      have htail := ih.1 (Option.isSome_iff_exists.2 ⟨_, hos⟩)
      intro y hy v hv
      rw [insertAll_cons] at hv
      rcases List.mem_cons.1 hy with rfl | hy
      · -- The row under the key is there from now on.
        rcases hrow : rows y.1 with _ | w
        · rw [insertAll_of_eq_some (insertNew_self_of_eq_none hrow)] at hv
          cases hv
          rfl
        · rw [← insertAll_cons, insertAll_of_eq_some hrow] at hv
          cases hv
          exact add_isSome_iff.1 (Option.isSome_iff_exists.2 ⟨_, ho⟩) _ hrow
      · exact htail y hy v hv
    · intro h
      have hadd : (add hash rows x).isSome := by
        refine add_isSome_iff.2 fun v hv => ?_
        have hstays : insertAll rows (x :: xs) x.1 = some v := insertAll_of_eq_some hv
        exact h x List.mem_cons_self v hstays
      obtain ⟨⟨o, r⟩, ho⟩ := Option.isSome_iff_exists.1 hadd
      obtain rfl := rows_of_add ho
      obtain ⟨⟨os, r⟩, hos⟩ := Option.isSome_iff_exists.1
        (ih.2 fun y hy => h y (List.mem_cons_of_mem x hy))
      exact Option.isSome_iff_exists.2 ⟨_, addAll_cons_eq_some.2 ⟨o, os, ho, hos, rfl⟩⟩

theorem addAll_of_agrees (h : Agrees hash rows xs) :
    ∃ os, addAll hash rows xs = some (os, insertAll rows xs) := by
  obtain ⟨⟨os, r⟩, hadd⟩ := Option.isSome_iff_exists.1 (addAll_isSome_iff.2 h)
  obtain rfl := rows_of_addAll hadd
  exact ⟨os, hadd⟩

/-- Rows under one key that can be added have the same hash. -/
theorem Agrees.hash_eq {y : K × V} (h : Agrees hash rows xs) (hx : x ∈ xs) (hy : y ∈ xs)
    (hk : x.1 = y.1) : hash x.2 = hash y.2 := by
  have hsome : (insertAll rows xs x.1).isSome := isSome_insertAll (List.mem_map_of_mem hx)
  obtain ⟨v, hv⟩ := Option.isSome_iff_exists.1 hsome
  rw [← h x hx v hv, h y hy v (hk ▸ hv)]

/-- As many rows are inserted as there are new keys. -/
theorem card_inserted (h : addAll hash rows xs = some (os, r)) :
    os.count .inserted = ((xs.map Prod.fst).toFinset.filter fun k => rows k = none).card := by
  induction xs generalizing rows os with
  | nil =>
    cases h
    rfl
  | cons x xs ih =>
    obtain ⟨o, os', ho, hos, rfl⟩ := addAll_cons_eq_some.1 h
    rw [List.map_cons, List.toFinset_cons, Finset.filter_insert]
    rcases hrow : rows x.1 with _ | v
    · rw [add_of_eq_none hrow] at ho
      cases ho
      -- Its key is not new any more.
      have hnew : ((xs.map Prod.fst).toFinset.filter fun k => rows k = none) \ {x.1} =
          (xs.map Prod.fst).toFinset.filter fun k => insertNew rows x k = none := by
        ext k
        simp only [Finset.mem_sdiff, Finset.mem_filter, Finset.mem_singleton]
        by_cases hk : x.1 = k
        · subst hk
          simp [insertNew_self_of_eq_none hrow]
        · simp [Ne.symm hk, insertNew_of_ne hk]
      rw [if_pos rfl, List.count_cons_self, ih hos, ← hnew, ← Finset.erase_eq,
        ← Finset.erase_insert_eq_erase]
      exact Finset.card_erase_add_one (Finset.mem_insert_self _ _)
    · have hv := add_isSome_iff.1 (Option.isSome_iff_exists.2 ⟨_, ho⟩) v hrow
      rw [add_of_eq_some hrow hv] at ho
      cases ho
      rw [if_neg (by simp), List.count_cons_of_ne (by decide), ih hos,
        insertNew_of_isSome (by simp [hrow])]

/-- The rows under other keys do not matter to what becomes of those that are added. -/
theorem addAll_congr (h : ∀ k ∈ xs.map Prod.fst, rows' k = rows k)
    (hadd : addAll hash rows xs = some (os, r)) :
    addAll hash rows' xs = some (os, insertAll rows' xs) := by
  induction xs generalizing rows rows' os with
  | nil =>
    cases hadd
    rfl
  | cons x xs ih =>
    obtain ⟨o, os', ho, hos, rfl⟩ := addAll_cons_eq_some.1 hadd
    have hx : rows' x.1 = rows x.1 := h x.1 List.mem_cons_self
    refine addAll_cons_eq_some.2 ⟨o, os', ?_, ih (fun k hk => ?_) hos, rfl⟩
    · rcases hrow : rows x.1 with _ | v
      · rw [add_of_eq_none hrow] at ho
        rw [add_of_eq_none (hx.trans hrow)]
        cases ho
        rfl
      · have hv := add_isSome_iff.1 (Option.isSome_iff_exists.2 ⟨_, ho⟩) v hrow
        rw [add_of_eq_some hrow hv] at ho
        rw [add_of_eq_some (hx.trans hrow) hv]
        cases ho
        rfl
    · rw [insertNew_apply, insertNew_apply, h k (List.mem_cons_of_mem _ hk)]

/-! ### Duplicates -/

theorem nodup_firstsFrom (h : (acc.map Prod.fst).Nodup) :
    ((firstsFrom acc xs).map Prod.fst).Nodup := by
  induction xs generalizing acc with
  | nil => exact h
  | cons x xs ih =>
    rw [firstsFrom]
    split_ifs with hx
    · exact ih h
    · refine ih ?_
      rw [List.map_append]
      exact h.append (List.nodup_singleton _) (List.disjoint_singleton.2 hx)

/-- All but the first row of every key may be left out. -/
theorem insertAll_firstsFrom :
    insertAll rows (firstsFrom acc xs) = insertAll rows (acc ++ xs) := by
  induction xs generalizing acc with
  | nil => rw [firstsFrom, List.append_nil]
  | cons x xs ih =>
    rw [firstsFrom]
    split_ifs with hx
    · rw [ih, insertAll_append, insertAll_append, insertAll_cons,
        insertNew_of_isSome (isSome_insertAll hx)]
    · rw [ih, List.append_assoc, List.singleton_append]

theorem mem_keys_firstsFrom :
    k ∈ (firstsFrom acc xs).map Prod.fst ↔ k ∈ (acc ++ xs).map Prod.fst := by
  induction xs generalizing acc with
  | nil => rw [firstsFrom, List.append_nil]
  | cons x xs ih =>
    rw [firstsFrom]
    split_ifs with hx
    · rw [ih, List.map_append, List.map_append, List.map_cons, List.mem_append, List.mem_append,
        List.mem_cons]
      refine ⟨fun h => h.imp_right .inr, ?_⟩
      rintro (h | rfl | h)
      · exact .inl h
      · exact .inl hx
      · exact .inr h
    · rw [ih, List.append_assoc, List.singleton_append]

theorem mem_of_mem_firstsFrom (h : x ∈ firstsFrom acc xs) : x ∈ acc ++ xs := by
  induction xs generalizing acc with
  | nil => rwa [List.append_nil]
  | cons y ys ih =>
    rw [firstsFrom] at h
    split_ifs at h with hy
    · rcases List.mem_append.1 (ih h) with h | h
      · exact List.mem_append_left _ h
      · exact List.mem_append_right _ (List.mem_cons_of_mem _ h)
    · have hmem := ih h
      rwa [List.append_assoc, List.singleton_append] at hmem

/-! ### Less rows -/

omit [DecidableEq K] [DecidableEq H] in
theorem Below.of_eq_some (h : ∀ k v, rows k = some v → rows' k = some v) : Below hash rows rows' :=
  fun k v hv => ⟨v, h k v hv, rfl⟩

/-- What can be added to some rows can be added to less of them. -/
theorem addAll_isSome_of_below (h : Below hash rows rows') (hadd : (addAll hash rows' xs).isSome) :
    (addAll hash rows xs).isSome ∧ Below hash (insertAll rows xs) (insertAll rows' xs) := by
  induction xs generalizing rows rows' with
  | nil => exact ⟨rfl, h⟩
  | cons x xs ih =>
    obtain ⟨⟨os, r⟩, hadd⟩ := Option.isSome_iff_exists.1 hadd
    obtain ⟨o, os', ho, hos, rfl⟩ := addAll_cons_eq_some.1 hadd
    have hagree := add_isSome_iff.1 (Option.isSome_iff_exists.2 ⟨_, ho⟩)
    have hadd' : (add hash rows x).isSome := by
      refine add_isSome_iff.2 fun v hv => ?_
      obtain ⟨v', hv', heq⟩ := h x.1 v hv
      rw [← heq, hagree v' hv']
    have hbelow : Below hash (insertNew rows x) (insertNew rows' x) := by
      intro k v hv
      by_cases hk : x.1 = k
      · subst hk
        rcases hrow : rows x.1 with _ | w
        · rw [insertNew_self_of_eq_none hrow] at hv
          cases hv
          rcases hrow' : rows' x.1 with _ | w'
          · exact ⟨x.2, insertNew_self_of_eq_none hrow', rfl⟩
          · refine ⟨w', ?_, hagree w' hrow'⟩
            rw [insertNew_of_isSome (by simp [hrow'])]
            exact hrow'
        · rw [insertNew_of_isSome (by simp [hrow])] at hv
          obtain ⟨w', hw', heq⟩ := h x.1 v hv
          refine ⟨w', ?_, heq⟩
          rw [insertNew_of_isSome (Option.isSome_iff_exists.2 ⟨w', hw'⟩)]
          exact hw'
      · rw [insertNew_of_ne hk] at hv ⊢
        exact h k v hv
    obtain ⟨hsome, hrest⟩ := ih hbelow (Option.isSome_iff_exists.2 ⟨_, hos⟩)
    obtain ⟨⟨o', r⟩, ho'⟩ := Option.isSome_iff_exists.1 hadd'
    obtain rfl := rows_of_add ho'
    obtain ⟨⟨os'', r⟩, hos''⟩ := Option.isSome_iff_exists.1 hsome
    exact ⟨Option.isSome_iff_exists.2 ⟨_, addAll_cons_eq_some.2 ⟨o', os'', ho', hos'', rfl⟩⟩, hrest⟩

end Insertion

end AslanCore
