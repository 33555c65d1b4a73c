import Mathlib.Data.BitVec
import Mathlib.Data.List.Perm.Basic
import Mathlib.Tactic.Common

/-!
# JSON values

The values that Python's `json` module reads and writes. Integers are unbounded, floats
are given by their 64 bits, and the fields of an object are in the order they are written
in: a dictionary has no two fields of one name (`Json.NodupKeys`). A string of Python may be no
text, as it may have surrogates without their pair: which one it is is not said.
-/

namespace AslanCore

/-- A JSON value. -/
inductive Json
  | null
  | bool (b : Bool)
  | int (n : ℤ)
  | float (bits : BitVec 64)
  | str (s : String)
  /-- A string that is no text, or an object under such a name. -/
  | notText
  | arr (xs : List Json)
  | obj (fields : List (String × Json))

/-- The fields of a JSON object. -/
abbrev JsonObject := List (String × Json)

namespace JsonObject

variable {o o' extra : JsonObject} {k : String}

/-- No two fields have the same name. -/
def NodupKeys (o : JsonObject) : Prop := (o.map Prod.fst).Nodup

/-- Fields of other names do not change what is found. -/
theorem lookup_append (h : ∀ f ∈ extra, f.1 ≠ k) : (o ++ extra).lookup k = o.lookup k := by
  induction o with
  | nil =>
    rw [List.nil_append]
    exact List.lookup_eq_none_iff.2 fun f hf => by simpa using (h f hf).symm
  | cons f o ih =>
    obtain ⟨k', v⟩ := f
    rw [List.cons_append, List.lookup_cons, List.lookup_cons, ih]

/-- What is found in a dictionary is what it contains. -/
theorem lookup_eq_some_iff (hn : o.NodupKeys) {v : Json} : o.lookup k = some v ↔ (k, v) ∈ o := by
  induction o with
  | nil => simp
  | cons f o ih =>
    obtain ⟨k', v'⟩ := f
    obtain ⟨hk, hn⟩ := List.nodup_cons.1 hn
    rw [List.lookup_cons, List.mem_cons]
    by_cases hkk : k = k'
    · subst hkk
      have hmem : (k, v) ∉ o := fun hm => hk (List.mem_map.2 ⟨_, hm, rfl⟩)
      simp [hmem, eq_comm]
    · rw [beq_false_of_ne hkk]
      simp [hkk, ih hn]

/-- The order of the fields does not matter. -/
theorem lookup_perm (hn : o.NodupKeys) (h : o.Perm o') : o.lookup k = o'.lookup k := by
  have hn' : o'.NodupKeys := (h.map Prod.fst).nodup_iff.1 hn
  refine Option.ext fun v => ?_
  rw [lookup_eq_some_iff hn, lookup_eq_some_iff hn', h.mem_iff]

end JsonObject

end AslanCore
