import AslanCore.Json

/-!
# Columns

The values of columns, and what the statements compute of them.
-/

namespace AslanCore

/-- A `timestamptz`: microseconds since the epoch. -/
abbrev Timestamp := ℤ

/-- A `date`: days since the epoch. -/
abbrev Date := ℤ

/-- A `uuid`. -/
abbrev PgUuid := Fin (2 ^ 128)

instance neZeroUuid : NeZero (2 ^ 128) := ⟨by decide⟩

instance lawfulBEqUuid : LawfulBEq PgUuid := inferInstance

/-- `jsonb ? 'key'`: a key of an object, an element of an array, or the string itself. -/
def jsonbExists (key : String) : Json → Bool
  | .obj fields => (fields.lookup key).isSome
  | .arr xs => xs.any fun
    | .str s => s == key
    | _ => false
  | .str s => s == key
  | _ => false

/-- `jsonb -> 'key'`. -/
def jsonbGet (key : String) : Json → Option Json
  | .obj fields => fields.lookup key
  | _ => none

/-- Why a `LIMIT` fails: its parameter is encoded as a `bigint`, and counts rows. -/
inductive LimitError
  | outOfInt64Range
  | negative
  deriving DecidableEq

/-- `LIMIT :lim`, which is only composed when there is one. -/
def limitRows {α : Type} (limit : Option ℤ) (xs : List α) : Except LimitError (List α) :=
  match limit with
  | none => .ok xs
  | some n =>
    if n < -2 ^ 63 ∨ 2 ^ 63 ≤ n then .error .outOfInt64Range
    else if n < 0 then .error .negative
    else .ok (xs.take n.toNat)

end AslanCore
