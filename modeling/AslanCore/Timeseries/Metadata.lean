import AslanCore.Json.Text

/-!
# Metadata

The metadata of a call are a dictionary of Python (`PyValue`), those of a row a JSON document
of the database (`Jsonb`): how the one is stored (`PyValue.jsonb`), how Python compares what
it reads with what it is given (`Jsonb.pyEq`), and when two documents are equal as JSON
(`Jsonb.norm`), where numbers are compared by their value, and no boolean is a number.
-/

namespace AslanCore.Timeseries

/-- A key of a dictionary that `json.dumps` can write. -/
inductive PyKey
  | none
  | bool (b : Bool)
  | int (n : ℤ)
  | float (bits : BitVec 64)
  | str (s : String)
  deriving DecidableEq

/-- A value of Python, of the types that `json.dumps` can write. -/
inductive PyValue
  | none
  | bool (b : Bool)
  | int (n : ℤ)
  | float (bits : BitVec 64)
  | str (s : String)
  | list (vs : List PyValue)
  | tuple (vs : List PyValue)
  | dict (fields : List (PyKey × PyValue))

/-- A number of the database: `coeff / 10 ^ scale`. -/
structure Numeric where
  coeff : ℤ
  scale : ℕ
  deriving DecidableEq

/-- A document of the database. The fields of an object are in the order of their names. -/
inductive Jsonb
  | null
  | bool (b : Bool)
  | num (n : Numeric)
  | str (s : String)
  | arr (js : List Jsonb)
  | obj (fields : List (String × Jsonb))

/-! ### Storing -/

/-- The number that a text stands for. -/
def Numeric.ofText (t : NumberText) : Numeric :=
  let digits := Nat.ofDigitChars 10 (t.int ++ t.frac) 0
  let exp := NumberText.expValue t.exp - t.frac.length
  let coeff := digits * 10 ^ exp.toNat
  ⟨if t.neg then -coeff else coeff, (-exp).toNat⟩

/-- A text column, or a string of a document: it may not contain the character 0. -/
def storableText (s : String) : Bool := s.toList.all (· ≠ Char.ofNat 0)

/-- The name that `json.dumps` writes for a key. -/
def PyKey.text : PyKey → String
  | none => "null"
  | bool true => "true"
  | bool false => "false"
  | int n => String.ofList (NumberText.ofInt n).chars
  | float bits => String.ofList (renderFloat bits)
  | str s => s

/-- A field is put in its place; a field of its name is replaced. -/
def putField (k : String) (j : Jsonb) : List (String × Jsonb) → List (String × Jsonb)
  | [] => [(k, j)]
  | (k', j') :: fields =>
    if k < k' then (k, j) :: (k', j') :: fields
    else if k = k' then (k, j) :: fields
    else (k', j') :: putField k j fields

mutual

/-- `CAST(json.dumps(value) AS JSONB)`, unless one of the two raises: for an integer of too
    many digits, for a float that is no number, or for a string with the character 0. -/
def PyValue.jsonb : PyValue → Option Jsonb
  | .none => some .null
  | .bool b => some (.bool b)
  | .int n => if FewDigits n then some (.num ⟨n, 0⟩) else Option.none
  | .float bits =>
    if Json.floatMagnitude bits < Binary64.infinity then
      some (.num (.ofText (NumberText.repr (Json.floatNeg bits) (Json.floatMagnitude bits))))
    else Option.none
  | .str s => if storableText s then some (.str s) else Option.none
  | .list vs => (itemsJsonb vs).map .arr
  | .tuple vs => (itemsJsonb vs).map .arr
  | .dict fields => (fieldsJsonb [] fields).map .obj

/-- The items of a list. -/
def itemsJsonb : List PyValue → Option (List Jsonb)
  | [] => some []
  | v :: vs =>
    match v.jsonb, itemsJsonb vs with
    | some j, some js => some (j :: js)
    | _, _ => Option.none

/-- The fields of a dictionary, after those that precede them: of two with one name, the
    last one counts. -/
def fieldsJsonb (acc : List (String × Jsonb)) :
    List (PyKey × PyValue) → Option (List (String × Jsonb))
  | [] => some acc
  | (k, v) :: fields =>
    match v.jsonb with
    | some j => if storableText k.text then fieldsJsonb (putField k.text j acc) fields else Option.none
    | Option.none => Option.none

end

/-! ### Comparing -/

/-- A float, in the units of `Binary64.magnitude`, unless it is infinite or no number. -/
def floatUnits (bits : BitVec 64) : Option ℤ :=
  if Json.floatMagnitude bits < Binary64.infinity then
    let n : ℤ := Binary64.magnitude (Json.floatMagnitude bits)
    some (if Json.floatNeg bits then -n else n)
  else Option.none

/-- The number that Python reads: an integer, if there are no digits after the point, or else
    the nearest float; in the units of `Binary64.magnitude`. -/
def Numeric.units (n : Numeric) : ℤ :=
  if n.scale = 0 then n.coeff * Binary64.one
  else
    let m : ℤ := Binary64.magnitude (Binary64.ofDecimal n.coeff.natAbs (-n.scale))
    if n.coeff < 0 then -m else m

/-- A boolean is the number 0 or 1. -/
def boolUnits (b : Bool) : ℤ := if b then Binary64.one else 0

mutual

/-- `read == value`, of what Python reads from a document: numbers are equal by their value,
    and booleans are numbers. -/
def Jsonb.pyEq : Jsonb → PyValue → Bool
  | .null, .none => true
  | .bool b, .bool b' => b == b'
  | .bool b, .int n => boolUnits b == n * Binary64.one
  | .bool b, .float bits => floatUnits bits == some (boolUnits b)
  | .num n, .bool b => n.units == boolUnits b
  | .num n, .int m => n.units == m * Binary64.one
  | .num n, .float bits => floatUnits bits == some n.units
  | .str s, .str s' => s == s'
  | .arr js, .list vs => itemsPyEq js vs
  | .obj fields, .dict fields' => fields.length == fields'.length && fieldsPyEq fields fields'
  | _, _ => false

/-- The items are equal, one by one. -/
def itemsPyEq : List Jsonb → List PyValue → Bool
  | [], [] => true
  | j :: js, v :: vs => j.pyEq v && itemsPyEq js vs
  | _, _ => false

/-- Every field has an equal one under its key. -/
def fieldsPyEq : List (String × Jsonb) → List (PyKey × PyValue) → Bool
  | [], _ => true
  | (k, j) :: fields, fields' =>
    (match fields'.lookup (.str k) with
      | some v => j.pyEq v
      | Option.none => false) && fieldsPyEq fields fields'

end

/-- The number without zeros after the point. -/
def Numeric.reduce : ℤ → ℕ → Numeric
  | coeff, 0 => ⟨coeff, 0⟩
  | coeff, scale + 1 => if coeff % 10 = 0 then reduce (coeff / 10) scale else ⟨coeff, scale + 1⟩

mutual

/-- The document as JSON, where numbers are given by their value. -/
def Jsonb.norm : Jsonb → Jsonb
  | .num n => .num (Numeric.reduce n.coeff n.scale)
  | .arr js => .arr (itemsNorm js)
  | .obj fields => .obj (fieldsNorm fields)
  | j => j

def itemsNorm : List Jsonb → List Jsonb
  | [] => []
  | j :: js => j.norm :: itemsNorm js

def fieldsNorm : List (String × Jsonb) → List (String × Jsonb)
  | [] => []
  | (k, j) :: fields => (k, j.norm) :: fieldsNorm fields

end

end AslanCore.Timeseries
