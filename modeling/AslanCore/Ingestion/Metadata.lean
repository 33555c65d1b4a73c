import AslanCore.Timeseries.Pii

/-!
# Values that may not be written

The metadata of a run may be any value of Python (`PyObject`), and `json.dumps` may raise on it.
With `default=str`, it writes the text of an object that it does not know; but it raises on a key
that it does not know, and on a list or a dictionary that contains itself, in any case.
-/

namespace AslanCore.Ingestion

open Timeseries (PyKey PyValue Jsonb)

/-- A value of Python. -/
inductive PyObject
  | none
  | bool (b : Bool)
  | int (n : ℤ)
  | float (bits : BitVec 64)
  | str (s : String)
  /-- A string that is no text: a document of the database cannot hold it. -/
  | notText
  | list (vs : List PyObject)
  | tuple (vs : List PyObject)
  /-- A dictionary: some of its keys may not be written. -/
  | dict (fields : List (Option PyKey × PyObject))
  /-- Any other object: its `str`, if that is a text. -/
  | other (text : Option String)
  /-- A list or a dictionary that contains itself. -/
  | circular

/-- The value is `None`. -/
def PyObject.isNone : PyObject → Bool
  | .none => true
  | _ => false

mutual

/-- What `json.dumps` writes of the value, where it is known how, with `default=str` or without. -/
def PyObject.written (defaultStr : Bool) : PyObject → Option PyValue
  | .none => some .none
  | .bool b => some (.bool b)
  | .int n => some (.int n)
  | .float bits => some (.float bits)
  | .str s => some (.str s)
  | .notText => Option.none
  | .list vs => (itemsWritten defaultStr vs).map .list
  | .tuple vs => (itemsWritten defaultStr vs).map .tuple
  | .dict fields => (fieldsWritten defaultStr fields).map .dict
  | .other text => if defaultStr then text.map .str else Option.none
  | .circular => Option.none

def itemsWritten (defaultStr : Bool) : List PyObject → Option (List PyValue)
  | [] => some []
  | v :: vs =>
    match v.written defaultStr, itemsWritten defaultStr vs with
    | some w, some ws => some (w :: ws)
    | _, _ => Option.none

def fieldsWritten (defaultStr : Bool) :
    List (Option PyKey × PyObject) → Option (List (PyKey × PyValue))
  | [] => some []
  | (k, v) :: fields =>
    match k, v.written defaultStr, fieldsWritten defaultStr fields with
    | some k, some w, some ws => some ((k, w) :: ws)
    | _, _, _ => Option.none

end

/-- The document that is stored of the value, unless `json.dumps` or the database raises. -/
def PyObject.jsonb (defaultStr : Bool) (v : PyObject) : Option Jsonb :=
  (v.written defaultStr).bind PyValue.jsonb

end AslanCore.Ingestion
