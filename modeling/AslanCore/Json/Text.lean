import AslanCore.Json
import AslanCore.Json.Number

/-!
# The text of JSON values

What Python's `json` module writes and reads: `Json.dumps` and `loads`.

* A text is scanned from its start, and what is found is returned with what follows it
  (`scanString`, `scanValue`), or else the exception that is raised (`LoadsError`).
* Integers of more than 4300 digits are neither written nor read, and objects and arrays are
  read up to the depth that is left to recursion.
* The names of an object may be repeated in a text: the last value is kept.

What is written is read back (`loads_dumps`).
-/

namespace AslanCore

/-! ### Strings -/

/-- The four digits of an escaped code unit. -/
def hexDigits (n : ℕ) : List Char :=
  [Nat.digitChar (n / 4096), Nat.digitChar (n / 256 % 16), Nat.digitChar (n / 16 % 16),
    Nat.digitChar (n % 16)]

/-- An escaped code unit. -/
def escapeUnit (n : ℕ) : List Char := '\\' :: 'u' :: hexDigits n

/-- How a character is written. Those outside ASCII may be written as they are. -/
def escapeChar (ensureAscii : Bool) (c : Char) : List Char :=
  if c = '"' then ['\\', '"']
  else if c = '\\' then ['\\', '\\']
  else if c = '\n' then ['\\', 'n']
  else if c = '\r' then ['\\', 'r']
  else if c = '\t' then ['\\', 't']
  else if c = '\x0c' then ['\\', 'f']
  else if c = '\x08' then ['\\', 'b']
  else if 0x20 ≤ c.toNat ∧ (ensureAscii = true → c.toNat ≤ 0x7e) then [c]
  else if c.toNat < 0x10000 then escapeUnit c.toNat
  else
    escapeUnit (0xd800 + (c.toNat - 0x10000) / 0x400) ++
      escapeUnit (0xdc00 + (c.toNat - 0x10000) % 0x400)

/-- A string between its quotes. -/
def renderString (ensureAscii : Bool) (s : String) : List Char :=
  '"' :: (s.toList.flatMap (escapeChar ensureAscii) ++ ['"'])

/-- What is found in a string: a character, or a surrogate. -/
inductive Piece
  | char (c : Char)
  | surrogate (n : ℕ)

/-- The digit of a hexadecimal number. -/
def hexVal (c : Char) : Option ℕ :=
  if c.isDigit then some (c.toNat - 48)
  else if 'a' ≤ c ∧ c ≤ 'f' then some (c.toNat - 87)
  else if 'A' ≤ c ∧ c ≤ 'F' then some (c.toNat - 55)
  else none

/-- The code unit of four digits. -/
def unitOf (a b c d : Char) : Option ℕ := do
  let a ← hexVal a
  let b ← hexVal b
  let c ← hexVal c
  let d ← hexVal d
  some (a * 4096 + b * 256 + c * 16 + d)

/-- What an escaped code unit stands for. -/
def pieceOf (n : ℕ) : Piece :=
  if 0xd800 ≤ n ∧ n < 0xe000 then .surrogate n else .char (Char.ofNat n)

/-- What an escaped character stands for. -/
def unescape : Char → Option Char
  | '"' => some '"'
  | '\\' => some '\\'
  | '/' => some '/'
  | 'b' => some '\x08'
  | 'f' => some '\x0c'
  | 'n' => some '\n'
  | 'r' => some '\r'
  | 't' => some '\t'
  | _ => none

/-- The pieces of a string up to its closing quote, and what follows it. -/
def scanPieces : List Char → Option (List Piece × List Char)
  | [] => none
  | '"' :: cs => some ([], cs)
  | '\\' :: 'u' :: a :: b :: c :: d :: cs => do
    let n ← unitOf a b c d
    let (ps, rest) ← scanPieces cs
    some (pieceOf n :: ps, rest)
  | '\\' :: c :: cs => do
    let c ← unescape c
    let (ps, rest) ← scanPieces cs
    some (.char c :: ps, rest)
  | c :: cs =>
    if c = '\\' ∨ c.toNat < 0x20 then none
    else do
      let (ps, rest) ← scanPieces cs
      some (.char c :: ps, rest)

/-- The pairs of surrogates are characters. -/
def joinPieces : List Piece → List Piece
  | .surrogate hi :: .surrogate lo :: ps =>
    if hi < 0xdc00 ∧ 0xdc00 ≤ lo then
      .char (Char.ofNat (0x10000 + (hi - 0xd800) * 0x400 + (lo - 0xdc00))) :: joinPieces ps
    else .surrogate hi :: joinPieces (.surrogate lo :: ps)
  | p :: ps => p :: joinPieces ps
  | [] => []

/-- The character that a piece is, if it is one. -/
def Piece.toChar? : Piece → Option Char
  | .char c => some c
  | .surrogate _ => none

/-- The text of the pieces, if they are a text. -/
def textOf (ps : List Piece) : Option String :=
  ((joinPieces ps).mapM Piece.toChar?).map String.ofList

/-- The string up to its closing quote, if it is a text, and what follows it. -/
def scanString (cs : List Char) : Option (Option String × List Char) :=
  (scanPieces cs).map fun (ps, rest) => (textOf ps, rest)

/-- The pieces that are found where a character is written. -/
def piecesOf (ensureAscii : Bool) (c : Char) : List Piece :=
  if ensureAscii = true ∧ 0x10000 ≤ c.toNat then
    [.surrogate (0xd800 + (c.toNat - 0x10000) / 0x400),
      .surrogate (0xdc00 + (c.toNat - 0x10000) % 0x400)]
  else [.char c]

theorem hexVal_digitChar {n : ℕ} (h : n < 16) : hexVal (Nat.digitChar n) = some n := by
  interval_cases n <;> decide

theorem unitOf_hexDigits {n : ℕ} (h : n < 0x10000) :
    unitOf (Nat.digitChar (n / 4096)) (Nat.digitChar (n / 256 % 16))
      (Nat.digitChar (n / 16 % 16)) (Nat.digitChar (n % 16)) = some n := by
  rw [unitOf, hexVal_digitChar (by omega), hexVal_digitChar (by omega),
    hexVal_digitChar (by omega), hexVal_digitChar (by omega)]
  simp only [Option.bind_eq_bind, Option.bind_some, Option.some.injEq]
  omega

theorem scanPieces_escapeUnit {n : ℕ} (h : n < 0x10000) (cs : List Char) :
    scanPieces (escapeUnit n ++ cs) =
      (scanPieces cs).map fun (ps, rest) => (pieceOf n :: ps, rest) := by
  simp only [escapeUnit, hexDigits, List.cons_append, List.nil_append]
  rw [scanPieces, unitOf_hexDigits h]
  cases scanPieces cs <;> rfl

theorem toNat_lt (c : Char) : c.toNat < 0x110000 := by
  have := c.valid
  rcases this with h | ⟨-, h⟩ <;> simp only [Char.toNat, UInt32.toNat] at * <;> omega

theorem pieceOf_toNat (c : Char) : pieceOf c.toNat = .char c := by
  have hv : ¬(0xd800 ≤ c.toNat ∧ c.toNat < 0xe000) := by
    rcases c.valid with h | ⟨h, -⟩ <;> simp only [Char.toNat, UInt32.toNat] at * <;> omega
  rw [pieceOf, if_neg hv, Char.ofNat_toNat]

theorem scanPieces_cons {c : Char} (h : 0x20 ≤ c.toNat) (hq : c ≠ '"') (hb : c ≠ '\\')
    (cs : List Char) :
    scanPieces (c :: cs) = (scanPieces cs).map fun (ps, rest) => (.char c :: ps, rest) := by
  rw [scanPieces.eq_def]
  split
  · contradiction
  · rename_i heq
    cases heq
    contradiction
  · rename_i heq
    cases heq
    contradiction
  · rename_i heq
    cases heq
    contradiction
  · rename_i heq
    cases heq
    rw [if_neg (by simp [hb]; omega)]
    cases scanPieces cs <;> rfl

/-- A character is found where it is written. -/
theorem scanPieces_escapeChar (ensureAscii : Bool) (c : Char) (cs : List Char) :
    scanPieces (escapeChar ensureAscii c ++ cs) =
      (scanPieces cs).map fun (ps, rest) => (piecesOf ensureAscii c ++ ps, rest) := by
  have hc := toNat_lt c
  by_cases hbig : ensureAscii = true ∧ 0x10000 ≤ c.toNat
  · have hesc : escapeChar ensureAscii c =
        escapeUnit (0xd800 + (c.toNat - 0x10000) / 0x400) ++
          escapeUnit (0xdc00 + (c.toNat - 0x10000) % 0x400) := by
      have hne : ∀ d : Char, d.toNat < 0x10000 → c ≠ d := by
        rintro d hd rfl
        omega
      rw [escapeChar, if_neg (hne _ (by decide)), if_neg (hne _ (by decide)),
        if_neg (hne _ (by decide)), if_neg (hne _ (by decide)), if_neg (hne _ (by decide)),
        if_neg (hne _ (by decide)), if_neg (hne _ (by decide)),
        if_neg (by simp [hbig.1]; omega), if_neg (by omega)]
    rw [hesc, List.append_assoc, scanPieces_escapeUnit (by omega),
      scanPieces_escapeUnit (by omega), piecesOf, if_pos hbig, pieceOf, if_pos (by omega), pieceOf,
      if_pos (by omega)]
    cases scanPieces cs <;> rfl
  · rw [piecesOf, if_neg hbig, escapeChar]
    split_ifs with h₁ h₂ h₃ h₄ h₅ h₆ h₇ h₈ h₉
    · subst h₁
      cases h : scanPieces cs <;> simp [scanPieces, unescape, h]
    · subst h₂
      cases h : scanPieces cs <;> simp [scanPieces, unescape, h]
    · subst h₃
      cases h : scanPieces cs <;> simp [scanPieces, unescape, h]
    · subst h₄
      cases h : scanPieces cs <;> simp [scanPieces, unescape, h]
    · subst h₅
      cases h : scanPieces cs <;> simp [scanPieces, unescape, h]
    · subst h₆
      cases h : scanPieces cs <;> simp [scanPieces, unescape, h]
    · subst h₇
      cases h : scanPieces cs <;> simp [scanPieces, unescape, h]
    · exact scanPieces_cons h₈.1 h₁ h₂ cs
    · rw [scanPieces_escapeUnit h₉, pieceOf_toNat]
      rfl
    · rcases not_and_or.1 h₈ with h | h
      · omega
      · push Not at h
        exact absurd ⟨h.1, by omega⟩ hbig

/-- The pieces of a text are joined to it. -/
theorem joinPieces_piecesOf (ensureAscii : Bool) (cs : List Char) :
    joinPieces (cs.flatMap (piecesOf ensureAscii)) = cs.map .char := by
  induction cs with
  | nil => rfl
  | cons c cs ih =>
    have hc := toNat_lt c
    rw [List.flatMap_cons, piecesOf]
    split_ifs with h
    · have hnat : 0x10000 + (0xd800 + (c.toNat - 0x10000) / 0x400 - 0xd800) * 0x400 +
          (0xdc00 + (c.toNat - 0x10000) % 0x400 - 0xdc00) = c.toNat := by omega
      simp only [List.cons_append, List.nil_append, joinPieces]
      rw [if_pos (by omega), hnat, Char.ofNat_toNat, ih, List.map_cons]
    · rw [List.singleton_append, joinPieces, ih, List.map_cons]
      nofun

/-- A string is found where it is written. -/
theorem scanString_render (ensureAscii : Bool) (s : String) (rest : List Char) :
    scanString (s.toList.flatMap (escapeChar ensureAscii) ++ '"' :: rest) =
      some (some s, rest) := by
  have hpieces : ∀ cs : List Char,
      scanPieces (cs.flatMap (escapeChar ensureAscii) ++ '"' :: rest) =
        some (cs.flatMap (piecesOf ensureAscii), rest) := by
    intro cs
    induction cs with
    | nil => rw [List.flatMap_nil, List.nil_append, scanPieces, List.flatMap_nil]
    | cons c cs ih =>
      rw [List.flatMap_cons, List.append_assoc, scanPieces_escapeChar, ih, List.flatMap_cons]
      rfl
  have hchars : ∀ cs : List Char, (cs.map Piece.char).mapM Piece.toChar? = some cs := by
    intro cs
    induction cs with
    | nil => rfl
    | cons c cs ih => simp [List.mapM_cons, ih, Piece.toChar?]
  simp only [scanString, hpieces, Option.map_some, textOf, joinPieces_piecesOf, hchars,
    String.ofList_toList]

/-! ### Writing -/

/-- The sign of a float. -/
def Json.floatNeg (bits : BitVec 64) : Bool := 2 ^ 63 ≤ bits.toNat

/-- The magnitude of a float. -/
def Json.floatMagnitude (bits : BitVec 64) : ℕ := bits.toNat % 2 ^ 63

/-- The float with a sign and a magnitude. -/
def Json.floatBits (neg : Bool) (n : ℕ) : BitVec 64 := .ofNat 64 ((if neg then 2 ^ 63 else 0) + n)

/-- How values are written: what separates them, and whether the text is in ASCII. -/
structure DumpStyle where
  itemSeparator : List Char := [',', ' ']
  keySeparator : List Char := [':', ' ']
  ensureAscii : Bool := true

/-- A float as it is written. -/
def renderFloat (bits : BitVec 64) : List Char :=
  if Json.floatMagnitude bits < Binary64.infinity then
    (NumberText.repr (Json.floatNeg bits) (Json.floatMagnitude bits)).chars
  else if Binary64.infinity < Json.floatMagnitude bits then "NaN".toList
  else if Json.floatNeg bits then "-Infinity".toList
  else "Infinity".toList

mutual

/-- The text of a value. -/
def Json.render (st : DumpStyle) : Json → List Char
  | .null => "null".toList
  | .bool true => "true".toList
  | .bool false => "false".toList
  | .int n => (NumberText.ofInt n).chars
  | .float bits => renderFloat bits
  | .str s => renderString st.ensureAscii s
  | .notText => []
  | .arr [] => ['[', ']']
  | .arr (j :: js) => '[' :: (j.render st ++ renderItems st js)
  | .obj [] => ['{', '}']
  | .obj ((k, j) :: fields) =>
    '{' :: (renderString st.ensureAscii k ++ st.keySeparator ++ j.render st ++
      renderFields st fields)

/-- The items of an array after the first, and its end. -/
def renderItems (st : DumpStyle) : List Json → List Char
  | [] => [']']
  | j :: js => st.itemSeparator ++ j.render st ++ renderItems st js

/-- The fields of an object after the first, and its end. -/
def renderFields (st : DumpStyle) : List (String × Json) → List Char
  | [] => ['}']
  | (k, j) :: fields =>
    st.itemSeparator ++ renderString st.ensureAscii k ++ st.keySeparator ++ j.render st ++
      renderFields st fields

end

/-- The number of digits of the integers that are converted to and from text. -/
def maxStrDigits : ℕ := 4300

/-- The integer can be written, and read. -/
def FewDigits (n : ℤ) : Prop := (Nat.toDigits 10 n.natAbs).length ≤ maxStrDigits

instance : DecidablePred FewDigits := fun _ => inferInstanceAs (Decidable (_ ≤ _))

mutual

/-- Every integer of the value can be written, and every string is a text. -/
def Json.writable : Json → Bool
  | .int n => FewDigits n
  | .notText => false
  | .arr js => itemsWritable js
  | .obj fields => fieldsWritable fields
  | _ => true

def itemsWritable : List Json → Bool
  | [] => true
  | j :: js => j.writable && itemsWritable js

def fieldsWritable : List (String × Json) → Bool
  | [] => true
  | (_, j) :: fields => j.writable && fieldsWritable fields

end

/-- `json.dumps` of a value whose strings are texts, unless it raises a `ValueError`. -/
def Json.dumps (st : DumpStyle) (j : Json) : Option String :=
  if j.writable then some (String.ofList (j.render st)) else none

/-! ### Reading -/

/-- What `json.loads` raises: a `JSONDecodeError`, another `ValueError` for an integer of too
    many digits, or a `RecursionError`. -/
inductive LoadsError
  | decode
  | digits
  | recursion
  deriving DecidableEq

/-- The text without the blanks at its start. -/
def skipBlanks (cs : List Char) : List Char :=
  cs.dropWhile fun c => c = ' ' ∨ c = '\t' ∨ c = '\n' ∨ c = '\r'

/-- The value of a number. -/
def numberValue (t : NumberText) : Except LoadsError Json :=
  if t.IsFloat then .ok (.float (Json.floatBits t.neg t.magnitude))
  else if t.int.length ≤ maxStrDigits then .ok (.int t.toInt)
  else .error .digits

/-- The number at the start of a text. -/
def scanNumberValue (cs : List Char) : Except LoadsError (Json × List Char) :=
  match scanNumber cs with
  | none => .error .decode
  | some (t, cs) => (numberValue t).map fun j => (j, cs)

/-- A constant, or a number. -/
def scanScalar : List Char → Except LoadsError (Json × List Char)
  | 'n' :: 'u' :: 'l' :: 'l' :: cs => .ok (.null, cs)
  | 't' :: 'r' :: 'u' :: 'e' :: cs => .ok (.bool true, cs)
  | 'f' :: 'a' :: 'l' :: 's' :: 'e' :: cs => .ok (.bool false, cs)
  | 'N' :: 'a' :: 'N' :: cs => .ok (.float 0x7ff8000000000000, cs)
  | 'I' :: 'n' :: 'f' :: 'i' :: 'n' :: 'i' :: 't' :: 'y' :: cs =>
    .ok (.float 0x7ff0000000000000, cs)
  | '-' :: 'I' :: 'n' :: 'f' :: 'i' :: 'n' :: 'i' :: 't' :: 'y' :: cs =>
    .ok (.float 0xfff0000000000000, cs)
  | cs => scanNumberValue cs

/-- The items of an array from the first one on, up to its end. -/
def scanItems (value : List Char → Except LoadsError (Json × List Char)) :
    ℕ → List Char → Except LoadsError (List Json × List Char)
  | 0, _ => .error .decode
  | fuel + 1, cs => do
    let (j, cs) ← value cs
    match skipBlanks cs with
    | ']' :: cs => .ok ([j], cs)
    | ',' :: cs => do
      let (js, cs) ← scanItems value fuel (skipBlanks cs)
      .ok (j :: js, cs)
    | _ => .error .decode

/-- The fields of an object from the first one on, up to its end. -/
def scanFields (value : List Char → Except LoadsError (Json × List Char)) :
    ℕ → List Char → Except LoadsError (List (Option String × Json) × List Char)
  | 0, _ => .error .decode
  | fuel + 1, '"' :: cs =>
    match scanString cs with
    | none => .error .decode
    | some (k, cs) =>
      match skipBlanks cs with
      | ':' :: cs => do
        let (j, cs) ← value (skipBlanks cs)
        match skipBlanks cs with
        | '}' :: cs => .ok ([(k, j)], cs)
        | ',' :: cs => do
          let (fields, cs) ← scanFields value fuel (skipBlanks cs)
          .ok ((k, j) :: fields, cs)
        | _ => .error .decode
      | _ => .error .decode
  | _, _ => .error .decode

/-- The dictionary after an assignment: the field keeps its place if there is one. -/
def JsonObject.setItem (o : JsonObject) (k : String) (j : Json) : JsonObject :=
  if k ∈ o.map Prod.fst then o.map fun f => if f.1 = k then (k, j) else f else o ++ [(k, j)]

/-- The dictionary of the fields that are read one after the other. -/
def JsonObject.ofFields (fields : List (String × Json)) : JsonObject :=
  fields.foldl (fun o f => o.setItem f.1 f.2) []

/-- The value of an object. -/
def objectOf (fields : List (Option String × Json)) : Json :=
  match fields.mapM fun f => f.1.map fun k => (k, f.2) with
  | some fields => .obj (JsonObject.ofFields fields)
  | none => .notText

/-- The value at the start of a text, and what follows it: `depth` is what is left to
    recursion. -/
def scanValue : ℕ → List Char → Except LoadsError (Json × List Char)
  | _, '"' :: cs =>
    match scanString cs with
    | none => .error .decode
    | some (none, cs) => .ok (.notText, cs)
    | some (some s, cs) => .ok (.str s, cs)
  | 0, '[' :: _ => .error .recursion
  | 0, '{' :: _ => .error .recursion
  | depth + 1, '[' :: cs =>
    match skipBlanks cs with
    | ']' :: cs => .ok (.arr [], cs)
    | cs => do
      let (js, cs) ← scanItems (scanValue depth) cs.length cs
      .ok (.arr js, cs)
  | depth + 1, '{' :: cs =>
    match skipBlanks cs with
    | '}' :: cs => .ok (.obj [], cs)
    | cs => do
      let (fields, cs) ← scanFields (scanValue depth) cs.length cs
      .ok (objectOf fields, cs)
  | _, cs => scanScalar cs

/-- `json.loads`. -/
def loads (depth : ℕ) (text : String) : Except LoadsError Json := do
  let (j, cs) ← scanValue depth (skipBlanks text.toList)
  if skipBlanks cs = [] then .ok j else .error .decode

/-! ### What is written is read back -/

/-- The separators are those of JSON, with blanks after them. -/
structure DumpStyle.Valid (st : DumpStyle) : Prop where
  item : ∃ bs, st.itemSeparator = ',' :: bs ∧ ∀ cs, skipBlanks (bs ++ cs) = skipBlanks cs
  key : ∃ bs, st.keySeparator = ':' :: bs ∧ ∀ cs, skipBlanks (bs ++ cs) = skipBlanks cs

/-- The default separators. -/
theorem DumpStyle.valid_default : DumpStyle.Valid {} where
  item := ⟨[' '], rfl, fun _ => rfl⟩
  key := ⟨[' '], rfl, fun _ => rfl⟩

/-- The values that are written and read back as they are, within a depth. -/
inductive Json.Readable : ℕ → Json → Prop
  | null {d : ℕ} : Readable d .null
  | bool {d : ℕ} (b : Bool) : Readable d (.bool b)
  | int {d : ℕ} {n : ℤ} (h : FewDigits n) : Readable d (.int n)
  | float {d : ℕ} {bits : BitVec 64} (h : floatMagnitude bits < Binary64.infinity) :
    Readable d (.float bits)
  | str {d : ℕ} (s : String) : Readable d (.str s)
  | arr {d : ℕ} {js : List Json} (h : ∀ j ∈ js, Readable d j) : Readable (d + 1) (.arr js)
  | obj {d : ℕ} {fields : JsonObject} (hn : fields.NodupKeys)
    (h : ∀ f ∈ fields, Readable d f.2) : Readable (d + 1) (.obj fields)

variable {st : DumpStyle} {rest : List Char} {d : ℕ} {j : Json}

theorem floatBits_eta (bits : BitVec 64) :
    Json.floatBits (Json.floatNeg bits) (Json.floatMagnitude bits) = bits := by
  have hlt := bits.isLt
  refine BitVec.eq_of_toNat_eq ?_
  simp only [Json.floatBits, Json.floatNeg, Json.floatMagnitude, BitVec.toNat_ofNat,
    decide_eq_true_eq]
  split_ifs <;> omega

/-- A text starts with a character that no value ends before, or after. -/
def StartsValue (cs : List Char) : Prop :=
  ∃ c cs', cs = c :: cs' ∧ c ≠ ' ' ∧ c ≠ '\t' ∧ c ≠ '\n' ∧ c ≠ '\r' ∧ c ≠ ']' ∧ c ≠ '}'

theorem StartsValue.append {cs : List Char} (h : StartsValue cs) (rest : List Char) :
    StartsValue (cs ++ rest) := by
  obtain ⟨c, cs', rfl, hc⟩ := h
  exact ⟨c, cs' ++ rest, rfl, hc⟩

theorem StartsValue.skipBlanks {cs : List Char} (h : StartsValue cs) : skipBlanks cs = cs := by
  obtain ⟨c, cs', rfl, h₁, h₂, h₃, h₄, -⟩ := h
  simp [AslanCore.skipBlanks, h₁, h₂, h₃, h₄]

theorem startsValue_chars {t : NumberText} (ht : t.WellFormed) : StartsValue t.chars := by
  obtain ⟨neg, int, frac, exp⟩ := t
  obtain ⟨c, ds, rfl⟩ := List.exists_cons_of_ne_nil ht.int_ne
  have hc : c.isDigit := ht.int_digit c List.mem_cons_self
  cases neg with
  | true => exact ⟨'-', _, rfl, by decide⟩
  | false =>
    refine ⟨c, _, rfl, ?_⟩
    refine ⟨?_, ?_, ?_, ?_, ?_, ?_⟩ <;> rintro rfl <;> exact absurd hc (by decide)

theorem startsValue_render (h : j.Readable d) : StartsValue (j.render st) := by
  cases h with
  | null => exact ⟨'n', _, rfl, by decide⟩
  | bool b => cases b <;> exact ⟨_, _, rfl, by decide⟩
  | int h => exact startsValue_chars (NumberText.wellFormed_ofInt _)
  | float h =>
    rw [Json.render, renderFloat, if_pos h]
    exact startsValue_chars (NumberText.wellFormed_repr h)
  | str s => exact ⟨'"', _, rfl, by decide⟩
  | @arr _ js h => cases js <;> exact ⟨'[', _, rfl, by decide⟩
  | @obj _ fields hn h => cases fields <;> exact ⟨'{', _, rfl, by decide⟩

theorem scanScalar_of_isDigit {c : Char} (hc : c.isDigit) (cs : List Char) :
    scanScalar (c :: cs) = scanNumberValue (c :: cs) ∧
      scanScalar ('-' :: c :: cs) = scanNumberValue ('-' :: c :: cs) := by
  constructor <;> rw [scanScalar.eq_def] <;> split <;> first
    | rfl
    | rename_i heq
      cases heq <;> exact absurd hc (by decide)

theorem scanScalar_chars {t : NumberText} (ht : t.WellFormed) (hr : EndsNumber rest) :
    scanScalar (t.chars ++ rest) = (numberValue t).map fun j => (j, rest) := by
  have hscan := scanNumber_chars ht hr
  suffices h : scanScalar (t.chars ++ rest) = scanNumberValue (t.chars ++ rest) by
    rw [h, scanNumberValue, hscan]
  obtain ⟨neg, int, frac, exp⟩ := t
  obtain ⟨c, ds, rfl⟩ := List.exists_cons_of_ne_nil ht.int_ne
  have hc := scanScalar_of_isDigit (ht.int_digit c List.mem_cons_self)
  cases neg with
  | true => exact (hc _).2
  | false => exact (hc _).1

/-- Where a number is written, no string, array or object starts. -/
theorem scanValue_chars {t : NumberText} (ht : t.WellFormed) (hr : EndsNumber rest) :
    scanValue d (t.chars ++ rest) = (numberValue t).map fun j => (j, rest) := by
  rw [← scanScalar_chars ht hr]
  obtain ⟨neg, int, frac, exp⟩ := t
  obtain ⟨c, ds, rfl⟩ := List.exists_cons_of_ne_nil ht.int_ne
  have hc : c.isDigit := ht.int_digit c List.mem_cons_self
  cases neg with
  | true => cases d <;> rfl
  | false =>
    have hother : ∀ cs, scanValue d (c :: cs) = scanScalar (c :: cs) := by
      intro cs
      rw [scanValue.eq_def]
      split <;> first
        | rfl
        | rename_i heq
          cases heq
          exact absurd hc (by decide)
    exact hother _

theorem numberValue_ofInt {n : ℤ} (h : FewDigits n) :
    numberValue (NumberText.ofInt n) = .ok (.int n) := by
  rw [numberValue, if_neg (NumberText.not_isFloat_ofInt n), NumberText.toInt_ofInt]
  exact if_pos h

theorem numberValue_repr {bits : BitVec 64} (h : Json.floatMagnitude bits < Binary64.infinity) :
    numberValue (NumberText.repr (Json.floatNeg bits) (Json.floatMagnitude bits)) =
      .ok (.float bits) := by
  rw [numberValue, if_pos (NumberText.isFloat_repr h), NumberText.neg_repr,
    NumberText.magnitude_repr h, floatBits_eta]

/-- A text starts with a character that ends a number. -/
theorem endsNumber_cons {c : Char} {cs : List Char}
    (h : c.isDigit = false ∧ c ≠ '.' ∧ c ≠ 'e' ∧ c ≠ 'E') : EndsNumber (c :: cs) := by
  intro c' hc
  cases hc
  exact h

/-- The items of an array are found where they are written. -/
theorem scanItems_render (hst : st.Valid) {value : List Char → Except LoadsError (Json × List Char)}
    {js : List Json} (hj : j.Readable d) (hjs : ∀ j ∈ js, j.Readable d)
    (hvalue : ∀ j' ∈ j :: js, ∀ rest, EndsNumber rest →
      value (j'.render st ++ rest) = .ok (j', rest)) {fuel : ℕ} (hf : js.length < fuel) :
    scanItems value fuel (j.render st ++ (renderItems st js ++ rest)) = .ok (j :: js, rest) := by
  induction js generalizing j fuel with
  | nil =>
    obtain ⟨fuel, rfl⟩ := Nat.exists_eq_succ_of_ne_zero (Nat.ne_of_gt hf)
    have hv := hvalue j List.mem_cons_self ([']'] ++ rest) (endsNumber_cons (by decide))
    rw [renderItems, scanItems, hv]
    rfl
  | cons j' js ih =>
    obtain ⟨fuel, rfl⟩ := Nat.exists_eq_succ_of_ne_zero (Nat.ne_of_gt (Nat.zero_lt_of_lt hf))
    obtain ⟨bs, hsep, hbs⟩ := hst.item
    have hj' := hjs j' List.mem_cons_self
    have hnext := ih hj' (fun x hx => hjs x (List.mem_cons_of_mem _ hx))
      (fun x hx => hvalue x (List.mem_cons_of_mem _ hx)) (Nat.lt_of_succ_lt_succ hf)
    have hv := hvalue j List.mem_cons_self
      (',' :: (bs ++ (j'.render st ++ (renderItems st js ++ rest)))) (endsNumber_cons (by decide))
    rw [renderItems, hsep]
    simp only [List.append_assoc, List.cons_append]
    rw [scanItems, hv]
    have hstart : skipBlanks (bs ++ (j'.render st ++ (renderItems st js ++ rest))) =
        j'.render st ++ (renderItems st js ++ rest) := by
      rw [hbs, ((startsValue_render hj').append _).skipBlanks]
    simp only [bind, Except.bind]
    rw [show skipBlanks (',' :: (bs ++ (j'.render st ++ (renderItems st js ++ rest)))) =
      ',' :: (bs ++ (j'.render st ++ (renderItems st js ++ rest))) from rfl]
    simp only [hstart, hnext]

/-- The fields of an object are found where they are written. -/
theorem scanFields_render (hst : st.Valid)
    {value : List Char → Except LoadsError (Json × List Char)} {k : String}
    {fields : List (String × Json)} (hj : j.Readable d) (hfields : ∀ f ∈ fields, f.2.Readable d)
    (hvalue : ∀ f ∈ (k, j) :: fields, ∀ rest, EndsNumber rest →
      value (f.2.render st ++ rest) = .ok (f.2, rest)) {fuel : ℕ} (hf : fields.length < fuel) :
    scanFields value fuel (renderString st.ensureAscii k ++ (st.keySeparator ++
      (j.render st ++ (renderFields st fields ++ rest)))) =
      .ok (((k, j) :: fields).map fun f => (some f.1, f.2), rest) := by
  induction fields generalizing k j fuel with
  | nil =>
    obtain ⟨fuel, rfl⟩ := Nat.exists_eq_succ_of_ne_zero (Nat.ne_of_gt hf)
    obtain ⟨bs, hsep, hbs⟩ := hst.key
    have hv := hvalue (k, j) List.mem_cons_self ('}' :: rest) (endsNumber_cons (by decide))
    have hkey := scanString_render st.ensureAscii k (':' :: (bs ++ (j.render st ++ '}' :: rest)))
    have hstart : skipBlanks (bs ++ (j.render st ++ '}' :: rest)) = j.render st ++ '}' :: rest := by
      rw [hbs, ((startsValue_render hj).append _).skipBlanks]
    simp only [renderFields, renderString, hsep, List.append_assoc, List.cons_append,
      List.nil_append, scanFields, hkey]
    rw [show skipBlanks (':' :: (bs ++ (j.render st ++ '}' :: rest))) =
      ':' :: (bs ++ (j.render st ++ '}' :: rest)) from rfl]
    simp only [hstart, hv, bind, Except.bind]
    rfl
  | cons f fields ih =>
    obtain ⟨fuel, rfl⟩ := Nat.exists_eq_succ_of_ne_zero (Nat.ne_of_gt (Nat.zero_lt_of_lt hf))
    obtain ⟨k', j'⟩ := f
    obtain ⟨bs, hsep, hbs⟩ := hst.key
    obtain ⟨bs', hsep', hbs'⟩ := hst.item
    have hj' : j'.Readable d := hfields (k', j') List.mem_cons_self
    have hnext := ih hj' (fun x hx => hfields x (List.mem_cons_of_mem _ hx))
      (fun x hx => hvalue x (List.mem_cons_of_mem _ hx)) (Nat.lt_of_succ_lt_succ hf)
    -- What follows the first value.
    generalize htail : renderString st.ensureAscii k' ++ (st.keySeparator ++
      (j'.render st ++ (renderFields st fields ++ rest))) = tail at hnext
    have htails : renderFields st ((k', j') :: fields) ++ rest = ',' :: (bs' ++ tail) := by
      rw [← htail, renderFields, hsep']
      simp only [List.append_assoc, List.cons_append]
    have hblank : skipBlanks tail = tail := by
      rw [← htail]
      rfl
    have hv := hvalue (k, j) List.mem_cons_self (',' :: (bs' ++ tail)) (endsNumber_cons (by decide))
    have hkey := scanString_render st.ensureAscii k
      (':' :: (bs ++ (j.render st ++ ',' :: (bs' ++ tail))))
    have hstart : skipBlanks (bs ++ (j.render st ++ ',' :: (bs' ++ tail))) =
        j.render st ++ ',' :: (bs' ++ tail) := by
      rw [hbs, ((startsValue_render hj).append _).skipBlanks]
    rw [htails]
    simp only [renderString, hsep, List.append_assoc, List.cons_append, List.nil_append, scanFields,
      hkey]
    rw [show skipBlanks (':' :: (bs ++ (j.render st ++ ',' :: (bs' ++ tail)))) =
      ':' :: (bs ++ (j.render st ++ ',' :: (bs' ++ tail))) from rfl]
    simp only [hstart, hv, bind, Except.bind]
    rw [show skipBlanks (',' :: (bs' ++ tail)) = ',' :: (bs' ++ tail) from rfl]
    simp only [hbs', hblank, hnext]
    rfl

/-- Names that differ are kept in the order they are read in. -/
theorem ofFields_eq {fields : JsonObject} (hn : fields.NodupKeys) :
    JsonObject.ofFields fields = fields := by
  suffices h : ∀ o : JsonObject, (o ++ fields).NodupKeys →
      fields.foldl (fun o f => o.setItem f.1 f.2) o = o ++ fields by
    exact h [] hn
  clear hn
  induction fields with
  | nil => intro o _; simp
  | cons f fields ih =>
    intro o hn
    have hnot : f.1 ∉ o.map Prod.fst := by
      rw [JsonObject.NodupKeys, List.map_append, List.map_cons] at hn
      intro hmem
      exact (List.nodup_append.1 hn).2.2 _ hmem _ List.mem_cons_self rfl
    rw [List.foldl_cons, JsonObject.setItem, if_neg hnot, ih _ (by simpa using hn)]
    simp

theorem objectOf_map {fields : JsonObject} (hn : fields.NodupKeys) :
    objectOf (fields.map fun f => (some f.1, f.2)) = .obj fields := by
  have hmap : ∀ l : JsonObject, (l.map fun f => (some f.1, f.2)).mapM
      (fun f : Option String × Json => f.1.map fun k => (k, f.2)) = some l := by
    intro l
    induction l with
    | nil => rfl
    | cons f l ih => simp [List.mapM_cons, ih]
  rw [objectOf, hmap]
  simp only [ofFields_eq hn]

theorem length_renderItems (hst : st.Valid) (js : List Json) :
    js.length < (renderItems st js).length := by
  obtain ⟨bs, hsep, -⟩ := hst.item
  induction js with
  | nil => simp [renderItems]
  | cons j js ih =>
    simp only [renderItems, hsep, List.length_append, List.length_cons]
    omega

theorem length_renderFields (hst : st.Valid) (fields : List (String × Json)) :
    fields.length < (renderFields st fields).length := by
  obtain ⟨bs, hsep, -⟩ := hst.item
  induction fields with
  | nil => simp [renderFields]
  | cons f fields ih =>
    simp only [renderFields, hsep, List.length_append, List.length_cons]
    omega

/-- An array that is not empty. -/
theorem scanValue_arr {cs : List Char} (h : StartsValue cs) : scanValue (d + 1) ('[' :: cs) =
    (scanItems (scanValue d) cs.length cs).map fun r => (.arr r.1, r.2) := by
  rw [scanValue, h.skipBlanks]
  obtain ⟨c, cs, rfl, -, -, -, -, hne, -⟩ := h
  split
  · rename_i heq
    cases heq
    exact absurd rfl hne
  · rfl

/-- An object that is not empty. -/
theorem scanValue_obj {cs : List Char} (h : StartsValue cs) : scanValue (d + 1) ('{' :: cs) =
    (scanFields (scanValue d) cs.length cs).map fun r => (objectOf r.1, r.2) := by
  rw [scanValue, h.skipBlanks]
  obtain ⟨c, cs, rfl, -, -, -, -, -, hne⟩ := h
  split
  · rename_i heq
    cases heq
    exact absurd rfl hne
  · rfl

/-- A value is found where it is written. -/
theorem scanValue_render (hst : st.Valid) (h : j.Readable d) :
    ∀ rest, EndsNumber rest → scanValue d (j.render st ++ rest) = .ok (j, rest) := by
  induction h with
  | @null d => intro rest _; cases d <;> rfl
  | @bool d b => intro rest _; cases d <;> cases b <;> rfl
  | @int d n h =>
    intro rest hr
    rw [Json.render, scanValue_chars (NumberText.wellFormed_ofInt n) hr, numberValue_ofInt h]
    rfl
  | @float d bits h =>
    intro rest hr
    rw [Json.render, renderFloat, if_pos h, scanValue_chars (NumberText.wellFormed_repr h) hr,
      numberValue_repr h]
    rfl
  | @str d s =>
    intro rest _
    rw [Json.render, renderString, List.cons_append, List.append_assoc, scanValue,
      List.singleton_append, scanString_render]
  | @arr d js h ih =>
    intro rest _
    cases js with
    | nil => rfl
    | cons j js =>
      obtain ⟨hj, hjs⟩ := List.forall_mem_cons.1 h
      have hlen : js.length < (j.render st ++ (renderItems st js ++ rest)).length := by
        have := length_renderItems hst js
        simp only [List.length_append]
        omega
      rw [Json.render, List.cons_append, List.append_assoc,
        scanValue_arr ((startsValue_render hj).append _), scanItems_render hst hj hjs ih hlen]
      rfl
  | @obj d fields hn h ih =>
    intro rest _
    cases fields with
    | nil => rfl
    | cons f fields =>
      obtain ⟨k, j⟩ := f
      obtain ⟨hj, hfields⟩ := List.forall_mem_cons.1 h
      have hlen : fields.length < (renderString st.ensureAscii k ++ (st.keySeparator ++
          (j.render st ++ (renderFields st fields ++ rest)))).length := by
        have := length_renderFields hst fields
        simp only [List.length_append]
        omega
      have hstart : StartsValue (renderString st.ensureAscii k ++ (st.keySeparator ++
          (j.render st ++ (renderFields st fields ++ rest)))) := ⟨'"', _, rfl, by decide⟩
      rw [Json.render, List.cons_append]
      simp only [List.append_assoc]
      rw [scanValue_obj hstart, scanFields_render hst hj hfields ih hlen, ← objectOf_map hn]
      rfl

/-- What is written is read back. -/
theorem loads_dumps (hst : st.Valid) (h : j.Readable d) {text : String}
    (htext : j.dumps st = some text) : loads d text = .ok j := by
  rw [Json.dumps] at htext
  split_ifs at htext
  cases htext
  have hscan := scanValue_render hst h [] nofun
  rw [List.append_nil] at hscan
  rw [loads, String.toList_ofList, (startsValue_render h).skipBlanks, hscan]
  rfl

theorem except_bind_eq_ok {ε α β : Type} {x : Except ε α} {f : α → Except ε β} {b : β} :
    x.bind f = .ok b ↔ ∃ a, x = .ok a ∧ f a = .ok b := by
  cases x with
  | error e => simp [Except.bind]
  | ok a => simp [Except.bind]

/-! ### Depth -/

section

variable {value value' : List Char → Except LoadsError (Json × List Char)}
  (hvalue : ∀ cs r, value cs = .ok r → value' cs = .ok r)
include hvalue

theorem scanItems_of_value : ∀ (fuel : ℕ) (cs : List Char) {r : List Json × List Char},
    scanItems value fuel cs = .ok r → scanItems value' fuel cs = .ok r
  | 0, _, _, h => nomatch h
  | fuel + 1, cs, r, h => by
    obtain ⟨⟨j, cs'⟩, hj, h⟩ := except_bind_eq_ok.1 h
    rw [scanItems, hvalue cs _ hj]
    simp only [bind, Except.bind] at h ⊢
    split at h
    · exact h
    · obtain ⟨⟨js, cs''⟩, hjs, h⟩ := except_bind_eq_ok.1 h
      rw [scanItems_of_value fuel _ hjs]
      exact h
    · cases h

theorem scanFields_of_value : ∀ (fuel : ℕ) (cs : List Char)
    {r : List (Option String × Json) × List Char},
    scanFields value fuel cs = .ok r → scanFields value' fuel cs = .ok r
  | 0, _, _, h => nomatch h
  | fuel + 1, cs, r, h => by
    rw [scanFields.eq_def] at h ⊢
    split at h
    · cases h
    · rename_i hfuel
      cases hfuel
      simp only at h ⊢
      split at h
      · cases h
      · split at h
        · obtain ⟨⟨j, cs'⟩, hj, h⟩ := except_bind_eq_ok.1 h
          rw [hvalue _ _ hj]
          simp only [bind, Except.bind] at h ⊢
          split at h
          · exact h
          · obtain ⟨⟨fields, cs''⟩, hfields, h⟩ := except_bind_eq_ok.1 h
            rw [scanFields_of_value _ _ hfields]
            exact h
          · cases h
        · cases h
    · cases h

end

/-- Where no string, array or object starts. -/
theorem scanValue_of_ne {c : Char} (h₁ : c ≠ '"') (h₂ : c ≠ '[') (h₃ : c ≠ '{') (d : ℕ)
    (cs : List Char) : scanValue d (c :: cs) = scanScalar (c :: cs) := by
  rw [scanValue.eq_def]
  split <;> first
    | rfl
    | rename_i heq
      cases heq
      contradiction

/-- What is read within a depth is read so within a greater one. -/
theorem scanValue_succ : ∀ (d : ℕ) (cs : List Char) {r : Json × List Char},
    scanValue d cs = .ok r → scanValue (d + 1) cs = .ok r
  | 0, [], _, h | d + 1, [], _, h => h
  | 0, c :: cs, r, h => by
    by_cases h₁ : c = '"'
    · subst h₁
      exact h
    by_cases h₂ : c = '['
    · subst h₂
      cases h
    by_cases h₃ : c = '{'
    · subst h₃
      cases h
    rwa [scanValue_of_ne h₁ h₂ h₃] at h ⊢
  | d + 1, c :: cs, r, h => by
    by_cases h₁ : c = '"'
    · subst h₁
      exact h
    by_cases h₂ : c = '['
    · subst h₂
      rw [scanValue] at h ⊢
      split at h
      · exact h
      · obtain ⟨⟨js, cs'⟩, hjs, h⟩ := except_bind_eq_ok.1 h
        rw [scanItems_of_value (fun cs _ => scanValue_succ d cs) _ _ hjs]
        exact h
    by_cases h₃ : c = '{'
    · subst h₃
      rw [scanValue] at h ⊢
      split at h
      · exact h
      · obtain ⟨⟨fields, cs'⟩, hfields, h⟩ := except_bind_eq_ok.1 h
        rw [scanFields_of_value (fun cs _ => scanValue_succ d cs) _ _ hfields]
        exact h
    rwa [scanValue_of_ne h₁ h₂ h₃] at h ⊢

theorem loads_succ {text : String} (h : loads d text = .ok j) : loads (d + 1) text = .ok j := by
  obtain ⟨r, hr, h⟩ := except_bind_eq_ok.1 h
  rw [loads, scanValue_succ d _ hr]
  exact h

/-- A dictionary has no two fields of one name, whatever is assigned. -/
theorem nodupKeys_setItem {o : JsonObject} (hn : o.NodupKeys) (k : String) (j : Json) :
    (o.setItem k j).NodupKeys := by
  rw [JsonObject.setItem]
  split_ifs with h
  · have hmap : (o.map fun f => if f.1 = k then (k, j) else f).map Prod.fst = o.map Prod.fst := by
      rw [List.map_map]
      refine List.map_congr_left fun f _ => ?_
      simp only [Function.comp_apply]
      split_ifs with hf
      · exact hf.symm
      · rfl
    rwa [JsonObject.NodupKeys, hmap]
  · rw [JsonObject.NodupKeys, List.map_append]
    refine List.nodup_append.2 ⟨hn, List.nodup_singleton _, ?_⟩
    rintro a ha b hb rfl
    cases List.mem_singleton.1 hb
    exact h ha

theorem nodupKeys_ofFields (fields : List (String × Json)) :
    (JsonObject.ofFields fields).NodupKeys := by
  suffices h : ∀ o : JsonObject, o.NodupKeys →
      (fields.foldl (fun o f => o.setItem f.1 f.2) o).NodupKeys by
    exact h [] List.nodup_nil
  induction fields with
  | nil => exact fun o hn => hn
  | cons f fields ih => exact fun o hn => ih _ (nodupKeys_setItem hn f.1 f.2)

theorem scanNumberValue_ne_obj {cs : List Char} {fields : JsonObject} :
    scanNumberValue cs ≠ .ok (.obj fields, rest) := by
  intro h
  rw [scanNumberValue] at h
  split at h
  · cases h
  · rename_i t _ _
    rw [numberValue] at h
    split_ifs at h <;> cases h

theorem scanScalar_ne_obj {cs : List Char} {fields : JsonObject} :
    scanScalar cs ≠ .ok (.obj fields, rest) := by
  intro h
  rw [scanScalar.eq_def] at h
  split at h
  all_goals first
    | exact scanNumberValue_ne_obj h
    | cases h

/-- An object that is read is a dictionary. -/
theorem nodupKeys_of_scanValue {cs : List Char} {fields : JsonObject}
    (h : scanValue d cs = .ok (.obj fields, rest)) : fields.NodupKeys := by
  rw [scanValue.eq_def] at h
  split at h
  · split at h <;> cases h
  · cases h
  · cases h
  · split at h
    · cases h
    · obtain ⟨⟨js, cs'⟩, -, h⟩ := except_bind_eq_ok.1 h
      cases h
  · split at h
    · cases h
      exact List.nodup_nil
    · obtain ⟨⟨fs, cs'⟩, -, h⟩ := except_bind_eq_ok.1 h
      simp only [Except.ok.injEq, Prod.mk.injEq] at h
      rw [objectOf] at h
      split at h
      · cases h.1
        exact nodupKeys_ofFields _
      · cases h.1
  · exact absurd h scanScalar_ne_obj

theorem nodupKeys_of_loads {text : String} {fields : JsonObject}
    (h : loads d text = .ok (.obj fields)) : fields.NodupKeys := by
  obtain ⟨⟨j, cs⟩, hscan, h⟩ := except_bind_eq_ok.1 h
  simp only at h
  split_ifs at h
  cases h
  exact nodupKeys_of_scanValue hscan

end AslanCore
