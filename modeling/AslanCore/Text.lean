import Mathlib.Algebra.Group.Nat.Defs
import Mathlib.Data.List.DropRight
import Mathlib.Tactic.Common

/-!
# Texts

What the methods of `str` say of the characters of a text, in the whole of Unicode.

* `isSpace` and `strip`: whitespace, and a text without the whitespace around it;
* `intOf`, `hexOf`: the integer that a text is read as by `int`, in base 10 and 16;
* `uuidOf`: the bits of a text that is read by `UUID`.
-/

namespace AslanCore

/-- `str.isspace`, of one character. -/
def isSpace (c : Char) : Bool :=
  let n := c.toNat
  9 ≤ n ∧ n ≤ 13 ∨ 28 ≤ n ∧ n ≤ 32 ∨ n = 0x85 ∨ n = 0xA0 ∨ n = 0x1680 ∨ 0x2000 ≤ n ∧ n ≤ 0x200A ∨
    n = 0x2028 ∨ n = 0x2029 ∨ n = 0x202F ∨ n = 0x205F ∨ n = 0x3000

/-- `cs.strip()`. -/
def strip (cs : List Char) : List Char := (cs.dropWhile isSpace).rdropWhile isSpace

/-- The code points of the decimal digits of value zero, each followed by those of the other nine
    values. -/
def zeros : List ℕ :=
  [0x30, 0x660, 0x6F0, 0x7C0, 0x966, 0x9E6, 0xA66, 0xAE6, 0xB66, 0xBE6, 0xC66, 0xCE6, 0xD66, 0xDE6,
    0xE50, 0xED0, 0xF20, 0x1040, 0x1090, 0x17E0, 0x1810, 0x1946, 0x19D0, 0x1A80, 0x1A90, 0x1B50,
    0x1BB0, 0x1C40, 0x1C50, 0xA620, 0xA8D0, 0xA900, 0xA9D0, 0xA9F0, 0xAA50, 0xABF0, 0xFF10, 0x104A0,
    0x10D30, 0x11066, 0x110F0, 0x11136, 0x111D0, 0x112F0, 0x11450, 0x114D0, 0x11650, 0x116C0,
    0x11730, 0x118E0, 0x11950, 0x11C50, 0x11D50, 0x11DA0, 0x11F50, 0x16A60, 0x16AC0, 0x16B50,
    0x1D7CE, 0x1D7D8, 0x1D7E2, 0x1D7EC, 0x1D7F6, 0x1E140, 0x1E2F0, 0x1E4F0, 0x1E950, 0x1FBF0]

/-- `unicodedata.decimal`. -/
def decimal (c : Char) : Option ℕ :=
  (zeros.find? fun z => z ≤ c.toNat ∧ c.toNat < z + 10).map fun z => c.toNat - z

/-- The value of digits, with single underscores between them. -/
def natOf (cs : List Char) : Option ℕ := do
  let groups ← (cs.splitOn '_').mapM fun g => if g = [] then none else g.mapM decimal
  let digits := groups.flatten
  if digits.length ≤ 4300 then some (digits.foldl (fun n d => 10 * n + d) 0) else none

/-- The whitespace that `int` passes over: of ASCII, it has no separators. -/
def isIntSpace (c : Char) : Bool := isSpace c && !(28 ≤ c.toNat && c.toNat ≤ 31)

/-- A text without that whitespace around it. -/
def stripInt (cs : List Char) : List Char := (cs.dropWhile isIntSpace).rdropWhile isIntSpace

/-- `int(s)`, unless it raises a `ValueError`. -/
def intOf (s : String) : Option ℤ :=
  match stripInt s.toList with
  | '-' :: cs => (natOf cs).map fun n => -n
  | '+' :: cs => (natOf cs).map fun n => n
  | cs => (natOf cs).map fun n => n

example : intOf " +1_000" = some 1000 := by decide +kernel

/-! ### Hexadecimal digits -/

/-- The value of a hexadecimal digit: only a decimal one may be outside ASCII. -/
def hexDigitOf (c : Char) : Option ℕ :=
  if 'a' ≤ c ∧ c ≤ 'f' then some (c.toNat - 87)
  else if 'A' ≤ c ∧ c ≤ 'F' then some (c.toNat - 55)
  else decimal c

/-- The value of hexadecimal digits, with single underscores between them. -/
def hexNatOf (cs : List Char) : Option ℕ := do
  let groups ← (cs.splitOn '_').mapM fun g => if g = [] then none else g.mapM hexDigitOf
  return groups.flatten.foldl (fun n d => 16 * n + d) 0

/-- The same, after `0x`, if it is there, which an underscore may follow. -/
def hexPrefixedOf (cs : List Char) : Option ℕ :=
  match cs with
  | zero :: x :: cs =>
    if decimal zero = some 0 ∧ (x = 'x' ∨ x = 'X') then
      hexNatOf (if cs.head? = some '_' then cs.tail else cs)
    else hexNatOf (zero :: x :: cs)
  | cs => hexNatOf cs

/-- `int(s, 16)`, unless it raises a `ValueError`. -/
def hexOf (cs : List Char) : Option ℤ :=
  match stripInt cs with
  | '-' :: cs => (hexPrefixedOf cs).map fun n => -n
  | '+' :: cs => (hexPrefixedOf cs).map fun n => n
  | cs => (hexPrefixedOf cs).map fun n => n

example : hexOf " +0x_fF".toList = some 255 := by decide +kernel

/-- `s.replace(old, "")`: `skip` characters of an occurrence are left. -/
def removeAll (old : List Char) : ℕ → List Char → List Char
  | _, [] => []
  | skip + 1, _ :: cs => removeAll old skip cs
  | 0, c :: cs =>
    if old.isPrefixOf (c :: cs) then removeAll old (old.length - 1) cs else c :: removeAll old 0 cs

/-- `UUID(raw)`, unless it raises a `ValueError`. -/
def uuidOf (raw : List Char) : Option (Fin (2 ^ 128)) :=
  let isBrace (c : Char) : Bool := c = '\x7b' || c = '\x7d'
  let text := removeAll "uuid:".toList 0 (removeAll "urn:".toList 0 raw)
  let hex := ((text.dropWhile isBrace).rdropWhile isBrace).filter (· ≠ '-')
  if hex.length ≠ 32 then none
  else do
    let n ← hexOf hex
    if h : n.toNat < 2 ^ 128 ∧ 0 ≤ n then some ⟨n.toNat, h.1⟩ else none

end AslanCore
