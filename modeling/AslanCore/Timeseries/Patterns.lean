import AslanCore.Regex
import AslanCore.Text
import AslanCore.Timeseries.Pii

/-!
# The two patterns

The regular expressions of `pii.py`: what looks like an e-mail address, and what looks like a name.
Which characters are part of a word is a parameter, as the database of Unicode is.

* `piiPatterns`: the table of the two patterns;
* `mem_scanPii_iff`: the findings in a string are the matches of the two.
-/

namespace AslanCore.Timeseries

/-- `[a-z]`, where cases are ignored. -/
def isLetter (c : Char) : Bool :=
  'a' ≤ c && c ≤ 'z' || 'A' ≤ c && c ≤ 'Z' || ['İ', 'ı', '\u017f', '\u212a'].contains c

/-- `[a-z0-9._%+-]`, where cases are ignored. -/
def isLocal (c : Char) : Bool :=
  isLetter c || c.isDigit || ['.', '_', '%', '+', '-'].contains c

/-- `[a-z0-9.-]`, where cases are ignored. -/
def isDomain (c : Char) : Bool := isLetter c || c.isDigit || ['.', '-'].contains c

/-- `_PII_EMAIL`. -/
def piiEmail : Regex :=
  .seq (.many isLocal) <| .seq (.one (· == '@')) <| .seq (.many isDomain) <|
    .seq (.one (· == '.')) (.many isLetter)

/-- `[A-ZÇĞİÖŞÜ]`. -/
def isUpper (c : Char) : Bool := 'A' ≤ c && c ≤ 'Z' || ['Ç', 'Ğ', 'İ', 'Ö', 'Ş', 'Ü'].contains c

/-- `[a-zçğıöşü]`. -/
def isLower (c : Char) : Bool := 'a' ≤ c && c ≤ 'z' || ['ç', 'ğ', 'ı', 'ö', 'ş', 'ü'].contains c

/-- The expression between the two boundaries of `_PII_NAME`: two capitalised words, with an initial
    between them or not. -/
def nameShape : Regex :=
  .seq (.one isUpper) <| .seq (.many isLower) <|
    .seq (.maybe (.seq (.many isSpace) (.seq (.one isUpper) (.maybe (.one (· == '.')))))) <|
    .seq (.many isSpace) <| .seq (.one isUpper) (.many isLower)

/-- `_PII_NAME`. -/
def piiName : Regex := .seq .boundary (.seq nameShape .boundary)

variable (isWord : Char → Bool)

/-- The matches of an expression, as texts and spans. -/
def matchesOf (r : Regex) (s : String) : List (String × ℕ × ℕ) :=
  (r.finditer isWord s.toList).map fun p =>
    (String.ofList ((s.toList.drop p.1).take (p.2 - p.1)), p.1, p.2)

/-- `_PATTERN_TABLE`. -/
def piiPatterns : PatternTable :=
  [("email", matchesOf isWord piiEmail), ("name", matchesOf isWord piiName)]

variable {isWord} {path : List PathElem} {s : String} {f : PiiFinding}

/-- The findings in a string are the matches of the two patterns. -/
theorem mem_scanPii_iff : f ∈ scanPii (piiPatterns isWord) path s ↔
    f.path = path ∧ f.fullValue = s ∧
      f.matchedText = String.ofList ((s.toList.drop f.span.1).take (f.span.2 - f.span.1)) ∧
      (f.matchedPattern = "email" ∧ f.span ∈ piiEmail.finditer isWord s.toList ∨
        f.matchedPattern = "name" ∧ f.span ∈ piiName.finditer isWord s.toList) := by
  obtain ⟨path', matchedPattern, matchedText, span, fullValue⟩ := f
  simp only [scanPii, piiPatterns, matchesOf, List.flatMap_cons, List.flatMap_nil, List.append_nil,
    List.mem_append, List.mem_map, PiiFinding.mk.injEq, exists_exists_and_eq_and]
  constructor
  · rintro (⟨p, hp, rfl, rfl, rfl, rfl, rfl⟩ | ⟨p, hp, rfl, rfl, rfl, rfl, rfl⟩)
    · exact ⟨rfl, rfl, rfl, .inl ⟨rfl, hp⟩⟩
    · exact ⟨rfl, rfl, rfl, .inr ⟨rfl, hp⟩⟩
  · rintro ⟨rfl, rfl, rfl, ⟨rfl, hp⟩ | ⟨rfl, hp⟩⟩
    · exact .inl ⟨span, hp, rfl, rfl, rfl, rfl, rfl⟩
    · exact .inr ⟨span, hp, rfl, rfl, rfl, rfl, rfl⟩

/-- A span is not empty, and one of the string. -/
theorem lt_of_mem_scanPii (h : f ∈ scanPii (piiPatterns isWord) path s) :
    f.span.1 < f.span.2 ∧ f.span.2 ≤ s.toList.length := by
  obtain ⟨-, -, -, ⟨-, hf⟩ | ⟨-, hf⟩⟩ := mem_scanPii_iff.1 h
  · exact Regex.lt_of_mem_finditer hf
  · exact Regex.lt_of_mem_finditer hf

example : (scanPii (piiPatterns Char.isAlphanum) [] "John Doe, jd@x.com").map (·.span) =
    [(10, 18), (0, 8)] := by
  decide +kernel

end AslanCore.Timeseries
