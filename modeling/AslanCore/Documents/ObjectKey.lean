import AslanCore.Digits
import AslanCore.Documents.Filing

/-!
# Object keys

The key of an object in a bucket has the identifier of the filing, and then its role and its name
(`formatObjectKey`). The keys of a call are those of its primary document, of its XBRL document and
of its attachments: they are different from each other (`nodup_callKeys`), when no two attachments
have the same sequence and name.
-/

namespace AslanCore

namespace Documents

/-- `f"{n:03d}"`: the width is that of the digits and the sign. -/
def format03d : ℤ → List Char
  | .ofNat n => zeroPad 3 n
  | .negSucc n => '-' :: zeroPad 2 (n + 1)

/-- A digit of a hexadecimal text. -/
def hexDigit (u : PgUuid) (i : ℕ) : Char := Nat.digitChar (u.val / 16 ^ i % 16)

/-- `str(filing_id)`: groups of 8, 4, 4, 4 and 12 digits. -/
def uuidText (u : PgUuid) : List Char :=
  let digits := ((List.range 32).map (hexDigit u)).reverse
  let group i n := (digits.drop i).take n
  group 0 8 ++ '-' :: group 8 4 ++ '-' :: group 12 4 ++ '-' :: group 16 4 ++ '-' :: group 20 12

/-- What the keys of a filing begin with. -/
def keyPrefix (sourceId : String) (entityId : Option PgUuid) (publishedAt : AwareDatetime)
    (filingId : PgUuid) : List Char :=
  let eid := (entityId.map uuidText).getD "_unresolved".toList
  sourceId.toList ++ '/' :: eid ++ '/' :: zeroPad 4 publishedAt.year ++
    '/' :: zeroPad 2 publishedAt.month ++ '/' :: zeroPad 2 publishedAt.day ++
    '/' :: uuidText filingId ++ ['/']

/-- `_format_object_key`. -/
def formatObjectKey (sourceId : String) (entityId : Option PgUuid) (publishedAt : AwareDatetime)
    (filingId : PgUuid) (role : List Char) (filename : String) : String :=
  String.ofList (keyPrefix sourceId entityId publishedAt filingId ++ role ++ '/' :: filename.toList)

namespace PutFilingCall

variable (call : PutFilingCall) (filingId : PgUuid)

/-- A key of the call. -/
def objectKey (role : List Char) (filename : String) : String :=
  formatObjectKey call.sourceId call.entityId call.publishedAt filingId role filename

def primaryKey : String := call.objectKey filingId "primary".toList call.primaryFilename

/-- The key of the XBRL document, if there is one. -/
def xbrlKey : Option String :=
  match call.hasXbrl, call.xbrlBytes, call.xbrlFilename with
  | true, some _, some filename => some (call.objectKey filingId "xbrl".toList filename)
  | _, _, _ => none

/-- `role=f"attachments/{att.sequence:03d}"`. -/
def attachmentKey (att : AttachmentIn) : String :=
  call.objectKey filingId ("attachments/".toList ++ format03d att.sequence) att.filename

/-- The keys of all objects of the call. -/
def keys : List String :=
  call.primaryKey filingId :: ((call.xbrlKey filingId).toList ++
    call.attachments.map (call.attachmentKey filingId))

end PutFilingCall

/-! ### The keys are different -/

theorem format03d_injective : Function.Injective format03d := by
  have hne : ∀ m n : ℕ, zeroPad 3 m ≠ '-' :: zeroPad 2 n := by
    intro m n h
    have hc : '-' ∈ zeroPad 3 m := h ▸ List.mem_cons_self
    exact absurd (isDigit_of_mem_zeroPad hc) (by decide)
  have hpad : ∀ {width m n : ℕ}, zeroPad width m = zeroPad width n → m = n := by
    intro width m n h
    rw [← ofDigitChars_zeroPad width m, h, ofDigitChars_zeroPad]
  rintro (m | m) (n | n) h
  · rw [hpad h]
  · exact absurd h (hne _ _)
  · exact absurd h.symm (hne _ _)
  · have hmn := hpad (List.cons.inj h).2
    rw [Nat.succ_injective hmn]

theorem slash_not_mem_format03d (n : ℤ) : '/' ∉ format03d n := by
  intro h
  rcases n with n | n
  · exact absurd (isDigit_of_mem_zeroPad h) (by decide)
  · rcases List.mem_cons.1 h with h | h
    · exact absurd h (by decide)
    · exact absurd (isDigit_of_mem_zeroPad h) (by decide)

namespace PutFilingCall

variable {call : PutFilingCall} {filingId : PgUuid} {role role' : List Char}
  {filename filename' : String} {att att' : AttachmentIn}

/-- Keys are equal when what follows the identifier is. -/
theorem objectKey_inj :
    call.objectKey filingId role filename = call.objectKey filingId role' filename' ↔
      role ++ '/' :: filename.toList = role' ++ '/' :: filename'.toList := by
  rw [objectKey, objectKey, formatObjectKey, formatObjectKey, String.ofList_inj, List.append_assoc,
    List.append_assoc, List.append_cancel_left_eq]

theorem primaryKey_ne_xbrl : call.primaryKey filingId ≠ call.objectKey filingId "xbrl".toList filename := by
  rw [primaryKey, Ne, objectKey_inj]
  exact fun h => absurd (List.cons.inj h).1 (by decide)

theorem primaryKey_ne_attachmentKey : call.primaryKey filingId ≠ call.attachmentKey filingId att := by
  rw [primaryKey, attachmentKey, Ne, objectKey_inj]
  exact fun h => absurd (List.cons.inj h).1 (by decide)

theorem xbrl_ne_attachmentKey :
    call.objectKey filingId "xbrl".toList filename ≠ call.attachmentKey filingId att := by
  rw [attachmentKey, Ne, objectKey_inj]
  exact fun h => absurd (List.cons.inj h).1 (by decide)

/-- The key of an attachment tells its sequence and its name. -/
theorem attachmentKey_inj :
    call.attachmentKey filingId att = call.attachmentKey filingId att' ↔
      att.sequence = att'.sequence ∧ att.filename = att'.filename := by
  rw [attachmentKey, attachmentKey, objectKey_inj, List.append_assoc, List.append_assoc,
    List.append_cancel_left_eq, append_cons_inj_of_not_mem (slash_not_mem_format03d _)
      (slash_not_mem_format03d _), format03d_injective.eq_iff, String.toList_inj]

/-- A key of an XBRL document is that of a text and a name which are given. -/
theorem exists_of_xbrlKey {key : String} (h : call.xbrlKey filingId = some key) :
    ∃ body filename, call.xbrlBytes = some body ∧
      key = call.objectKey filingId "xbrl".toList filename := by
  rw [xbrlKey] at h
  split at h
  · rename_i body filename _ hbody _
    exact ⟨body, filename, hbody, (Option.some.inj h).symm⟩
  · cases h

/-- The keys of a call are different from each other. -/
theorem nodup_keys
    (h : (call.attachments.map fun att => (att.sequence, att.filename)).Nodup) :
    (call.keys filingId).Nodup := by
  have hattachments : (call.attachments.map (call.attachmentKey filingId)).Nodup := by
    rw [List.Nodup, List.pairwise_map] at h ⊢
    refine h.imp fun hne hkey => hne ?_
    obtain ⟨hsequence, hfilename⟩ := attachmentKey_inj.1 hkey
    rw [hsequence, hfilename]
  rw [keys, List.nodup_cons, List.mem_append, List.mem_map, Option.mem_toList]
  refine ⟨?_, ?_⟩
  · rintro (hk | ⟨att, -, hk⟩)
    · obtain ⟨body, filename, -, hfilename⟩ := exists_of_xbrlKey hk
      exact primaryKey_ne_xbrl hfilename
    · exact primaryKey_ne_attachmentKey hk.symm
  · cases hkey : call.xbrlKey filingId with
    | none => simpa using hattachments
    | some k =>
      obtain ⟨body, filename, -, rfl⟩ := exists_of_xbrlKey hkey
      rw [Option.toList_some, List.singleton_append, List.nodup_cons]
      refine ⟨fun hk => ?_, hattachments⟩
      obtain ⟨att, -, hatt⟩ := List.mem_map.1 hk
      exact xbrl_ne_attachmentKey hatt.symm

/-- A key of a call has the identifier of its filing. -/
theorem uuidText_infix_objectKey :
    uuidText filingId <:+: (call.objectKey filingId role filename).toList := by
  rw [objectKey, formatObjectKey, String.toList_ofList, keyPrefix]
  refine ⟨call.sourceId.toList ++ '/' :: (call.entityId.map uuidText).getD "_unresolved".toList ++
    '/' :: zeroPad 4 call.publishedAt.year ++ '/' :: zeroPad 2 call.publishedAt.month ++
    '/' :: zeroPad 2 call.publishedAt.day ++ ['/'], '/' :: role ++ '/' :: filename.toList, ?_⟩
  simp only [List.append_assoc, List.cons_append, List.nil_append]

end PutFilingCall

end Documents

end AslanCore
