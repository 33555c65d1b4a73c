import Mathlib.Data.List.Infix
import Mathlib.Data.Prod.Lex
import AslanCore.Audit
import AslanCore.Store.Column
import AslanCore.Store.DistinctOn
import AslanCore.Timeseries.Pii

/-!
# Filings

The rows of `doc.filing`, what a call of `put_filing` is given, and how the rows are read.

A filing has the bytes of its primary document, by their hash, and a reference of its source. New
bytes under a reference are a new revision. Bytes that a source has already published under
another reference are not stored again: the reference is added to the aliases of the row, in
`metadata.republished_as`.

* `FilingRow`, `AttachmentRow`, `FilingEvent`: the rows;
* `FilingRow.republish`: what the upsert changes of a row that it finds;
* `latestRevision`, `FoundBySourceRef`, `amendmentChain`: the reads.
-/

namespace AslanCore

namespace Documents

open Timeseries (Jsonb PyDict PyValue putField)

abbrev Bytes := List UInt8

/-- A `datetime` that has a time zone: its instant, and its date there. -/
structure AwareDatetime where
  instant : Timestamp
  year : ℕ
  month : ℕ
  day : ℕ

/-! ### Rows -/

/-- The columns that a filing takes from the call as they are. -/
structure FilingFields where
  entityId : Option PgUuid
  kind : String
  subkind : Option String := none
  title : String
  language : String := "tr"
  periodStart : Option Date := none
  periodEnd : Option Date := none
  sourceUrl : Option String := none
  hasXbrl : Bool := false
  deriving DecidableEq

/-- The columns of a filing that its insertion gives. The metadata are the fields of an object. -/
structure FilingContent extends FilingFields where
  filingId : PgUuid
  sourceId : String
  sourceFilingRef : String
  publishedAt : Timestamp
  isAmendment : Bool
  previousFilingId : Option PgUuid
  primaryObjectKey : String
  primaryMime : String
  primarySha256 : String
  primaryBytes : ℕ
  xbrlObjectKey : Option String
  metadata : List (String × Jsonb)

/-- The values of the insertion. -/
structure FilingValues extends FilingContent where
  ingestionRunId : ℤ
  actor : Option Actor

/-- A filing that is read. -/
structure Filing extends FilingContent where
  discoveredAt : Timestamp
  revisionNo : ℕ

/-- A row of `doc.filing`. -/
structure FilingRow extends Filing where
  ingestionRunId : ℤ
  actor : Option Actor

/-- The row that is inserted. -/
def FilingValues.row (v : FilingValues) (discoveredAt : Timestamp) (revisionNo : ℕ) : FilingRow :=
  { v with discoveredAt, revisionNo }

/-- A row of `doc.filing_attachment`. -/
structure AttachmentRow where
  filingId : PgUuid
  objectKey : String
  mime : String
  sha256 : String
  bytes : ℕ
  role : String
  sequence : ℤ
  deriving DecidableEq

inductive FilingOperation
  | put
  | dedupHit
  | idempotentHit
  | republishedAliasAdded
  deriving DecidableEq

/-- The `before` of an event: what a call found. -/
structure FilingBefore where
  filingId : PgUuid
  sourceFilingRef : String
  metadata : List (String × Jsonb)
  actor : Option Actor

/-- A row of `audit.events` about a filing. -/
structure FilingEvent where
  operation : FilingOperation
  targetPk : PgUuid
  before : Option FilingBefore
  after : Filing
  /-- The sequences, the names and the sizes of the attachments of the call. -/
  attachments : List (ℤ × String × ℕ)
  revisionNo : ℕ
  primarySha256 : String
  primarySizeBytes : ℕ
  returnedExisting : Bool
  ingestionRunId : ℤ
  actor : Actor

/-! ### Aliases -/

def isText (ref : String) : Jsonb → Bool
  | .str s => s = ref
  | _ => false

/-- `metadata->'republished_as'`. -/
def republishedAs (metadata : List (String × Jsonb)) : Option Jsonb :=
  metadata.lookup "republished_as"

/-- `j @> to_jsonb(CAST(:ref AS TEXT))`: a string is contained in a list that has it, and in
    itself. -/
def containsText (ref : String) : Jsonb → Bool
  | .arr js => js.any (isText ref)
  | j => isText ref j

/-- `j @> to_jsonb(ARRAY[ref])`. -/
def containsArray (ref : String) : Jsonb → Bool
  | .arr js => js.any (isText ref)
  | _ => false

/-- `j || to_jsonb(ref)`: what is no list becomes a list of one. -/
def appendText (ref : String) : Jsonb → Jsonb
  | .arr js => .arr (js ++ [.str ref])
  | j => .arr [j, .str ref]

/-- `ref in value`, of what Python reads: an item of a list, a part of a text, a key of a
    dictionary. Of the others it raises. -/
def pyContains (ref : String) : Jsonb → Option Bool
  | .arr js => some (js.any (isText ref))
  | .str s => some (ref.toList <:+: s.toList)
  | .obj fields => some (fields.any (·.1 = ref))
  | _ => none

/-- `source_filing_ref in pre_metadata.get("republished_as", [])`. -/
def alreadyAliased (ref : String) (metadata : List (String × Jsonb)) : Option Bool :=
  pyContains ref ((republishedAs metadata).getD (.arr []))

namespace FilingRow

/-- The reference is an alias of the row. -/
def HasAlias (row : FilingRow) (ref : String) : Bool :=
  (republishedAs row.metadata).any (containsText ref)

/-- The two conditions under which the upsert changes nothing. -/
def keeps (row : FilingRow) (ref : String) : Bool :=
  row.sourceFilingRef = ref ∨ containsArray ref ((republishedAs row.metadata).getD (.arr []))

/-- `DO UPDATE SET …`: a new reference is added to the aliases, by an actor. -/
def republish (row : FilingRow) (ref : String) (actor : Option Actor) : FilingRow :=
  if row.keeps ref then row
  else { row with
    metadata := putField "republished_as"
      (appendText ref ((republishedAs row.metadata).getD (.arr []))) row.metadata
    actor }

end FilingRow

/-! ### Reads -/

/-- The row is of the reference. -/
def IsOf (sourceId ref : String) (row : FilingRow) : Bool :=
  row.sourceId = sourceId ∧ row.sourceFilingRef = ref

/-- `_find_canonical_by_ref`. -/
def latestRevision (sourceId ref : String) (rows : List FilingRow) : Option FilingRow :=
  (orderBy (fun row => OrderDual.toDual row.revisionNo) (rows.filter (IsOf sourceId ref))).head?

/-- `COALESCE(MAX(revision_no), 0) + 1`. -/
def nextRevision (sourceId ref : String) (rows : List FilingRow) : ℕ :=
  ((rows.filter (IsOf sourceId ref)).map fun row => row.revisionNo).foldr max 0 + 1

/-- The row has the reference, or has it as an alias. -/
def Resolves (sourceId ref : String) (row : FilingRow) : Bool :=
  row.sourceId = sourceId ∧ (row.sourceFilingRef = ref ∨ row.HasAlias ref)

/-- `ORDER BY (source_filing_ref = :ref) DESC, revision_no DESC`: the largest comes first. -/
def rank (ref : String) (row : FilingRow) : Bool ×ₗ ℕ :=
  toLex (row.sourceFilingRef = ref, row.revisionNo)

/-- What `find_by_source_ref` may return: of rows that are equal in the order, it may be any. -/
def FoundBySourceRef (sourceId ref : String) (rows : List FilingRow) : Option FilingRow → Prop
  | none => ∀ row ∈ rows, Resolves sourceId ref row = false
  | some row => row ∈ rows ∧ Resolves sourceId ref row ∧
      ∀ row' ∈ rows, Resolves sourceId ref row' → rank ref row' ≤ rank ref row

/-- `amendment_chain`, unless there is no such filing. -/
def amendmentChain (filingId : PgUuid) (rows : List FilingRow) : Option (List FilingRow) :=
  (rows.find? fun row => row.filingId = filingId).map fun row =>
    orderBy (fun row => row.revisionNo) (rows.filter (IsOf row.sourceId row.sourceFilingRef))

/-! ### Calls -/

structure AttachmentIn where
  bytes : Bytes
  mime : String
  filename : String
  role : String
  sequence : ℤ := 0

/-- The arguments of `put_filing`. -/
structure PutFilingCall extends FilingFields where
  sourceId : String
  sourceFilingRef : String
  publishedAt : AwareDatetime
  primaryBytes : Bytes
  primaryMime : String
  primaryFilename : String
  attachments : List AttachmentIn := []
  isAmendment : Bool := false
  previousFilingId : Option PgUuid := none
  xbrlBytes : Option Bytes := none
  xbrlFilename : Option String := none
  metadata : Option PyDict := none

structure PutFilingResult where
  filing : Filing
  created : Bool
  isRevision : Bool
  revisionNo : ℕ
  bucket : String
  objectKeys : List String

/-- Why the arguments are refused. -/
inductive ArgumentError
  | xbrlMissing
  | xbrlNotDeclared
  | duplicateName (sequence : ℤ) (filename : String)
  | duplicateContent (filename : String) (sequence : ℤ)
  deriving DecidableEq

/-- The arguments of XBRL are consistent. -/
def checkXbrl (call : PutFilingCall) : Except ArgumentError Unit :=
  if call.hasXbrl ∧ (call.xbrlBytes = none ∨ call.xbrlFilename = none) then .error .xbrlMissing
  else if (call.xbrlBytes ≠ none ∨ call.xbrlFilename ≠ none) ∧ ¬call.hasXbrl then
    .error .xbrlNotDeclared
  else .ok ()

/-- No two attachments have the same sequence and name, or the same bytes. -/
def checkAttachments (sha256 : Bytes → String) (seenPairs : List (ℤ × String))
    (seenHashes : List String) : List AttachmentIn → Except ArgumentError Unit
  | [] => .ok ()
  | att :: attachments =>
    if (att.sequence, att.filename) ∈ seenPairs then .error (.duplicateName att.sequence att.filename)
    else if sha256 att.bytes ∈ seenHashes then
      .error (.duplicateContent att.filename att.sequence)
    else
      checkAttachments sha256 ((att.sequence, att.filename) :: seenPairs)
        (sha256 att.bytes :: seenHashes) attachments

/-- `_json_metadata`, and what the database reads of it. -/
def jsonMetadata : Option PyDict → Option (List (String × Jsonb))
  | none => some []
  | some metadata =>
    match (PyValue.dict metadata).jsonb with
    | some (.obj fields) => some fields
    | _ => none

end Documents

end AslanCore
