import AslanCore.Documents.World

/-!
# The writers of filings

`DocumentStore.put_filing`: the primary document is uploaded, and then the filing is inserted,
under the lock of its reference, unless the source has published the bytes before. The keys of the
uploads are in a list; after a hit, and after any exception, the objects of this list are deleted
(`dropUploads`, `cleanUp`).

A writer calls `put_filing` any number of times in a transaction, and commits it or rolls it back
(`Job`).
-/

namespace AslanCore

namespace Documents

open Prog
open Timeseries (Jsonb)

/-- The programs of the writers. -/
abbrev Program (α : Type) := Prog Cmd Reply Exn α

/-- A single command. -/
abbrev request (c : Cmd) : Program (Reply c) := perform c

/-- Who calls: the actor of the context, and the ingestion run of the store. -/
structure Caller where
  currentActor : Option Actor
  ingestionRunId : ℤ

variable (env : Env) (caller : Caller)

/-- A key is tracked before its object is uploaded. -/
def track (key : String) : Program Unit := do
  let _ ← request (.uploadedKeys (· ++ [key]))

/-- An `Exception` of the upload is raised as one of the object store. -/
def uploadPrimary (bucket key : String) (body : Bytes) : Program Unit := do
  track key
  (request (.putObject bucket key body)).tryCatch fun e =>
    if e.isException then throw .objectStore else throw e

/-- `previous_filing_id` and `is_amendment`, given the latest revision of the reference. -/
def chainFields (call : PutFilingCall) (sha256 : String) : Option Filing → Option PgUuid × Bool
  | none => (call.previousFilingId, call.isAmendment)
  | some prior =>
    if prior.primarySha256 ≠ sha256 then
      (match call.previousFilingId with
        | none => some prior.filingId
        | some previous => some previous, true)
    else (call.previousFilingId, call.isAmendment)

/-- The optional upload of the XBRL document. -/
def uploadXbrl (bucket : String) (call : PutFilingCall) (filingId : PgUuid) : Program Unit :=
  match call.xbrlKey filingId, call.xbrlBytes with
  | some key, some body => do
    track key
    request (.putObject bucket key body)
  | _, _ => pure ()

/-- The values of the insertion. -/
def filingValues (call : PutFilingCall) (sha256 : String) (filingId : PgUuid)
    (chain : Option PgUuid × Bool) (metadata : List (String × Jsonb)) : FilingValues where
  toFilingFields := call.toFilingFields
  filingId
  sourceId := call.sourceId
  sourceFilingRef := call.sourceFilingRef
  publishedAt := call.publishedAt.instant
  isAmendment := chain.2
  previousFilingId := chain.1
  primaryObjectKey := call.primaryKey filingId
  primaryMime := call.primaryMime
  primarySha256 := sha256
  primaryBytes := call.primaryBytes.length
  xbrlObjectKey := call.xbrlKey filingId
  metadata
  ingestionRunId := caller.ingestionRunId
  actor := caller.currentActor

/-- What was uploaded is deleted after a hit. A deletion that fails is only logged. -/
def dropUploads (bucket : String) : Program Unit := do
  let keys ← request (.uploadedKeys id)
  forEach (fun k => do
    (request (.deleteObject .dedup bucket k)).tryCatch fun e =>
      if e.isException then pure () else throw e
    let _ ← request (.uploadedKeys (·.erase k))) keys

/-- The row of an attachment. -/
def attachmentRow (call : PutFilingCall) (filingId : PgUuid) (att : AttachmentIn) :
    AttachmentRow where
  filingId
  objectKey := call.attachmentKey filingId att
  mime := att.mime
  sha256 := env.sha256 att.bytes
  bytes := att.bytes.length
  role := att.role
  sequence := att.sequence

/-- `_persist_attachments`. -/
def persistAttachments (bucket : String) (call : PutFilingCall) (filingId : PgUuid) :
    Program Unit :=
  forEach (fun att => do
    track (call.attachmentKey filingId att)
    request (.putObject bucket (call.attachmentKey filingId att) att.bytes)
    request (.insertAttachment (attachmentRow env call filingId att))) call.attachments

/-- The attachments of a new filing are stored. After a hit, what was uploaded is deleted. -/
def finishUploads (bucket : String) (call : PutFilingCall) (up : Upserted) : Program Unit :=
  if up.created then persistAttachments env bucket call up.filingId else dropUploads bucket

/-- `get_filing`. -/
def getFiling (filingId : PgUuid) : Program Filing := do
  let row ← request (.selectFiling filingId)
  match row with
  | none => throw .documentNotFound
  | some filing => pure filing

/-- The operation of the audit event, and its `before`, given the row that the statement before the
    upsert found. -/
def classify (created : Bool) (pre : Option FilingRow) (ref : String) :
    Program (FilingOperation × Option FilingBefore) :=
  if created then pure (.put, none)
  else
    match pre with
    | none => throw .assertion
    | some pre => do
      let before : FilingBefore :=
        { filingId := pre.filingId
          sourceFilingRef := pre.sourceFilingRef
          metadata := pre.metadata
          actor := pre.actor }
      if pre.sourceFilingRef = ref then pure (.dedupHit, some before)
      else
        match alreadyAliased ref pre.metadata with
        | none => throw .value
        | some true => pure (.idempotentHit, some before)
        | some false => pure (.republishedAliasAdded, some before)

/-- `audit_record`. -/
def recordEvent (call : PutFilingCall) (sha256 : String) (filing : Filing) (up : Upserted)
    (operation : FilingOperation × Option FilingBefore) : Program Unit :=
  if env.auditStrict ∧ caller.currentActor = none then throw .auditMissingActor
  else
    request (.insertAudit {
      operation := operation.1
      targetPk := up.filingId
      before := operation.2
      after := filing
      attachments := call.attachments.map fun a => (a.sequence, a.filename, a.bytes.length)
      revisionNo := up.revisionNo
      primarySha256 := sha256
      primarySizeBytes := call.primaryBytes.length
      returnedExisting := !up.created
      ingestionRunId := caller.ingestionRunId
      actor := caller.currentActor.getD AuditEvent.systemUnknown })

/-- What follows the upsert: the attachments, the filing that is read back, and the audit event. -/
def finishCall (bucket : String) (call : PutFilingCall) (sha256 : String)
    (pre : Option FilingRow) (up : Upserted) : Program PutFilingResult := do
  finishUploads env bucket call up
  let filing ← getFiling up.filingId
  let operation ← classify up.created pre call.sourceFilingRef
  recordEvent env caller call sha256 filing up operation
  let keys ← request (.uploadedKeys id)
  pure {
    filing
    created := up.created
    isRevision := up.created && decide (1 < up.revisionNo)
    revisionNo := up.revisionNo
    bucket
    objectKeys := keys }

/-- What follows the reads: the upsert, and the rest. -/
def storeFiling (bucket : String) (call : PutFilingCall) (sha256 : String) (filingId : PgUuid)
    (prior : Option Filing) (pre : Option FilingRow) : Program PutFilingResult :=
  match jsonMetadata call.metadata with
  | none => throw .value
  | some metadata => do
    let up ← request (.upsert
      (filingValues caller call sha256 filingId (chainFields call sha256 prior) metadata))
    finishCall env caller bucket call sha256 pre up

/-- The body of the `try` block. -/
def uploadAndStore (bucket : String) (call : PutFilingCall) (sha256 : String)
    (filingId : PgUuid) : Program PutFilingResult := do
  uploadPrimary bucket (call.primaryKey filingId) call.primaryBytes
  request (.advisoryLock call.sourceId call.sourceFilingRef)
  let prior ← request (.findCanonicalByRef call.sourceId call.sourceFilingRef)
  uploadXbrl bucket call filingId
  let pre ← request (.selectForUpdate call.sourceId sha256)
  storeFiling env caller bucket call sha256 filingId prior pre

/-- `except BaseException`: what was uploaded is deleted, and the exception is raised again. -/
def cleanUp {α : Type} (bucket : String) (e : Exn) : Program α := do
  let keys ← request (.uploadedKeys id)
  forEach (fun k => (request (.deleteObject .failure bucket k)).tryCatch fun e =>
    if e.isException then pure () else throw e) keys
  if e.isException ∧ e ≠ .objectStore then throw .documentDB else throw e

/-- The bucket of a source. -/
def Env.bucket (sourceId : String) : String :=
  (env.bucketFor.lookup sourceId).getD "aslan-filings"

/-- What is checked before anything is done. -/
def checkCall (call : PutFilingCall) : Except Exn Unit := do
  if env.auditStrict ∧ caller.currentActor = none then throw .auditMissingActor
  (checkXbrl call).mapError .argument
  (checkAttachments env.sha256 [] [] call.attachments).mapError .argument

/-- `put_filing`. -/
def putFiling (call : PutFilingCall) : Program PutFilingResult :=
  match checkCall env caller call with
  | .error e => throw e
  | .ok () => do
    let bucket := env.bucket call.sourceId
    let sha256 := env.sha256 call.primaryBytes
    let filingId ← request .uuid4
    let _ ← request (.uploadedKeys fun _ => [])
    (uploadAndStore env caller bucket call sha256 filingId).tryCatch (cleanUp bucket)

/-- What a writer may do: a call, or the end of its transaction; or all of a transaction of one
    call, which is rolled back when the call raises. -/
inductive Job
  | put (caller : Caller) (call : PutFilingCall)
  | commit
  | rollback
  | transaction (caller : Caller) (call : PutFilingCall)

/-- A transaction of one call. -/
def transaction (call : PutFilingCall) : Program PutFilingResult :=
  (do
    let result ← putFiling env caller call
    request .commit
    pure result).tryCatch fun e => do
      request .close
      throw e

/-- Any number of writers. -/
def system (P : Type) [DecidableEq P] :
    System Cmd Reply Exn (Option PutFilingResult) P Job Choice (World P) where
  body _
    | .put caller args => do
      let result ← putFiling env caller args
      pure (some result)
    | .commit => do
      request .commit
      pure none
    | .rollback => do
      request .close
      pure none
    | .transaction caller args => do
      let result ← transaction env caller args
      pure (some result)
  exec := World.exec env
  kill := World.kill

/-! ### A plain store -/

/-- Bytes have a text of their own as their hash, and the columns admit everything. -/
def plainEnv : Env where
  sha256 bytes := String.ofList (bytes.map fun b => Char.ofNat b.toNat)
  hashtext text := text.length
  bucketFor := []
  auditStrict := false
  storable _ := true
  storableAttachment _ := true
  foreignKeys _ := true

/-- Nobody acts, for the ingestion run 1. -/
def plainCaller : Caller := ⟨none, 1⟩

/-- A report of KAP. -/
def plainCall (ref : String) (bytes : Bytes) : PutFilingCall where
  entityId := none
  kind := "report"
  title := "Report"
  sourceId := "kap"
  sourceFilingRef := ref
  publishedAt := ⟨0, 1970, 1, 1⟩
  primaryBytes := bytes
  primaryMime := "text/html"
  primaryFilename := "main.html"

/-- The events of a transaction of a plain call, which draws the identifier. -/
def plainTransaction {P : Type} (p : P) (id : PgUuid) (ref : String) (bytes : Bytes) :
    List (Event P Job Choice) :=
  .start p (.transaction plainCaller (plainCall ref bytes)) :: .step p { id } ::
    List.replicate 11 (.step p {})

end Documents

end AslanCore
