import AslanCore.Documents.ObjectKey
import AslanCore.Process.System
import AslanCore.Store.Database

/-!
# The document store

What the writers of filings share: the buckets of the object storage, and the tables
`doc.filing`, `doc.filing_attachment` and `audit.events`. A writer has one session. A command is a
single statement, or a single request to the object storage (`Cmd`); what it does is `World.exec`.

Any command that waits for an answer may be cancelled, before it is carried out or after it
(`Interrupt`).

* The rows of `doc.filing` are under the keys of their `UNIQUE (source_id, primary_sha256)`, on
  which the upsert meets a row that is there.
* `pg_advisory_xact_lock` is the lock of a key without a row: it is released when the transaction
  ends.
-/

namespace AslanCore

namespace Documents

open Timeseries (Jsonb)

/-- The keys of the rows, and of the advisory locks. -/
inductive Key
  | filing (sourceId primarySha256 : String)
  | attachment (filingId : PgUuid) (sha256 : String)
  | audit (n : ℕ)
  | advisory (key : ℤ)
  deriving DecidableEq

abbrev RowOf : Key → Type
  | .filing _ _ => FilingRow
  | .attachment _ _ => AttachmentRow
  | .audit _ => FilingEvent
  | .advisory _ => Unit

/-- The exceptions. All but `cancelled` are an `Exception` of Python. -/
inductive Exn
  | auditMissingActor
  | argument (e : ArgumentError)
  | storage
  | objectStore
  | sql
  | value
  | assertion
  | documentNotFound
  | documentDB
  | cancelled
  deriving DecidableEq

/-- `isinstance(e, Exception)`. -/
def Exn.isException : Exn → Bool
  | cancelled => false
  | _ => true

/-- Which of the two loops deletes an object: after a hit, or after a failure. -/
inductive Cleanup
  | dedup
  | failure
  deriving DecidableEq

/-- `RETURNING filing_id, revision_no, (xmax = 0) AS created`. -/
structure Upserted where
  filingId : PgUuid
  revisionNo : ℕ
  created : Bool
  deriving DecidableEq

inductive Cmd
  | uuid4
  /-- The list `_uploaded_keys` is changed, and read. -/
  | uploadedKeys (f : List String → List String)
  | putObject (bucket key : String) (body : Bytes)
  | deleteObject (loop : Cleanup) (bucket key : String)
  | advisoryLock (sourceId ref : String)
  | findCanonicalByRef (sourceId ref : String)
  | selectForUpdate (sourceId primarySha256 : String)
  | upsert (values : FilingValues)
  | insertAttachment (row : AttachmentRow)
  | selectFiling (filingId : PgUuid)
  | insertAudit (event : FilingEvent)
  | commit
  | close

abbrev Reply : Cmd → Type
  | .uuid4 => PgUuid
  | .uploadedKeys _ => List String
  | .findCanonicalByRef _ _ | .selectFiling _ => Option Filing
  | .selectForUpdate _ _ => Option FilingRow
  | .upsert _ => Upserted
  | _ => Unit

/-- The command is awaited: its task may be cancelled meanwhile. -/
def Cmd.isAwaited : Cmd → Bool
  | .uuid4 | .uploadedKeys _ => false
  | _ => true

/-- When the task is cancelled: not at all, or before or after the command is carried out. -/
inductive Interrupt
  | none
  | before
  | after
  deriving DecidableEq

/-- What is left open: what goes wrong, the identifier drawn, and the time. -/
structure Choice where
  fault : Fault := .none
  interrupt : Interrupt := .none
  id : PgUuid := 0
  now : Timestamp := 0

/-- What the store depends on: the hash of the advisory locks, and which values the columns, and
    then their foreign keys, admit. -/
structure Env where
  sha256 : Bytes → String
  hashtext : String → ℤ
  bucketFor : List (String × String)
  auditStrict : Bool
  storable : FilingValues → Bool
  storableAttachment : AttachmentRow → Bool
  foreignKeys : FilingValues → Bool

/-- The state shared by the writers `P`. The hashes are those of all filings that were ever to be
    inserted. -/
structure World (P : Type) where
  objects : List ((String × String) × Bytes)
  uploaded : P → List String
  hashes : List (String × String)
  nextAuditId : ℕ
  db : Database P Key RowOf

namespace World

variable {P : Type} [DecidableEq P] (env : Env) (s : World P)

/-- The object under a key of a bucket. -/
def getObject (k : String × String) : Option Bytes := s.objects.lookup k

def putObject (k : String × String) (body : Bytes) : World P :=
  { s with objects := (k, body) :: s.objects.filter fun o => o.1 ≠ k }

/-- An object that is not there may be deleted too. -/
def deleteObject (k : String × String) : World P :=
  { s with objects := s.objects.filter fun o => o.1 ≠ k }

/-- The filings that a session sees. -/
def filings (p : P) : List FilingRow :=
  s.hashes.filterMap fun h => s.db.view p (.filing h.1 h.2)

/-- The filings that are committed. -/
def committedFilings : List FilingRow :=
  s.hashes.filterMap fun h => s.db.committed (.filing h.1 h.2)

/-- The key of the lock of a reference: `hashtextextended(:src || ':' || :ref, 0)`. -/
def lockKey (sourceId ref : String) : Key := .advisory (env.hashtext (sourceId ++ ":" ++ ref))

/-- The outcome of a request to the object storage, which leads to `s'`. -/
def storage (fault : Fault) (s' : World P) : Option (Except Exn Unit × World P) :=
  match fault with
  | .none => some (.ok (), s')
  | .refused => some (.error .storage, s)
  | .lost => some (.error .storage, s')

/-- The outcome of a statement of a session. -/
def sql {α : Type} (p : P) (fault : Fault)
    (stmt : Option (Except Exn (α × Database P Key RowOf))) : Option (Except Exn α × World P) :=
  (s.db.statement p fault .sql stmt).map fun (r, db) => (r, { s with db })

/-- The row would break a constraint, of its primary key or of its reference and revision. -/
def Clashes (v : FilingValues) (revisionNo : ℕ) (row : FilingRow) : Prop :=
  row.filingId = v.filingId ∨
    (row.sourceId = v.sourceId ∧ row.sourceFilingRef = v.sourceFilingRef ∧
      row.revisionNo = revisionNo)

instance (v : FilingValues) (revisionNo : ℕ) (row : FilingRow) :
    Decidable (Clashes v revisionNo row) := inferInstanceAs (Decidable (_ ∨ _))

/-- The filings that other sessions have written, and not committed. -/
def pendingOfOthers (p : P) : List FilingRow :=
  s.hashes.filterMap fun h =>
    match s.db.owner (.filing h.1 h.2) with
    | some t => if t = p then none else s.db.view t (.filing h.1 h.2)
    | none => none

/-- The filing that another one refers to: its key, if the session sees it. -/
def referred (p : P) (filingId : PgUuid) : Option (String × String) :=
  s.hashes.find? fun h => (s.db.view p (.filing h.1 h.2)).any fun row => row.filingId = filingId

/-- The insertion of a filing whose foreign keys are checked. -/
def insertFiling (p : P) (db : Database P Key RowOf) (v : FilingValues) (now : Timestamp)
    (revisionNo : ℕ) : Option (Except Exn (Upserted × Database P Key RowOf)) :=
  if h : db.CanLock p (.filing v.sourceId v.primarySha256) false then
    some (.ok (⟨v.filingId, revisionNo, true⟩,
      db.put p (.filing v.sourceId v.primarySha256) (some (v.row now revisionNo)) false h))
  else none

/-- The upsert of a filing. It waits for a row that is not committed, with its hash or with another
    of its unique keys, and for the lock of a row that it updates or refers to. -/
def upsert (p : P) (v : FilingValues) (now : Timestamp) :
    Option (Except Exn (Upserted × Database P Key RowOf)) :=
  let k := Key.filing v.sourceId v.primarySha256
  let revisionNo := nextRevision v.sourceId v.sourceFilingRef (s.filings p)
  if env.storable v = false then some (.error .sql)
  else if s.db.Contended p k then none
  else
    match s.db.view p k with
    | some old =>
      if h : s.db.CanLock p k false then
        some (.ok (⟨old.filingId, old.revisionNo, false⟩,
          s.db.put p k (some (old.republish v.sourceFilingRef v.actor)) false h))
      else none
    | none =>
      if env.foreignKeys v = false ∨ ∃ row ∈ s.filings p, Clashes v revisionNo row then
        some (.error .sql)
      else if ∃ row ∈ s.pendingOfOthers p, Clashes v revisionNo row then none
      else
        match v.previousFilingId with
        | none => insertFiling p s.db v now revisionNo
        | some previous =>
          match s.referred p previous with
          | none => some (.error .sql)
          | some h =>
            if s.db.CanRefer p (.filing h.1 h.2) then
              insertFiling p (s.db.addRef p (.filing h.1 h.2)) v now revisionNo
            else none

/-- What a command does when it is not interrupted. -/
def run (p : P) (c : Cmd) (o : Choice) (s : World P) :
    Option (Except Exn (Reply c) × World P) :=
  match c with
  | .uuid4 => some (.ok o.id, s)
  | .uploadedKeys f =>
    some (.ok (f (s.uploaded p)), { s with
      uploaded := Function.update s.uploaded p (f (s.uploaded p)) })
  | .putObject bucket key body => s.storage o.fault (s.putObject (bucket, key) body)
  | .deleteObject _ bucket key => s.storage o.fault (s.deleteObject (bucket, key))
  | .advisoryLock sourceId ref =>
    s.sql p o.fault <|
      if h : s.db.CanLock p (lockKey env sourceId ref) true then
        some (.ok ((), s.db.lockRow p (lockKey env sourceId ref) true h))
      else none
  | .findCanonicalByRef sourceId ref =>
    s.sql p o.fault
      (some (.ok ((latestRevision sourceId ref (s.filings p)).map (·.toFiling), s.db)))
  | .selectForUpdate sourceId sha =>
    s.sql p o.fault ((s.db.selectForUpdate p (.filing sourceId sha)).map .ok)
  | .upsert v =>
    (s.sql p o.fault (s.upsert env p v o.now)).map fun (r, s') =>
      (r, { s' with hashes := s.hashes.insert (v.sourceId, v.primarySha256) })
  | .insertAttachment row =>
    s.sql p o.fault <|
      if env.storableAttachment row then
        (s.db.insertNew p (.attachment row.filingId row.sha256) row).map fun (_, db) =>
          .ok ((), db)
      else some (.error .sql)
  | .selectFiling filingId =>
    s.sql p o.fault
      (some (.ok (((s.filings p).find? fun row => row.filingId = filingId).map (·.toFiling), s.db)))
  | .insertAudit e =>
    (s.sql p o.fault <|
      (s.db.insertNew p (.audit s.nextAuditId) e).map fun (_, db) => .ok ((), db)).map
        fun (r, s') => (r, { s' with nextAuditId := s.nextAuditId + 1 })
  | .commit =>
    let (r, db) := s.db.commit p o.fault .sql
    some (r, { s with db })
  | .close =>
    let (r, db) := s.db.close p o.fault .sql
    some (r, { s with db })

/-- The effect of a command of the writer `p`. -/
def exec (p : P) (c : Cmd) (o : Choice) (s : World P) :
    Option (Except Exn (Reply c) × World P) :=
  if c.isAwaited then
    match o.interrupt with
    | .none => run env p c o s
    | .before => some (.error .cancelled, s)
    | .after => (run env p c o s).map fun (_, s') => (.error .cancelled, s')
  else run env p c o s

/-- The state after a writer is killed: its transaction is undone. -/
def kill (p : P) (s : World P) : World P :=
  { s with db := s.db.abort p .ready }

/-- There are no objects, and no rows. -/
def empty : World P where
  objects := []
  uploaded _ := []
  hashes := []
  nextAuditId := 0
  db := .ofRows fun _ => none

end World

end Documents

end AslanCore
