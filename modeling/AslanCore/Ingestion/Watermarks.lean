import AslanCore.Audit
import AslanCore.Store.Recording
import AslanCore.Timeseries.Metadata

/-!
# Watermarks

A `WatermarkStore` keeps a cursor for every key, in `src.watermark`. `advance` is a compare-and-set,
in one statement. `set` reads the cursor, without a lock, and then writes the row.

The records of the changes of a cursor should be a chain (`Chained`): each of them begins where
the one before it ends. It is so, if every `set` meets the cursor that it has read
(`mutations_chained_of_reach`). Else a record may say that the cursor was another one than it was.

The sessions run any calls, and end their transactions when they like. The database may refuse any
statement: a row of `src.source` that is not there, a lost connection, and the like.
-/

namespace AslanCore.Ingestion

open Timeseries (storableText)

/-! ### Rows and records -/

/-- What a row of `src.watermark` is found under. -/
structure WatermarkKey where
  sourceId : String
  jobName : String
  key : String
  deriving DecidableEq

/-- The key as the primary key of a record. -/
def WatermarkKey.targetPk (k : WatermarkKey) : List (String × AuditValue) :=
  [("source_id", .str k.sourceId), ("job_name", .str k.jobName), ("key", .str k.key)]

/-- A row of `src.watermark`: its audit columns are those of the actor. -/
structure WatermarkRow where
  cursorValue : String
  actor : Option Actor
  deriving DecidableEq

/-- What a record shows of a row. -/
structure WatermarkImage extends WatermarkKey where
  cursorValue : String
  deriving DecidableEq

/-- A row of `audit.events` about a watermark. -/
structure WatermarkEvent extends AuditEvent where
  before : Option WatermarkImage
  after : Option WatermarkImage
  deriving DecidableEq

/-- What is raised. -/
inductive WatermarkError
  | auditMissingActor
  | sql
  deriving DecidableEq

abbrev WatermarkJournal (P : Type) : Type :=
  Journal P WatermarkKey (fun _ => WatermarkRow) WatermarkEvent

abbrev WatermarkCmd : Type := Journal.Cmd WatermarkKey (fun _ => WatermarkRow) WatermarkEvent

abbrev WatermarkProg (α : Type) : Type := Prog WatermarkCmd Journal.Reply WatermarkError α

/-! ### The calls -/

/-- What a call is made with: `Settings.audit_strict`, and the actor of the context. -/
structure WatermarkEnv where
  auditStrict : Bool
  actor : Option Actor

/-- A statement about a key. -/
def statement (k : WatermarkKey) (texts : List String) (c : WatermarkCmd) :
    WatermarkProg (Journal.Reply c) :=
  Journal.performIf (([k.sourceId, k.jobName, k.key] ++ texts).all storableText) c

/-- `audit_record`, of the table `src.watermark`. -/
def auditRecord (env : WatermarkEnv) (operation : String) (k : WatermarkKey)
    (before after : Option WatermarkImage) (metadata : List (String × AuditValue)) :
    WatermarkProg Unit :=
  let r : AuditRecord := {
    operation
    targetSchema := "src"
    targetTable := "watermark"
    targetPk := k.targetPk
    metadata }
  match AuditEvent.record env.auditStrict env.actor r with
  | none => throw .auditMissingActor
  | some e => .perform (Journal.Cmd.record { e with before, after })

/-- `get`. -/
def get (k : WatermarkKey) : WatermarkProg (Option String) := do
  let row ← statement k [] (.select k)
  pure (row.map (·.cursorValue))

/-- `advance`. -/
def advance (env : WatermarkEnv) (k : WatermarkKey) (newCursor : String)
    (expectedCursor : Option String) : WatermarkProg Bool :=
  if env.auditStrict ∧ env.actor.isNone then throw .auditMissingActor
  else
    match expectedCursor with
    | none => do
      let success ← statement k [newCursor] (.insertNew k ⟨newCursor, env.actor⟩)
      if success then
        auditRecord env "watermark.advance" k none (some ⟨k, newCursor⟩) [("path", .str "insert")]
        pure true
      else pure false
    | some expected => do
      let success ← statement k [newCursor, expected]
        (.update k (·.cursorValue = expected) fun _ => ⟨newCursor, env.actor⟩)
      if success then
        auditRecord env "watermark.advance" k (some ⟨k, expected⟩) (some ⟨k, newCursor⟩)
          [("path", .str "cas")]
        pure true
      else pure false

/-- `set`. -/
def set (env : WatermarkEnv) (k : WatermarkKey) (cursorValue : String) : WatermarkProg Unit :=
  if env.auditStrict ∧ env.actor.isNone then throw .auditMissingActor
  else do
    let existing ← statement k [] (.select k)
    if existing.map (·.cursorValue) = some cursorValue then
      auditRecord env "watermark.idempotent_hit" k (some ⟨k, cursorValue⟩) (some ⟨k, cursorValue⟩)
        [("returned_existing", .bool true)]
    else
      statement k [cursorValue]
        (.upsert k (fun _ => ⟨cursorValue, env.actor⟩) fun _ => ⟨cursorValue, env.actor⟩)
      auditRecord env (if existing.isNone then "watermark.set" else "watermark.force_set") k
        (existing.map fun row => ⟨k, row.cursorValue⟩) (some ⟨k, cursorValue⟩) []

/-! ### The system -/

/-- What a session does: a call, or the end of its transaction. -/
inductive WatermarkJob
  | get (k : WatermarkKey)
  | advance (actor : Option Actor) (k : WatermarkKey) (newCursor : String)
    (expectedCursor : Option String)
  | set (actor : Option Actor) (k : WatermarkKey) (cursorValue : String)
  | commit
  | rollback

inductive WatermarkAnswer
  | cursor (cursorValue : Option String)
  | advanced (success : Bool)
  | done

/-- The program of a job. -/
def watermarkBody (auditStrict : Bool) : WatermarkJob → WatermarkProg WatermarkAnswer
  | .get k => do
    let cursorValue ← get k
    pure (.cursor cursorValue)
  | .advance actor k newCursor expectedCursor => do
    let success ← advance ⟨auditStrict, actor⟩ k newCursor expectedCursor
    pure (.advanced success)
  | .set actor k cursorValue => do
    set ⟨auditStrict, actor⟩ k cursorValue
    pure .done
  | .commit => do
    .perform Journal.Cmd.commit
    pure .done
  | .rollback => do
    .perform Journal.Cmd.rollback
    pure .done

/-- The sessions `P`. -/
def watermarks (P : Type) [DecidableEq P] (auditStrict : Bool) :
    System WatermarkCmd Journal.Reply WatermarkError WatermarkAnswer P WatermarkJob Fault
      (WatermarkJournal P) :=
  Journal.system .sql fun _ => watermarkBody auditStrict

/-! ### The chain -/

/-- The operations that change a cursor. -/
def mutationOperations : List String := ["watermark.advance", "watermark.set", "watermark.force_set"]

/-- The record is one of a change of the key's cursor. -/
def WatermarkEvent.changes (k : WatermarkKey) (e : WatermarkEvent) : Bool :=
  e.operation ∈ mutationOperations ∧ e.targetPk = k.targetPk

/-- The records of the changes of a key's cursor. -/
def mutations (k : WatermarkKey) (events : List WatermarkEvent) : List WatermarkEvent :=
  events.filter (·.changes k)

/-- The cursor before the change. -/
def WatermarkEvent.cursorBefore (e : WatermarkEvent) : Option String :=
  e.before.map (·.cursorValue)

/-- The cursor after the change. -/
def WatermarkEvent.cursorAfter (e : WatermarkEvent) : Option String :=
  e.after.map (·.cursorValue)

/-- The changes lead from one cursor to another: each of them begins where the one before it ends. -/
def Chained : Option String → List WatermarkEvent → Option String → Prop
  | a, [], b => b = a
  | a, e :: es, b => e.cursorBefore = a ∧ Chained e.cursorAfter es b

instance decidableChained :
    (a : Option String) → (es : List WatermarkEvent) → (b : Option String) → Decidable (Chained a es b)
  | a, [], b => inferInstanceAs (Decidable (b = a))
  | a, e :: es, b =>
    have := decidableChained e.cursorAfter es b
    inferInstanceAs (Decidable (e.cursorBefore = a ∧ Chained e.cursorAfter es b))

/-- The cursor that is committed. -/
def storedCursor {P : Type} (s : WatermarkJournal P) (k : WatermarkKey) : Option String :=
  (s.db.committed k).map (·.cursorValue)

/-- What the last statement of a session on the key has met. -/
def metCursor {P : Type} (s : WatermarkJournal P) (p : P) (k : WatermarkKey) : Option String :=
  (s.seen p k).map (·.cursorValue)

/-- A `set` meets the cursor that it has read. -/
def meetsRead (P : Type) [DecidableEq P] : Guard WatermarkCmd P WatermarkJob Fault (WatermarkJournal P) where
  step p c _ s :=
    match c with
    | .upsert k _ _ => (s.db.view p k).map (·.cursorValue) = metCursor s p k
    | _ => True

end AslanCore.Ingestion
