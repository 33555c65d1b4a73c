import Mathlib.Data.Int.Notation
import Mathlib.Tactic.Common

/-!
# Audit events

The rows of `audit.events`, which record what is done, on what, and by whom. A row
is written in the transaction of what it records (`AuditEvent.record`).
-/

namespace AslanCore

/-- A value in the JSON objects of an audit record. -/
inductive AuditValue
  | int (n : ℤ)
  | str (s : String)
  | bool (b : Bool)
  | strs (ss : List String)
  deriving DecidableEq

/-- Who acts: the actor of the context. -/
structure Actor where
  actorId : String
  actorKind : String
  deriving DecidableEq

/-- What is recorded of an operation. -/
structure AuditRecord where
  operation : String
  targetSchema : String
  targetTable : String
  targetPk : List (String × AuditValue)
  metadata : List (String × AuditValue)
  ingestionRunId : Option ℤ := none
  deriving DecidableEq

/-- A row of `audit.events`. -/
structure AuditEvent extends AuditRecord where
  actor : Actor
  deriving DecidableEq

namespace AuditEvent

/-- The actor written when there is none in the context. -/
def systemUnknown : Actor := ⟨"system:unknown", "system"⟩

/-- The row that `audit.record` writes, if it does: without an actor in the context,
    it raises in strict mode (`none`). -/
def record (auditStrict : Bool) (currentActor : Option Actor) (r : AuditRecord) :
    Option AuditEvent :=
  match currentActor with
  | some actor => some { r with actor }
  | none => if auditStrict then none else some { r with actor := systemUnknown }

/-- A recorded row says what it was asked to. -/
theorem toAuditRecord_of_record {auditStrict : Bool} {currentActor : Option Actor}
    {r : AuditRecord} {e : AuditEvent} (h : record auditStrict currentActor r = some e) :
    e.toAuditRecord = r := by
  cases currentActor with
  | some actor =>
    cases h
    rfl
  | none =>
    simp only [record] at h
    split_ifs at h
    cases h
    rfl

end AuditEvent

end AslanCore
