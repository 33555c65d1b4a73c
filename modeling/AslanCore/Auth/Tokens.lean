import Mathlib.Algebra.Group.Int.Defs
import Mathlib.Algebra.Group.Nat.Defs
import Mathlib.Logic.Function.Basic
import Mathlib.Tactic.Common

/-!
# Refresh tokens

`auth.py`: a login issues a refresh token in a new family, and a refresh exchanges a token for another
one of its family. If a token is presented that was revoked, all of its family are.

Every request has a transaction, whose statements are its steps (`Step`), between which other
requests take theirs. A statement sees the rows that are committed, and those that its own
transaction has written; a row that was written is locked until its transaction ends.

* `Server`: the rows, the requests in progress, and the events, the last one first;
* `Reachable`: the servers that are reached by steps that meet a condition.
-/

namespace AslanCore

namespace Auth

abbrev Uuid := Fin (2 ^ 128)

/-- A row of `auth.refresh_token`, but for its identifier. Times are in microseconds. -/
structure TokenRow where
  userId : Uuid
  tokenFamily : Uuid
  tokenHash : String
  revoked : Bool
  expiresAt : ℤ
  deriving DecidableEq

/-- `REFRESH_TTL`: seven days. -/
def refreshTtl : ℤ := 7 * 24 * 3600 * 1000000

/-- A row of `auth.user`. -/
structure User where
  email : String
  passwordHash : String
  role : String
  isActive : Bool

structure TokenResponse where
  accessToken : String
  refreshToken : String

/-- What the requests use. -/
structure Env where
  /-- `hashlib.sha256(raw.encode()).hexdigest()`. -/
  sha256 : String → String
  /-- `verify_password`. -/
  verifyPassword : String → String → Bool
  /-- `create_access_token`, with the secret of the service, at a time, with the `jti` drawn. -/
  createAccessToken : Uuid → String → ℤ → Uuid → String

/-- What a request has done, and the statement that it executes next follows from. -/
inductive Phase
  | idle
  /-- `login` has verified the password. -/
  | verified (userId : Uuid) (user : User)
  /-- `login` has inserted a token. -/
  | loggedIn (tokenId family : Uuid) (response : TokenResponse)
  /-- `refresh` has found the row of a token. -/
  | looked (tokenId : Uuid) (row : TokenRow)
  /-- `refresh` revokes a family, and these of its tokens are left. -/
  | revoking (family : Uuid) (todo : List Uuid)
  /-- `refresh` has revoked the token. -/
  | rotated (tokenId : Uuid) (row : TokenRow)
  /-- `refresh` has found that the user is gone, or not active. -/
  | inactive
  | active (tokenId : Uuid) (row : TokenRow) (user : User)
  /-- `refresh` has inserted another token. -/
  | issued (tokenId : Uuid) (row : TokenRow) (newId : Uuid) (response : TokenResponse)

/-- What was committed. -/
inductive Event
  | login (family : Uuid) (response : TokenResponse)
  /-- The token of the row was exchanged. -/
  | exchanged (row : TokenRow) (response : TokenResponse)
  /-- A token of the family was presented that was revoked. -/
  | reused (family : Uuid)

/-- The event of a request that commits next, if it records one. -/
def Phase.outcome : Phase → Option (Option Event)
  | loggedIn _ family response => some (some (.login family response))
  | revoking family [] => some (some (.reused family))
  | inactive => some none
  | issued _ row _ response => some (some (.exchanged row response))
  | _ => none

/-- The family that a request revokes. -/
def Phase.revokes : Phase → Option Uuid
  | revoking family _ => some family
  | _ => none

/-- The rows of `auth.refresh_token` that are committed, those that are written and not committed,
    with the requests that wrote them, the rows of `auth.user`, the requests, and the events. -/
structure Server (R : Type) where
  committed : Uuid → Option TokenRow
  pending : Uuid → Option (R × TokenRow)
  users : Uuid → Option User
  phase : R → Phase
  events : List Event

variable {R : Type} [DecidableEq R]

namespace Server

variable (s : Server R)

/-- The row that a request sees. -/
def visible (r : R) (tokenId : Uuid) : Option TokenRow :=
  match s.pending tokenId with
  | some (q, row) => if q = r then some row else s.committed tokenId
  | none => s.committed tokenId

/-- The row is not locked by another request. -/
def Free (r : R) (tokenId : Uuid) : Prop := ∀ q row, s.pending tokenId = some (q, row) → q = r

/-- A row that is there, committed or not. -/
def Known (tokenId : Uuid) (row : TokenRow) : Prop :=
  s.committed tokenId = some row ∨ ∃ q, s.pending tokenId = some (q, row)

/-- The identifier and the hash of a token were drawn, and are those of no other. -/
def NewToken (tokenId : Uuid) (tokenHash : String) : Prop :=
  ∀ tokenId' row, s.Known tokenId' row → tokenId' ≠ tokenId ∧ row.tokenHash ≠ tokenHash

/-- The identifier of a family was drawn, and is that of no other. -/
def NewFamily (family : Uuid) : Prop := ∀ tokenId row, s.Known tokenId row → row.tokenFamily ≠ family

def setPhase (r : R) (phase : Phase) : Server R :=
  { s with phase := Function.update s.phase r phase }

def write (r : R) (tokenId : Uuid) (row : TokenRow) : Server R :=
  { s with pending := Function.update s.pending tokenId (some (r, row)) }

/-- The transaction of the request ends, and it waits for the next one. -/
def finish (r : R) (committed : Uuid → Option TokenRow) : Server R where
  committed := committed
  pending tokenId := (s.pending tokenId).filter fun w => w.1 ≠ r
  users := s.users
  phase := Function.update s.phase r .idle
  events := s.events

def commit (r : R) (event : Option Event) : Server R :=
  { s.finish r (s.visible r) with events := event.toList ++ s.events }

def abort (r : R) : Server R := s.finish r s.committed

end Server

inductive Action (R : Type)
  | login (r : R) (email password : String)
  | insert (r : R)
  | lookup (r : R) (presented : String)
  | revokeFamily (r : R)
  | revokeNext (r : R)
  | revoke (r : R)
  | checkUser (r : R)
  | commit (r : R)
  | abort (r : R)
  | setUser (userId : Uuid) (user : Option User)

variable (env : Env)

/-- A step of a request, or a change of the users. A statement that waits for another request is a
    step once the wait is over, and `now` is read anew by each. A request that is refused, as its
    token has expired, or fails, is aborted. -/
inductive Step (s : Server R) : Action R → Server R → Prop
  | login {r : R} {email password : String} {userId : Uuid} {user : User}
    (idle : s.phase r = .idle) (found : s.users userId = some user) (same : user.email = email)
    (isActive : user.isActive = true)
    (verified : env.verifyPassword password user.passwordHash = true) :
    Step s (.login r email password) (s.setPhase r (.verified userId user))
  | insertLogin {r : R} {userId tokenId family jti : Uuid} {user : User} {raw : String} {now : ℤ}
    (phase : s.phase r = .verified userId user) (newToken : s.NewToken tokenId (env.sha256 raw))
    (newFamily : s.NewFamily family) :
    Step s (.insert r)
      ((s.write r tokenId ⟨userId, family, env.sha256 raw, false, now + refreshTtl⟩).setPhase r
        (.loggedIn tokenId family ⟨env.createAccessToken userId user.role now jti, raw⟩))
  | lookup {r : R} {presented : String} {tokenId : Uuid} {row : TokenRow}
    (idle : s.phase r = .idle) (found : s.visible r tokenId = some row)
    (same : row.tokenHash = env.sha256 presented) :
    Step s (.lookup r presented) (s.setPhase r (.looked tokenId row))
  | lookupFails {r : R} {presented : String} (idle : s.phase r = .idle)
    (missing : ∀ tokenId row, s.visible r tokenId = some row →
      row.tokenHash ≠ env.sha256 presented) :
    Step s (.lookup r presented) s
  /-- The rows of the family that the statement sees. -/
  | revokeFamily {r : R} {tokenId : Uuid} {row : TokenRow} {todo : List Uuid}
    (phase : s.phase r = .looked tokenId row) (revoked : row.revoked = true)
    (todo_iff : ∀ id, id ∈ todo ↔
      ∃ row', s.visible r id = some row' ∧ row'.tokenFamily = row.tokenFamily) :
    Step s (.revokeFamily r) (s.setPhase r (.revoking row.tokenFamily todo))
  | revokeNext {r : R} {family tokenId : Uuid} {todo : List Uuid} {row : TokenRow}
    (phase : s.phase r = .revoking family (tokenId :: todo)) (free : s.Free r tokenId)
    (found : s.visible r tokenId = some row) :
    Step s (.revokeNext r)
      ((s.write r tokenId { row with revoked := true }).setPhase r (.revoking family todo))
  | revoke {r : R} {tokenId : Uuid} {row row' : TokenRow} {now : ℤ}
    (phase : s.phase r = .looked tokenId row) (unrevoked : row.revoked = false)
    (unexpired : ¬row.expiresAt < now) (free : s.Free r tokenId)
    (found : s.visible r tokenId = some row') :
    Step s (.revoke r)
      ((s.write r tokenId { row' with revoked := true }).setPhase r (.rotated tokenId row))
  | userActive {r : R} {tokenId : Uuid} {row : TokenRow} {user : User}
    (phase : s.phase r = .rotated tokenId row) (found : s.users row.userId = some user)
    (isActive : user.isActive = true) :
    Step s (.checkUser r) (s.setPhase r (.active tokenId row user))
  | userInactive {r : R} {tokenId : Uuid} {row : TokenRow}
    (phase : s.phase r = .rotated tokenId row)
    (isActive : ∀ user, s.users row.userId = some user → user.isActive = false) :
    Step s (.checkUser r) (s.setPhase r .inactive)
  | insertToken {r : R} {tokenId newId jti : Uuid} {row : TokenRow} {user : User} {raw : String}
    {now : ℤ} (phase : s.phase r = .active tokenId row user)
    (newToken : s.NewToken newId (env.sha256 raw)) :
    Step s (.insert r)
      ((s.write r newId
        ⟨row.userId, row.tokenFamily, env.sha256 raw, false, now + refreshTtl⟩).setPhase r
        (.issued tokenId row newId ⟨env.createAccessToken row.userId user.role now jti, raw⟩))
  | commit {r : R} {event : Option Event} (ends : (s.phase r).outcome = some event) :
    Step s (.commit r) (s.commit r event)
  | abort {r : R} : Step s (.abort r) (s.abort r)
  | setUser {userId : Uuid} {user : Option User} :
    Step s (.setUser userId user) { s with users := Function.update s.users userId user }

/-- No tokens, and no requests. -/
def Server.start (users : Uuid → Option User) : Server R where
  committed _ := none
  pending _ := none
  users := users
  phase _ := .idle
  events := []

/-- The servers that are reached from one without tokens by steps that meet a condition. -/
inductive Reachable (Allowed : Server R → Action R → Prop) : Server R → Prop
  | start (users : Uuid → Option User) : Reachable Allowed (.start users)
  | step {s s' : Server R} {a : Action R} (reached : Reachable Allowed s) (allowed : Allowed s a)
    (step : Step env s a s') : Reachable Allowed s'

end Auth

end AslanCore
