import AslanCore.Digits
import AslanCore.Research.Endpoints

/-!
# API keys

A request presents a key with its identifier and a secret. It is meant to have the principal of the
key, if the secret verifies against the stored hash and the key is neither revoked nor expired, and
to be unauthorized otherwise.

* `getPrincipal`: the principal of a request;
* `Resolves`: it is as it is meant;
* `Checkable`: the hashes and the times of which it is so. `argon2` reads the hash, or it and the
  secret are in ASCII, and the time of expiry has an offset, if it is looked at;
* `resolves_iff_checkable`: they are these.
-/

namespace AslanCore.Research.ApiKeys

/-! ### Keys -/

/-- What `PasswordHasher.verify` does with a hash and a secret: it is true, or raises that they do not
    match, or something else. -/
inductive Verification
  | verified
  | mismatch
  | error
  deriving DecidableEq

/-- A row of `aslan_core.api_key`, as the driver returns it. An expiry that is infinite has no offset. -/
structure Row where
  keyId : PgUuid
  secretHash : String
  rateTier : String
  piiUnredacted : Bool
  scopes : Option (List String)
  expiresAt : Option PyDatetime
  revokedAt : Option PyDatetime

/-- `aslan_core.api_key`. -/
structure Table where
  apiKey : List Row
  pkey : (apiKey.map Row.keyId).Nodup

/-- `SELECT … WHERE key_id = :key_id`, and `first`. -/
def Table.first (t : Table) (keyId : PgUuid) : Option Row := t.apiKey.find? fun r => r.keyId = keyId

def Row.principal (row : Row) : ApiKeyPrincipal :=
  ⟨row.keyId, row.rateTier, row.piiUnredacted, row.scopes.getD []⟩

/-! ### The secret -/

/-- What the hashes of `argon2` begin with. -/
def isArgon2 (storedHash : String) : Bool := ['$', 'a', 'r', 'g', 'o', 'n', '2'].isPrefixOf storedHash.toList

def isAscii (s : String) : Bool := s.toList.all fun c => c.toNat < 128

/-- `hmac.compare_digest`, which raises a `TypeError` for a text that is not in ASCII. -/
def compareDigest (a b : String) : Except HttpError Bool :=
  if isAscii a ∧ isAscii b then .ok (a = b) else .error .internal

variable (verify : String → String → Verification)

def verifySecret (storedHash presentedSecret : String) : Except HttpError Bool :=
  if storedHash = "" then .ok false
  else if isArgon2 storedHash then
    match verify storedHash presentedSecret with
    | .verified => .ok true
    | .mismatch => .ok false
    | .error => .error .internal
  else compareDigest storedHash presentedSecret

/-! ### The principal -/

/-- `_PUBLIC_PATHS`. -/
def publicPaths : List String :=
  ["/v1/research/verify/moat-2", "/v1/research/healthz", "/v1/research/version",
    "/v1/research/openapi.json"]

def unauthorized (title : String) : HttpError := ⟨401, "AUTH_INVALID", title⟩

variable (now : Timestamp)

/-- `row.expires_at is not None and row.expires_at < now`. Without an offset it is not compared. -/
def Row.expired (row : Row) : Except HttpError Bool :=
  match row.expiresAt with
  | none => .ok false
  | some ⟨_, none⟩ => .error .internal
  | some ⟨wall, some offset⟩ => .ok (wall - offset < now)

/-- The checks of a key that is found. -/
def authenticate (row : Row) (rawSecret : String) : Except HttpError (Option ApiKeyPrincipal) :=
  match verifySecret verify row.secretHash rawSecret with
  | .error e => .error e
  | .ok false => .error (unauthorized "Invalid API key secret")
  | .ok true =>
    if row.revokedAt.isSome then .error (unauthorized "API key revoked")
    else
      match row.expired now with
      | .error e => .error e
      | .ok true => .error (unauthorized "API key expired")
      | .ok false => .ok (some row.principal)

variable (path : String) (xAslanApiKey : Option String) (t : Table)

/-- `get_principal`. -/
def getPrincipal : Except HttpError (Option ApiKeyPrincipal) :=
  if path ∈ publicPaths then .ok none
  else
    let key := (xAslanApiKey.getD "").toList
    if key = [] then .error (unauthorized "Missing X-Aslan-Api-Key header")
    else if ':' ∉ key then
      .error (unauthorized "Malformed X-Aslan-Api-Key (expected key_id:secret)")
    else
      match uuidOf (key.takeWhile (· ≠ ':')) with
      | none => .error (unauthorized "X-Aslan-Api-Key key_id is not a UUID")
      | some keyId =>
        match t.first keyId with
        | none => .error (unauthorized "Unknown API key")
        | some row => authenticate verify now row (String.ofList (key.dropWhile (· ≠ ':')).tail)

/-! ### What is meant -/

/-- A header is the identifier of a key and a secret. -/
def Presents (row : Row) (secret : String) : Prop :=
  ∃ raw, xAslanApiKey = some (String.ofList (raw ++ ':' :: secret.toList)) ∧ ':' ∉ raw ∧
    uuidOf raw = some row.keyId

/-- A secret verifies against a stored hash. Hashes that are not of `argon2` are the secret. -/
def Verifies (storedHash secret : String) : Prop :=
  storedHash ≠ "" ∧
    if isArgon2 storedHash then verify storedHash secret = .verified else storedHash = secret

/-- A key is neither revoked nor expired. -/
def Live (row : Row) : Prop :=
  row.revokedAt = none ∧ ∀ d, row.expiresAt = some d → now ≤ d.wall - d.offset.getD 0

/-- The header grants a request the principal of a key. -/
def Granted (row : Row) : Prop :=
  ∃ secret, Presents xAslanApiKey row secret ∧ Verifies verify row.secretHash secret ∧ Live now row

variable {α : Type}

/-- The request is unauthorized. -/
def Unauthorized (r : Except HttpError α) : Prop := ∃ title, r = .error (unauthorized title)

/-- A request has the principal of the key that its header grants it, or it is unauthorized. -/
structure Resolves : Prop where
  granted : ∀ row ∈ t.apiKey, Granted verify now xAslanApiKey row →
    getPrincipal verify now path xAslanApiKey t = .ok (some row.principal)
  rejected : (∀ row ∈ t.apiKey, ¬Granted verify now xAslanApiKey row) →
    Unauthorized (getPrincipal verify now path xAslanApiKey t)

/-- `argon2` reads a hash, and what it is not the reader of is in ASCII. -/
def Comparable (storedHash secret : String) : Prop :=
  storedHash ≠ "" →
    if isArgon2 storedHash then verify storedHash secret ≠ .error
    else isAscii storedHash ∧ isAscii secret

/-- A key and a secret can be compared with what is stored, and so can the clock, if the secret verifies
    and the key is not revoked. -/
structure Checkable (row : Row) (secret : String) : Prop where
  comparable : Comparable verify row.secretHash secret
  offset : Verifies verify row.secretHash secret → row.revokedAt = none →
    ∀ d, row.expiresAt = some d → d.offset ≠ none

variable {verify now path xAslanApiKey t} {row row' : Row} {secret secret' : String}

/-! ### The key of a header -/

theorem Table.first_of_mem (h : row ∈ t.apiKey) : t.first row.keyId = some row := by
  rcases hfind : t.first row.keyId with _ | row'
  · exact absurd (List.find?_eq_none.1 hfind row h) (by simp)
  · have hid : row'.keyId = row.keyId := by simpa using List.find?_some hfind
    rw [List.inj_on_of_nodup_map t.pkey (List.mem_of_find?_eq_some hfind) h hid]

theorem Table.first_eq_some {keyId : PgUuid} (h : t.first keyId = some row) :
    row ∈ t.apiKey ∧ row.keyId = keyId :=
  ⟨List.mem_of_find?_eq_some h, by simpa using List.find?_some h⟩

/-- A header presents one key and one secret. -/
theorem Presents.unique (hrow : row ∈ t.apiKey) (hrow' : row' ∈ t.apiKey)
    (h : Presents xAslanApiKey row secret) (h' : Presents xAslanApiKey row' secret') :
    row = row' ∧ secret = secret' := by
  obtain ⟨raw, rfl, hcolon, huuid⟩ := h
  obtain ⟨raw', hheader, hcolon', huuid'⟩ := h'
  have htext := congrArg String.toList (Option.some.inj hheader)
  rw [String.toList_ofList, String.toList_ofList] at htext
  obtain ⟨rfl, hsecret⟩ := (append_cons_inj_of_not_mem hcolon hcolon').1 htext
  have hid : row.keyId = row'.keyId := Option.some.inj (huuid.symm.trans huuid')
  exact ⟨List.inj_on_of_nodup_map t.pkey hrow hrow' hid, String.toList_inj.1 hsecret⟩

/-- The key of a header that presents one is authenticated. -/
theorem getPrincipal_of_presents (hpath : path ∉ publicPaths) (hrow : row ∈ t.apiKey)
    (h : Presents xAslanApiKey row secret) :
    getPrincipal verify now path xAslanApiKey t = authenticate verify now row secret := by
  obtain ⟨raw, rfl, hcolon, huuid⟩ := h
  obtain ⟨htake, hdrop⟩ := takeWhile_ne_append_cons (z := secret.toList) hcolon
  rw [getPrincipal, if_neg hpath]
  dsimp only [Option.getD_some]
  rw [String.toList_ofList, if_neg (List.append_ne_nil_of_right_ne_nil _ (List.cons_ne_nil _ _)),
    if_neg (not_not.2 (by simp)), htake, hdrop, huuid]
  dsimp only
  rw [Table.first_of_mem hrow, List.tail_cons, String.ofList_toList]

/-- A header that presents none is unauthorized. -/
theorem unauthorized_of_not_presents (hpath : path ∉ publicPaths)
    (h : ∀ row ∈ t.apiKey, ∀ secret, ¬Presents xAslanApiKey row secret) :
    Unauthorized (getPrincipal verify now path xAslanApiKey t) := by
  rw [getPrincipal, if_neg hpath]
  dsimp only
  by_cases hnil : (xAslanApiKey.getD "").toList = []
  · rw [if_pos hnil]
    exact ⟨_, rfl⟩
  by_cases hcolon : ':' ∉ (xAslanApiKey.getD "").toList
  · rw [if_neg hnil, if_pos hcolon]
    exact ⟨_, rfl⟩
  rw [if_neg hnil, if_neg hcolon]
  obtain ⟨raw, secret, htext, hraw⟩ := List.eq_append_cons_of_mem (not_not.1 hcolon)
  obtain ⟨htake, hdrop⟩ := takeWhile_ne_append_cons (z := secret) hraw
  rw [htext, htake, hdrop, List.tail_cons]
  rcases huuid : uuidOf raw with _ | keyId
  · exact ⟨_, rfl⟩
  dsimp only
  rcases hfirst : t.first keyId with _ | row
  · exact ⟨_, rfl⟩
  obtain ⟨hrow, rfl⟩ := Table.first_eq_some hfirst
  refine absurd ⟨raw, ?_, hraw, huuid⟩ (h row hrow (String.ofList secret))
  rw [String.toList_ofList, ← htext, String.ofList_toList]
  rcases xAslanApiKey with _ | key
  · exact absurd rfl hnil
  · rfl

/-! ### Its checks -/

theorem verifySecret_of_comparable (h : Comparable verify row.secretHash secret) :
    ∃ b, verifySecret verify row.secretHash secret = .ok b ∧
      (b = true ↔ Verifies verify row.secretHash secret) := by
  unfold Comparable at h
  unfold verifySecret Verifies
  by_cases hempty : row.secretHash = ""
  · rw [if_pos hempty]
    exact ⟨false, rfl, by simp [hempty]⟩
  by_cases hargon : isArgon2 row.secretHash = true
  · have hread := h hempty
    simp only [if_pos hargon, if_neg hempty] at hread ⊢
    rcases hverify : verify row.secretHash secret
    · exact ⟨true, rfl, by simp [hempty]⟩
    · exact ⟨false, rfl, by simp⟩
    · exact absurd hverify hread
  · have hascii := h hempty
    simp only [if_neg hargon, if_neg hempty, compareDigest] at hascii ⊢
    rw [if_pos hascii]
    exact ⟨_, rfl, by simp [hempty]⟩

theorem verifySecret_of_not_comparable (h : ¬Comparable verify row.secretHash secret) :
    verifySecret verify row.secretHash secret = .error .internal := by
  unfold Comparable at h
  obtain ⟨hempty, hread⟩ := Classical.not_imp.1 h
  unfold verifySecret
  rw [if_neg hempty]
  by_cases hargon : isArgon2 row.secretHash = true
  · rw [if_pos hargon] at hread ⊢
    rw [not_not.1 hread]
  · rw [if_neg hargon] at hread ⊢
    exact if_neg hread

theorem expired_of_offset (now : Timestamp) (h : ∀ d, row.expiresAt = some d → d.offset ≠ none) :
    ∃ b, row.expired now = .ok b ∧
      (b = false ↔ ∀ d, row.expiresAt = some d → now ≤ d.wall - d.offset.getD 0) := by
  unfold Row.expired
  rcases hexpires : row.expiresAt with _ | ⟨wall, _ | offset⟩
  · exact ⟨false, rfl, by simp⟩
  · exact absurd rfl (h _ hexpires)
  · exact ⟨_, rfl, by simp⟩

/-- What is checkable is granted, or unauthorized. -/
theorem authenticate_of_checkable (now : Timestamp) (h : Checkable verify row secret) :
    (Verifies verify row.secretHash secret ∧ Live now row →
      authenticate verify now row secret = .ok (some row.principal)) ∧
    (¬(Verifies verify row.secretHash secret ∧ Live now row) →
      Unauthorized (authenticate verify now row secret)) := by
  obtain ⟨b, hsecret, hverifies⟩ := verifySecret_of_comparable h.comparable
  unfold authenticate Live
  rw [hsecret]
  cases b with
  | false =>
    have hnot : ¬Verifies verify row.secretHash secret := fun hv => Bool.noConfusion (hverifies.2 hv)
    exact ⟨fun hgranted => absurd hgranted.1 hnot, fun _ => ⟨_, rfl⟩⟩
  | true =>
    have hyes := hverifies.1 rfl
    dsimp only
    rcases hrevoked : row.revokedAt with _ | d
    · obtain ⟨expired, hexpired, hlive⟩ := expired_of_offset now (h.offset hyes hrevoked)
      rw [Option.isSome_none, if_neg Bool.false_ne_true, hexpired, ← hlive]
      cases expired with
      | false => exact ⟨fun _ => rfl, fun hnot => absurd ⟨hyes, rfl, rfl⟩ hnot⟩
      | true => exact ⟨fun hgranted => Bool.noConfusion hgranted.2.2, fun _ => ⟨_, rfl⟩⟩
    · rw [Option.isSome_some, if_pos rfl]
      exact ⟨fun ⟨_, hnone, _⟩ => (nomatch hnone), fun _ => ⟨_, rfl⟩⟩

/-- What is not raises. -/
theorem authenticate_of_not_checkable (h : ¬Checkable verify row secret) :
    authenticate verify now row secret = .error .internal := by
  unfold authenticate
  by_cases hcomparable : Comparable verify row.secretHash secret
  · obtain ⟨b, hsecret, hverifies⟩ := verifySecret_of_comparable hcomparable
    have hnaive : ¬(Verifies verify row.secretHash secret → row.revokedAt = none →
        ∀ d, row.expiresAt = some d → d.offset ≠ none) := fun ho => h ⟨hcomparable, ho⟩
    simp only [Classical.not_imp, not_forall, not_not] at hnaive
    obtain ⟨hyes, hrevoked, ⟨wall, offset⟩, hexpires, rfl⟩ := hnaive
    rw [hsecret, hverifies.2 hyes, hrevoked, Row.expired, hexpires]
    rfl
  · rw [verifySecret_of_not_comparable hcomparable]

/-! ### The requests of which it is so -/

theorem not_unauthorized_internal : ¬Unauthorized (.error .internal : Except HttpError α) := by
  rintro ⟨title, h⟩
  cases h

/-- A request that raises is not as it is meant. -/
theorem not_resolves_of_internal
    (h : getPrincipal verify now path xAslanApiKey t = .error .internal) :
    ¬Resolves verify now path xAslanApiKey t := by
  rintro ⟨hok, hrejected⟩
  rw [h] at hok hrejected
  refine not_unauthorized_internal (hrejected fun row hrow hgrant => ?_)
  cases hok row hrow hgrant

/-- On a path that is not public, a request has the principal that it is granted or is unauthorized,
    exactly if the key that its header presents is checkable. -/
theorem resolves_iff_checkable (hpath : path ∉ publicPaths) :
    Resolves verify now path xAslanApiKey t ↔
      ∀ row ∈ t.apiKey, ∀ secret, Presents xAslanApiKey row secret →
        Checkable verify row secret := by
  by_cases hpresents : ∃ row ∈ t.apiKey, ∃ secret, Presents xAslanApiKey row secret
  · obtain ⟨row, hrow, secret, hpresents⟩ := hpresents
    have hkey : getPrincipal verify now path xAslanApiKey t = authenticate verify now row secret :=
      getPrincipal_of_presents hpath hrow hpresents
    have hgranted : ∀ row' ∈ t.apiKey, Granted verify now xAslanApiKey row' →
        row' = row ∧ Verifies verify row.secretHash secret ∧ Live now row := by
      rintro row' hrow' ⟨secret', hpresents', hverifies, hlive⟩
      obtain ⟨rfl, rfl⟩ := hpresents.unique hrow hrow' hpresents'
      exact ⟨rfl, hverifies, hlive⟩
    constructor
    · intro h row' hrow' secret' hpresents'
      obtain ⟨rfl, rfl⟩ := hpresents.unique hrow hrow' hpresents'
      by_contra hnot
      exact not_resolves_of_internal (hkey.trans (authenticate_of_not_checkable hnot)) h
    · intro h
      obtain ⟨hok, hrejected⟩ := authenticate_of_checkable now (h row hrow secret hpresents)
      constructor
      · intro row' hrow' hgrant
        obtain ⟨rfl, hgrant⟩ := hgranted row' hrow' hgrant
        exact hkey.trans (hok hgrant)
      · intro hnone
        rw [hkey]
        exact hrejected fun hgrant => hnone row hrow ⟨secret, hpresents, hgrant⟩
  · have hnone : ∀ row ∈ t.apiKey, ∀ secret, ¬Presents xAslanApiKey row secret :=
      fun row hrow secret h => hpresents ⟨row, hrow, secret, h⟩
    refine iff_of_true ⟨?_, fun _ => unauthorized_of_not_presents hpath hnone⟩
      fun row hrow secret h => absurd h (hnone row hrow secret)
    rintro row hrow ⟨secret, h, -⟩
    exact absurd h (hnone row hrow secret)

/-! ### Keys of a table -/

/-- The reader of one hash. -/
def readsHash (storedHash secret : String) : Verification :=
  if storedHash = "$argon2id$v=19$m=65536,t=3,p=4$c2FsdHNhbHQ$aGFzaA" then
    if secret = "hunter2" then .verified else .mismatch
  else .error

/-- A key with a hash of `argon2`, and one whose hash is its secret. -/
def partnerKey : Row where
  keyId := 0x123456781234567812345678123456aa
  secretHash := "$argon2id$v=19$m=65536,t=3,p=4$c2FsdHNhbHQ$aGFzaA"
  rateTier := "partner"
  piiUnredacted := false
  scopes := some []
  expiresAt := some ⟨1781530200000000, some 0⟩
  revokedAt := none

def seedKey : Row := { partnerKey with keyId := 0x123456781234567812345678123456bb, secretHash := "s3cret" }

def twoKeys : Table := ⟨[partnerKey, seedKey], by decide⟩

/-- The key with a hash of `argon2` is resolved. -/
theorem resolves_partnerKey : "/v1/research/events" ∉ publicPaths ∧
    Resolves readsHash 1718458200000000 "/v1/research/events"
      (some "12345678-1234-5678-1234-5678123456aa:hunter2") twoKeys := by
  have hpath : "/v1/research/events" ∉ publicPaths := by decide
  refine ⟨hpath, (resolves_iff_checkable hpath).2 fun row hrow secret hpresents => ?_⟩
  have hpartner : Presents (some "12345678-1234-5678-1234-5678123456aa:hunter2") partnerKey "hunter2" :=
    ⟨"12345678-1234-5678-1234-5678123456aa".toList, by decide +kernel, by decide +kernel,
      by decide +kernel⟩
  obtain ⟨rfl, rfl⟩ := hpresents.unique hrow List.mem_cons_self hpartner
  constructor
  · intro _
    decide +kernel
  · rintro - - d hexpires
    cases hexpires
    decide

/-- For a secret that is not in ASCII, the key whose hash is its secret raises. -/
theorem not_resolves_seedKey : ¬Resolves readsHash 1718458200000000 "/v1/research/events"
    (some "12345678-1234-5678-1234-5678123456bb:é") twoKeys := by
  have hseed : Presents (some "12345678-1234-5678-1234-5678123456bb:é") seedKey "é" :=
    ⟨"12345678-1234-5678-1234-5678123456bb".toList, by decide +kernel, by decide +kernel,
      by decide +kernel⟩
  have hpath : "/v1/research/events" ∉ publicPaths := by decide
  have hmem : seedKey ∈ twoKeys.apiKey := List.mem_cons_of_mem _ List.mem_cons_self
  refine not_resolves_of_internal ((getPrincipal_of_presents hpath hmem hseed).trans
    (authenticate_of_not_checkable fun h => ?_))
  have hascii : isAscii seedKey.secretHash ∧ isAscii "é" := h.comparable (by decide +kernel)
  exact absurd hascii.2 (by decide +kernel)

end AslanCore.Research.ApiKeys
