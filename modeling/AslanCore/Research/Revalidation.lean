import Std.Data.String.ToNat
import AslanCore.Research.Envelope

/-!
# Revalidation

A client that has a response may ask with its `ETag` whether it is still current. The tag is a
digest of the whole envelope, which has the id of the request.

* `Exchange`: a request and its answer;
* `sameTag_iff`: a request that is repeated has the same tag if and only if it has the same id,
  which no two requests have. Different data do have different tags.
-/

namespace AslanCore.Research

/-- A request that has been answered. What has been sent can be read back: it has no `NaN`, and no
    object with two fields of one name. -/
structure Exchange (enc : Encoding) where
  env : Environment
  principal : Option ApiKeyPrincipal
  request : DataRequest
  requestId : PgUuid
  answer : Answer
  answered : Research.answer env enc requestId principal request = .ok answer
  readable : ∃ d, (answer.body enc).Readable d

variable {enc : Encoding} {i : PgUuid}

namespace Exchange

/-- The request is made again, as of the same point in time, of the same stores. -/
structure Repeats (x x' : Exchange enc) : Prop where
  request : x'.request = x.request
  principal : x'.principal = x.principal
  asOf : x.request.asOf.isSome
  env : ∃ now headersNow, x'.env = x.env.at now headersNow

/-- The responses carry the same `ETag`. -/
def SameTag (x x' : Exchange enc) : Prop := x.answer.etag enc = x'.answer.etag enc

/-- The data are the same. -/
def SameData (x x' : Exchange enc) : Prop :=
  (x.answer.response.data.toJson enc).Same (x'.answer.response.data.toJson enc)

/-! ### Tags -/

variable {x x' : Exchange enc}

/-- Equal tags are those of one envelope. -/
theorem same_body (hdigest : Function.Injective enc.digest) (h : x.SameTag x') :
    (x.answer.body enc).Same (x'.answer.body enc) := by
  obtain ⟨d, hd⟩ := x.readable
  obtain ⟨d', hd'⟩ := x'.readable
  have htag := congrArg String.toList h
  simp only [Answer.etag, String.toList_append, List.append_cancel_left_eq,
    List.append_cancel_right_eq, String.toList_inj] at htag
  exact same_of_render DumpStyle.valid_default hd hd' (String.ofList_inj.1 (hdigest htag))

theorem sameData_of_sameTag (hdigest : Function.Injective enc.digest) (h : x.SameTag x') :
    x.SameData x' := by
  obtain ⟨j, hj, hsame⟩ := (same_body hdigest h).lookup (k := "data") (nodupKeys_answer _) rfl
  cases hj
  exact hsame

/-- The tag tells the id of the request. -/
theorem requestId_of_sameTag (hdigest : Function.Injective enc.digest)
    (huuid : Function.Injective enc.uuidStr) (h : x.SameTag x') : x.requestId = x'.requestId := by
  obtain ⟨j, hj, hmeta⟩ := (same_body hdigest h).lookup (k := "metadata") (nodupKeys_answer _) rfl
  cases hj
  obtain ⟨j, hj, hid⟩ := hmeta.lookup (k := "request_id") (nodupKeys_metadata _) rfl
  cases hj
  rw [← requestId_of_answer x.answered, ← requestId_of_answer x'.answered]
  exact huuid hid.str_inj

/-- Repeated with the same id, a request has the same tag. -/
theorem sameTag_of_repeats (hrep : x.Repeats x') (hid : x.requestId = x'.requestId) :
    x.SameTag x' := by
  obtain ⟨now, headersNow, henv⟩ := hrep.env
  have hanswered := x'.answered
  rw [henv, hrep.request, hrep.principal, ← hid] at hanswered
  obtain ⟨hdata, hmeta⟩ := answer_at hrep.asOf x.answered hanswered
  rw [SameTag, Answer.etag, Answer.etag, Answer.body, Answer.body, Answer.fields, Answer.fields,
    hdata, hmeta]

/-- Where a request is repeated, the tags are the same exactly where the ids of the requests are.
    Tags of different data are different. -/
theorem sameTag_iff (hdigest : Function.Injective enc.digest)
    (huuid : Function.Injective enc.uuidStr) (x x' : Exchange enc) :
    (x.Repeats x' → (x.SameTag x' ↔ x.requestId = x'.requestId)) ∧
      (¬x.SameData x' → ¬x.SameTag x') :=
  ⟨fun hrep => ⟨requestId_of_sameTag hdigest huuid, sameTag_of_repeats hrep⟩,
    mt (sameData_of_sameTag hdigest)⟩

end Exchange

/-! ### A list without items -/

/-- Stores without rows. -/
def emptyEnvironment : Environment where
  now := 1000000000
  headersNow := 1000000000
  flags := [("BITEMPORAL_API_ENABLED", true)]
  fromisoformat := fun _ => some ⟨0, some 0⟩
  loadCursor := fun _ => none
  filtersHash := fun _ => ""
  execute := fun _ _ => .ok []

/-- Texts are their own digests. -/
def plainEncoding : Encoding where
  str _ := ""
  isoformat _ := ""
  float _ := 0
  datetime _ := "1970-01-01T00:00:00Z"
  uuidStr u := Nat.repr u.val
  digest text := text
  urlsafeB64 text := text
  buildSha := "unknown"

/-- `GET /v1/research/observations?as_of=1970-01-01T00:00:00Z`. -/
def pastObservations : ListRequest :=
  .observations ⟨⟨some "1970-01-01T00:00:00Z", none, none, 50⟩, none, none, none, none⟩

/-- The metadata of an empty list. -/
def emptyMetadata (i : PgUuid) : Metadata where
  asOfRequested := some 0
  asOfResolved := 0
  featureFlagsActive := [.text "BITEMPORAL_API_ENABLED"]
  requestId := i

theorem readable_emptyMetadata :
    (Json.obj ((emptyMetadata i).fields plainEncoding)).Readable 2 := by
  refine .obj (nodupKeys_metadata _) ?_
  simp only [Metadata.fields, List.forall_mem_cons]
  refine ⟨.str _, .str _, .null, .null, .obj ?_ ?_, .arr ?_, .arr nofun, .str _, .str _, nofun⟩
  · exact show ["next_cursor", "prev_cursor", "has_more", "total_count_estimate"].Nodup by decide
  · simp only [List.forall_mem_cons]
    exact ⟨.null, .null, .bool _, .null, nofun⟩
  · exact List.forall_mem_singleton.2 (.str _)

/-- The request, with an id. -/
def emptyExchange (i : PgUuid) : Exchange plainEncoding where
  env := emptyEnvironment
  principal := none
  request := .list pastObservations
  requestId := i
  answer := ⟨envelope emptyEnvironment 0 (.list []), emptyMetadata i⟩
  answered := rfl
  readable := by
    refine ⟨3, .obj (nodupKeys_answer _) ?_⟩
    simp only [Answer.fields, List.forall_mem_cons]
    exact ⟨.arr nofun, readable_emptyMetadata, nofun⟩

theorem repeats_emptyExchange (i i' : PgUuid) : (emptyExchange i).Repeats (emptyExchange i') :=
  ⟨rfl, rfl, rfl, 1000000000, 1000000000, rfl⟩

theorem injective_plainDigest : Function.Injective plainEncoding.digest := fun _ _ h => h

theorem injective_plainUuidStr : Function.Injective plainEncoding.uuidStr := by
  intro u u' h
  have hrepr : u.val.repr.toNat? = u'.val.repr.toNat? := congrArg String.toNat? h
  rw [Nat.toNat?_repr, Nat.toNat?_repr, Option.some.injEq] at hrepr
  exact Fin.ext hrepr

/-- Two requests of the list have different tags. -/
theorem sameTag_emptyExchange : ¬(emptyExchange 1).SameTag (emptyExchange 2) :=
  mt ((Exchange.sameTag_iff injective_plainDigest injective_plainUuidStr _ _).1
    (repeats_emptyExchange 1 2)).1 (by decide)

/-- A request that is repeated does not have the same tag. -/
theorem not_sameTag_of_repeats :
    ¬∀ x x' : Exchange plainEncoding, x.Repeats x' → x.SameTag x' := by
  intro h
  have hid := Exchange.requestId_of_sameTag injective_plainDigest injective_plainUuidStr
    (h _ _ (repeats_emptyExchange 1 2))
  exact absurd hid (by decide)

end AslanCore.Research
