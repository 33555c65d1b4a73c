import AslanCore.Base64
import AslanCore.Json.Limits
import AslanCore.Research.Instants
import AslanCore.Research.Pages

/-!
# The codec of cursors

A cursor is the JSON of where a page ends, with the hash of the filters that it belongs to, in base 64.
Any text may come back as one.

* `encodeCursor`, `decodeCursor`: the codec, with the base 64 and the JSON of the standard library;
* `RoundTrips`, `Refuses`, `Answers`: what is meant: a cursor is read back, is refused with other
  filters, and any other text is read as a dictionary or refused;
* `codec_iff`: it is so exactly for JSON that can be written, and texts that are none of a JSON value
  that is no object, or is nested too deeply;
* `readsCursors_of_codec`: pages can rely on the codec.
-/

namespace AslanCore.Research.Cursor

/-- What a cursor depends on. -/
structure Host where
  /-- How deep JSON may be nested, before a `RecursionError` is raised. -/
  depth : ℕ
  /-- The first 32 digits of the SHA-256 of a text. -/
  digest : String → String

variable (host : Host)

/-! ### The codec -/

/-- `json.dumps(j, sort_keys=True)`, unless it raises. -/
def Host.dumps (j : Json) : Option String :=
  if j.writable = true ∧ j.nesting ≤ host.depth then some (dumpsSorted j) else none

/-- `filters_hash`: what JSON does not have is in the filters as it is written, by `str`. -/
def filtersHash (filters : JsonObject) : Option String := (host.dumps (.obj filters)).map host.digest

variable {τ : Type} (isoformat : τ → String)

/-- What is in a cursor. -/
def payload (asOf : τ) (anchor : JsonObject) (hash : String) : JsonObject := [
  ("v", .int 1),
  ("as_of", .str (isoformat asOf)),
  ("anchor", .obj anchor),
  ("filters_hash", .str hash)]

/-- `base64.urlsafe_b64encode`, without the padding. -/
def urlsafeB64 (text : String) : String := String.ofList (Base64.strip (Base64.encode (utf8 text)))

/-- `encode_cursor`, unless the anchor or the filters cannot be written. -/
def encodeCursor (asOf : τ) (anchor filters : JsonObject) : Option String := do
  let hash ← filtersHash host filters
  let text ← host.dumps (.obj (payload isoformat asOf anchor hash))
  return urlsafeB64 text

/-- The text of a cursor, which is padded again, unless a `ValueError` is raised. -/
def cursorText (cursor : String) : Option String :=
  (Base64.decode (Base64.repad cursor.toList)).bind decodeUtf8

/-- `decode_cursor`. -/
def decodeCursor (cursor : String) (currentFilters : JsonObject) : Except HttpError LoadedDict :=
  match cursorText cursor with
  | none => .error (intervalInvalid "Malformed cursor")
  | some text =>
    match loadsDict host.depth text with
    -- A `RecursionError` is no `ValueError`.
    | .error .recursion => .error .internal
    | .error _ => .error (intervalInvalid "Malformed cursor")
    -- `payload.get` is none of a list, a string or a number: that it is a dictionary is checked later.
    | .ok none => .error .internal
    | .ok (some o) =>
      if !isCursorVersion (o.get "v") then .error (intervalInvalid "Unsupported cursor version")
      else
        match filtersHash host currentFilters with
        | none => .error .internal
        | some hash =>
          match o.get "filters_hash" with
          | some (.str s) =>
            if s = hash then .ok o
            else .error (intervalInvalid "Cursor filter-set differs from request filters")
          | _ => .error (intervalInvalid "Cursor filter-set differs from request filters")

/-! ### What is meant -/

/-- With its filters, a cursor is read back as what it was made of. -/
def RoundTrips (asOf : τ) (anchor filters : JsonObject) : Prop :=
  ∃ cursor o hash a, encodeCursor host isoformat asOf anchor filters = some cursor ∧
    decodeCursor host cursor filters = .ok o ∧ filtersHash host filters = some hash ∧
    o.get "v" = some (.int 1) ∧ o.get "as_of" = some (.str (isoformat asOf)) ∧
    o.get "anchor" = some a ∧ (Json.obj anchor).Same a ∧ o.get "filters_hash" = some (.str hash)

/-- With other filters it is refused. -/
def Refuses (asOf : τ) (anchor filters filters' : JsonObject) : Prop :=
  ∃ cursor, encodeCursor host isoformat asOf anchor filters = some cursor ∧
    Rejected (decodeCursor host cursor filters')

/-- A text is read as a dictionary, or refused. -/
def Answers (cursor : String) (filters : JsonObject) : Prop :=
  (∃ o, decodeCursor host cursor filters = .ok o) ∨ Rejected (decodeCursor host cursor filters)

/-- JSON that can be written. -/
def Writable (j : Json) : Prop := j.writable = true ∧ j.nesting ≤ host.depth

/-- A cursor of it can be written. -/
structure Encodable (anchor filters : JsonObject) : Prop where
  anchor : (Json.obj anchor).writable = true ∧ (Json.obj anchor).nesting < host.depth
  filters : Writable host (.obj filters)

/-- The text is not that of a JSON value that is nested too deeply or is no object, and if it is an
    object of a cursor then the filters can be written. -/
structure Answerable (cursor : String) (filters : JsonObject) : Prop where
  not_deep : ∀ text ∈ cursorText cursor, loadsDict host.depth text ≠ .error .recursion
  isObject : ∀ text ∈ cursorText cursor, loadsDict host.depth text ≠ .ok none
  filters : ∀ text ∈ cursorText cursor, ∀ o, loadsDict host.depth text = .ok (some o) →
    isCursorVersion (o.get "v") = true → Writable host (.obj filters)

/-! ### Any text -/

variable {host isoformat} {asOf : τ} {anchor filters filters' : JsonObject} {cursor hash : String}

theorem filtersHash_eq_some_iff : filtersHash host filters = some hash ↔
    Writable host (.obj filters) ∧ hash = host.digest (dumpsSorted (.obj filters)) := by
  rw [filtersHash, Host.dumps, Writable]
  split_ifs with h
  · rw [Option.map_some, Option.some.injEq]
    exact ⟨fun hash => ⟨h, hash.symm⟩, fun hash => hash.2.symm⟩
  · exact ⟨nofun, fun hash => absurd hash.1 h⟩

theorem rejected_intervalInvalid {α : Type} (title : String) :
    Rejected (.error (intervalInvalid title) : Except HttpError α) := ⟨_, rfl, rfl⟩

/-- A dictionary is accepted, or refused, if the filters can be written where its version is right. -/
theorem answers_of_dict {text : String} {o : LoadedDict} (htext : cursorText cursor = some text)
    (hload : loadsDict host.depth text = .ok (some o)) : Answers host cursor filters ↔
      (isCursorVersion (o.get "v") = true → Writable host (.obj filters)) := by
  rw [Answers, decodeCursor, htext]
  dsimp only
  rw [hload]
  dsimp only
  by_cases hversion : isCursorVersion (o.get "v") = true
  · rw [hversion, if_neg (by decide)]
    rcases hhash : filtersHash host filters with _ | hash
    · refine iff_of_false ?_ fun h => ?_
      · rintro (⟨o', ⟨⟩⟩ | h)
        exact not_rejected_internal h
      · exact absurd (hhash.symm.trans (filtersHash_eq_some_iff.2 ⟨h rfl, rfl⟩)) nofun
    · refine iff_of_true ?_ fun _ => (filtersHash_eq_some_iff.1 hhash).1
      dsimp only
      split
      · split_ifs
        · exact .inl ⟨o, rfl⟩
        · exact .inr (rejected_intervalInvalid _)
      · exact .inr (rejected_intervalInvalid _)
  · rw [Bool.eq_false_iff.2 hversion, if_pos (by decide)]
    exact iff_of_true (.inr (rejected_intervalInvalid _)) nofun

theorem not_answers_of_internal (h : decodeCursor host cursor filters = .error .internal) :
    ¬Answers host cursor filters := by
  rw [Answers, h]
  rintro (⟨o, ⟨⟩⟩ | h)
  exact not_rejected_internal h

/-- Any text is read as a dictionary or refused exactly if it is answerable. -/
theorem answers_iff : Answers host cursor filters ↔ Answerable host cursor filters := by
  rcases htext : cursorText cursor with _ | text
  · refine iff_of_true (.inr ?_) ⟨?_, ?_, ?_⟩
    · rw [decodeCursor, htext]
      exact rejected_intervalInvalid _
    all_goals
      rw [htext]
      exact nofun
  · -- What it is answered with depends on what is loaded.
    have hanswerable : Answerable host cursor filters ↔
        loadsDict host.depth text ≠ .error .recursion ∧ loadsDict host.depth text ≠ .ok none ∧
        ∀ o, loadsDict host.depth text = .ok (some o) →
          isCursorVersion (o.get "v") = true → Writable host (.obj filters) := by
      constructor
      · exact fun h => ⟨h.not_deep text htext, h.isObject text htext, h.filters text htext⟩
      · rintro ⟨hdeep, hobject, hfilters⟩
        refine ⟨?_, ?_, ?_⟩ <;> rintro text' htext' <;> cases htext.symm.trans htext'
        exacts [hdeep, hobject, hfilters]
    rw [hanswerable]
    rcases hload : loadsDict host.depth text with e | _ | o
    · by_cases he : e = .recursion
      · refine iff_of_false (not_answers_of_internal ?_) fun h => h.1 (by rw [he])
        rw [decodeCursor, htext]
        dsimp only
        rw [hload, he]
      · refine iff_of_true (.inr ?_) ⟨fun h => he (Except.error.inj h), nofun, nofun⟩
        rw [decodeCursor, htext]
        dsimp only
        rw [hload]
        rcases e with _ | _ | _
        · exact rejected_intervalInvalid _
        · exact rejected_intervalInvalid _
        · exact absurd rfl he
    · refine iff_of_false (not_answers_of_internal ?_) fun h => h.2.1 rfl
      rw [decodeCursor, htext]
      dsimp only
      rw [hload]
    · rw [answers_of_dict htext hload]
      refine ⟨fun h => ⟨nofun, nofun, fun o' ho' hversion => h ?_⟩, fun h => h.2.2 o rfl⟩
      cases ho'
      exact hversion

/-! ### Cursors -/

theorem cursorText_urlsafeB64 (text : String) : cursorText (urlsafeB64 text) = some text := by
  rw [cursorText, urlsafeB64, String.toList_ofList, Base64.repad_strip, Base64.decode_encode]
  exact decodeUtf8_utf8 text

/-- What is written with sorted keys is found where it was before. -/
theorem exists_loadsDict {fields : JsonObject} (hj : (Json.obj fields).IsJson)
    (hw : Writable host (.obj fields)) : ∃ o : LoadedDict,
      loadsDict host.depth (dumpsSorted (.obj fields)) = .ok (some o) ∧
      ∀ key, o.get key = (fields.lookup key).map Json.sortKeys := by
  have hread := (Json.readable_iff hj).2 hw
  obtain ⟨d, hd⟩ : ∃ d, host.depth = d + 1 := by
    refine Nat.exists_eq_add_one_of_ne_zero fun hzero => ?_
    have hle := hw.2
    rw [hzero, Json.nesting] at hle
    omega
  rw [hd] at hread ⊢
  have hsorted := hread.sortKeys
  rw [Json.sortKeys] at hsorted
  refine ⟨_, loadsDict_render DumpStyle.valid_default hsorted, fun key => ?_⟩
  rw [LoadedDict.get_map (Json.readable_obj_iff.1 hsorted).1,
    lookup_sortKeys (Json.readable_obj_iff.1 hread).1]

theorem isJson_payload (h : (Json.obj anchor).IsJson) :
    (Json.obj (payload isoformat asOf anchor hash)).IsJson := by
  rw [Json.IsJson, fieldsJson_iff]
  refine ⟨show ["v", "as_of", "anchor", "filters_hash"].Nodup by decide, ?_⟩
  simp only [payload, List.forall_mem_cons]
  exact ⟨trivial, trivial, h, trivial, List.forall_mem_nil _⟩

theorem writable_payload_iff : Writable host (.obj (payload isoformat asOf anchor hash)) ↔
    (Json.obj anchor).writable = true ∧ (Json.obj anchor).nesting < host.depth := by
  have hone : (Json.int 1).writable = true := by decide
  have hwritable : (Json.obj (payload isoformat asOf anchor hash)).writable =
      (Json.obj anchor).writable := by
    simp only [payload, Json.writable, fieldsWritable, Bool.true_and, Bool.and_true]
    exact Bool.true_and _
  have hnesting : (Json.obj (payload isoformat asOf anchor hash)).nesting =
      (Json.obj anchor).nesting + 1 := by
    simp only [payload, Json.nesting, fieldsNesting]
    omega
  rw [Writable, hwritable, hnesting]
  rfl

theorem encodeCursor_eq_some_iff : encodeCursor host isoformat asOf anchor filters = some cursor ↔
    Encodable host anchor filters ∧ cursor = urlsafeB64 (dumpsSorted
      (.obj (payload isoformat asOf anchor (host.digest (dumpsSorted (.obj filters)))))) := by
  simp only [encodeCursor, bind, Option.bind_eq_some_iff, filtersHash_eq_some_iff, pure,
    Option.some.injEq, Host.dumps]
  constructor
  · rintro ⟨hash, ⟨hfilters, rfl⟩, text, htext, rfl⟩
    split_ifs at htext with hw
    cases htext
    exact ⟨⟨writable_payload_iff.1 hw, hfilters⟩, rfl⟩
  · rintro ⟨⟨hanchor, hfilters⟩, rfl⟩
    refine ⟨_, ⟨hfilters, rfl⟩, _, if_pos ?_, rfl⟩
    exact writable_payload_iff.2 hanchor

theorem exists_cursor (isoformat : τ → String) (asOf : τ) (h : Encodable host anchor filters) :
    ∃ cursor, encodeCursor host isoformat asOf anchor filters = some cursor :=
  ⟨_, encodeCursor_eq_some_iff.2 ⟨h, rfl⟩⟩

/-- The dictionary of a cursor. -/
theorem exists_payload (hanchor : (Json.obj anchor).IsJson) (h : Encodable host anchor filters) :
    ∃ o : LoadedDict, ∃ a, encodeCursor host isoformat asOf anchor filters = some cursor →
      (∃ text, cursorText cursor = some text ∧ loadsDict host.depth text = .ok (some o)) ∧
      o.get "v" = some (.int 1) ∧ o.get "as_of" = some (.str (isoformat asOf)) ∧
      o.get "anchor" = some a ∧ (Json.obj anchor).Same a ∧
      o.get "filters_hash" = some (.str (host.digest (dumpsSorted (.obj filters)))) := by
  have hj : (Json.obj (payload isoformat asOf anchor
      (host.digest (dumpsSorted (.obj filters))))).IsJson := isJson_payload hanchor
  obtain ⟨o, hload, hget⟩ := exists_loadsDict hj (writable_payload_iff.2 h.anchor)
  refine ⟨o, (Json.obj anchor).sortKeys, fun hcursor => ?_⟩
  obtain ⟨-, rfl⟩ := encodeCursor_eq_some_iff.1 hcursor
  refine ⟨⟨_, cursorText_urlsafeB64 _, hload⟩, hget "v", hget "as_of", hget "anchor", ?_,
    hget "filters_hash"⟩
  exact same_of_sortKeys (Json.sortKeys_sortKeys _).symm

/-- The hash of a dictionary of the right version is compared with that of the filters. -/
theorem decodeCursor_of_version {text : String} {o : LoadedDict}
    (htext : cursorText cursor = some text) (hload : loadsDict host.depth text = .ok (some o))
    (hv : o.get "v" = some (.int 1)) (hhash : o.get "filters_hash" = some (.str hash)) :
    decodeCursor host cursor filters' = match filtersHash host filters' with
      | none => .error .internal
      | some hash' =>
        if hash = hash' then .ok o
        else .error (intervalInvalid "Cursor filter-set differs from request filters") := by
  rw [decodeCursor, htext]
  dsimp only
  rw [hload]
  dsimp only
  rw [hv, hhash, if_neg (by decide)]

/-- A cursor is read back exactly if it can be written. -/
theorem roundTrips_iff (hanchor : (Json.obj anchor).IsJson) :
    RoundTrips host isoformat asOf anchor filters ↔ Encodable host anchor filters := by
  constructor
  · rintro ⟨cursor, o, hash, a, hcursor, -⟩
    exact (encodeCursor_eq_some_iff.1 hcursor).1
  · intro h
    obtain ⟨cursor, hcursor⟩ := exists_cursor isoformat asOf h
    have hhash : filtersHash host filters = some (host.digest (dumpsSorted (.obj filters))) :=
      filtersHash_eq_some_iff.2 ⟨h.filters, rfl⟩
    obtain ⟨o, a, hpayload⟩ := exists_payload hanchor h
    obtain ⟨⟨text, htext, hload⟩, hv, hasOf, ha, hsame, hget⟩ := hpayload hcursor
    refine ⟨_, o, _, a, hcursor, ?_, hhash, hv, hasOf, ha, hsame, hget⟩
    rw [decodeCursor_of_version htext hload hv hget, hhash]
    exact if_pos rfl

/-- With other filters it is refused exactly if these can be written as well. -/
theorem refuses_iff (hinj : Function.Injective host.digest) (hanchor : (Json.obj anchor).IsJson)
    (hfilters : (Json.obj filters).IsJson) (hfilters' : (Json.obj filters').IsJson)
    (hne : ¬(Json.obj filters).Same (.obj filters')) :
    Refuses host isoformat asOf anchor filters filters' ↔
      Encodable host anchor filters ∧ Writable host (.obj filters') := by
  constructor
  · rintro ⟨cursor, hcursor, hrejected⟩
    have h := (encodeCursor_eq_some_iff.1 hcursor).1
    obtain ⟨o, a, hpayload⟩ := exists_payload hanchor h
    obtain ⟨⟨text, htext, hload⟩, hv, -, -, -, hget⟩ := hpayload hcursor
    refine ⟨h, ?_⟩
    rw [decodeCursor_of_version htext hload hv hget] at hrejected
    rcases hhash : filtersHash host filters' with _ | hash'
    · rw [hhash] at hrejected
      exact absurd hrejected not_rejected_internal
    · exact (filtersHash_eq_some_iff.1 hhash).1
  · rintro ⟨h, hw⟩
    obtain ⟨cursor, hcursor⟩ := exists_cursor isoformat asOf h
    obtain ⟨o, a, hpayload⟩ := exists_payload hanchor h
    obtain ⟨⟨text, htext, hload⟩, hv, -, -, -, hget⟩ := hpayload hcursor
    refine ⟨_, hcursor, ?_⟩
    rw [decodeCursor_of_version htext hload hv hget, filtersHash_eq_some_iff.2 ⟨hw, rfl⟩]
    dsimp only
    rw [if_neg]
    · exact rejected_intervalInvalid _
    · -- The texts of filters that differ do so.
      intro heq
      refine hne (same_of_render DumpStyle.valid_default ((Json.readable_iff hfilters).2 h.filters)
        ((Json.readable_iff hfilters').2 hw) ?_)
      exact String.ofList_inj.1 (hinj heq)

/-- Cursors are read back, are refused with other filters, and any other text is answered, exactly as
    far as JSON can be written, and texts are answerable. -/
theorem codec_iff (host : Host) (isoformat : τ → String) (hinj : Function.Injective host.digest) :
    (∀ asOf anchor filters, (Json.obj anchor).IsJson → (Json.obj filters).IsJson →
      (RoundTrips host isoformat asOf anchor filters ↔ Encodable host anchor filters)) ∧
    (∀ asOf anchor filters filters', (Json.obj anchor).IsJson → (Json.obj filters).IsJson →
      (Json.obj filters').IsJson → ¬(Json.obj filters).Same (.obj filters') →
      (Refuses host isoformat asOf anchor filters filters' ↔
        Encodable host anchor filters ∧ Writable host (.obj filters'))) ∧
    ∀ cursor filters, Answers host cursor filters ↔ Answerable host cursor filters :=
  ⟨fun _ _ _ hanchor _ => roundTrips_iff hanchor,
    fun _ _ _ _ hanchor hfilters hfilters' hne => refuses_iff hinj hanchor hfilters hfilters' hne,
    fun _ _ => answers_iff⟩

/-! ### Pages -/

variable {env : Environment} {enc : Encoding} {d : ℕ}

/-- Pages can rely on the codec, where JSON may be nested twice. -/
theorem readsCursors_of_codec (hd : 2 ≤ d) (henc : enc.urlsafeB64 = urlsafeB64)
    (hload : ∀ cursor, env.loadCursor cursor =
      (cursorText cursor).bind fun text => (loads d text).toOption) : env.ReadsCursors enc := by
  intro j hj
  have hsorted := hj.sortKeys.mono hd
  have htext : j.sortKeys.dumps {} = some (dumpsSorted j) := if_pos hsorted.writable
  rw [hload, henc, cursorText_urlsafeB64, Option.bind_some,
    loads_dumps DumpStyle.valid_default hsorted htext]
  rfl

/-! ### One cursor -/

/-- A hash that is the one of SHA-256 for no filters. -/
def emptyDigest (text : String) : String :=
  if text = "\x7b\x7d" then "44136fa355b3678a1146ad16f7e8649e" else "sha256:" ++ text

theorem injective_emptyDigest : Function.Injective emptyDigest := by
  intro s t h
  have hne : ∀ text : String, "44136fa355b3678a1146ad16f7e8649e" ≠ "sha256:" ++ text := by
    intro text heq
    have hhead := congrArg (fun s : String => s.toList.head?) heq
    rw [String.toList_append, List.head?_append_of_ne_nil _ (by decide)] at hhead
    exact absurd hhead (by decide)
  rw [emptyDigest, emptyDigest] at h
  split_ifs at h with hs ht ht
  · exact hs.trans ht.symm
  · exact absurd h (hne t)
  · exact absurd h.symm (hne s)
  · have hlist := congrArg String.toList h
    rw [String.toList_append, String.toList_append] at hlist
    exact String.toList_inj.1 (List.append_cancel_left hlist)

/-- Where JSON may be nested nine hundred times. -/
def nineHundred : Host := ⟨900, emptyDigest⟩

/-- After half past one on 15 June 2025, two hours east of UTC. -/
def june15 : DateTime :=
  ⟨2025, 6, 15, 13, 30, 15, 250000, 7200000000, by decide, by decide, by decide, by decide, by decide, by decide,
    by decide, by decide⟩

/-- A cursor without filters is read back, and refused with a filter; and what has no hash is. -/
theorem codec_nineHundred :
    RoundTrips nineHundred DateTime.isoformat june15 [("series_id", .int 7)] [] ∧
    Refuses nineHundred DateTime.isoformat june15 [("series_id", .int 7)] []
      [("entity_id", .str "7")] ∧
    Answers nineHundred "eyJ2IjogMX0" [] := by
  obtain ⟨hround, hrefuse, hanswer⟩ :=
    codec_iff nineHundred DateTime.isoformat injective_emptyDigest
  have hanchor : (Json.obj [("series_id", .int 7)]).IsJson :=
    ⟨List.nodup_singleton _, trivial, trivial⟩
  have hnone : (Json.obj []).IsJson := ⟨List.nodup_nil, trivial⟩
  have hfilter : (Json.obj [("entity_id", .str "7")]).IsJson :=
    ⟨List.nodup_singleton _, trivial, trivial⟩
  have hencodable : Encodable nineHundred [("series_id", .int 7)] [] :=
    ⟨⟨by decide, by decide⟩, by decide, by decide⟩
  have htext : cursorText "eyJ2IjogMX0" = some "\x7b\"v\": 1\x7d" := by decide +kernel
  have hload : loadsDict nineHundred.depth "\x7b\"v\": 1\x7d" = .ok (some [(some "v", .int 1)]) := rfl
  refine ⟨(hround _ _ _ hanchor hnone).2 hencodable,
    (hrefuse _ _ _ _ hanchor hnone hfilter nofun).2 ⟨hencodable, by decide, by decide⟩,
    (hanswer _ _).2 ⟨?_, ?_, ?_⟩⟩
  all_goals
    rw [htext]
    rintro text ⟨⟩
    rw [hload]
  · exact nofun
  · exact nofun
  · exact fun _ _ _ => hencodable.filters

/-- A list that is no cursor is not refused. -/
theorem not_answers_nineHundred : ¬Answers nineHundred "W10" [] := by
  have htext : cursorText "W10" = some "[]" := by decide +kernel
  have hload : loadsDict nineHundred.depth "[]" = .ok none := rfl
  refine not_answers_of_internal ?_
  rw [decodeCursor, htext]
  dsimp only
  rw [hload]

end AslanCore.Research.Cursor
