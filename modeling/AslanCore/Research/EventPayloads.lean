import AslanCore.Research.Endpoints

/-!
# What the payloads of events reveal

`_redact_event_payload` replaces the values of the PII keys of a payload, for the principals that may
not see them. It looks at the keys of the payload itself, and not at those of the objects and the
arrays in it.

* `fillPii`: a payload with another value under each PII key, at any depth: payloads differ in such
  values only if they are the same once these are filled;
* `Hides`: no principal without the right can tell such payloads apart, and nothing else is changed;
* `hides_iff`: this is so if and only if all PII keys are keys of the payload itself.
-/

namespace AslanCore.Research

section

variable (filler : Json)

mutual

/-- The payload with another value under each PII key, at any depth. -/
def fillPii : Json → Json
  | .arr items => .arr (fillItems items)
  | .obj fields => .obj (fillFields fields)
  | j => j

def fillItems : List Json → List Json
  | [] => []
  | j :: items => fillPii j :: fillItems items

def fillFields : JsonObject → JsonObject
  | [] => []
  | (k, j) :: fields => (k, if k ∈ piiKeys then filler else fillPii j) :: fillFields fields

end

end

mutual

/-- No key at any depth is a PII key. -/
def NoPii : Json → Prop
  | .arr items => NoPiiItems items
  | .obj fields => NoPiiFields fields
  | _ => True

def NoPiiItems : List Json → Prop
  | [] => True
  | j :: items => NoPii j ∧ NoPiiItems items

def NoPiiFields : JsonObject → Prop
  | [] => True
  | (k, j) :: fields => k ∉ piiKeys ∧ NoPii j ∧ NoPiiFields fields

end

/-- All PII keys are keys of the payload itself. -/
def PiiOnTop : Json → Prop
  | .obj fields => ∀ f ∈ fields, f.1 ∉ piiKeys → NoPii f.2
  | j => NoPii j

/-- Two payloads differ only in values under PII keys, at any depth. -/
def SameButPii (j j' : Json) : Prop := fillPii .null j = fillPii .null j'

/-- Payloads that differ only in values under PII keys look the same to a principal that may not see
    these, and nothing else is changed. -/
def Hides (j : Json) : Prop :=
  ∀ principal, seesPii principal = false →
    (∀ j', SameButPii j j' →
      redactEventPayload (.json j) principal = redactEventPayload (.json j') principal) ∧
    ∃ out, redactEventPayload (.json j) principal = .json out ∧ SameButPii j out

/-! ### Filling -/

variable {filler filler' j j' : Json} {items : List Json} {fields fields' : JsonObject}

theorem fillFields_eq (fields : JsonObject) : fillFields filler fields =
    fields.map fun f => (f.1, if f.1 ∈ piiKeys then filler else fillPii filler f.2) := by
  induction fields with
  | nil => rfl
  | cons f fields ih => rw [fillFields, ih, List.map_cons]

mutual

theorem fillPii_fillPii : ∀ j : Json, fillPii filler (fillPii filler' j) = fillPii filler j
  | .arr items => by rw [fillPii, fillPii, fillPii, fillItems_fillItems items]
  | .obj fields => by rw [fillPii, fillPii, fillPii, fillFields_fillFields fields]
  | .null | .bool _ | .int _ | .float _ | .str _ | .notText => by simp only [fillPii]

theorem fillItems_fillItems :
    ∀ items : List Json, fillItems filler (fillItems filler' items) = fillItems filler items
  | [] => rfl
  | j :: items => by
    rw [fillItems, fillItems, fillItems, fillPii_fillPii j, fillItems_fillItems items]

theorem fillFields_fillFields :
    ∀ fields : JsonObject, fillFields filler (fillFields filler' fields) = fillFields filler fields
  | [] => rfl
  | (k, j) :: fields => by
    rw [fillFields, fillFields, fillFields, fillFields_fillFields fields]
    split_ifs
    · rfl
    · rw [fillPii_fillPii j]

end

mutual

/-- Where there is no PII, nothing is filled. -/
theorem fillPii_of_noPii : ∀ j : Json, NoPii j → fillPii filler j = j
  | .arr items, h => by rw [fillPii, fillItems_of_noPii items h]
  | .obj fields, h => by rw [fillPii, fillFields_of_noPii fields h]
  | .null, _ | .bool _, _ | .int _, _ | .float _, _ | .str _, _ | .notText, _ => by
    simp only [fillPii]

theorem fillItems_of_noPii : ∀ items : List Json, NoPiiItems items → fillItems filler items = items
  | [], _ => rfl
  | j :: items, h => by rw [fillItems, fillPii_of_noPii j h.1, fillItems_of_noPii items h.2]

theorem fillFields_of_noPii :
    ∀ fields : JsonObject, NoPiiFields fields → fillFields filler fields = fields
  | [], _ => rfl
  | (k, j) :: fields, h => by
    rw [fillFields, if_neg h.1, fillPii_of_noPii j h.2.1, fillFields_of_noPii fields h.2.2]

end

mutual

/-- Where there is PII, what it is filled with can be seen. -/
theorem noPii_of_fillPii_eq (hne : filler ≠ filler') :
    ∀ j : Json, fillPii filler j = fillPii filler' j → NoPii j
  | .arr items, h => by
    rw [fillPii, fillPii] at h
    exact noPii_of_fillItems_eq hne items (Json.arr.inj h)
  | .obj fields, h => by
    rw [fillPii, fillPii] at h
    exact noPii_of_fillFields_eq hne fields (Json.obj.inj h)
  | .null, _ | .bool _, _ | .int _, _ | .float _, _ | .str _, _ | .notText, _ => by
    simp only [NoPii]

theorem noPii_of_fillItems_eq (hne : filler ≠ filler') :
    ∀ items : List Json, fillItems filler items = fillItems filler' items → NoPiiItems items
  | [], _ => trivial
  | j :: items, h => by
    obtain ⟨hj, hitems⟩ := List.cons.inj h
    exact ⟨noPii_of_fillPii_eq hne j hj, noPii_of_fillItems_eq hne items hitems⟩

theorem noPii_of_fillFields_eq (hne : filler ≠ filler') :
    ∀ fields : JsonObject, fillFields filler fields = fillFields filler' fields → NoPiiFields fields
  | [], _ => trivial
  | (k, j) :: fields, h => by
    obtain ⟨hf, hfields⟩ := List.cons.inj h
    have hvalue := (Prod.mk.inj hf).2
    split_ifs at hvalue with hk
    · exact absurd hvalue hne
    · exact ⟨hk, noPii_of_fillPii_eq hne j hvalue, noPii_of_fillFields_eq hne fields hfields⟩

end

/-- A value without PII is the only one that differs in PII only. -/
theorem eq_of_sameButPii (h : NoPii j) (hsame : SameButPii j j') : j = j' := by
  have hnull : fillPii .null j' = j := by rw [← hsame, fillPii_of_noPii j h]
  have htrue : fillPii (.bool true) j' = j := by
    have hfill : fillPii (.bool true) (fillPii .null j') = fillPii (.bool true) j' :=
      fillPii_fillPii j'
    rw [← hfill, hnull, fillPii_of_noPii j h]
  have hne : Json.null ≠ .bool true := nofun
  rw [← hnull, fillPii_of_noPii j' (noPii_of_fillPii_eq hne j' (hnull.trans htrue.symm))]

/-! ### The payload itself -/

theorem redactFields_congr (htop : ∀ f ∈ fields, f.1 ∉ piiKeys → NoPii f.2)
    (h : fillFields .null fields = fillFields .null fields') :
    redactFields fields = redactFields fields' := by
  induction fields generalizing fields' with
  | nil =>
    rcases fields' with _ | ⟨⟨k, j⟩, fields'⟩
    · rfl
    · cases h
  | cons f fields ih =>
    obtain ⟨k, j⟩ := f
    obtain ⟨hfirst, hrest⟩ := List.forall_mem_cons.1 htop
    rcases fields' with _ | ⟨⟨k', j'⟩, fields'⟩
    · cases h
    obtain ⟨hf, hfields⟩ := List.cons.inj h
    obtain ⟨rfl, hvalue⟩ := Prod.mk.inj hf
    rw [redactFields, redactFields, List.map_cons, List.map_cons, ← redactFields, ← redactFields,
      ih hrest hfields]
    by_cases hk : k ∈ piiKeys
    · rw [if_pos hk, if_pos hk]
    · rw [if_neg hk, if_neg hk] at hvalue
      obtain rfl := eq_of_sameButPii (hfirst hk) hvalue
      rfl

/-- Values that are not under a PII key are returned as they are. -/
theorem noPii_of_redactFields_eq (h : redactFields (fillFields .null fields) =
    redactFields (fillFields (.bool true) fields)) : ∀ f ∈ fields, f.1 ∉ piiKeys → NoPii f.2 := by
  intro f hf hk
  rw [redactFields, redactFields, fillFields_eq, fillFields_eq, List.map_map, List.map_map,
    List.map_inj_left] at h
  have hvalue := h f hf
  simp only [Function.comp_apply, if_neg hk, Prod.mk.injEq, true_and] at hvalue
  have hne : Json.null ≠ .bool true := nofun
  exact noPii_of_fillPii_eq hne f.2 hvalue

theorem fillFields_redactFields :
    fillFields filler (redactFields fields) = fillFields filler fields := by
  rw [fillFields_eq, fillFields_eq, redactFields, List.map_map]
  refine List.map_congr_left fun f _ => ?_
  by_cases hk : f.1 ∈ piiKeys
  · simp [hk]
  · simp [hk]

/-- Redaction changes nothing outside the PII. -/
theorem exists_redactEventPayload (j : Json) (principal : Option ApiKeyPrincipal) :
    ∃ out, redactEventPayload (.json j) principal = .json out ∧ SameButPii j out := by
  by_cases hobj : ∃ fields, j = .obj fields
  · obtain ⟨fields, rfl⟩ := hobj
    rw [redactEventPayload]
    split_ifs
    · exact ⟨_, rfl, rfl⟩
    · refine ⟨_, rfl, ?_⟩
      rw [SameButPii, fillPii, fillPii, fillFields_redactFields]
  · refine ⟨j, ?_, rfl⟩
    rw [redactEventPayload.eq_def]
    split
    · rename_i fields heq
      exact absurd ⟨fields, SqlValue.json.inj heq⟩ hobj
    · rfl

/-- What a principal without the right sees of a payload that is no object is all of it. -/
theorem redactEventPayload_of_not_obj {principal : Option ApiKeyPrincipal}
    (hobj : ∀ fields, j ≠ .obj fields) : redactEventPayload (.json j) principal = .json j := by
  rw [redactEventPayload.eq_def]
  split
  · rename_i fields heq
    exact absurd (SqlValue.json.inj heq) (hobj fields)
  · rfl

theorem redactEventPayload_obj {principal : Option ApiKeyPrincipal} (h : seesPii principal = false) :
    redactEventPayload (.json (.obj fields)) principal = .json (.obj (redactFields fields)) := by
  rw [redactEventPayload, h, if_neg Bool.false_ne_true]

/-- Payloads that differ in PII only look the same to the principals that may not see it, and what
    is outside it is returned unchanged, if and only if all PII keys are keys of the payload itself. -/
theorem hides_iff (j : Json) : Hides j ↔ PiiOnTop j := by
  constructor
  · intro h
    obtain ⟨hsame, -⟩ := h none rfl
    -- Two payloads that differ from this one in PII only.
    have hnull := hsame (fillPii .null j) (fillPii_fillPii j).symm
    have htrue := hsame (fillPii (.bool true) j) (fillPii_fillPii j).symm
    have heq := hnull.symm.trans htrue
    have hne : Json.null ≠ .bool true := nofun
    cases j with
    | obj fields =>
      rw [fillPii, fillPii, redactEventPayload_obj rfl, redactEventPayload_obj rfl] at heq
      exact noPii_of_redactFields_eq (Json.obj.inj (SqlValue.json.inj heq))
    | arr items =>
      rw [fillPii, fillPii, redactEventPayload_of_not_obj fun _ h => Json.noConfusion h,
        redactEventPayload_of_not_obj fun _ h => Json.noConfusion h] at heq
      exact noPii_of_fillItems_eq hne items (Json.arr.inj (SqlValue.json.inj heq))
    | null | bool | int | float | str | notText => exact trivial
  · intro h principal hprincipal
    refine ⟨fun j' hsame => ?_, exists_redactEventPayload j principal⟩
    by_cases hobj : ∃ fields, j = .obj fields
    · obtain ⟨fields, rfl⟩ := hobj
      rcases j' with _ | _ | _ | _ | _ | _ | _ | fields' <;>
        simp only [SameButPii, fillPii, reduceCtorEq] at hsame
      rw [redactEventPayload_obj hprincipal, redactEventPayload_obj hprincipal,
        redactFields_congr h (Json.obj.inj hsame)]
    · have hno : NoPii j := by
        rcases j with _ | _ | _ | _ | _ | _ | _ | fields
        case obj => exact absurd ⟨fields, rfl⟩ hobj
        all_goals exact h
      rw [eq_of_sameButPii hno hsame]

/-- The parties of an agreement, each with its name. -/
def partiesPayload : Json := .obj [("parties", .arr [.obj [("counterparty_name", .str "A")]])]

/-- The name of a party is returned to everyone. -/
theorem not_hides_parties : ¬∀ j, Hides j := by
  intro h
  have hsame := (h partiesPayload none rfl).1 (fillPii .null partiesPayload)
    (fillPii_fillPii partiesPayload).symm
  simp [partiesPayload, redactEventPayload, redactFields, fillPii, fillFields, fillItems, piiKeys,
    seesPii] at hsame

end AslanCore.Research
