import AslanCore.Json.Locations
import AslanCore.Streams.Redact

/-!
# The locations that are redacted

`redact_outbox_payload` reads every component of a path as an integer, if it can, before it knows the
container that the component is for. Is the marker written at exactly the locations that the paths
address?

* `redactOutboxPayload_eq_mark`: it is written at the locations that the paths address in the sense
  of the code (`Reads`), whatever the order of the paths;
* `redactsAddressed_iff`: these are the addressed ones (`Selects`) if and only if no location of the
  payload is addressed in one sense only, other than below one that is addressed in both.
-/

namespace AslanCore.Streams

/-- The index that decimal digits denote. -/
def decimalIndex (component : String) : Option ℕ :=
  if component.toList ≠ [] ∧ component.toList.all Char.isDigit then
    some (Nat.ofDigitChars 10 component.toList 0)
  else none

/-- A component selects the field of that name in an object, and the item of that decimal index in
    an array. -/
def Selects (component : String) : Step → Prop
  | .key k => component = k
  | .item i => decimalIndex component = some i

/-- What `_redact_path` takes a component for. -/
def Reads (component : String) : Step → Prop
  | .key k => intOf component = none ∧ component = k
  | .item i => intOf component = some (i : ℤ)

/-- The locations that a path of components addresses. -/
def addressed (selects : String → Step → Prop) (parts : List String) : Set Location :=
  {p | List.Forall₂ selects parts p}

/-- The locations that dotted paths address. -/
def addressedBy (selects : String → Step → Prop) (paths : List String) : Set Location :=
  {p | ∃ path ∈ paths, p ∈ addressed selects (splitDots path)}

/-- The marker is written at exactly the addressed locations. -/
structure RedactsAddressed (payload : Json) (paths : List String) : Prop where
  marked : redactOutboxPayload payload paths =
    Json.mark (.str marker) payload (addressedBy Selects paths)
  /-- Paths that address nothing change nothing. -/
  unaddressed : (∀ p u, Json.At u payload p → p ∉ addressedBy Selects paths) →
    redactOutboxPayload payload paths = payload
  /-- Neither the order of the paths matters nor their repetition. -/
  unordered : ∀ paths', (∀ path, path ∈ paths' ↔ path ∈ paths) →
    redactOutboxPayload payload paths' = redactOutboxPayload payload paths

variable {payload : Json} {parts paths paths' : List String} {head path : String}
  {rest : List String} {selects : String → Step → Prop} {s : Step}

theorem nil_notMem_addressed (h : parts ≠ []) : [] ∉ addressed selects parts :=
  fun hnil => h (List.forall₂_nil_right_iff.1 hnil)

theorem splitDots_ne_nil (path : String) : splitDots path ≠ [] := by
  rw [splitDots, ne_eq, List.map_eq_nil_iff]
  exact List.splitOn_ne_nil _ _

/-- What a path leaves of a value below its first step. -/
def redactRest (rest : List String) (j : Json) : Json :=
  if rest = [] then .str marker else redactPath rest j

theorem isLeaf_marker : (Json.str marker).IsLeaf := trivial

/-- What is addressed goes on from a step that the first component selects. -/
theorem after_addressed_cons (h : selects head s) :
    after s (addressed selects (head :: rest)) = addressed selects rest :=
  Set.ext fun _ => List.forall₂_cons.trans (and_iff_right h)

theorem after_addressed_cons_of_not (h : ¬selects head s) :
    after s (addressed selects (head :: rest)) = ∅ :=
  Set.eq_empty_of_forall_notMem fun _ hp => h (List.forall₂_cons.1 hp).1

/-- What a path does below the step that its first component is read as. -/
theorem mark_after_of_reads {j : Json} (h : Reads head s)
    (ih : rest ≠ [] → redactPath rest j = Json.mark (.str marker) j (addressed Reads rest)) :
    Json.mark (.str marker) j (after s (addressed Reads (head :: rest))) =
      redactRest rest j := by
  rw [after_addressed_cons h, redactRest]
  split_ifs with hrest
  · rw [hrest]
    have hnil : [] ∈ addressed Reads [] := List.Forall₂.nil
    exact Json.mark_of_mem hnil
  · exact (ih hrest).symm

theorem mark_after_of_not {j : Json} (h : ¬Reads head s) :
    Json.mark (.str marker) j (after s (addressed Reads (head :: rest))) = j := by
  rw [after_addressed_cons_of_not h, Json.mark_empty]

/-- The items of an array, after a path. -/
theorem redactPath_arr (head : String) (rest : List String) (items : List Json) :
    ∃ items', redactPath (head :: rest) (.arr items) = .arr items' ∧ ∀ n : ℕ, items'[n]? = items[n]?.map fun j =>
      if intOf head = some (n : ℤ) then redactRest rest j else j := by
  have hsame : ∀ n : ℕ, (∀ j, items[n]? = some j → intOf head ≠ some (n : ℤ)) →
      items[n]? = items[n]?.map fun j =>
        if intOf head = some (n : ℤ) then redactRest rest j else j := by
    intro n h
    rcases hj : items[n]? with _ | j
    · rfl
    · exact congrArg some (if_neg (h j hj)).symm
  rw [redactPath]
  rcases hint : intOf head with _ | i
  · exact ⟨items, rfl, fun n => hint ▸ hsame n (by simp [hint])⟩
  · dsimp only
    by_cases hi : 0 ≤ i ∧ i < items.length
    · rw [if_pos hi]
      refine ⟨_, rfl, fun n => ?_⟩
      rw [List.getElem?_modify, Option.map_eq_map]
      refine Option.map_congr fun j _ => ?_
      have hn : i.toNat = n ↔ some i = some (n : ℤ) := by
        rw [Option.some.injEq]
        omega
      simp only [hn, redactRest]
    · rw [if_neg hi]
      refine ⟨items, rfl, fun n => hint ▸ hsame n fun j hj heq => hi ?_⟩
      obtain ⟨hn, -⟩ := List.getElem?_eq_some_iff.1 hj
      rw [hint, Option.some.injEq] at heq
      omega

/-- The fields of an object, after a path. -/
theorem redactPath_obj (fields : JsonObject) : redactPath (head :: rest) (.obj fields) =
    .obj (fields.map fun f => if intOf head = none ∧ f.1 = head then
      (f.1, redactRest rest f.2) else f) := by
  rw [redactPath]
  rcases hint : intOf head with _ | i
  · simp only [true_and, redactRest]
  · simp only [reduceCtorEq, false_and, if_false, List.map_id']

/-- A path writes the marker at what it addresses in the sense of the code. -/
theorem redactPath_eq_mark (hparts : parts ≠ []) (j : Json) :
    redactPath parts j = Json.mark (.str marker) j (addressed Reads parts) := by
  induction parts generalizing j with
  | nil => exact absurd rfl hparts
  | cons head rest ih =>
    have hroot : [] ∉ addressed Reads (head :: rest) := nil_notMem_addressed hparts
    rcases Json.isLeaf_or j with hj | ⟨items, rfl⟩ | ⟨fields, rfl⟩
    · rw [Json.mark_of_isLeaf hj hroot]
      cases j with
      | arr | obj => exact hj.elim
      | _ => rfl
    · obtain ⟨items', hitems', hget⟩ := redactPath_arr head rest items
      rw [hitems', Json.mark_arr hroot, Json.arr.injEq]
      refine List.ext_getElem? fun n => ?_
      rw [hget, getElem?_markItems, Nat.zero_add]
      refine Option.map_congr fun j _ => ?_
      split_ifs with hread
      · exact (mark_after_of_reads (s := .item n) hread (ih · j)).symm
      · exact (mark_after_of_not (s := .item n) hread).symm
    · rw [redactPath_obj, Json.mark_obj hroot, markFields_eq_map, Json.obj.injEq]
      refine List.map_congr_left fun f _ => ?_
      split_ifs with hread
      · refine Prod.ext rfl (mark_after_of_reads ?_ (ih · f.2)).symm
        exact ⟨hread.1, hread.2.symm⟩
      · refine Prod.ext rfl (mark_after_of_not fun h => hread ?_).symm
        exact ⟨h.1, h.2.symm⟩

theorem addressedBy_cons : addressedBy selects (path :: paths) =
    addressed selects (splitDots path) ∪ addressedBy selects paths :=
  Set.ext fun _ => by simp only [addressedBy, List.mem_cons, exists_eq_or_imp]; rfl

theorem addressedBy_congr (h : ∀ path, path ∈ paths' ↔ path ∈ paths) :
    addressedBy selects paths' = addressedBy selects paths :=
  Set.ext fun _ => exists_congr fun path => and_congr_left fun _ => h path

/-- The markers are written at what the paths address in the sense of the code. -/
theorem redactOutboxPayload_eq_mark (payload : Json) (paths : List String) :
    redactOutboxPayload payload paths =
      Json.mark (.str marker) payload (addressedBy Reads paths) := by
  induction paths generalizing payload with
  | nil =>
    have hempty : addressedBy Reads [] = ∅ :=
      Set.eq_empty_of_forall_notMem fun p ⟨_, hmem, _⟩ => List.not_mem_nil hmem
    rw [hempty, Json.mark_empty]
    rfl
  | cons path paths ih =>
    rw [redactOutboxPayload, List.foldl_cons, ← redactOutboxPayload, ih,
      redactPath_eq_mark (splitDots_ne_nil path), Json.mark_mark isLeaf_marker, addressedBy_cons]

theorem marked_iff : redactOutboxPayload payload paths =
      Json.mark (.str marker) payload (addressedBy Selects paths) ↔
    Json.SameMarks (.str marker) payload (addressedBy Reads paths) (addressedBy Selects paths) := by
  rw [redactOutboxPayload_eq_mark, Json.mark_eq_mark_iff isLeaf_marker]

/-- The marker is written at exactly the addressed locations if and only if every location of the
    payload is addressed in both senses or in none, holds the marker already, or is below one that is
    addressed in both. -/
theorem redactsAddressed_iff (fields : JsonObject) (paths : List String) :
    RedactsAddressed (.obj fields) paths ↔ ∀ p u, Json.At u (.obj fields) p →
      (p ∈ addressedBy Reads paths ↔ p ∈ addressedBy Selects paths) ∨ u = .str marker ∨
        ∃ q, q <+: p ∧ q ∈ addressedBy Reads paths ∧ q ∈ addressedBy Selects paths := by
  refine ⟨fun h => marked_iff.1 h.marked,
    fun h => ⟨marked_iff.2 h, fun hnone => ?_, fun paths' hmem => ?_⟩⟩
  · rw [marked_iff.2 h, (Json.mark_eq_mark_iff isLeaf_marker).2, Json.mark_empty]
    exact fun p u hu => .inl (iff_of_false (hnone p u hu) (Set.notMem_empty p))
  · rw [redactOutboxPayload_eq_mark, redactOutboxPayload_eq_mark, addressedBy_congr hmem]

/-- A field that is named by a year is not redacted. -/
theorem not_redactsAddressed_year :
    ¬RedactsAddressed (.obj [("salaries", .obj [("2024", .int 90000)])]) ["salaries.2024"] := by
  intro h
  have hparts : splitDots "salaries.2024" = ["salaries", "2024"] := by decide +kernel
  have hat : Json.At (.int 90000) (.obj [("salaries", .obj [("2024", .int 90000)])])
      [.key "salaries", .key "2024"] :=
    .key List.mem_cons_self (.key List.mem_cons_self .here)
  have hselects : [.key "salaries", .key "2024"] ∈ addressedBy Selects ["salaries.2024"] := by
    refine ⟨_, List.mem_singleton_self _, ?_⟩
    rw [hparts]
    exact .cons rfl (.cons rfl .nil)
  have hreads : [.key "salaries", .key "2024"] ∉ addressedBy Reads ["salaries.2024"] := by
    rintro ⟨path, hpath, hp⟩
    rw [List.mem_singleton.1 hpath, hparts] at hp
    obtain ⟨hint, -⟩ := (List.forall₂_cons.1 (List.forall₂_cons.1 hp).2).1
    exact absurd hint (by decide +kernel)
  rcases marked_iff.1 h.marked _ _ hat with hiff | hmarker | ⟨q, hq, ⟨path, hpath, hmem⟩, -⟩
  · exact hreads (hiff.2 hselects)
  · cases hmarker
  · -- All locations that are addressed are of one length.
    rw [List.mem_singleton.1 hpath] at hmem
    have hlength := hmem.length_eq
    rw [hparts] at hlength
    obtain rfl := hq.eq_of_length hlength.symm
    exact hreads ⟨_, List.mem_singleton_self _, hmem⟩

end AslanCore.Streams
