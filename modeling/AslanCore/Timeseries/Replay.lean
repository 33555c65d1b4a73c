import AslanCore.Timeseries.Catalog

/-!
# Replaying the audit events of a series

Every call that writes a row records an event, with the fields as they were before and after
it. To replay the events of a series is to lay the `after` of each over what there was, from the
first to the last (`replay`); a column that no event has is taken to be `NULL`.

* `Shows`: an image has what the columns of a row have;
* `Replayable`: a step whose event shows its row. The event of an insertion has nine of the
  columns, none has `entity_id`, and `before` is the row as the call read it;
* `replays_of_reachable`: in a run of such steps the events of a series can be replayed, and
  every update shows the rows before and after it.
-/

namespace AslanCore.Timeseries

/-- What an image has under a key. -/
def Image.get (k : String) : Image → ImageValue
  | [] => .null
  | (k', v) :: image => if k' = k then v else Image.get k image

/-- The columns of a row. -/
def columns (row : SeriesFields Jsonb) : Image :=
  [("source_id", .text row.sourceId),
    ("entity_id", .ofUuid row.entityId),
    ("metric", .text row.metric),
    ("frequency", .text row.frequency.text),
    ("unit", .text row.unit),
    ("currency_code", .ofText row.currencyCode),
    ("restatement_basis", .text row.restatementBasis.text),
    ("accounting_standard", .ofText row.accountingStandard),
    ("consolidation", .ofText row.consolidation),
    ("period_type", .ofText row.periodType),
    ("description", .ofText row.description),
    ("pii_class", .text row.piiClass.text),
    ("metadata", .json row.metadata)]

/-- An image has what the columns of a row have. -/
def Shows (image : Image) (row : SeriesFields Jsonb) : Prop :=
  ∀ f ∈ columns row, image.get f.1 = f.2

/-- The `after` of an event over what there was. -/
def Image.over (image : Image) (e : SeriesEvent) : Image :=
  match e.operation with
  | .upsert | .update => image.overlay (e.after.getD [])
  | .idempotentHit => image

/-- What the events of a series, in their order, say of it. -/
def replay (events : List SeriesEvent) : Image := events.foldl Image.over []

/-- The events of a series that are committed. -/
def Catalog.committedEvents (c : Catalog) (seriesId : ℤ) : List SeriesEvent :=
  c.store.events.filter fun e => e.targetPk = seriesId ∧ e.tx = none

/-- The committed events of every series that is committed can be replayed. -/
def Replays (c : Catalog) : Prop :=
  ∀ code row, c.committed code = some row →
    Shows (replay (c.committedEvents row.seriesId)) row.toSeriesFields

/-- The event of an update shows the row of its series before and after a step: it differs
    between the two in the columns that are changed, and in no others. -/
structure ShowsUpdate (c c' : Catalog) (e : SeriesEvent) (code : String) (row row' : SeriesRow) :
    Prop where
  before : c.store.series code = some row
  after : c'.store.series code = some row'
  targetPk : row.seriesId = e.targetPk
  showsBefore : ∃ image, e.before = some image ∧ Shows image row.toSeriesFields
  showsAfter : ∃ image, e.after = some image ∧ Shows image row'.toSeriesFields
  differs : ∀ f ∈ columns row.toSeriesFields, ∀ before ∈ e.before, ∀ after ∈ e.after,
    before.get f.1 ≠ after.get f.1 ↔ (columns row'.toSeriesFields).get f.1 ≠ f.2

/-- A step whose event shows its row: an insertion leaves the columns empty that are not in its
    event, and an update the entity, its currency fits the column, and the row is still as the
    call read it. -/
def Replayable (c : Catalog) : Action → Prop
  | .insert x => ∀ p, c.phase x = some p → c.store.series p.call.seriesCode = none →
      p.call.entityId = none ∧ p.call.currencyCode = none ∧ p.call.accountingStandard = none ∧
      p.call.consolidation = none ∧ p.call.periodType = none ∧ p.call.description = none
  | .reconcile x => ∀ caller call existing, c.phase x = some (.reconcile caller call existing) →
      sameFields existing call.fields = false →
      call.entityId = none ∧ (∀ s ∈ call.currencyCode, char3 s = some s) ∧
      ∀ row, c.store.series call.seriesCode = some row →
        row.toSeriesFields = existing.toSeriesFields
  | _ => True

variable {env : SeriesEnv} {c c' : Catalog} {a : Action} {x : ℕ} {code k k' : String}
  {row : SeriesRow} {image : Image} {v : ImageValue} {events : List SeriesEvent} {e : SeriesEvent}

/-! ### Images -/

theorem Image.get_set : (image.set k v).get k' = if k = k' then v else image.get k' := by
  induction image with
  | nil => rfl
  | cons f image ih =>
    obtain ⟨k₁, v₁⟩ := f
    rw [Image.set]
    split_ifs with hk₁ hk hk
    · rw [Image.get, if_pos hk]
    · rw [Image.get, Image.get, if_neg hk, hk₁, if_neg hk]
    · rw [Image.get, ih, if_pos hk, if_neg fun hk' => hk₁ (hk'.trans hk.symm)]
    · rw [Image.get, Image.get, ih, if_neg hk]

@[simp]
theorem Image.get_nil : Image.get k [] = .null := rfl

@[simp]
theorem Image.get_cons_self : Image.get k ((k, v) :: image) = v := if_pos rfl

@[simp]
theorem Image.get_cons_of_ne (h : k' ≠ k) : Image.get k ((k', v) :: image) = image.get k :=
  if_neg h

@[simp]
theorem Image.get_set_self : (image.set k v).get k = v := by
  rw [Image.get_set, if_pos rfl]

@[simp]
theorem Image.get_set_of_ne (h : k ≠ k') : (image.set k v).get k' = image.get k' := by
  rw [Image.get_set, if_neg h]

@[simp]
theorem Image.overlay_nil : image.overlay [] = image := rfl

@[simp]
theorem Image.overlay_cons {f : String × ImageValue} {new : List (String × ImageValue)} :
    image.overlay (f :: new) = (image.set f.1 f.2).overlay new := rfl

/-! ### The payloads -/

theorem shows_beforePayload {existing : SeriesRow} (h : existing.entityId = none) :
    Shows (beforePayload existing code) existing.toSeriesFields := by
  simp [Shows, columns, beforePayload, h, ImageValue.ofUuid]

/-- The fields of a call are those that are stored, where the column returns the currency. -/
theorem withMetadata_of_storeFields {call : SeriesCall} {stored : SeriesFields Jsonb}
    (h : storeFields call.fields = .ok stored) (hfits : ∀ s ∈ call.currencyCode, char3 s = some s) :
    call.fields.withMetadata stored.metadata = stored := by
  obtain ⟨j, -, -, rfl⟩ := storeFields_eq_ok h
  have hcurrency : (call.currencyCode.map char3).join = call.currencyCode := by
    cases hs : call.currencyCode with
    | none => rfl
    | some s => exact hfits s hs
  simp only [SeriesFields.withMetadata, SeriesFields.mk.injEq, true_and, and_true]
  exact hcurrency.symm

/-- What an update lays over an image is the row, but for the entity. -/
theorem shows_overlay_afterPayload {existing : SeriesRow} {stored : SeriesFields Jsonb}
    (himage : image.get "entity_id" = .null) (h : stored.entityId = none) :
    Shows (image.overlay (afterPayload (beforePayload existing code) stored)) stored := by
  simp [Shows, columns, afterPayload, beforePayload, Image.set, himage, h,
    ImageValue.ofUuid]

theorem shows_afterPayload {existing : SeriesRow} {stored : SeriesFields Jsonb}
    (h : stored.entityId = none) :
    Shows (afterPayload (beforePayload existing code) stored) stored := by
  simp [Shows, columns, afterPayload, beforePayload, Image.set, h,
    ImageValue.ofUuid]

theorem shows_overlay_shortPayload {seriesId : ℤ} {stored : SeriesFields Jsonb}
    (hentity : stored.entityId = none) (hcurrency : stored.currencyCode = none)
    (haccounting : stored.accountingStandard = none) (hconsolidation : stored.consolidation = none)
    (hperiod : stored.periodType = none) (hdescription : stored.description = none) :
    Shows (Image.overlay [] (shortPayload seriesId code stored)) stored := by
  simp [Shows, columns, shortPayload, hentity, hcurrency,
    haccounting, hconsolidation, hperiod, hdescription, ImageValue.ofUuid, ImageValue.ofText]

/-! ### Replaying -/

theorem replay_concat : replay (events ++ [e]) = (replay events).over e := by
  rw [replay, List.foldl_append, List.foldl_cons, List.foldl_nil, replay]

theorem over_of_hit (h : e.operation = .idempotentHit) : image.over e = image := by
  rw [Image.over, h]

theorem over_of_write (h : e.operation ≠ .idempotentHit) {after : Image}
    (hafter : e.after = some after) : image.over e = image.overlay after := by
  rw [Image.over]
  split
  · rw [hafter, Option.getD_some]
  · rw [hafter, Option.getD_some]
  · rename_i hhit
    exact absurd hhit h

/-- Hits do not matter: a selection of events is replayed like another one that has the same
    writes. -/
theorem replay_congr {p q : SeriesEvent → Bool} {f : SeriesEvent → SeriesEvent}
    (hf : ∀ e image, Image.over image (f e) = image.over e)
    (hpq : ∀ e ∈ events, e.operation ≠ .idempotentHit → p (f e) = q e) :
    replay ((events.map f).filter p) = replay (events.filter q) := by
  rw [replay, replay]
  generalize ([] : Image) = image
  induction events generalizing image with
  | nil => rfl
  | cons e events ih =>
    have ih := ih fun e he => hpq e (List.mem_cons_of_mem _ he)
    rw [List.map_cons, List.filter_cons, List.filter_cons]
    by_cases hhit : e.operation = .idempotentHit
    · split_ifs <;> simpa only [List.foldl_cons, hf, over_of_hit hhit] using ih image
    · rw [hpq e List.mem_cons_self hhit]
      split_ifs <;> simpa only [List.foldl_cons, hf] using ih _

/-- A selection without writes says nothing. -/
theorem replay_eq_nil (h : ∀ e ∈ events, e.operation = .idempotentHit) : replay events = [] := by
  induction events using List.reverseRecOn with
  | nil => rfl
  | append_singleton events e ih =>
    rw [replay_concat, over_of_hit (h e (List.mem_append_right _ (List.mem_singleton.2 rfl)))]
    exact ih fun e he => h e (List.mem_append_left _ he)

/-! ### The events of a catalog -/

/-- The events of a series, those that are not committed included. -/
def Catalog.newestEvents (c : Catalog) (seriesId : ℤ) : List SeriesEvent :=
  c.store.events.filter fun e => e.targetPk = seriesId

/-- The events of the newest rows and of the committed ones can be replayed, and what a writer
    has written of a series it holds. -/
structure Replayed (c : Catalog) : Prop where
  newest : ∀ {code row}, c.store.series code = some row → row.entityId = none ∧
    Shows (replay (c.newestEvents row.seriesId)) row.toSeriesFields
  committed : ∀ {code row}, c.committed code = some row → row.entityId = none ∧
    Shows (replay (c.committedEvents row.seriesId)) row.toSeriesFields
  origin : ∀ e ∈ c.store.events, e.operation ≠ .idempotentHit →
    ∃ code row, c.store.series code = some row ∧ row.seriesId = e.targetPk ∧
      (e.tx = none → c.committed code ≠ none) ∧ ∀ x, e.tx = some x → c.owner code = some x

/-- Two rows are shown by events with the same writes. -/
theorem shows_congr {fields : SeriesFields Jsonb} {events events' : List SeriesEvent}
    (h : fields.entityId = none ∧ Shows (replay events) fields) (heq : replay events' = replay events) :
    fields.entityId = none ∧ Shows (replay events') fields :=
  ⟨h.1, heq ▸ h.2⟩

theorem replay_filter_concat {p : SeriesEvent → Bool} (h : p e = true → e.operation = .idempotentHit) :
    replay ((events ++ [e]).filter p) = replay (events.filter p) := by
  rw [List.filter_append, List.filter_cons, List.filter_nil]
  split_ifs with hp
  · rw [replay_concat, over_of_hit (h hp)]
  · rw [List.append_nil]

theorem Replayed.hit (h : Replayed c) (hcommitted : c'.committed = c.committed)
    (hseries : c'.store.series = c.store.series) (howner : c'.owner = c.owner)
    (hevents : c'.store.events = c.store.events ++ [e]) (hhit : e.operation = .idempotentHit) :
    Replayed c' := by
  refine ⟨fun hrow => ?_, fun hrow => ?_, fun e' he' hwrite => ?_⟩
  · refine shows_congr (h.newest (hseries ▸ hrow)) ?_
    rw [Catalog.newestEvents, hevents]
    exact replay_filter_concat fun _ => hhit
  · refine shows_congr (h.committed (hcommitted ▸ hrow)) ?_
    rw [Catalog.committedEvents, hevents]
    exact replay_filter_concat fun _ => hhit
  · rw [hevents] at he'
    rcases List.mem_append.1 he' with he' | he'
    · rw [hseries, hcommitted, howner]
      exact h.origin e' he' hwrite
    · rw [List.mem_singleton.1 he'] at hwrite
      exact absurd hhit hwrite

/-- The number of a row that is written is that of the row it takes the place of. -/
theorem Store.Written.number_of_some {st st' : Store} {row₀ : SeriesRow}
    (hw : Store.Written code row st st') (hrow₀ : st.series code = some row₀) :
    row.seriesId = row₀.seriesId := by
  rcases hw.number with ⟨hnone, _⟩ | ⟨row₁, hrow₁, hid, _⟩
  · rw [hnone] at hrow₀
    cases hrow₀
  · rw [hid, Option.some.inj (hrow₁.symm.trans hrow₀)]

theorem Replayed.wrote {caller : Caller} {call : SeriesCall} (h : Replayed c) (hsound : Sound c)
    (hw : Wrote env x caller call row c c')
    (hshows : ∀ e, Recorded c x caller call row e → row.entityId = none ∧
      Shows ((replay (c.newestEvents row.seriesId)).over e) row.toSeriesFields) :
    Replayed c' := by
  obtain ⟨e, hevents, hpk, htx, hrecorded⟩ := hw.event
  have hsound' := hsound.keyed.written hw.written
  refine ⟨fun {code' row'} hrow' => ?_, fun hrow' => ?_, fun e' he' hwrite => ?_⟩
  · by_cases hcode : code' = call.seriesCode
    · subst hcode
      obtain rfl := Option.some.inj (hw.written.series_self.symm.trans hrow')
      refine (hshows e hrecorded).imp_right fun hrow => ?_
      rwa [Catalog.newestEvents, hevents, List.filter_append, List.filter_cons,
        if_pos (decide_eq_true hpk), List.filter_nil, replay_concat]
    · refine shows_congr (h.newest ((hw.written.series_of_ne hcode).symm.trans hrow')) ?_
      rw [Catalog.newestEvents, hevents]
      refine replay_filter_concat fun hpk' => ?_
      have hid := (of_decide_eq_true hpk').symm.trans hpk
      exact absurd (hsound'.unique hrow' hw.written.series_self hid) hcode
  · refine shows_congr (h.committed (hw.committed ▸ hrow')) ?_
    rw [Catalog.committedEvents, hevents]
    refine replay_filter_concat fun hnone => ?_
    rw [htx] at hnone
    cases (of_decide_eq_true hnone).2
  · rw [hevents] at he'
    rcases List.mem_append.1 he' with he' | he'
    · obtain ⟨code', row', hrow', hid, hcommitted, howner⟩ := h.origin e' he' hwrite
      rw [hw.committed, hw.owner]
      by_cases hcode : code' = call.seriesCode
      · subst hcode
        refine ⟨_, row, hw.written.series_self, (hw.written.number_of_some hrow').trans hid,
          hcommitted, fun y hy => ?_⟩
        rw [Function.update_self]
        rcases hw.freeRow with hfree | hfree
        · rw [howner y hy] at hfree
          cases hfree
        · rw [← howner y hy, hfree]
      · refine ⟨code', row', (hw.written.series_of_ne hcode).trans hrow', hid, hcommitted, ?_⟩
        rwa [Function.update_of_ne hcode]
    · obtain rfl := List.mem_singleton.1 he'
      refine ⟨_, row, hw.written.series_self, hpk.symm, fun hnone => ?_, fun y hy => ?_⟩
      · rw [htx] at hnone
        cases hnone
      · rw [hw.owner, Function.update_self, ← htx, hy]

/-- The series of a write has one code. -/
theorem Replayed.origin_unique (h : Replayed c) (hsound : Sound c) (he : e ∈ c.store.events)
    (hwrite : e.operation ≠ .idempotentHit) (hrow : c.store.series code = some row)
    (hpk : e.targetPk = row.seriesId) : ∀ x, e.tx = some x → c.owner code = some x := by
  obtain ⟨code', row', hrow', hid, -, howner⟩ := h.origin e he hwrite
  obtain rfl := hsound.keyed.unique hrow' hrow (hid.trans hpk)
  exact howner

theorem Replayed.commit (h : Replayed c) (hsound : Sound c) : Replayed (c.commit x) := by
  have hover : ∀ (e : SeriesEvent) image,
      Image.over image { e with tx := Catalog.closeTx x e.tx } = image.over e := fun _ _ => rfl
  refine ⟨fun hrow => ?_, fun {code row} hrow => ?_, fun e' he' hwrite => ?_⟩
  · exact shows_congr (h.newest hrow) (replay_congr hover fun _ _ _ => rfl)
  · simp only [Catalog.commit, Catalog.visible] at hrow
    split_ifs at hrow with howner
    · -- All that was written of the series was written by `x`, or is committed.
      refine shows_congr (h.newest hrow) (replay_congr hover fun e he hwrite => ?_)
      refine decide_eq_decide.2 (and_iff_left_of_imp fun hpk => ?_)
      rw [Catalog.closeTx_eq_none_iff]
      cases htx : e.tx with
      | none => exact .inl rfl
      | some y =>
        exact .inr ((h.origin_unique hsound he hwrite hrow hpk y htx).symm.trans howner)
    · -- Nothing was written of the series by `x`.
      obtain ⟨row', hrow', hid⟩ := hsound.kept hrow
      refine shows_congr (h.committed hrow) (replay_congr hover fun e he hwrite => ?_)
      refine decide_eq_decide.2 (and_congr_right fun hpk => ?_)
      rw [Catalog.closeTx_eq_none_iff]
      refine or_iff_left fun htx => howner ?_
      exact h.origin_unique hsound he hwrite hrow' (hpk.trans hid.symm) x htx
  · obtain ⟨e, he, rfl⟩ := List.mem_map.1 he'
    obtain ⟨code, row, hrow, hid, hcommitted, howner⟩ := h.origin e he hwrite
    refine ⟨code, row, hrow, hid, fun hnone => ?_, fun y hy => ?_⟩
    · simp only [Catalog.commit, Catalog.visible]
      split_ifs with hx
      · rw [hrow]
        exact Option.some_ne_none row
      · rcases Catalog.closeTx_eq_none_iff.1 hnone with htx | htx
        · exact hcommitted htx
        · exact absurd (howner x htx) hx
    · obtain ⟨hy, hyx⟩ := Catalog.closeTx_eq_some_iff.1 hy
      exact Catalog.closeTx_eq_some_iff.2 ⟨howner y hy, hyx⟩

theorem replay_filter_congr {p q : SeriesEvent → Bool}
    (hpq : ∀ e ∈ events, e.operation ≠ .idempotentHit → p e = q e) :
    replay (events.filter p) = replay (events.filter q) := by
  have hcongr := replay_congr (f := id) (fun _ _ => rfl) hpq
  rwa [List.map_id] at hcongr

theorem Replayed.abort (h : Replayed c) (hsound : Sound c) : Replayed (c.abort x) := by
  refine ⟨fun {code row} hrow => ?_, fun {code row} hrow => ?_, fun e he' hwrite => ?_⟩
  · simp only [Catalog.abort] at hrow
    split_ifs at hrow with howner
    · -- What is left of the series is what is committed.
      obtain ⟨row', hrow', hid⟩ := hsound.kept hrow
      refine shows_congr (h.committed hrow) ?_
      rw [Catalog.newestEvents, Catalog.abort, List.filter_filter, Catalog.committedEvents]
      refine replay_filter_congr fun e he hwrite => ?_
      rw [← Bool.decide_and]
      refine decide_eq_decide.2 (and_congr_right fun hpk => ⟨fun hne => ?_, fun htx => ?_⟩)
      · cases htx : e.tx with
        | none => rfl
        | some y =>
          have hy := h.origin_unique hsound he hwrite hrow' (hpk.trans hid.symm) y htx
          exact absurd (htx.trans (hy.symm.trans howner)) hne
      · rw [htx]
        rintro ⟨⟩
    · -- Nothing was written of the series by `x`.
      refine shows_congr (h.newest hrow) ?_
      rw [Catalog.newestEvents, Catalog.abort, List.filter_filter, Catalog.newestEvents]
      refine replay_filter_congr fun e he hwrite => ?_
      rw [← Bool.decide_and]
      refine decide_eq_decide.2 (and_iff_left_of_imp fun hpk htx => howner ?_)
      exact h.origin_unique hsound he hwrite hrow hpk x htx
  · refine shows_congr (h.committed hrow) ?_
    rw [Catalog.committedEvents, Catalog.abort, List.filter_filter, Catalog.committedEvents]
    refine replay_filter_congr fun e _ _ => ?_
    rw [← Bool.decide_and]
    refine decide_eq_decide.2 (and_iff_left_of_imp fun htx => ?_)
    rw [htx.2]
    rintro ⟨⟩
  · obtain ⟨he, hne⟩ := List.mem_filter.1 he'
    have hne : e.tx ≠ some x := of_decide_eq_true hne
    obtain ⟨code, row, hrow, hid, hcommitted, howner⟩ := h.origin e he hwrite
    by_cases hx : c.owner code = some x
    · have htx : e.tx = none := by
        cases htx : e.tx with
        | none => rfl
        | some y => exact absurd (htx.trans ((howner y htx).symm.trans hx)) hne
      obtain ⟨row', hrow'⟩ := Option.ne_none_iff_exists'.1 (hcommitted htx)
      obtain ⟨row₁, hrow₁, hid₁⟩ := hsound.kept hrow'
      obtain rfl := Option.some.inj (hrow₁.symm.trans hrow)
      refine ⟨code, row', ?_, hid₁.symm.trans hid, hcommitted, fun y hy => ?_⟩
      · simp only [Catalog.abort, if_pos hx, hrow']
      · rw [htx] at hy
        cases hy
    · refine ⟨code, row, ?_, hid, hcommitted, fun y hy => ?_⟩
      · simp only [Catalog.abort, if_neg hx, hrow]
      · refine Catalog.closeTx_eq_some_iff.2 ⟨howner y hy, ?_⟩
        rintro rfl
        exact hne hy

/-! ### Runs -/

section Writes

variable {caller : Caller} {call : SeriesCall}

/-- Nothing is known of a series that is inserted, and its event shows it. -/
theorem shows_of_insert (h : Replayed c) (hsound : Sound c) (hallowed : Replayable c (.insert x))
    (hw : Wrote env x caller call row c c') (habsent : c.store.series call.seriesCode = none)
    (he : Recorded c x caller call row e) :
    row.entityId = none ∧ Shows ((replay (c.newestEvents row.seriesId)).over e) row.toSeriesFields := by
  obtain ⟨p, hp, rfl, rfl⟩ := hw.calls
  obtain ⟨hentity, hcurrency, haccounting, hconsolidation, hperiod, hdescription⟩ :=
    hallowed p hp habsent
  have hfields := withMetadata_of_storeFields hw.encoded fun s hs => by
    rw [hcurrency] at hs
    cases hs
  have hnil : replay (c.newestEvents row.seriesId) = [] := by
    refine replay_eq_nil fun e he => ?_
    by_contra hwrite
    obtain ⟨he, hpk⟩ := List.mem_filter.1 he
    obtain ⟨code, row', hrow', hid, -⟩ := h.origin e he hwrite
    have hlt := hsound.keyed.lt hrow'
    rcases hw.written.number with ⟨_, hnew, _⟩ | ⟨row₀, hrow₀, _⟩
    · rw [hid, of_decide_eq_true hpk, hnew] at hlt
      exact lt_irrefl _ hlt
    · rw [habsent] at hrow₀
      cases hrow₀
  rcases he with ⟨_, hop, hafter⟩ | ⟨_, _, hrow₀, _⟩
  · rw [hfields] at hafter
    rw [hnil, over_of_write (by rw [hop]; exact nofun) hafter, ← hfields]
    exact ⟨hentity, shows_overlay_shortPayload hentity hcurrency haccounting hconsolidation hperiod
      hdescription⟩
  · rw [habsent] at hrow₀
    cases hrow₀

/-- What an update finds, and what it records. -/
theorem shows_of_update (h : Replayed c) (hallowed : Replayable c (.reconcile x))
    (hw : Wrote env x caller call row c c') (hpresent : c.store.series call.seriesCode ≠ none)
    (he : Recorded c x caller call row e) :
    e.operation = .update ∧ ∃ row₀ before after, c.store.series call.seriesCode = some row₀ ∧
      row.seriesId = row₀.seriesId ∧ e.before = some before ∧ e.after = some after ∧
      Shows before row₀.toSeriesFields ∧ Shows after row.toSeriesFields ∧ row.entityId = none ∧
      Shows ((replay (c.newestEvents row.seriesId)).over e) row.toSeriesFields := by
  rcases he with ⟨habsent, _⟩ | ⟨hphase, hsame, hrow₀, hid, hop, hbefore, hafter⟩
  · exact absurd habsent hpresent
  · rename_i existing row₀
    obtain ⟨hentity, hfits, hcurrent⟩ := hallowed caller call existing hphase hsame
    have hfields := withMetadata_of_storeFields hw.encoded hfits
    have hrow := hw.written.number_of_some hrow₀
    obtain ⟨hentity₀, hshows⟩ := h.newest hrow₀
    have hexisting : existing.entityId = none := by
      rw [← hcurrent row₀ hrow₀]
      exact hentity₀
    have hnull : (replay (c.newestEvents row.seriesId)).get "entity_id" = .null := by
      have hget := hshows ("entity_id", .ofUuid row₀.entityId) (by simp [columns])
      rwa [hentity₀, ← hrow] at hget
    have hentity' : row.entityId = none := by
      rw [← hfields]
      exact hentity
    rw [hfields] at hafter
    rw [over_of_write (by rw [hop]; exact nofun) hafter]
    refine ⟨hop, row₀, _, _, hrow₀, hrow, hbefore, hafter, ?_, shows_afterPayload hentity', hentity',
      shows_overlay_afterPayload hnull hentity'⟩
    rw [hcurrent row₀ hrow₀]
    exact shows_beforePayload hexisting

end Writes

theorem replayed_of_reachable (h : Reachable env Replayable c) : Replayed c := by
  induction h with
  | empty => exact ⟨nofun, nofun, nofun⟩
  | step hreached hallowed hs ih =>
    have hsound := sound_of_reachable hreached
    rcases effect_of_step hsound hs with
      _ | ⟨_, -, st₁, hst₁, rfl⟩ | ⟨hw, habsent⟩ | ⟨hw, hpresent⟩ | _ | _
    · exact ⟨ih.newest, ih.committed, ih.origin⟩
    · exact ih.hit rfl hst₁.series rfl (congrArg (· ++ _) hst₁.events) rfl
    · exact ih.wrote hsound hw fun e he => shows_of_insert ih hsound hallowed hw habsent he
    · refine ih.wrote hsound hw fun e he => ?_
      obtain ⟨-, _, _, _, -, -, -, -, -, -, hshows⟩ := shows_of_update ih hallowed hw hpresent he
      exact hshows
    · exact ih.commit hsound
    · exact ih.abort hsound

theorem shows_columns (fields : SeriesFields Jsonb) : Shows (columns fields) fields := by
  simp [Shows, columns]

/-- An image that shows a row has its columns, under the names that the columns of every row
    have. -/
theorem get_of_shows {fields fields' : SeriesFields Jsonb} (h : Shows image fields)
    {f : String × ImageValue} (hf : f ∈ columns fields') :
    image.get f.1 = (columns fields).get f.1 := by
  have hnames : (columns fields').map Prod.fst = (columns fields).map Prod.fst := rfl
  obtain ⟨g, hg, hname⟩ := List.mem_map.1 (hnames ▸ List.mem_map_of_mem hf)
  rw [← hname, h g hg, shows_columns fields g hg]

theorem showsUpdate_of_step (h : Replayed c) (hsound : Sound c) (hallowed : Replayable c a)
    (hs : Step env c a c') (hevents : c'.store.events = c.store.events ++ [e])
    (hop : e.operation = .update) : ∃ code row row', ShowsUpdate c c' e code row row' := by
  rcases effect_of_step hsound hs with
    _ | ⟨_, -, st₁, hst₁, rfl⟩ | ⟨hw, habsent⟩ | ⟨hw, hpresent⟩ | _ | _
  · exact absurd hevents (by simp [Catalog.setPhase])
  · have he := List.append_cancel_left ((congrArg (· ++ _) hst₁.events).symm.trans hevents)
    rw [← List.singleton_inj.1 he] at hop
    cases hop
  · obtain ⟨e', hevents', -, -, hrecorded⟩ := hw.event
    obtain rfl := List.singleton_inj.1 (List.append_cancel_left (hevents'.symm.trans hevents))
    rcases hrecorded with ⟨_, hop', _⟩ | ⟨_, _, hrow₀, _⟩
    · rw [hop] at hop'
      cases hop'
    · rw [habsent] at hrow₀
      cases hrow₀
  · obtain ⟨e', hevents', hpk, -, hrecorded⟩ := hw.event
    obtain rfl := List.singleton_inj.1 (List.append_cancel_left (hevents'.symm.trans hevents))
    obtain ⟨-, row₀, before, after, hrow₀, hid, hbefore, hafter, hshows, hshows', -, -⟩ :=
      shows_of_update h hallowed hw hpresent hrecorded
    refine ⟨_, row₀, _, hrow₀, hw.written.series_self, hid.symm.trans hpk.symm,
      ⟨before, hbefore, hshows⟩, ⟨after, hafter, hshows'⟩, fun f hf image himage image' himage' => ?_⟩
    obtain rfl := Option.some.inj (hbefore.symm.trans himage)
    obtain rfl := Option.some.inj (hafter.symm.trans himage')
    rw [hshows f hf, get_of_shows hshows' hf]
    exact ne_comm
  · have hlength := congrArg List.length hevents
    simp [Catalog.commit] at hlength
  · rename_i y
    have hlength := congrArg List.length hevents
    rw [List.length_append, List.length_singleton] at hlength
    have hle : (c.abort y).store.events.length ≤ c.store.events.length := List.length_filter_le _ _
    omega

/-- In a run of steps whose events show their rows, the events of every series can be replayed,
    and every update shows the row before it, and the row after it. -/
theorem replays_of_reachable (h : Reachable env Replayable c) :
    Replays c ∧ ∀ a c' e, Replayable c a → Step env c a c' →
      c'.store.events = c.store.events ++ [e] → e.operation = .update →
        ∃ code row row', ShowsUpdate c c' e code row row' := by
  have hreplayed := replayed_of_reachable h
  refine ⟨fun code row hrow => (hreplayed.committed hrow).2, fun a c' e hallowed hs hevents hop => ?_⟩
  exact showsUpdate_of_step hreplayed (sound_of_reachable h) hallowed hs hevents hop

/-! ### An update of the entity -/

def ownerEnv : SeriesEnv where
  patterns := []
  numericKey _ := false
  admits _ := true
  auditStrict := false

def ownerCaller : Caller := ⟨none, 1⟩

/-- A call for a series of an entity. -/
def ownerCall (entityId : Option PgUuid) (description : Option String) : SeriesCall where
  sourceId := "s"
  entityId := entityId
  metric := "m"
  frequency := .d1
  unit := "u"
  description := description
  metadata := none
  seriesCode := "x"

/-- The row of such a call. -/
def ownerRow (entityId : Option PgUuid) (description : Option String) : SeriesRow where
  sourceId := "s"
  entityId := entityId
  metric := "m"
  frequency := .d1
  unit := "u"
  description := description
  metadata := .obj []
  seriesId := 1
  seriesCode := "x"
  actor := none
  createdAt := 0
  updatedAt := 0

namespace Owner

variable {Allowed : Catalog → Action → Prop} {entityId : Option PgUuid} {description : Option String}

/-- The tables after the call that inserts the row. -/
def insertedStore : Store :=
  recordEvent (some 0) ownerCaller .upsert 1 none
    (some (shortPayload 1 "x" (ownerRow none none).toSeriesFields)) false
    (insertSeries (ownerRow none none) Catalog.empty.store)

/-- The tables after a call that updates it. -/
def updatedStore (entityId : Option PgUuid) (description : Option String) : Store :=
  recordEvent (some 0) ownerCaller .update 1 (some (beforePayload (ownerRow none none) "x"))
    (some (afterPayload (beforePayload (ownerRow none none) "x")
      (ownerRow entityId description).toSeriesFields)) false
    (updateSeries 1 (ownerRow entityId description).toSeriesFields none 0 insertedStore)

def inserting : Catalog :=
  Catalog.empty.setPhase 0 (some (afterLook ownerCaller (ownerCall none none) none))

def inserted : Catalog :=
  { inserting.setPhase 0 none with
    store := insertedStore, owner := Function.update inserting.owner "x" (some 0) }

def updating (entityId : Option PgUuid) (description : Option String) : Catalog :=
  inserted.setPhase 0
    (some (afterLook ownerCaller (ownerCall entityId description) (some (ownerRow none none))))

def updated (entityId : Option PgUuid) (description : Option String) : Catalog :=
  { ((updating entityId description).lockSeries 0 1).setPhase 0 none with
    store := updatedStore entityId description }

/-- A call that inserts the row, and one that updates it, in one transaction. -/
theorem reachable_updated
    (hdoes : reconcileExisting ownerEnv ownerCaller (some 0) 0 (fun _ => 0) (ownerRow none none)
      (ownerCall entityId description) insertedStore =
        .ok (⟨1, false⟩, updatedStore entityId description))
    (hsame : sameFields (ownerRow none none) (ownerCall entityId description).fields = false)
    (h₁ : Allowed .empty (.look 0 ownerCaller (ownerCall none none)))
    (h₂ : Allowed inserting (.insert 0))
    (h₃ : Allowed inserted (.look 0 ownerCaller (ownerCall entityId description)))
    (h₄ : Allowed (updating entityId description) (.reconcile 0)) :
    Reachable ownerEnv Allowed (updated entityId description) := by
  have hlook : Step ownerEnv .empty (.look 0 ownerCaller (ownerCall none none)) inserting :=
    .look rfl rfl rfl
  have hfresh : upsertSeriesFresh ownerEnv ownerCaller (some 0) 0 (ownerCall none none)
      inserting.store = .ok (some (⟨1, true⟩, insertedStore)) := rfl
  have hinsert : Step ownerEnv inserting (.insert 0) inserted :=
    .insert rfl (.inl rfl) (fun s hs => absurd hs List.not_mem_nil) hfresh
  have hcode : storableText "x" = true := rfl
  have hvisible : inserted.visible 0 "x" = some (ownerRow none none) := rfl
  have hlook' : Step ownerEnv inserted (.look 0 ownerCaller (ownerCall entityId description))
      (updating entityId description) :=
    .look rfl rfl (selectSeries_eq_ok_iff.2 ⟨hcode, hvisible.symm⟩)
  have hupdate : Step ownerEnv (updating entityId description) (.reconcile 0)
      (updated entityId description) := by
    refine .update rfl hsame (fun code row hrow _ => ?_) (fun s hs => absurd hs List.not_mem_nil) hdoes
    have hcode : code = "x" := by
      by_contra hne
      have hnone : insertedStore.series code = none := Function.update_of_ne hne _ _
      rw [show (updating entityId description).store.series code = _ from hnone] at hrow
      cases hrow
    exact .inr (hcode ▸ rfl)
  exact .step (.step (.step (.step .empty h₁ hlook) h₂ hinsert) h₃ hlook') h₄ hupdate

end Owner

/-- The entity is not in the events, and an update of it has the same image before and after. -/
theorem not_replays_owner : ∃ c, Reachable ownerEnv (fun _ _ => True) c ∧ ¬Replays c ∧
    ∃ e ∈ c.store.events, e.operation = .update ∧ e.before = e.after := by
  have hreachable : Reachable ownerEnv (fun _ _ => True) (Owner.updated (some 1) none) :=
    Owner.reachable_updated rfl rfl trivial trivial trivial trivial
  have hcommit : Step ownerEnv (Owner.updated (some 1) none) (.commit 0) _ := .commit rfl
  refine ⟨_, .step hreachable trivial hcommit, fun h => ?_, ?_⟩
  · have hshows := h "x" (ownerRow (some 1) none) rfl ("entity_id", .uuid 1)
      (by simp [columns, ownerRow, ImageValue.ofUuid])
    cases hshows
  · exact ⟨_, List.mem_cons_of_mem _ List.mem_cons_self, rfl, rfl⟩

/-- The events of a series that gets a description can be replayed. -/
theorem replays_of_reachable_description : ∃ c, c.committed "x" = some (ownerRow none (some "d")) ∧
    Replays c := by
  have hreachable : Reachable ownerEnv Replayable (Owner.updated none (some "d")) := by
    refine Owner.reachable_updated rfl rfl trivial (fun p hp _ => ?_) trivial
      fun caller call existing hp _ => ?_
    · cases hp
      exact ⟨rfl, rfl, rfl, rfl, rfl, rfl⟩
    · cases hp
      refine ⟨rfl, ?_, fun row hrow => ?_⟩
      · intro s hs
        cases hs
      · cases hrow
        rfl
  have hcommit : Step ownerEnv (Owner.updated none (some "d")) (.commit 0) _ := .commit rfl
  exact ⟨_, rfl, (replays_of_reachable (.step (a := .commit 0) hreachable trivial hcommit)).1⟩

end AslanCore.Timeseries
