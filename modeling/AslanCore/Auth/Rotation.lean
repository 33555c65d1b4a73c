import AslanCore.Auth.Tokens

/-!
# The rotation of refresh tokens

Each token is meant to be exchanged once at most, each family to have one token at most that is not
revoked, and a family to be given up once a revoked token of it is presented. A request looks its
token up, revokes it and inserts another one in separate statements, and does not lock what it has
looked up, so that others may have revoked the token in between.

* `Sound`: what holds of all servers that are reached, whatever the requests do;
* `Unraced`: the steps before which no other request has done so;
* `Rotates`: what is meant;
* `rotates_of_reachable`: it holds in every run of such steps;
* `not_rotates_exchangedTwice`: it does not in all.
-/

namespace AslanCore

namespace Auth

variable {R : Type} [DecidableEq R] {env : Env} {s s' : Server R} {a : Action R} {r q : R}
  {tokenId newId family : Uuid} {row row' : TokenRow} {p : Phase}

/-- The rows that a request may have written. -/
def Phase.Writes : Phase → Uuid → TokenRow → Prop
  | loggedIn newId family _, tokenId, row => tokenId = newId ∧ row.tokenFamily = family
  | revoking _ _, _, row => row.revoked = true
  | rotated id row', tokenId, row | active id row' _, tokenId, row =>
    tokenId = id ∧ row.tokenFamily = row'.tokenFamily ∧ row.revoked = true
  | inactive, _, row => row.revoked = true
  | issued id row' newId _, tokenId, row => row.tokenFamily = row'.tokenFamily ∧
    (tokenId = id ∧ row.revoked = true ∨ tokenId = newId)
  | _, _, _ => False

/-- The token that a request has found. -/
def Phase.token : Phase → Option (Uuid × TokenRow)
  | looked tokenId row => some (tokenId, row)
  | rotated tokenId row => some (tokenId, row)
  | active tokenId row _ => some (tokenId, row)
  | issued tokenId row _ _ => some (tokenId, row)
  | _ => none

/-- The token that a request has revoked, to exchange it. -/
def Phase.holds : Phase → Option Uuid
  | rotated tokenId _ => some tokenId
  | active tokenId _ _ => some tokenId
  | issued tokenId _ _ _ => some tokenId
  | _ => none

/-- The token that a request has inserted. -/
def Phase.inserted : Phase → Option Uuid
  | loggedIn tokenId _ _ => some tokenId
  | issued _ _ newId _ => some newId
  | _ => none

/-- The family that a login has begun. -/
def Phase.begun : Phase → Option (Uuid × Uuid)
  | loggedIn newId family _ => some (newId, family)
  | _ => none

/-- Rows are written as they were, but for being revoked, hashes are of one row each, and what was
    recorded is there. -/
structure Rows (s : Server R) : Prop where
  same : ∀ {tokenId r row row'}, s.committed tokenId = some row →
    s.pending tokenId = some (r, row') → row'.tokenFamily = row.tokenFamily ∧
      row'.tokenHash = row.tokenHash ∧ row'.revoked = true
  unique : ∀ {id id' row row'}, s.Known id row → s.Known id' row' →
    row.tokenHash = row'.tokenHash → id = id'
  reused : ∀ {family}, .reused family ∈ s.events →
    ∃ tokenId row, s.committed tokenId = some row ∧ row.tokenFamily = family
  exchanged : ∀ {row response}, .exchanged row response ∈ s.events →
    ∃ tokenId row', s.committed tokenId = some row' ∧ row'.tokenHash = row.tokenHash ∧
      row'.revoked = true

/-- A request in a phase has written no other rows than those of the phase, and what it has found,
    revoked and inserted is there. -/
structure Fits (s : Server R) (r : R) (p : Phase) : Prop where
  writes : ∀ {tokenId row}, s.pending tokenId = some (r, row) → p.Writes tokenId row
  found : ∀ {tokenId row}, p.token = some (tokenId, row) →
    ∃ row', s.committed tokenId = some row' ∧ row'.tokenFamily = row.tokenFamily ∧
      row'.tokenHash = row.tokenHash ∧ (row.revoked = true → row'.revoked = true)
  holds : ∀ {tokenId}, p.holds = some tokenId → ∃ row, s.pending tokenId = some (r, row)
  inserted : ∀ {tokenId}, p.inserted = some tokenId →
    s.committed tokenId = none ∧ ∃ row, s.pending tokenId = some (r, row)
  begun : ∀ {newId family}, p.begun = some (newId, family) →
    ∀ id row, s.Known id row → id ≠ newId → row.tokenFamily ≠ family
  revokes : ∀ {family}, p.revokes = some family →
    ∃ tokenId row, s.committed tokenId = some row ∧ row.tokenFamily = family

/-- What holds whatever the requests do. -/
structure Sound (s : Server R) : Prop extends Rows s where
  fits : ∀ r, Fits s r (s.phase r)

/-! ### What requests see -/

theorem visible_eq_some_iff : s.visible r tokenId = some row ↔
    s.pending tokenId = some (r, row) ∨
      (∀ row', s.pending tokenId ≠ some (r, row')) ∧ s.committed tokenId = some row := by
  rw [Server.visible]
  rcases s.pending tokenId with _ | ⟨q, row'⟩
  · simp
  · by_cases h : q = r
    · subst h
      simp
    · simp [h]

theorem known_of_visible (h : s.visible r tokenId = some row) : s.Known tokenId row := by
  rcases visible_eq_some_iff.1 h with h | ⟨-, h⟩
  · exact .inr ⟨r, h⟩
  · exact .inl h

/-! ### What holds of all servers -/

namespace Sound

theorem setPhase (h : Sound s) (hp : Fits s r p) : Sound (s.setPhase r p) where
  same := h.same
  unique := h.unique
  reused := h.reused
  exchanged := h.exchanged
  fits q := by
    by_cases hq : q = r
    · subst hq
      simp only [Server.setPhase, Function.update_self]
      exact ⟨hp.writes, hp.found, hp.holds, hp.inserted, hp.begun, hp.revokes⟩
    · simp only [Server.setPhase, Function.update_of_ne hq]
      have := h.fits q
      exact ⟨this.writes, this.found, this.holds, this.inserted, this.begun, this.revokes⟩

omit [DecidableEq R] in
/-- The versions of a row differ in being revoked only. -/
theorem known_same (h : Sound s) (hrow : s.Known tokenId row) (hrow' : s.Known tokenId row') :
    row'.tokenFamily = row.tokenFamily ∧ row'.tokenHash = row.tokenHash := by
  rcases hrow with hrow | ⟨q, hrow⟩ <;> rcases hrow' with hrow' | ⟨q', hrow'⟩
  · cases hrow.symm.trans hrow'
    exact ⟨rfl, rfl⟩
  · obtain ⟨hfamily, hhash, -⟩ := h.same hrow hrow'
    exact ⟨hfamily, hhash⟩
  · obtain ⟨hfamily, hhash, -⟩ := h.same hrow' hrow
    exact ⟨hfamily.symm, hhash.symm⟩
  · cases hrow.symm.trans hrow'
    exact ⟨rfl, rfl⟩

/-- A request writes a row that is there, or one of a new token. -/
theorem write (h : Sound s) (hfree : s.Free r tokenId)
    (hsame : ∀ row₀, s.Known tokenId row₀ → row.tokenFamily = row₀.tokenFamily ∧
      row.tokenHash = row₀.tokenHash ∧ row.revoked = true)
    (hunique : ∀ id row', s.Known id row' → row'.tokenHash = row.tokenHash → id = tokenId)
    (hbegun : ∀ q newId family, q ≠ r → (s.phase q).begun = some (newId, family) →
      tokenId ≠ newId → row.tokenFamily ≠ family)
    (hp : Fits (s.write r tokenId row) r p) : Sound ((s.write r tokenId row).setPhase r p) := by
  have hpending : ∀ {id q row'}, (s.write r tokenId row).pending id = some (q, row') →
      id = tokenId ∧ q = r ∧ row' = row ∨ id ≠ tokenId ∧ s.pending id = some (q, row') := by
    intro id q row' hq
    by_cases hid : id = tokenId
    · subst hid
      simp only [Server.write, Function.update_self] at hq
      cases hq
      exact .inl ⟨rfl, rfl, rfl⟩
    · simp only [Server.write, Function.update_of_ne hid] at hq
      exact .inr ⟨hid, hq⟩
  have hknown : ∀ {id row'}, (s.write r tokenId row).Known id row' →
      id = tokenId ∧ row' = row ∨ s.Known id row' := by
    rintro id row' (hrow' | ⟨q, hrow'⟩)
    · exact .inr (.inl hrow')
    · rcases hpending hrow' with ⟨rfl, rfl, rfl⟩ | ⟨-, hrow'⟩
      · exact .inl ⟨rfl, rfl⟩
      · exact .inr (.inr ⟨q, hrow'⟩)
  -- The others have written what they had written before.
  have hkept : ∀ {id q row'}, q ≠ r → s.pending id = some (q, row') →
      (s.write r tokenId row).pending id = some (q, row') := by
    intro id q row' hq hrow'
    have hid : id ≠ tokenId := by
      rintro rfl
      exact hq (hfree _ _ hrow')
    simpa only [Server.write, Function.update_of_ne hid] using hrow'
  refine ⟨⟨?_, ?_, h.reused, h.exchanged⟩, fun q => ?_⟩
  · intro id q row₀ row' hrow₀ hrow'
    rcases hpending hrow' with ⟨rfl, rfl, rfl⟩ | ⟨-, hrow'⟩
    · exact hsame _ (.inl hrow₀)
    · exact h.same hrow₀ hrow'
  · intro id id' row₀ row' hrow₀ hrow' hhash
    rcases hknown hrow₀ with ⟨rfl, rfl⟩ | hold <;> rcases hknown hrow' with ⟨rfl, rfl⟩ | hold'
    · rfl
    · exact (hunique _ _ hold' hhash.symm).symm
    · exact hunique _ _ hold hhash
    · exact h.unique hold hold' hhash
  · by_cases hq : q = r
    · subst hq
      simp only [Server.setPhase, Function.update_self]
      exact ⟨hp.writes, hp.found, hp.holds, hp.inserted, hp.begun, hp.revokes⟩
    · simp only [Server.setPhase, Function.update_of_ne hq]
      have hfits := h.fits q
      refine ⟨fun hrow' => ?_, hfits.found, fun hid => ?_, fun hid => ?_, ?_, hfits.revokes⟩
      · rcases hpending hrow' with ⟨-, rfl, -⟩ | ⟨-, hrow'⟩
        · exact absurd rfl hq
        · exact hfits.writes hrow'
      · obtain ⟨row', hrow'⟩ := hfits.holds hid
        exact ⟨row', hkept hq hrow'⟩
      · obtain ⟨hnone, row', hrow'⟩ := hfits.inserted hid
        exact ⟨hnone, row', hkept hq hrow'⟩
      · intro newId family hbeg id row' hrow' hid
        rcases hknown hrow' with ⟨rfl, rfl⟩ | hrow'
        · exact hbegun q newId family hq hbeg hid
        · exact hfits.begun hbeg id row' hrow' hid

/-- A row that was committed is seen, as it was or revoked. -/
theorem exists_visible (h : Sound s) (r : R) (hrow : s.committed tokenId = some row) :
    ∃ row', s.visible r tokenId = some row' ∧ row'.tokenFamily = row.tokenFamily ∧
      row'.tokenHash = row.tokenHash ∧ (row.revoked = true → row'.revoked = true) := by
  by_cases hwritten : ∃ row', s.pending tokenId = some (r, row')
  · obtain ⟨row', hrow'⟩ := hwritten
    obtain ⟨hfamily, hhash, hrevoked⟩ := h.same hrow hrow'
    exact ⟨row', visible_eq_some_iff.2 (.inl hrow'), hfamily, hhash, fun _ => hrevoked⟩
  · refine ⟨row, visible_eq_some_iff.2 (.inr ⟨fun row' hrow' => ?_, hrow⟩), rfl, rfl, fun h => h⟩
    exact hwritten ⟨row', hrow'⟩

/-- A request ends, and what it has written is committed, or undone. -/
theorem finish (h : Sound s) {rows : Uuid → Option TokenRow}
    (hrows : (∀ id, rows id = s.visible r id) ∨ ∀ id, rows id = s.committed id) :
    Sound (s.finish r rows) := by
  have hpending : ∀ {id q row'}, (s.finish r rows).pending id = some (q, row') ↔
      q ≠ r ∧ s.pending id = some (q, row') := by
    intro id q row'
    simp only [Server.finish, Option.filter_eq_some_iff, decide_eq_true_eq]
    exact and_comm
  have hcommitted : ∀ {id row'}, rows id = some row' →
      s.pending id = some (r, row') ∨ s.committed id = some row' := by
    intro id row' hrow'
    rcases hrows with hrows | hrows
    · rw [hrows] at hrow'
      exact (visible_eq_some_iff.1 hrow').imp_right And.right
    · exact .inr (hrows id ▸ hrow')
  -- A row that was committed is there, as it was or revoked.
  have hkept : ∀ {id row₀}, s.committed id = some row₀ → ∃ row', rows id = some row' ∧
      row'.tokenFamily = row₀.tokenFamily ∧ row'.tokenHash = row₀.tokenHash ∧
      (row₀.revoked = true → row'.revoked = true) := by
    intro id row₀ hrow₀
    rcases hrows with hrows | hrows
    · rw [hrows]
      exact h.exists_visible r hrow₀
    · exact ⟨row₀, (hrows id).trans hrow₀, rfl, rfl, fun h => h⟩
  have hknown : ∀ {id row'}, (s.finish r rows).Known id row' → s.Known id row' := by
    rintro id row' (hrow' | ⟨q, hrow'⟩)
    · rcases hcommitted hrow' with hrow' | hrow'
      · exact .inr ⟨r, hrow'⟩
      · exact .inl hrow'
    · exact .inr ⟨q, (hpending.1 hrow').2⟩
  refine ⟨⟨?_, ?_, ?_, ?_⟩, fun q => ?_⟩
  · intro id q row₀ row' hrow₀ hrow'
    obtain ⟨hq, hrow'⟩ := hpending.1 hrow'
    rcases hcommitted hrow₀ with hrow₀ | hrow₀
    · cases hrow₀.symm.trans hrow'
      exact absurd rfl hq
    · exact h.same hrow₀ hrow'
  · exact fun hrow₀ hrow' => h.unique (hknown hrow₀) (hknown hrow')
  · intro family hevent
    obtain ⟨id, row₀, hrow₀, rfl⟩ := h.reused hevent
    obtain ⟨row', hrow', hfamily, -⟩ := hkept hrow₀
    exact ⟨id, row', hrow', hfamily⟩
  · intro row response hevent
    obtain ⟨id, row₀, hrow₀, hhash₀, hrevoked₀⟩ := h.exchanged hevent
    obtain ⟨row', hrow', -, hhash, hrevoked⟩ := hkept hrow₀
    exact ⟨id, row', hrow', hhash.trans hhash₀, hrevoked hrevoked₀⟩
  · by_cases hq : q = r
    · subst hq
      simp only [Server.finish, Function.update_self]
      refine ⟨fun hrow' => ?_, nofun, nofun, nofun, nofun, nofun⟩
      exact absurd rfl (hpending.1 hrow').1
    · simp only [Server.finish, Function.update_of_ne hq]
      have hfits := h.fits q
      refine ⟨fun hrow' => ?_, fun htoken => ?_, fun hid => ?_, fun hid => ?_, ?_, fun hfam => ?_⟩
      · exact hfits.writes (hpending.1 hrow').2
      · obtain ⟨row₀, hrow₀, hfamily₀, hhash₀, hrevoked₀⟩ := hfits.found htoken
        obtain ⟨row', hrow', hfamily, hhash, hrevoked⟩ := hkept hrow₀
        exact ⟨row', hrow', hfamily.trans hfamily₀, hhash.trans hhash₀,
          fun h => hrevoked (hrevoked₀ h)⟩
      · obtain ⟨row', hrow'⟩ := hfits.holds hid
        exact ⟨row', hpending.2 ⟨hq, hrow'⟩⟩
      · obtain ⟨hnone, row', hrow'⟩ := hfits.inserted hid
        refine ⟨?_, row', hpending.2 ⟨hq, hrow'⟩⟩
        rw [Option.eq_none_iff_forall_ne_some]
        intro row₀ hrow₀
        rcases hcommitted hrow₀ with hrow₀ | hrow₀
        · cases hrow₀.symm.trans hrow'
          exact hq rfl
        · cases hnone.symm.trans hrow₀
      · exact fun hbeg id row' hrow' => hfits.begun hbeg id row' (hknown hrow')
      · obtain ⟨id, row₀, hrow₀, rfl⟩ := hfits.revokes hfam
        obtain ⟨row', hrow', hfamily, -⟩ := hkept hrow₀
        exact ⟨id, row', hrow', hfamily⟩

end Sound

omit [DecidableEq R] in
/-- A request that has exchanged a token has revoked it. -/
theorem Sound.revoked_of_issued (h : Sound s) {response : TokenResponse}
    (hphase : s.phase r = .issued tokenId row newId response) :
    ∃ row', s.pending tokenId = some (r, row') ∧ row'.tokenHash = row.tokenHash ∧
      row'.tokenFamily = row.tokenFamily ∧ row'.revoked = true := by
  have hfits := hphase ▸ h.fits r
  obtain ⟨row', hrow'⟩ := hfits.holds rfl
  obtain ⟨row₀, hrow₀, hfamily₀, hhash₀, -⟩ := hfits.found rfl
  obtain ⟨hfamily, hhash, hrevoked⟩ := h.same hrow₀ hrow'
  exact ⟨row', hrow', hhash.trans hhash₀, hfamily.trans hfamily₀, hrevoked⟩

/-- What a request that commits has written and records. -/
theorem sound_commit (h : Sound s) {event : Option Event}
    (hevent : (s.phase r).outcome = some event) : Sound (s.commit r event) := by
  have hfinish := h.finish (r := r) (.inl fun _ => rfl)
  refine ⟨⟨hfinish.same, hfinish.unique, fun {family} hmem => ?_, fun {row response} hmem => ?_⟩,
    fun q => ?_⟩
  · rcases List.mem_append.1 hmem with hmem | hmem
    · obtain rfl := Option.mem_toList.1 hmem
      rcases hp : s.phase r with _ | _ | _ | _ | ⟨family', _ | _⟩ | _ | _ | _ | _ <;>
        rw [hp] at hevent <;> cases hevent
      obtain ⟨id, row, hrow, rfl⟩ := (hp ▸ h.fits r).revokes rfl
      obtain ⟨row', hrow', hfamily, -⟩ := h.exists_visible r hrow
      exact ⟨id, row', hrow', hfamily⟩
    · exact hfinish.reused hmem
  · rcases List.mem_append.1 hmem with hmem | hmem
    · obtain rfl := Option.mem_toList.1 hmem
      rcases hp : s.phase r with _ | _ | _ | _ | ⟨family', _ | _⟩ | _ | _ | _ | _ <;>
        rw [hp] at hevent <;> cases hevent
      obtain ⟨row', hrow', hhash, -, hrevoked⟩ := h.revoked_of_issued hp
      exact ⟨_, row', visible_eq_some_iff.2 (.inl hrow'), hhash, hrevoked⟩
    · exact hfinish.exchanged hmem
  · have hfits := hfinish.fits q
    exact ⟨hfits.writes, hfits.found, hfits.holds, hfits.inserted, hfits.begun, hfits.revokes⟩

/-- A request writes a row that it sees, revoked. -/
theorem Sound.revoke (h : Sound s) (hfree : s.Free r tokenId)
    (hfound : s.visible r tokenId = some row)
    (hp : Fits (s.write r tokenId { row with revoked := true }) r p) :
    Sound ((s.write r tokenId { row with revoked := true }).setPhase r p) := by
  have hknown := known_of_visible hfound
  refine h.write hfree (fun row₀ hrow₀ => ?_) (fun id row' hrow' hhash => ?_) ?_ hp
  · obtain ⟨hfamily, hhash⟩ := h.known_same hrow₀ hknown
    exact ⟨hfamily, hhash, rfl⟩
  · exact h.unique hrow' hknown hhash
  · exact fun q newId family _ hbegun hid => (h.fits q).begun hbegun tokenId row hknown hid

/-- A request inserts a token. -/
theorem Sound.insert (h : Sound s) (hnew : s.NewToken tokenId row.tokenHash)
    (hbegun : ∀ q newId family, q ≠ r → (s.phase q).begun = some (newId, family) →
      row.tokenFamily ≠ family)
    (hp : Fits (s.write r tokenId row) r p) : Sound ((s.write r tokenId row).setPhase r p) := by
  refine h.write (fun q row' hq => absurd rfl (hnew _ _ (.inr ⟨q, hq⟩)).1) ?_ ?_ ?_ hp
  · exact fun row₀ hrow₀ => absurd rfl (hnew _ _ hrow₀).1
  · exact fun id row' hrow' hhash => absurd hhash (hnew _ _ hrow').2
  · exact fun q newId family hq hb _ => hbegun q newId family hq hb

theorem pending_write {id : Uuid} : (s.write r tokenId row).pending id = some (q, row') ↔
    id = tokenId ∧ q = r ∧ row' = row ∨ id ≠ tokenId ∧ s.pending id = some (q, row') := by
  by_cases hid : id = tokenId
  · subst hid
    simp only [Server.write, Function.update_self, Option.some.injEq, Prod.mk.injEq]
    tauto
  · simp only [Server.write, Function.update_of_ne hid, hid, false_and, false_or, ne_eq,
      not_false_eq_true, true_and]

omit [DecidableEq R] in
/-- A login begins a family, a row of which it has inserted. -/
theorem Sound.exists_of_begun (h : Sound s) (hbegun : (s.phase q).begun = some (newId, family)) :
    s.committed newId = none ∧ ∃ row, s.pending newId = some (q, row) ∧ row.tokenFamily = family := by
  have hfits := h.fits q
  rcases hp : s.phase q with _ | _ | ⟨newId', family', response⟩ | _ | _ | _ | _ | _ | _ <;>
    rw [hp] at hbegun <;> cases hbegun
  rw [hp] at hfits
  obtain ⟨hnone, row, hrow⟩ := hfits.inserted rfl
  exact ⟨hnone, row, hrow, (hfits.writes hrow).2⟩

theorem known_write {id : Uuid} (h : (s.write r tokenId row).Known id row') :
    id = tokenId ∧ row' = row ∨ s.Known id row' := by
  rcases h with h | ⟨q, h⟩
  · exact .inr (.inl h)
  · rcases pending_write.1 h with ⟨rfl, -, rfl⟩ | ⟨-, h⟩
    · exact .inl ⟨rfl, rfl⟩
    · exact .inr (.inr ⟨q, h⟩)

omit [DecidableEq R] in
/-- A new token is not committed. -/
theorem committed_of_new {tokenHash : String} (h : s.NewToken tokenId tokenHash) :
    s.committed tokenId = none := by
  rw [Option.eq_none_iff_forall_ne_some]
  exact fun row hrow => (h _ _ (.inl hrow)).1 rfl

theorem sound_step (h : Sound s) (hs : Step env s a s') : Sound s' := by
  rcases hs with ⟨hidle, -, -, -, -⟩ | ⟨hphase, htoken, hfamily⟩ | ⟨hidle, hfound, -⟩ | _ |
    ⟨hphase, hrevoked, htodo⟩ | ⟨hphase, hfree, hfound⟩ | ⟨hphase, hrevoked, -, hfree, hfound⟩ |
    ⟨hphase, -, -⟩ | ⟨hphase, -⟩ | ⟨hphase, htoken⟩ | hends | _ | _
  · have hfits := hidle ▸ h.fits _
    exact h.setPhase ⟨fun hrow => (hfits.writes hrow).elim, nofun, nofun, nofun, nofun, nofun⟩
  · have hfits := hphase ▸ h.fits _
    refine h.insert htoken (fun q newId family' _ hbegun => ?_)
      ⟨fun hrow => ?_, nofun, nofun, ?_, ?_, nofun⟩
    · -- The family of another login is there.
      obtain ⟨-, row', hrow', rfl⟩ := h.exists_of_begun hbegun
      exact (hfamily _ _ (.inr ⟨q, hrow'⟩)).symm
    · rcases pending_write.1 hrow with ⟨rfl, -, rfl⟩ | ⟨-, hrow⟩
      · exact ⟨rfl, rfl⟩
      · exact (hfits.writes hrow).elim
    · rintro id hid
      cases hid
      exact ⟨show s.committed _ = none from committed_of_new htoken, _,
        pending_write.2 (.inl ⟨rfl, rfl, rfl⟩)⟩
    · rintro id family' hbegun id' row' hrow' hid
      cases hbegun
      rcases known_write hrow' with ⟨rfl, -⟩ | hrow'
      · exact absurd rfl hid
      · exact hfamily _ _ hrow'
  · have hfits := hidle ▸ h.fits _
    refine h.setPhase ⟨fun hrow => (hfits.writes hrow).elim, ?_, nofun, nofun, nofun, nofun⟩
    intro id row' htoken
    cases htoken
    rcases visible_eq_some_iff.1 hfound with hrow | ⟨-, hrow⟩
    · exact (hfits.writes hrow).elim
    · exact ⟨_, hrow, rfl, rfl, fun h => h⟩
  · exact h
  · have hfits := hphase ▸ h.fits _
    refine h.setPhase ⟨fun hrow => (hfits.writes hrow).elim, nofun, nofun, nofun, nofun, ?_⟩
    intro family hfam
    cases hfam
    obtain ⟨row', hrow', hfamily, -⟩ := hfits.found rfl
    exact ⟨_, row', hrow', hfamily⟩
  · have hfits := hphase ▸ h.fits _
    refine h.revoke hfree hfound ⟨fun hrow => ?_, nofun, nofun, nofun, nofun, hfits.revokes⟩
    rcases pending_write.1 hrow with ⟨-, -, rfl⟩ | ⟨-, hrow⟩
    · rfl
    · exact hfits.writes hrow
  · have hfits := hphase ▸ h.fits _
    refine h.revoke hfree hfound ⟨fun hrow => ?_, hfits.found, ?_, nofun, nofun, nofun⟩
    · rcases pending_write.1 hrow with ⟨rfl, -, rfl⟩ | ⟨-, hrow⟩
      · obtain ⟨row₀, hrow₀, hfamily₀, -⟩ := hfits.found rfl
        exact ⟨rfl, (h.known_same (.inl hrow₀) (known_of_visible hfound)).1.trans hfamily₀, rfl⟩
      · exact (hfits.writes hrow).elim
    · rintro id hid
      cases hid
      exact ⟨_, pending_write.2 (.inl ⟨rfl, rfl, rfl⟩)⟩
  · have hfits := hphase ▸ h.fits _
    exact h.setPhase ⟨hfits.writes, hfits.found, hfits.holds, nofun, nofun, nofun⟩
  · have hfits := hphase ▸ h.fits _
    exact h.setPhase ⟨fun hrow => (hfits.writes hrow).2.2, nofun, nofun, nofun, nofun, nofun⟩
  · have hfits := hphase ▸ h.fits _
    obtain ⟨row₀, hrow₀, hfamily₀, -⟩ := hfits.found rfl
    refine h.insert htoken (fun q newId family' _ hbegun => ?_)
      ⟨fun hrow => ?_, hfits.found, ?_, ?_, nofun, nofun⟩
    · -- The token that is exchanged is committed, so that its family was not begun just now.
      obtain ⟨hnone, -⟩ := h.exists_of_begun hbegun
      refine hfamily₀ ▸ (h.fits q).begun hbegun _ _ (.inl hrow₀) ?_
      rintro rfl
      cases hnone.symm.trans hrow₀
    · rcases pending_write.1 hrow with ⟨rfl, -, rfl⟩ | ⟨-, hrow⟩
      · exact ⟨rfl, .inr rfl⟩
      · obtain ⟨rfl, hfamily, hrevoked⟩ := hfits.writes hrow
        exact ⟨hfamily, .inl ⟨rfl, hrevoked⟩⟩
    · rintro id hid
      cases hid
      obtain ⟨row', hrow'⟩ := hfits.holds rfl
      exact ⟨row', pending_write.2 (.inr ⟨(htoken _ _ (.inr ⟨_, hrow'⟩)).1, hrow'⟩)⟩
    · rintro id hid
      cases hid
      exact ⟨show s.committed _ = none from committed_of_new htoken, _,
        pending_write.2 (.inl ⟨rfl, rfl, rfl⟩)⟩
  · exact sound_commit h hends
  · exact h.finish (.inr fun _ => rfl)
  · exact ⟨⟨h.same, h.unique, h.reused, h.exchanged⟩, fun q =>
      have hfits := h.fits q
      ⟨hfits.writes, hfits.found, hfits.holds, hfits.inserted, hfits.begun, hfits.revokes⟩⟩

/-! ### Steps that do not race -/

/-- A refresh revokes a token that nobody has revoked since it was found, and when a family is revoked,
    no token is left of it that was inserted since. -/
def Unraced (s : Server R) : Action R → Prop
  | .revoke r => ∀ tokenId row row', s.phase r = .looked tokenId row →
    s.visible r tokenId = some row' → row'.revoked = false
  | .commit r => ∀ family, s.phase r = .revoking family [] →
    ∀ tokenId row, s.visible r tokenId = some row → row.tokenFamily = family → row.revoked = true
  | _ => True

/-- Tokens are rotated: each is exchanged once at most, of each family one at most is not revoked, and
    none is exchanged of a family of which a revoked token was presented before. -/
structure Rotates (s : Server R) : Prop where
  once : s.events.Pairwise fun e e' => ∀ row response row' response',
    e = .exchanged row response → e' = .exchanged row' response' → row.tokenHash ≠ row'.tokenHash
  one : ∀ {id id' row row'}, s.committed id = some row → s.committed id' = some row' →
    row.revoked = false → row'.revoked = false → row.tokenFamily = row'.tokenFamily → id = id'
  refused : s.events.Pairwise fun e e' => ∀ row response family,
    e = .exchanged row response → e' = .reused family → row.tokenFamily ≠ family

/-- Tokens are rotated, and a token that a request has revoked, to exchange it, was not revoked before;
    those of a family of which a revoked one was presented are. -/
structure Rotating (s : Server R) : Prop extends Rotates s where
  held : ∀ {r tokenId row}, (s.phase r).holds = some tokenId → s.committed tokenId = some row →
    row.revoked = false
  dead : ∀ {family tokenId row}, .reused family ∈ s.events → s.committed tokenId = some row →
    row.tokenFamily = family → row.revoked = true

namespace Rotating

omit [DecidableEq R] in
/-- As long as nothing is committed, only what is revoked next may be. -/
theorem of_same (h : Rotating s) (hcommitted : s'.committed = s.committed)
    (hevents : s'.events = s.events)
    (hheld : ∀ {r tokenId}, (s'.phase r).holds = some tokenId → (s.phase r).holds = some tokenId ∨
      ∀ row, s.committed tokenId = some row → row.revoked = false) : Rotating s' := by
  refine ⟨⟨?_, ?_, ?_⟩, ?_, ?_⟩
  · rw [hevents]
    exact h.once
  · rw [hcommitted]
    exact h.one
  · rw [hevents]
    exact h.refused
  · rw [hcommitted]
    intro r tokenId row hheld' hrow
    rcases hheld hheld' with hheld' | hnew
    · exact h.held hheld' hrow
    · exact hnew row hrow
  · rw [hcommitted, hevents]
    exact h.dead

theorem setPhase (h : Rotating s) (hheld : ∀ tokenId, p.holds = some tokenId →
    (s.phase r).holds = some tokenId ∨ ∀ row, s.committed tokenId = some row → row.revoked = false) :
    Rotating (s.setPhase r p) := by
  refine h.of_same rfl rfl fun {q tokenId} hq => ?_
  by_cases hqr : q = r
  · subst hqr
    simp only [Server.setPhase, Function.update_self] at hq
    exact hheld tokenId hq
  · simp only [Server.setPhase, Function.update_of_ne hqr] at hq
    exact .inl hq

omit [DecidableEq R] in
theorem write (h : Rotating s) : Rotating (s.write r tokenId row) := h.of_same rfl rfl .inl

end Rotating

/-- A token that a request sees unrevoked was committed, and is not the one that it exchanges, or it
    has inserted it. -/
theorem visible_cases (h : Sound s) (hrow : s.visible r tokenId = some row)
    (hunrevoked : row.revoked = false) :
    s.committed tokenId = some row ∧ (s.phase r).holds ≠ some tokenId ∨
      s.pending tokenId = some (r, row) ∧ (s.phase r).inserted = some tokenId := by
  rcases visible_eq_some_iff.1 hrow with hrow | ⟨hno, hrow⟩
  · refine .inr ⟨hrow, ?_⟩
    have hwrites := (h.fits r).writes hrow
    rcases hp : s.phase r with _ | _ | _ | _ | _ | _ | _ | _ | _ <;> rw [hp] at hwrites
    · exact hwrites.elim
    · exact hwrites.elim
    · rw [hwrites.1, Phase.inserted]
    · exact hwrites.elim
    · cases hunrevoked.symm.trans hwrites
    · cases hunrevoked.symm.trans hwrites.2.2
    · cases hunrevoked.symm.trans hwrites
    · cases hunrevoked.symm.trans hwrites.2.2
    · rcases hwrites.2 with ⟨-, hrevoked⟩ | rfl
      · cases hunrevoked.symm.trans hrevoked
      · rfl
  · refine .inl ⟨hrow, fun hheld => ?_⟩
    obtain ⟨row', hrow'⟩ := (h.fits r).holds hheld
    exact hno row' hrow'

namespace Rotating

omit [DecidableEq R] in
/-- A token that is exchanged is not revoked until then. -/
theorem exists_of_issued (h : Rotating s) (hs : Sound s) {response : TokenResponse}
    (hp : s.phase r = .issued tokenId row newId response) :
    ∃ row₀, s.committed tokenId = some row₀ ∧ row₀.tokenFamily = row.tokenFamily ∧
      row₀.tokenHash = row.tokenHash ∧ row₀.revoked = false := by
  obtain ⟨row₀, hrow₀, hfamily, hhash, -⟩ := (hp ▸ hs.fits r).found rfl
  exact ⟨row₀, hrow₀, hfamily, hhash, h.held (r := r) (by rw [hp]; rfl) hrow₀⟩

omit [DecidableEq R] in
/-- Of the family of a token that is inserted, only the one that is exchanged for it is not revoked. -/
theorem revoked_of_inserted (h : Rotating s) (hs : Sound s)
    (hinserted : (s.phase r).inserted = some newId) (hrow' : s.pending newId = some (r, row'))
    (hrow : s.committed tokenId = some row) (hfamily : row.tokenFamily = row'.tokenFamily) :
    ∃ id row₀, (s.phase r).holds = some id ∧ s.committed id = some row₀ ∧
      row₀.revoked = false ∧ row₀.tokenFamily = row'.tokenFamily := by
  have hfits := hs.fits r
  have hwrites := hfits.writes hrow'
  rcases hp : s.phase r with _ | _ | ⟨id, family, response⟩ | _ | _ | _ | _ | _ |
    ⟨id, row₁, newId', response⟩ <;> rw [hp] at hinserted <;> cases hinserted
  · -- A family that has just begun has no other tokens.
    rw [hp] at hfits hwrites
    obtain ⟨hnone, -⟩ := hfits.inserted rfl
    refine absurd (hfamily.trans hwrites.2) (hfits.begun rfl tokenId row (.inl hrow) ?_)
    rintro rfl
    cases hnone.symm.trans hrow
  · obtain ⟨row₀, hrow₀, hfamily₀, -, hunrevoked⟩ := h.exists_of_issued hs hp
    rw [hp] at hwrites
    exact ⟨id, row₀, rfl, hrow₀, hunrevoked, hfamily₀.trans hwrites.1.symm⟩

/-- What a request that commits leaves. -/
theorem commit (h : Rotating s) (hs : Sound s) (hunraced : Unraced s (.commit r))
    {event : Option Event} (hevent : (s.phase r).outcome = some event) :
    Rotating (s.commit r event) := by
  have hmem : ∀ {e}, e ∈ event.toList ++ s.events ↔ event = some e ∨ e ∈ s.events := by
    intro e
    rw [List.mem_append, Option.mem_toList]
  -- What is exchanged was not revoked before.
  have hexchanged : ∀ {row response}, event = some (.exchanged row response) →
      ∃ id row₀, s.committed id = some row₀ ∧ row₀.tokenFamily = row.tokenFamily ∧
        row₀.tokenHash = row.tokenHash ∧ row₀.revoked = false := by
    rintro row response rfl
    rcases hp : s.phase r with _ | _ | _ | _ | ⟨family, _ | _⟩ | _ | _ | _ |
      ⟨id, row₁, newId, response'⟩ <;> rw [hp] at hevent <;> cases hevent
    exact ⟨id, h.exists_of_issued hs hp⟩
  refine ⟨⟨?_, ?_, ?_⟩, ?_, ?_⟩
  · refine List.pairwise_append.2 ⟨?_, h.once, fun e he e' he' => ?_⟩
    · rcases event with _ | e
      · exact .nil
      · exact List.pairwise_singleton _ _
    · rintro row response row' response' rfl rfl hhash
      obtain ⟨id, row₀, hrow₀, -, hhash₀, hunrevoked⟩ := hexchanged (Option.mem_toList.1 he)
      obtain ⟨id', row₁, hrow₁, hhash₁, hrevoked⟩ := hs.exchanged he'
      obtain rfl := hs.unique (.inl hrow₀) (.inl hrow₁) (hhash₀.trans (hhash.trans hhash₁.symm))
      cases hrow₀.symm.trans hrow₁
      cases hunrevoked.symm.trans hrevoked
  · intro id id' row row' hrow hrow' hunrevoked hunrevoked' hfamily
    -- One that is inserted is in the place of the one that is exchanged.
    have hapart : ∀ {id id' row row'}, s.committed id = some row →
        (s.phase r).holds ≠ some id → row.revoked = false → s.pending id' = some (r, row') →
        (s.phase r).inserted = some id' → row.tokenFamily ≠ row'.tokenFamily := by
      intro id id' row row' hrow hnot hunrevoked hrow' hinserted hfamily
      obtain ⟨id₀, row₀, hheld, hrow₀, hunrevoked₀, hfamily₀⟩ :=
        h.revoked_of_inserted hs hinserted hrow' hrow hfamily
      obtain rfl := h.one hrow₀ hrow hunrevoked₀ hunrevoked (hfamily₀.trans hfamily.symm)
      exact hnot hheld
    rcases visible_cases hs hrow hunrevoked with ⟨hold, hnot⟩ | ⟨hnew, hinserted⟩ <;>
      rcases visible_cases hs hrow' hunrevoked' with ⟨hold', hnot'⟩ | ⟨hnew', hinserted'⟩
    · exact h.one hold hold' hunrevoked hunrevoked' hfamily
    · exact absurd hfamily (hapart hold hnot hunrevoked hnew' hinserted')
    · exact absurd hfamily.symm (hapart hold' hnot' hunrevoked' hnew hinserted)
    · exact Option.some.inj (hinserted.symm.trans hinserted')
  · refine List.pairwise_append.2 ⟨?_, h.refused, fun e he e' he' => ?_⟩
    · rcases event with _ | e
      · exact .nil
      · exact List.pairwise_singleton _ _
    · rintro row response family rfl rfl hfamily
      obtain ⟨id, row₀, hrow₀, hfamily₀, -, hunrevoked⟩ := hexchanged (Option.mem_toList.1 he)
      cases hunrevoked.symm.trans (h.dead he' hrow₀ (hfamily₀.trans hfamily))
  · intro q id row hheld hrow
    by_cases hq : q = r
    · subst hq
      simp only [Server.commit, Server.finish, Function.update_self] at hheld
      cases hheld
    · -- The others have locked what they hold.
      simp only [Server.commit, Server.finish, Function.update_of_ne hq] at hheld
      obtain ⟨row', hrow'⟩ := (hs.fits q).holds hheld
      rcases visible_eq_some_iff.1 hrow with hrow | ⟨-, hrow⟩
      · cases hrow.symm.trans hrow'
        exact absurd rfl hq
      · exact h.held hheld hrow
  · intro family id row hreused hrow hfamily
    by_contra hrevoked
    have hunrevoked : row.revoked = false := Bool.eq_false_iff.2 hrevoked
    rcases hmem.1 hreused with rfl | hreused
    · rcases hp : s.phase r with _ | _ | _ | _ | ⟨family', _ | _⟩ | _ | _ | _ | _ <;>
        rw [hp] at hevent <;> cases hevent
      exact hrevoked (hunraced family hp id row hrow hfamily)
    · rcases visible_cases hs hrow hunrevoked with ⟨hold, -⟩ | ⟨hnew, hinserted⟩
      · exact hrevoked (h.dead hreused hold hfamily)
      · obtain ⟨id₁, row₁, hrow₁, hfamily₁⟩ := hs.reused hreused
        obtain ⟨id₀, row₀, -, hrow₀, hunrevoked₀, hfamily₀⟩ :=
          h.revoked_of_inserted hs hinserted hnew hrow₁ (hfamily₁.trans hfamily.symm)
        cases hunrevoked₀.symm.trans (h.dead hreused hrow₀ (hfamily₀.trans hfamily))

theorem abort (h : Rotating s) : Rotating (s.abort r) := by
  refine h.of_same rfl rfl fun {q tokenId} hq => ?_
  by_cases hqr : q = r
  · subst hqr
    simp only [Server.abort, Server.finish, Function.update_self] at hq
    cases hq
  · simp only [Server.abort, Server.finish, Function.update_of_ne hqr] at hq
    exact .inl hq

/-- Tokens are rotated after a step that does not race. -/
theorem step (h : Rotating s) (hs : Sound s) (hunraced : Unraced s a) (hstep : Step env s a s') :
    Rotating s' := by
  rcases hstep with ⟨-, -, -, -, -⟩ | ⟨-, -, -⟩ | ⟨-, -, -⟩ | _ | ⟨-, -, -⟩ | ⟨-, -, -⟩ |
    ⟨hphase, -, -, -, hfound⟩ | ⟨hphase, -, -⟩ | ⟨hphase, -⟩ | ⟨hphase, -⟩ | hends | _ | _
  · exact h.setPhase nofun
  · exact h.write.setPhase nofun
  · exact h.setPhase nofun
  · exact h
  · exact h.setPhase nofun
  · exact h.write.setPhase nofun
  · refine h.write.setPhase fun id hid => .inr fun row hrow => ?_
    cases hid
    -- The request has written nothing yet, so that it sees what is committed.
    rcases visible_eq_some_iff.1 hfound with hwritten | ⟨-, hrow'⟩
    · exact ((hphase ▸ hs.fits _).writes hwritten).elim
    · obtain rfl := Option.some.inj (hrow'.symm.trans hrow)
      exact hunraced _ _ _ hphase hfound
  · exact h.setPhase fun id hid => .inl (hphase ▸ hid)
  · exact h.setPhase nofun
  · exact h.write.setPhase fun id hid => .inl (hphase ▸ hid)
  · exact h.commit hs hunraced hends
  · exact h.abort
  · exact h.of_same rfl rfl .inl

end Rotating

/-! ### Runs -/

omit [DecidableEq R] in
theorem sound_start (users : Uuid → Option User) : Sound (Server.start users : Server R) where
  same := nofun
  unique := by
    rintro id id' row row' (h | ⟨q, h⟩) <;> cases h
  reused := nofun
  exchanged := nofun
  fits r := ⟨nofun, nofun, nofun, nofun, nofun, nofun⟩

omit [DecidableEq R] in
theorem rotating_start (users : Uuid → Option User) : Rotating (Server.start users : Server R) where
  once := .nil
  one := nofun
  refused := .nil
  held := nofun
  dead := nofun

/-- In every run whose steps do not race, tokens are rotated. -/
theorem rotates_of_reachable (h : Reachable env Unraced s) : Rotates s := by
  suffices hall : Sound s ∧ Rotating s from hall.2.toRotates
  induction h with
  | start users => exact ⟨sound_start users, rotating_start users⟩
  | step _ hunraced hstep ih => exact ⟨sound_step ih.1 hstep, ih.2.step ih.1 hunraced hstep⟩

/-! ### Runs of two requests -/

theorem Reachable.mono {Allowed Allowed' : Server R → Action R → Prop}
    (hallowed : ∀ s a, Allowed s a → Allowed' s a) (h : Reachable env Allowed s) :
    Reachable env Allowed' s := by
  induction h with
  | start users => exact .start users
  | step _ ha hstep ih => exact ih.step (hallowed _ _ ha) hstep

/-- Every row that is there is in the list. -/
def Listed (s : Server R) (l : List (Uuid × TokenRow)) : Prop :=
  ∀ id row, s.Known id row → (id, row) ∈ l

theorem listed_write {l : List (Uuid × TokenRow)} (h : Listed s l) :
    Listed (s.write r tokenId row) ((tokenId, row) :: l) := by
  intro id row' hrow'
  rcases known_write hrow' with ⟨rfl, rfl⟩ | hrow'
  · exact List.mem_cons_self
  · exact List.mem_cons_of_mem _ (h id row' hrow')

theorem listed_commit {l : List (Uuid × TokenRow)} {event : Option Event} (h : Listed s l) :
    Listed (s.commit r event) l := by
  rintro id row' (hrow' | ⟨q, hrow'⟩)
  · exact h id row' (known_of_visible hrow')
  · simp only [Server.commit, Server.finish, Option.filter_eq_some_iff] at hrow'
    exact h id row' (.inr ⟨q, hrow'.1⟩)

omit [DecidableEq R] in
theorem newToken_of_listed {l : List (Uuid × TokenRow)} {tokenHash : String} (h : Listed s l)
    (hl : ∀ x ∈ l, x.1 ≠ tokenId ∧ x.2.tokenHash ≠ tokenHash) : s.NewToken tokenId tokenHash :=
  fun id row hrow => hl _ (h id row hrow)

/-- What a refresh returns that inserts a token. -/
def exchangeResponse (env : Env) (row : TokenRow) (user : User) (newId : Uuid) (raw : String) :
    TokenResponse :=
  ⟨env.createAccessToken row.userId user.role 0 newId, raw⟩

/-- The server after a refresh that has found a token has inserted another one. -/
def Server.issue (env : Env) (s : Server R) (r : R) (tokenId : Uuid) (row row' : TokenRow)
    (user : User) (newId : Uuid) (raw : String) : Server R :=
  let s := (s.write r tokenId { row' with revoked := true }).setPhase r (.rotated tokenId row)
  let s := s.setPhase r (.active tokenId row user)
  (s.write r newId ⟨row.userId, row.tokenFamily, env.sha256 raw, false, 0 + refreshTtl⟩).setPhase r
    (.issued tokenId row newId (exchangeResponse env row user newId raw))

/-- The server after it is done. -/
def Server.exchange (env : Env) (s : Server R) (r : R) (tokenId : Uuid) (row row' : TokenRow)
    (user : User) (newId : Uuid) (raw : String) : Server R :=
  (s.issue env r tokenId row row' user newId raw).commit r
    (some (.exchanged row (exchangeResponse env row user newId raw)))

theorem Reachable.exchange {Allowed : Server R → Action R → Prop} {user : User} {raw : String}
    {l : List (Uuid × TokenRow)} (h : Reachable env Allowed s)
    (hphase : s.phase r = .looked tokenId row) (hunrevoked : row.revoked = false)
    (hunexpired : ¬row.expiresAt < 0) (hfree : s.Free r tokenId) (hfound : s.visible r tokenId = some row')
    (huser : s.users row.userId = some user) (hactive : user.isActive = true) (hl : Listed s l)
    (hnew : ∀ x ∈ (tokenId, { row' with revoked := true }) :: l,
      x.1 ≠ newId ∧ x.2.tokenHash ≠ env.sha256 raw)
    (hrevoke : Allowed s (.revoke r))
    (hallowed : ∀ s' a, a = .checkUser r ∨ a = .insert r ∨
      a = .commit r ∧ (s'.phase r).revokes = none → Allowed s' a) :
    Reachable env Allowed (s.exchange env r tokenId row row' user newId raw) := by
  have hrevoked := h.step hrevoke (.revoke hphase hunrevoked hunexpired hfree hfound)
  have hchecked := hrevoked.step (hallowed _ _ (.inl rfl))
    (.userActive (Function.update_self _ _ _) huser hactive)
  have hinserted : Reachable env Allowed (s.issue env r tokenId row row' user newId raw) :=
    hchecked.step (hallowed _ _ (.inr (.inl rfl)))
      (.insertToken (Function.update_self _ _ _) (newToken_of_listed (listed_write hl) hnew))
  refine hinserted.step (hallowed _ _ (.inr (.inr ⟨rfl, ?_⟩))) (.commit ?_) <;>
    simp only [Server.issue, Server.setPhase, Function.update_self] <;> rfl

/-- An environment that hashes nothing. -/
def plainEnv : Env := ⟨id, fun password passwordHash => password == passwordHash,
  fun _ role _ _ => role⟩

def alice : User := ⟨"alice@example.com", "password", "user", true⟩

def aliceOnly : Server Bool := .start fun userId => if userId = 7 then some alice else none

/-- The token of the login of a user. -/
def firstToken : TokenRow := ⟨7, 1, "first", false, 0 + refreshTtl⟩

/-- The server after the login. -/
def aliceLoggedIn : Server Bool :=
  let response : TokenResponse := ⟨"user", "first"⟩
  let s := aliceOnly.setPhase true (.verified 7 alice)
  ((s.write true 1 firstToken).setPhase true (.loggedIn 1 1 response)).commit true
    (some (.login 1 response))

theorem listed_aliceLoggedIn : Listed aliceLoggedIn [(1, firstToken)] := by
  refine listed_commit (listed_write (s := aliceOnly.setPhase true (.verified 7 alice)) ?_)
  rintro id row (h | ⟨q, h⟩) <;> cases h

theorem reachable_aliceLoggedIn : Reachable plainEnv Unraced aliceLoggedIn := by
  have hverified : Reachable plainEnv Unraced (aliceOnly.setPhase true (.verified 7 alice)) :=
    (Reachable.start _).step (a := .login true "alice@example.com" "password") trivial
      (.login rfl rfl rfl rfl rfl)
  have hnone : ∀ id row, ¬(aliceOnly.setPhase true (.verified 7 alice)).Known id row := by
    rintro id row (h | ⟨q, h⟩) <;> cases h
  have hinserted : Reachable plainEnv Unraced
      (((aliceOnly.setPhase true (.verified 7 alice)).write true 1
        ⟨7, 1, plainEnv.sha256 "first", false, 0 + refreshTtl⟩).setPhase true
        (.loggedIn 1 1 ⟨plainEnv.createAccessToken 7 alice.role 0 1, "first"⟩)) :=
    hverified.step (a := .insert true) trivial (.insertLogin rfl
      (fun id row h => absurd h (hnone id row)) fun id row h => absurd h (hnone id row))
  exact hinserted.step (a := .commit true) (fun family h => by cases h) (.commit rfl)

/-- The server after both have found the token of the login. -/
def bothLooked : Server Bool :=
  (aliceLoggedIn.setPhase true (.looked 1 firstToken)).setPhase false (.looked 1 firstToken)

/-- The server after one has exchanged it. -/
def exchangedOnce (s : Server Bool) : Server Bool :=
  s.exchange plainEnv true 1 firstToken firstToken alice 2 "second"

/-- The server after the other has exchanged it, too. -/
def exchangedTwice : Server Bool :=
  (exchangedOnce bothLooked).exchange plainEnv false 1 firstToken { firstToken with revoked := true }
    alice 3 "third"

theorem listed_exchangedOnce {s : Server Bool} (h : Listed s [(1, firstToken)]) :
    Listed (exchangedOnce s) [(2, ⟨7, 1, "second", false, 0 + refreshTtl⟩),
      (1, { firstToken with revoked := true }), (1, firstToken)] :=
  listed_commit (listed_write (listed_write h))

/-- If each has found the token before the other has revoked it, both exchange it. -/
theorem not_rotates_exchangedTwice :
    ¬∀ s : Server Bool, Reachable plainEnv (fun _ _ => True) s → Rotates s := by
  intro hall
  have hlogin : Reachable plainEnv (fun _ _ => True) aliceLoggedIn :=
    reachable_aliceLoggedIn.mono fun _ _ _ => trivial
  have hlooked : Reachable plainEnv (fun _ _ => True) bothLooked :=
    (hlogin.step (a := .lookup true "first") trivial (.lookup rfl rfl rfl)).step
      (a := .lookup false "first") trivial (.lookup rfl rfl rfl)
  have honce : Reachable plainEnv (fun _ _ => True) (exchangedOnce bothLooked) :=
    hlooked.exchange rfl rfl (by decide) nofun rfl rfl rfl listed_aliceLoggedIn (by decide) trivial
      fun _ _ _ => trivial
  have htwice : Reachable plainEnv (fun _ _ => True) exchangedTwice :=
    honce.exchange rfl rfl (by decide) nofun rfl rfl rfl (listed_exchangedOnce listed_aliceLoggedIn) (by decide)
      trivial fun _ _ _ => trivial
  have hevents := (hall _ htwice).once
  exact absurd rfl ((List.pairwise_cons.1 hevents).1 _ List.mem_cons_self _ _ _ _ rfl rfl)

/-- If the other has not, the token is exchanged once. -/
theorem rotates_exchangedOnce : Rotates (exchangedOnce (aliceLoggedIn.setPhase true
    (.looked 1 firstToken))) := by
  have hlooked : Reachable plainEnv Unraced (aliceLoggedIn.setPhase true (.looked 1 firstToken)) :=
    reachable_aliceLoggedIn.step (a := .lookup true "first") trivial (.lookup rfl rfl rfl)
  refine rotates_of_reachable (hlooked.exchange rfl rfl (by decide) nofun rfl rfl rfl listed_aliceLoggedIn
    (by decide) ?_ ?_)
  · intro id row row' hphase hfound
    cases hphase
    cases hfound
    rfl
  · rintro s' a (rfl | rfl | ⟨rfl, hrevokes⟩)
    · trivial
    · trivial
    · intro family hphase
      rw [hphase] at hrevokes
      cases hrevokes

end Auth

end AslanCore
