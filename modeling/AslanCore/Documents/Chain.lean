import AslanCore.Documents.Effect
import AslanCore.Process.Alone

/-!
# Chains of revisions

The rows of a reference are a chain, in every set of rows that a writer sees: their revisions are
numbered from 1 on, and each one has the one before it as the previous filing (`IsChain`,
`Chained`).

A writer that inserts a revision holds the lock of the reference, from before it reads the latest
one to the end of its transaction. So no two writers have inserted revisions of one reference
(`Chained.locked`), and a writer without the lock sees those that are committed
(`Chained.links_view`).
-/

set_option linter.unusedSectionVars false

namespace AslanCore

namespace Documents

open Database

/-! ### Links -/

/-- What a chain is made of. -/
structure Link where
  primarySha256 : String
  filingId : PgUuid
  revisionNo : ℕ
  previousFilingId : Option PgUuid
  isAmendment : Bool
  deriving DecidableEq

def FilingRow.link (row : FilingRow) : Link where
  primarySha256 := row.primarySha256
  filingId := row.filingId
  revisionNo := row.revisionNo
  previousFilingId := row.previousFilingId
  isAmendment := row.isAmendment

/-- The row is one of the reference, with this link. -/
def LinkAt (row? : Option FilingRow) (ref : String) (x : Link) : Prop :=
  ∃ row, row? = some row ∧ row.sourceFilingRef = ref ∧ row.link = x

/-- The links of the rows of a reference. -/
def Links (w : (k : Key) → Option (RowOf k)) (source ref : String) (x : Link) : Prop :=
  LinkAt (w (.filing source x.primarySha256)) ref x

/-- The revisions after `n`, when `previous` is the filing of revision `n`. -/
def Numbered : Option PgUuid → ℕ → List Link → Prop
  | _, _, [] => True
  | previous, n, x :: xs =>
    (x.revisionNo = n + 1 ∧ x.previousFilingId = previous ∧ x.isAmendment = previous.isSome) ∧
      Numbered (some x.filingId) (n + 1) xs

/-- The links are those of the list, which are numbered from 1 on. -/
structure IsChain (L : Link → Prop) (l : List Link) : Prop where
  mem : ∀ x, L x ↔ x ∈ l
  numbered : Numbered none 0 l

section Numbered

variable {previous : Option PgUuid} {n : ℕ} {l : List Link} {x : Link}

/-- The filing of the last revision. -/
def lastFiling (previous : Option PgUuid) (l : List Link) : Option PgUuid :=
  match l.getLast? with
  | none => previous
  | some x => some x.filingId

theorem lastFiling_cons : lastFiling previous (x :: l) = lastFiling (some x.filingId) l := by
  rw [lastFiling, lastFiling, List.getLast?_cons]
  cases l.getLast? <;> rfl

theorem Numbered.append (h : Numbered previous n l) (hrevision : x.revisionNo = n + l.length + 1)
    (hprevious : x.previousFilingId = lastFiling previous l)
    (hamendment : x.isAmendment = (lastFiling previous l).isSome) :
    Numbered previous n (l ++ [x]) := by
  induction l generalizing previous n with
  | nil => exact ⟨⟨hrevision, hprevious, hamendment⟩, trivial⟩
  | cons y l ih =>
    refine ⟨h.1, ih h.2 ?_ ?_ ?_⟩
    · rw [hrevision, List.length_cons]
      omega
    · rw [hprevious, lastFiling_cons]
    · rw [hamendment, lastFiling_cons]

/-- The revisions of the list, one by one. -/
theorem Numbered.getElem (h : Numbered previous n l) {i : ℕ} (hi : i < l.length) :
    l[i].revisionNo = n + i + 1 ∧ l[i].previousFilingId = lastFiling previous (l.take i) ∧
      l[i].isAmendment = (lastFiling previous (l.take i)).isSome := by
  induction l generalizing previous n i with
  | nil => exact absurd hi (Nat.not_lt_zero _)
  | cons y l ih =>
    cases i with
    | zero => exact h.1
    | succ i =>
      obtain ⟨h₁, h₂, h₃⟩ := ih h.2 (Nat.lt_of_succ_lt_succ hi)
      rw [List.take_succ_cons, lastFiling_cons]
      exact ⟨by rw [List.getElem_cons_succ, h₁]; omega, h₂, h₃⟩

/-- The revisions of the list are in order. -/
theorem Numbered.pairwise (h : Numbered previous n l) :
    l.Pairwise fun x y => x.revisionNo < y.revisionNo := by
  rw [List.pairwise_iff_getElem]
  intro i j hi hj hij
  rw [(h.getElem hi).1, (h.getElem hj).1]
  omega

theorem Numbered.revisionNo_le (h : Numbered previous n l) (hx : x ∈ l) :
    x.revisionNo ≤ n + l.length := by
  obtain ⟨i, hi, rfl⟩ := List.getElem_of_mem hx
  rw [(h.getElem hi).1]
  omega

/-- A revision is in the list once. -/
theorem Numbered.eq_of_revisionNo (h : Numbered previous n l) {y : Link} (hx : x ∈ l) (hy : y ∈ l)
    (heq : x.revisionNo = y.revisionNo) : x = y := by
  obtain ⟨i, hi, rfl⟩ := List.getElem_of_mem hx
  obtain ⟨j, hj, rfl⟩ := List.getElem_of_mem hy
  rw [(h.getElem hi).1, (h.getElem hj).1] at heq
  have hij : i = j := by omega
  subst hij
  rfl

theorem Numbered.nodup (h : Numbered previous n l) : l.Nodup :=
  h.pairwise.imp fun hlt heq => by
    rw [heq] at hlt
    exact absurd hlt (lt_irrefl _)

theorem Numbered.revisionNo_getLast (h : Numbered previous n l) (hx : l.getLast? = some x) :
    x.revisionNo = n + l.length := by
  rw [List.getLast?_eq_getElem?] at hx
  obtain ⟨hlt, rfl⟩ := List.getElem?_eq_some_iff.1 hx
  rw [(h.getElem hlt).1]
  omega

end Numbered

/-! ### The rows of a reference, as lists -/

section Lists

variable {source ref : String} {rows : List FilingRow} {l : List Link}

/-- The last revision of the chain is read. -/
theorem latestRevision_eq (hl : Numbered none 0 l)
    (hrows : ((rows.filter (IsOf source ref)).map FilingRow.link).Perm l) :
    (latestRevision source ref rows).map FilingRow.link = l.getLast? := by
  have hsorted := pairwise_orderBy (fun row => OrderDual.toDual row.revisionNo)
    (rows.filter (IsOf source ref))
  have hperm := (perm_orderBy (fun row => OrderDual.toDual row.revisionNo)
    (rows.filter (IsOf source ref))).map FilingRow.link |>.trans hrows
  rw [latestRevision]
  cases hS : orderBy (fun row => OrderDual.toDual row.revisionNo) (rows.filter (IsOf source ref)) with
  | nil =>
    rw [hS, List.map_nil, List.nil_perm] at hperm
    rw [hperm]
    rfl
  | cons a S =>
    rw [hS] at hperm hsorted
    have ha : a.link ∈ l := hperm.subset List.mem_cons_self
    obtain ⟨z, hz⟩ : ∃ z, l.getLast? = some z := by
      cases hz : l.getLast? with
      | some z => exact ⟨z, rfl⟩
      | none => exact absurd (List.getLast?_eq_none_iff.1 hz ▸ ha) List.not_mem_nil
    have hzl : z ∈ l := List.mem_of_getLast? hz
    obtain ⟨b, hb, rfl⟩ := List.mem_map.1 (hperm.symm.subset hzl)
    -- No revision is larger than the first one, and the last one of the list is the largest.
    have hle : b.revisionNo ≤ a.revisionNo := by
      rcases List.mem_cons.1 hb with rfl | hb
      · exact le_rfl
      · exact (List.pairwise_cons.1 hsorted).1 b hb
    have hge := hl.revisionNo_le ha
    have hlast := hl.revisionNo_getLast hz
    have heq : a.link = b.link := hl.eq_of_revisionNo ha hzl (le_antisymm (hge.trans hlast.ge) hle)
    rw [hz, List.head?_cons, Option.map_some, heq]

theorem foldr_max_of_numbered {previous : Option PgUuid} {n : ℕ} (hl : Numbered previous n l) :
    (l.map Link.revisionNo).foldr max 0 = if l = [] then 0 else n + l.length := by
  induction l generalizing previous n with
  | nil => rfl
  | cons x l ih =>
    rw [List.map_cons, List.foldr_cons, ih hl.2, hl.1.1, if_neg (List.cons_ne_nil x l),
      List.length_cons]
    split_ifs with hnil
    · rw [hnil, List.length_nil]
      omega
    · omega

/-- The next revision follows the last one of the chain. -/
theorem nextRevision_eq (hl : Numbered none 0 l)
    (hrows : ((rows.filter (IsOf source ref)).map FilingRow.link).Perm l) :
    nextRevision source ref rows = l.length + 1 := by
  have hmap : (rows.filter (IsOf source ref)).map (fun row => row.revisionNo) =
      ((rows.filter (IsOf source ref)).map FilingRow.link).map Link.revisionNo := by
    rw [List.map_map]
    rfl
  rw [nextRevision, hmap, (hrows.map Link.revisionNo).foldr_eq, foldr_max_of_numbered hl]
  split_ifs with hnil
  · rw [hnil]
    rfl
  · omega

/-- The rows in the order of their revisions are the chain. -/
theorem map_link_orderBy (hl : Numbered none 0 l)
    (hrows : ((rows.filter (IsOf source ref)).map FilingRow.link).Perm l) :
    (orderBy (fun row => row.revisionNo) (rows.filter (IsOf source ref))).map FilingRow.link = l := by
  have hperm := (perm_orderBy (fun row => row.revisionNo)
    (rows.filter (IsOf source ref))).map FilingRow.link |>.trans hrows
  have hsorted := pairwise_orderBy (fun row => row.revisionNo) (rows.filter (IsOf source ref))
  have hle : l.Pairwise fun x y => x.revisionNo ≤ y.revisionNo :=
    hl.pairwise.imp fun h => le_of_lt h
  refine List.Perm.eq_of_pairwise (fun x y hx hy hxy hyx => ?_) ?_ hle hperm
  · exact hl.eq_of_revisionNo (hperm.subset hx) hy (le_antisymm hxy hyx)
  · exact List.pairwise_map.2 hsorted

end Lists

/-! ### The rows that writers see -/

/-- What holds of every version of every row: filings are not deleted, and are found under their
    keys. -/
def RowOk (hashes : List (String × String)) : (k : Key) → Option (RowOf k) → Prop
  | .filing _ _, none => False
  | .filing source sha, some row =>
    row.sourceId = source ∧ row.primarySha256 = sha ∧ (source, sha) ∈ hashes
  | _, _ => True

/-- The rows under their keys. -/
def Filed (hashes : List (String × String)) (w : (k : Key) → Option (RowOf k)) : Prop :=
  ∀ {source sha row}, w (.filing source sha) = some row →
    row.sourceId = source ∧ row.primarySha256 = sha ∧ (source, sha) ∈ hashes

/-- The filings among some rows. -/
def filingsOf (hashes : List (String × String)) (w : (k : Key) → Option (RowOf k)) :
    List FilingRow :=
  hashes.filterMap fun h => w (.filing h.1 h.2)

section Filed

variable {hashes : List (String × String)} {w : (k : Key) → Option (RowOf k)} {source ref : String}
  {row : FilingRow}

theorem mem_filingsOf_iff (h : Filed hashes w) :
    row ∈ filingsOf hashes w ↔ ∃ source sha, w (.filing source sha) = some row := by
  rw [filingsOf, List.mem_filterMap]
  constructor
  · rintro ⟨k, -, hk⟩
    exact ⟨k.1, k.2, hk⟩
  · rintro ⟨source, sha, hrow⟩
    exact ⟨(source, sha), (h hrow).2.2, hrow⟩

theorem mem_filingsOf_of {sha : String} (h : Filed hashes w)
    (hrow : w (.filing source sha) = some row) : row ∈ filingsOf hashes w :=
  (mem_filingsOf_iff h).2 ⟨source, sha, hrow⟩

/-- No two filings have the same source and the same hash. -/
theorem pairwise_filingsOf (h : Filed hashes w) (hnodup : hashes.Nodup) :
    (filingsOf hashes w).Pairwise fun a b =>
      (a.sourceId, a.primarySha256) ≠ (b.sourceId, b.primarySha256) := by
  refine List.Pairwise.filterMap _ ?_ hnodup
  intro k k' hne a ha b hb heq
  obtain ⟨hsource, hsha, -⟩ := h ha
  obtain ⟨hsource', hsha', -⟩ := h hb
  rw [hsource, hsha, hsource', hsha'] at heq
  exact hne heq

/-- The rows of a reference have the links of the reference. -/
theorem perm_of_isChain {l : List Link} (h : Filed hashes w) (hnodup : hashes.Nodup)
    (hl : IsChain (Links w source ref) l) :
    (((filingsOf hashes w).filter (IsOf source ref)).map FilingRow.link).Perm l := by
  have hmem : ∀ {a}, a ∈ (filingsOf hashes w).filter (IsOf source ref) → a.sourceId = source :=
    fun ha => (of_decide_eq_true (List.mem_filter.1 ha).2).1
  refine (List.perm_ext_iff_of_nodup ?_ hl.numbered.nodup).2 fun x => ?_
  · refine List.pairwise_map.2 (((pairwise_filingsOf h hnodup).filter _).imp_of_mem ?_)
    intro a b ha hb hne hlink
    exact hne (by rw [hmem ha, hmem hb, show a.primarySha256 = b.primarySha256 from
      congrArg Link.primarySha256 hlink])
  · rw [← hl.mem, List.mem_map]
    constructor
    · rintro ⟨row, hrow, rfl⟩
      obtain ⟨hrow, hof⟩ := List.mem_filter.1 hrow
      obtain ⟨source', sha, hw⟩ := (mem_filingsOf_iff h).1 hrow
      obtain ⟨hsource, hsha, -⟩ := h hw
      obtain ⟨hof, href⟩ := of_decide_eq_true hof
      refine ⟨row, ?_, href, rfl⟩
      rw [← hw, ← hsource, hof, ← hsha]
      rfl
    · rintro ⟨row, hw, href, rfl⟩
      exact ⟨row, List.mem_filter.2 ⟨mem_filingsOf_of h hw, decide_eq_true ⟨(h hw).1, href⟩⟩, rfl⟩

end Filed

variable {P : Type} [DecidableEq P]

/-- The row is committed, or is to be. -/
def Occurs (db : Database P Key RowOf) (source sha : String) (row : FilingRow) : Prop :=
  db.committed (.filing source sha) = some row ∨
    ∃ t, db.pending t (.filing source sha) = some (some row)

/-- A row keeps its link, and a new row is under the lock of its reference. -/
structure Linked (env : Env) (hashes : List (String × String)) (db : Database P Key RowOf) :
    Prop where
  nodup : hashes.Nodup
  saved : ∀ t, db.saved t = none
  rows : db.All (RowOk hashes)
  kept : ∀ {t source sha row row₀}, db.pending t (.filing source sha) = some (some row) →
    db.committed (.filing source sha) = some row₀ →
      row.link = row₀.link ∧ row.sourceFilingRef = row₀.sourceFilingRef
  locked : ∀ {t source sha row}, db.pending t (.filing source sha) = some (some row) →
    db.committed (.filing source sha) = none →
      db.owner (World.lockKey env source row.sourceFilingRef) = some t
  distinct : ∀ {source sha row source' sha' row'}, Occurs db source sha row →
    Occurs db source' sha' row' → row.filingId = row'.filingId → source = source' ∧ sha = sha'

/-- The rows of a reference are a chain, whoever sees them. -/
structure Chained (env : Env) (hashes : List (String × String)) (db : Database P Key RowOf) :
    Prop extends Linked env hashes db where
  chain : ∀ source ref, ∃ l, IsChain (Links db.committed source ref) l
  chainOf : ∀ t source ref, ∃ l, IsChain (Links (db.view t) source ref) l

section

variable {env : Env} {hashes : List (String × String)} {db db' : Database P Key RowOf} {t p : P}
  {source sha ref : String} {row row' : FilingRow} {st : Status} {x : Link}

theorem occurs_of_view (h : db.view t (.filing source sha) = some row) : Occurs db source sha row := by
  cases hp : db.pending t (.filing source sha) with
  | none =>
    rw [view, hp, Option.getD_none] at h
    exact .inl h
  | some w =>
    rw [view, hp, Option.getD_some] at h
    exact .inr ⟨t, h ▸ hp⟩

theorem links_congr {w w' : (k : Key) → Option (RowOf k)}
    (h : w' (.filing source x.primarySha256) = w (.filing source x.primarySha256)) :
    Links w' source ref x ↔ Links w source ref x := by
  rw [Links, Links, h]

theorem links_iff {w : (k : Key) → Option (RowOf k)}
    (h : w (.filing source x.primarySha256) = some row) :
    Links w source ref x ↔ row.sourceFilingRef = ref ∧ row.link = x := by
  simp only [Links, LinkAt, h, Option.some.injEq, exists_eq_left']

namespace Linked

theorem not_deleted (h : Linked env hashes db) :
    db.pending t (.filing source sha) ≠ some none :=
  fun hp => h.rows (.filing source sha) none (.pending hp)

theorem rowOk (h : Linked env hashes db) (hrow : Occurs db source sha row) :
    row.sourceId = source ∧ row.primarySha256 = sha ∧ (source, sha) ∈ hashes := by
  rcases hrow with hrow | ⟨t, hrow⟩
  · exact h.rows (.filing source sha) (some row) (.committed hrow)
  · exact h.rows (.filing source sha) (some row) (.pending hrow)

/-- What a writer sees of a row that is committed has the same link. -/
theorem view_kept (h : Linked env hashes db) (hrow : db.committed (.filing source sha) = some row) :
    ∃ row', db.view t (.filing source sha) = some row' ∧ row'.link = row.link ∧
      row'.sourceFilingRef = row.sourceFilingRef := by
  cases hp : db.pending t (.filing source sha) with
  | none => exact ⟨row, by rw [view, hp, Option.getD_none, hrow], rfl, rfl⟩
  | some w =>
    cases w with
    | none => exact absurd hp h.not_deleted
    | some row' => exact ⟨row', by rw [view, hp, Option.getD_some], h.kept hp hrow⟩

/-- Without the lock of a reference, a writer sees the links that are committed. -/
theorem links_view (h : Linked env hashes db)
    (hlock : db.owner (World.lockKey env source ref) ≠ some t) :
    Links (db.view t) source ref x ↔ Links db.committed source ref x := by
  cases hp : db.pending t (.filing source x.primarySha256) with
  | none => exact links_congr (by rw [view, hp, Option.getD_none])
  | some w =>
    have hview : db.view t (.filing source x.primarySha256) = w := by rw [view, hp, Option.getD_some]
    cases w with
    | none => exact absurd hp h.not_deleted
    | some row =>
      cases hc : db.committed (.filing source x.primarySha256) with
      | none =>
        constructor
        · rintro ⟨row', hrow', href, -⟩
          rw [hview] at hrow'
          cases hrow'
          exact absurd (href ▸ h.locked hp hc) hlock
        · rintro ⟨row', hrow', -⟩
          rw [hc] at hrow'
          cases hrow'
      | some row₀ =>
        obtain ⟨hlink, href⟩ := h.kept hp hc
        rw [links_iff hview, links_iff hc, hlink, href]

end Linked

namespace Chained

/-! #### What each effect keeps -/

/-- Nothing changes but locks, and rows that are no filings. -/
theorem congr (h : Chained env hashes db) (hsaved : ∀ t, db'.saved t = none)
    (hrows : db'.All (RowOk hashes))
    (hpending : ∀ t source sha, db'.pending t (.filing source sha) = db.pending t (.filing source sha))
    (hcommitted : db'.committed = db.committed)
    (howner : ∀ n t, db.owner (.advisory n) = some t → db'.owner (.advisory n) = some t) :
    Chained env hashes db' where
  nodup := h.nodup
  saved := hsaved
  rows := hrows
  kept hp hc := h.kept (hpending _ _ _ ▸ hp) (hcommitted ▸ hc)
  locked hp hc := howner _ _ (h.locked (hpending _ _ _ ▸ hp) (hcommitted ▸ hc))
  distinct {source sha row source' sha' row'} h₁ h₂ := by
    simp only [Occurs, hpending, hcommitted] at h₁ h₂
    exact h.distinct h₁ h₂
  chain := hcommitted ▸ h.chain
  chainOf t source ref := by
    obtain ⟨l, hl⟩ := h.chainOf t source ref
    refine ⟨l, fun x => ?_, hl.numbered⟩
    rw [← hl.mem, links_congr]
    rw [view, view, hpending, hcommitted]

/-- A hash is added. -/
theorem insertHash (h : Chained env hashes db) (k : String × String) :
    Chained env (hashes.insert k) db where
  nodup := h.nodup.insert
  saved := h.saved
  rows := h.rows.mono fun k' w hw => by
    cases k' with
    | filing source sha =>
      cases w with
      | none => exact hw
      | some row => exact ⟨hw.1, hw.2.1, List.mem_insert_of_mem hw.2.2⟩
    | attachment | audit | advisory => trivial
  kept := h.kept
  locked := h.locked
  distinct := h.distinct
  chain := h.chain
  chainOf := h.chainOf

theorem lockRow {k : Key} {fu : Bool} {hl : db.CanLock t k fu} (h : Chained env hashes db) :
    Chained env hashes (db.lockRow t k fu hl) := by
  refine h.congr h.saved h.rows.lockRow (fun _ _ _ => rfl) rfl fun n t' ho => ?_
  rw [owner_lockRow]
  by_cases hk : Key.advisory n = k
  · subst hk
    rw [Function.update_self, hl.1 t' ho]
  · rwa [Function.update_of_ne hk]

theorem addRef {k : Key} (h : Chained env hashes db) : Chained env hashes (db.addRef t k) :=
  h.congr h.saved h.rows.addRef (fun _ _ _ => rfl) rfl fun _ _ ho => ho

theorem put_other {k : Key} {row : RowOf k} {hl : db.CanLock t k false}
    (h : Chained env hashes db) (hk : ∀ source sha, k ≠ .filing source sha) :
    Chained env hashes (db.put t k (some row) false hl) := by
  refine h.congr h.saved (h.rows.put ?_) (fun t' source sha => ?_) rfl fun n t' ho => ?_
  · cases k with
    | filing source sha => exact absurd rfl (hk source sha)
    | attachment | audit | advisory => trivial
  · rw [pending_put]
    by_cases ht : t' = t
    · subst ht
      rw [Function.update_self, Function.update_of_ne (hk source sha).symm]
    · rw [Function.update_of_ne ht]
  · rw [owner_put]
    by_cases hn : Key.advisory n = k
    · subst hn
      rw [Function.update_self, hl.1 t' ho]
    · rwa [Function.update_of_ne hn]

theorem abort (h : Chained env hashes db) : Chained env hashes (db.abort p st) := by
  have hpending : ∀ {t k w}, (db.abort p st).pending t k = some w → t ≠ p ∧ db.pending t k = some w := by
    intro t k w hw
    by_cases ht : t = p
    · subst ht
      rw [pending_abort_self] at hw
      cases hw
    · exact ⟨ht, by simpa [Database.abort, finish, ht] using hw⟩
  have hoccurs : ∀ {source sha row}, Occurs (db.abort p st) source sha row → Occurs db source sha row := by
    rintro source sha row (hc | ⟨t, hp⟩)
    · exact .inl hc
    · exact .inr ⟨t, (hpending hp).2⟩
  refine ⟨⟨h.nodup, fun t => ?_, h.rows.abort, fun hp hc => h.kept (hpending hp).2 hc,
    fun hp hc => ?_, fun h₁ h₂ => h.distinct (hoccurs h₁) (hoccurs h₂)⟩, h.chain,
    fun t source ref => ?_⟩
  · by_cases ht : t = p
    · subst ht
      exact saved_abort_self
    · exact ((frame_abort ht).saved).trans (h.saved t)
  · obtain ⟨ht, hp⟩ := hpending hp
    exact ((frame_abort ht).owner _).2 (h.locked hp hc)
  · by_cases ht : t = p
    · subst ht
      obtain ⟨l, hl⟩ := h.chain source ref
      refine ⟨l, fun x => ?_, hl.numbered⟩
      rw [← hl.mem, links_congr]
      rw [view, pending_abort_self]
      rfl
    · obtain ⟨l, hl⟩ := h.chainOf t source ref
      refine ⟨l, fun x => ?_, hl.numbered⟩
      rw [← hl.mem, links_congr]
      rw [view, view, (frame_abort ht).pending]
      rfl

theorem fail (h : Chained env hashes db) : Chained env hashes (db.fail p) := by
  rw [Database.fail]
  split
  · rename_i sp hsp
    rw [h.saved p] at hsp
    cases hsp
  · exact h.abort

/-- A writer that holds the lock of a reference sees the same links when another one commits. -/
theorem links_commitTx (h : Chained env hashes db) (ht : t ≠ p)
    (hlock : db.owner (World.lockKey env source ref) = some t) :
    Links ((db.commitTx p st).view t) source ref x ↔ Links (db.view t) source ref x := by
  have hframe : Frame t db (db.commitTx p st) := frame_commitTx ht
  have hpending := hframe.pending
  cases hp : db.pending t (.filing source x.primarySha256) with
  | some w => exact links_congr (by rw [view, view, hpending, hp, Option.getD_some, Option.getD_some])
  | none =>
    have hcommit : Links ((db.commitTx p st).view t) source ref x ↔ Links (db.view p) source ref x :=
      links_congr (by rw [view, hpending, hp, Option.getD_none, committed_commitTx])
    have hview : Links (db.view t) source ref x ↔ Links db.committed source ref x :=
      links_congr (by rw [view, hp, Option.getD_none])
    rw [hcommit, hview, h.links_view fun hp => ht (Option.some.inj (hlock.symm.trans hp))]

theorem commitTx (h : Chained env hashes db) : Chained env hashes (db.commitTx p st) := by
  have hpending : ∀ {t k w}, (db.commitTx p st).pending t k = some w →
      t ≠ p ∧ db.pending t k = some w := by
    intro t k w hw
    by_cases ht : t = p
    · subst ht
      rw [pending_commitTx_self] at hw
      cases hw
    · exact ⟨ht, by simpa [Database.commitTx, finish, ht] using hw⟩
  -- What another writer has written, `p` has not.
  have hcommitted : ∀ {t k w}, (db.commitTx p st).pending t k = some w →
      (db.commitTx p st).committed k = db.committed k := by
    intro t k w hw
    obtain ⟨ht, hp⟩ := hpending hw
    refine view_eq_committed fun ho => ht ?_
    have howner := db.owner_of_pending t k (by rw [hp]; rfl)
    exact Option.some.inj (howner.symm.trans ho)
  have hoccurs : ∀ {source sha row}, Occurs (db.commitTx p st) source sha row →
      Occurs db source sha row := by
    rintro source sha row (hc | ⟨t, hp⟩)
    · exact occurs_of_view hc
    · exact .inr ⟨t, (hpending hp).2⟩
  have hlinked : Linked env hashes (db.commitTx p st) := by
    refine ⟨h.nodup, fun t => ?_, h.rows.commitTx,
      fun hp hc => h.kept (hpending hp).2 ((hcommitted hp).symm.trans hc), fun hp hc => ?_,
      fun h₁ h₂ => h.distinct (hoccurs h₁) (hoccurs h₂)⟩
    · by_cases ht : t = p
      · subst ht
        exact saved_commitTx_self
      · exact ((frame_commitTx ht).saved).trans (h.saved t)
    · obtain ⟨ht, hp'⟩ := hpending hp
      exact ((frame_commitTx ht).owner _).2 (h.locked hp' ((hcommitted hp).symm.trans hc))
  refine ⟨hlinked, fun source ref => h.chainOf p source ref, fun t source ref => ?_⟩
  by_cases hlock : (db.commitTx p st).owner (World.lockKey env source ref) = some t
  · have ht : t ≠ p := by
      rintro rfl
      exact owner_commitTx_self hlock
    obtain ⟨l, hl⟩ := h.chainOf t source ref
    refine ⟨l, fun x => ?_, hl.numbered⟩
    rw [← hl.mem, h.links_commitTx ht (((frame_commitTx ht).owner _).1 hlock)]
  · obtain ⟨l, hl⟩ := h.chainOf p source ref
    refine ⟨l, fun x => ?_, hl.numbered⟩
    rw [← hl.mem, hlinked.links_view hlock, committed_commitTx]

end Chained

/-! #### Filings that are written -/

section Put

variable {hl : db.CanLock p (.filing source sha) false}

theorem occurs_put {source' sha' : String} {row' : FilingRow}
    (h : Occurs (db.put p (.filing source sha) (some row) false hl) source' sha' row') :
    (source' = source ∧ sha' = sha ∧ row' = row) ∨ Occurs db source' sha' row' := by
  rcases h with hc | ⟨t, hp⟩
  · exact .inr (.inl hc)
  · rw [pending_put] at hp
    by_cases ht : t = p
    · subst ht
      rw [Function.update_self] at hp
      by_cases hk : Key.filing source' sha' = .filing source sha
      · obtain ⟨rfl, rfl⟩ := Key.filing.inj hk
        rw [Function.update_self] at hp
        exact .inl ⟨rfl, rfl, (Option.some.inj (Option.some.inj hp)).symm⟩
      · rw [Function.update_of_ne hk] at hp
        exact .inr (.inr ⟨t, hp⟩)
    · rw [Function.update_of_ne ht] at hp
      exact .inr (.inr ⟨t, hp⟩)

theorem view_put_other {t : P} {k : Key} (ht : t ≠ p) :
    (db.put p (.filing source sha) (some row) false hl).view t k = db.view t k := by
  rw [view, view, pending_put, Function.update_of_ne ht, committed_put]

theorem Linked.put (h : Linked env hashes db)
    (hrow : row.sourceId = source ∧ row.primarySha256 = sha ∧ (source, sha) ∈ hashes)
    (hkept : ∀ row₀, db.committed (.filing source sha) = some row₀ →
      row.link = row₀.link ∧ row.sourceFilingRef = row₀.sourceFilingRef)
    (hlocked : db.committed (.filing source sha) = none →
      db.owner (World.lockKey env source row.sourceFilingRef) = some p)
    (hdistinct : ∀ source' sha' row', Occurs db source' sha' row' → row'.filingId = row.filingId →
      source' = source ∧ sha' = sha) :
    Linked env hashes (db.put p (.filing source sha) (some row) false hl) := by
  have hpending : ∀ {t source' sha' row'},
      (db.put p (.filing source sha) (some row) false hl).pending t (.filing source' sha') =
        some (some row') → (t = p ∧ source' = source ∧ sha' = sha ∧ row' = row) ∨
          db.pending t (.filing source' sha') = some (some row') := by
    intro t source' sha' row' hp
    rw [pending_put] at hp
    by_cases ht : t = p
    · subst ht
      rw [Function.update_self] at hp
      by_cases hk : Key.filing source' sha' = .filing source sha
      · obtain ⟨rfl, rfl⟩ := Key.filing.inj hk
        rw [Function.update_self] at hp
        exact .inl ⟨rfl, rfl, rfl, (Option.some.inj (Option.some.inj hp)).symm⟩
      · rw [Function.update_of_ne hk] at hp
        exact .inr hp
    · rw [Function.update_of_ne ht] at hp
      exact .inr hp
  have howner : ∀ n, (db.put p (.filing source sha) (some row) false hl).owner (.advisory n) =
      db.owner (.advisory n) := fun n => by
    rw [owner_put, Function.update_of_ne Key.noConfusion]
  refine ⟨h.nodup, h.saved, h.rows.put hrow, fun hp hc => ?_, fun hp hc => ?_, fun h₁ h₂ hid => ?_⟩
  · rcases hpending hp with ⟨rfl, rfl, rfl, rfl⟩ | hp
    · exact hkept _ hc
    · exact h.kept hp hc
  · rw [World.lockKey, howner]
    rcases hpending hp with ⟨rfl, rfl, rfl, rfl⟩ | hp
    · exact hlocked hc
    · exact h.locked hp hc
  · rcases occurs_put h₁ with ⟨rfl, rfl, rfl⟩ | h₁' <;>
      rcases occurs_put h₂ with ⟨rfl, rfl, rfl⟩ | h₂'
    · exact ⟨rfl, rfl⟩
    · obtain ⟨hsource, hsha⟩ := hdistinct _ _ _ h₂' hid.symm
      exact ⟨hsource.symm, hsha.symm⟩
    · exact hdistinct _ _ _ h₁' hid
    · exact h.distinct h₁' h₂' hid

theorem republish_eq (row : FilingRow) (ref : String) (actor : Option Actor) :
    (row.republish ref actor).link = row.link ∧
      (row.republish ref actor).sourceId = row.sourceId ∧
      (row.republish ref actor).sourceFilingRef = row.sourceFilingRef := by
  rw [FilingRow.republish]
  split_ifs <;> exact ⟨rfl, rfl, rfl⟩

/-- A row that is republished keeps its link. -/
theorem Chained.republish {actor : Option Actor} (h : Chained env hashes db)
    (hrow : db.view p (.filing source sha) = some row) :
    Chained env hashes
      (db.put p (.filing source sha) (some (row.republish ref actor)) false hl) := by
  obtain ⟨hlink, hsource, href⟩ := republish_eq row ref actor
  have hoccurs := occurs_of_view hrow
  obtain ⟨hrowSource, hrowSha, hmem⟩ := h.rowOk hoccurs
  have hid : (row.republish ref actor).filingId = row.filingId := congrArg Link.filingId hlink
  refine ⟨h.toLinked.put ⟨hsource.trans hrowSource, ?_, hmem⟩ (fun row₀ hc => ?_) (fun hc => ?_)
    (fun _ _ _ h' hid' => h.distinct h' hoccurs (hid'.trans hid)), h.chain, fun t source' ref' => ?_⟩
  · exact (congrArg Link.primarySha256 hlink).trans hrowSha
  · obtain ⟨row', hrow', hlink', href'⟩ := h.view_kept hc
    cases hrow.symm.trans hrow'
    exact ⟨hlink.trans hlink', href.trans href'⟩
  · rw [href]
    cases hp : db.pending p (.filing source sha) with
    | none =>
      rw [view, hp, Option.getD_none, hc] at hrow
      cases hrow
    | some w =>
      rw [view, hp, Option.getD_some] at hrow
      exact h.locked (hrow ▸ hp) hc
  · obtain ⟨l, hchain⟩ := h.chainOf t source' ref'
    refine ⟨l, fun x => ?_, hchain.numbered⟩
    rw [← hchain.mem]
    by_cases ht : t = p
    · subst ht
      by_cases hk : Key.filing source' x.primarySha256 = .filing source sha
      · obtain ⟨rfl, rfl⟩ := Key.filing.inj hk
        rw [links_iff view_put_self, links_iff hrow, hlink, href]
      · exact links_congr (view_put_of_ne hk)
    · exact links_congr (view_put_other ht)

/-- A new row is the next revision of its reference. -/
theorem Chained.insert (row : FilingRow) {l : List Link} (h : Chained env hashes db)
    (habsent : db.view p (.filing source sha) = none)
    (hrow : row.sourceId = source ∧ row.primarySha256 = sha ∧ (source, sha) ∈ hashes)
    (hlock : db.owner (World.lockKey env source row.sourceFilingRef) = some p)
    (hdistinct : ∀ source' sha' row', Occurs db source' sha' row' → row'.filingId ≠ row.filingId)
    (hl : IsChain (Links (db.view p) source row.sourceFilingRef) l)
    (hrevision : row.revisionNo = l.length + 1) (hprevious : row.previousFilingId = lastFiling none l)
    (hamendment : row.isAmendment = (lastFiling none l).isSome)
    {hcan : db.CanLock p (.filing source sha) false} :
    Chained env hashes (db.put p (.filing source sha) (some row) false hcan) := by
  obtain ⟨hsource, hsha, hmem⟩ := hrow
  have hcommitted : db.committed (.filing source sha) = none := by
    cases hc : db.committed (.filing source sha) with
    | none => rfl
    | some row₀ =>
      obtain ⟨row', hrow', -⟩ := h.view_kept (t := p) hc
      rw [habsent] at hrow'
      cases hrow'
  refine ⟨h.toLinked.put ⟨hsource, hsha, hmem⟩ (fun row₀ hc => ?_) (fun _ => hlock)
    (fun _ _ _ hoccurs hid => absurd hid (hdistinct _ _ _ hoccurs)), h.chain, fun t source' ref' => ?_⟩
  · rw [hcommitted] at hc
    cases hc
  by_cases ht : t = p
  · subst ht
    by_cases hof : source' = source ∧ ref' = row.sourceFilingRef
    · obtain ⟨rfl, rfl⟩ := hof
      refine ⟨l ++ [row.link], fun x => ?_, hl.numbered.append ?_ hprevious hamendment⟩
      · rw [List.mem_append, List.mem_singleton, ← hl.mem]
        by_cases hx : x.primarySha256 = sha
        · subst hx
          rw [links_iff view_put_self, Links, habsent]
          simp [LinkAt, eq_comm]
        · rw [links_congr (view_put_of_ne fun hk => hx (Key.filing.inj hk).2)]
          refine ⟨.inl, fun h => h.resolve_right ?_⟩
          rintro rfl
          exact hx hsha
      · rw [show row.link.revisionNo = row.revisionNo from rfl, hrevision, Nat.zero_add]
    · obtain ⟨l', hl'⟩ := h.chainOf t source' ref'
      refine ⟨l', fun x => ?_, hl'.numbered⟩
      rw [← hl'.mem]
      by_cases hk : Key.filing source' x.primarySha256 = .filing source sha
      · obtain ⟨rfl, rfl⟩ := Key.filing.inj hk
        rw [links_iff view_put_self, Links, habsent]
        refine ⟨fun ⟨href, _⟩ => absurd ⟨rfl, href.symm⟩ hof, ?_⟩
        rintro ⟨row', hrow', -⟩
        cases hrow'
      · exact links_congr (view_put_of_ne hk)
  · obtain ⟨l', hl'⟩ := h.chainOf t source' ref'
    refine ⟨l', fun x => ?_, hl'.numbered⟩
    rw [← hl'.mem, links_congr (view_put_other ht)]

end Put

end

end Documents

end AslanCore
