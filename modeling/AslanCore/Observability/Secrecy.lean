import Mathlib.Data.List.Forall2
import AslanCore.Observability.Redactor

/-!
# What error reports tell

Two events are *alike* (`Alike`) if they differ in what must not be sent only: the values of secrets,
and those of payloads of the same length. Is what is sent of them the same, and nothing else lost?

* `redacts_iff`: it is so exactly if there is nothing to redact in the tuples that the walk comes to,
  as it does not go into them.
-/

namespace AslanCore.Observability

section

variable {K L : Type} (str : K → String)

/-! ### What must be so -/

section

variable (free : Bool → K → EventTree K L → EventTree K L → Prop)
  (leaf : EventTree K L → EventTree K L → Prop)

mutual

/-- Two values have the same containers with the same keys, up to values that are related by `free`,
    and leaves that are related by `leaf`. -/
def SameShape : EventTree K L → EventTree K L → Prop
  | .dict items, .dict items' => SameItems (isPayloadDict str (items.map Prod.fst)) items items'
  | .list xs, .list xs' => SameList xs xs'
  | .tuple xs, .tuple xs' => SameList xs xs'
  | .bytes bs, e => leaf (.bytes bs) e
  | .bytearray bs, e => leaf (.bytearray bs) e
  | .text s, e => leaf (.text s) e
  | .leaf a, e => leaf (.leaf a) e
  | _, _ => False

def SameItems (shape : Bool) :
    List (K × EventTree K L) → List (K × EventTree K L) → Prop
  | [], items => items = []
  | _ :: _, [] => False
  | (k, v) :: items, (k', v') :: items' =>
    k = k' ∧ (free shape k v v' ∨ SameShape v v') ∧ SameItems shape items items'

def SameList : List (EventTree K L) → List (EventTree K L) → Prop
  | [], xs => xs = []
  | _ :: _, [] => False
  | x :: xs, x' :: xs' => SameShape x x' ∧ SameList xs xs'

end

end

/-- They differ only in the values of secrets, and of payloads of one length. -/
def Alike : EventTree K L → EventTree K L → Prop :=
  SameShape str (fun shape k v v' =>
    IsSecret str k ∨ IsPayload str shape k ∧ safeLen v = safeLen v') (· = ·)

/-- The first is kept, up to the values of secrets and payloads, and long byte strings. -/
def Kept : EventTree K L → EventTree K L → Prop :=
  SameShape str (fun shape k _ _ => IsSecret str k ∨ IsPayload str shape k) fun e e' =>
    e = e' ∨ ∃ bs, (e = .bytes bs ∨ e = .bytearray bs) ∧ sizeCapBytes < bs.length

/-- A value is in another one, at any depth. -/
inductive Within (u : EventTree K L) : EventTree K L → Prop
  | here : Within u u
  | dict {items : List (K × EventTree K L)} {f : K × EventTree K L} (hf : f ∈ items)
    (h : Within u f.2) : Within u (.dict items)
  | list {xs : List (EventTree K L)} {x : EventTree K L} (hx : x ∈ xs) (h : Within u x) :
    Within u (.list xs)
  | tuple {xs : List (EventTree K L)} {x : EventTree K L} (hx : x ∈ xs) (h : Within u x) :
    Within u (.tuple xs)

/-- There are no long byte strings in a value. -/
def NoLongBytes (e : EventTree K L) : Prop :=
  ∀ bs, Within (.bytes bs) e ∨ Within (.bytearray bs) e → bs.length ≤ sizeCapBytes

/-- There are no keys of secrets or payloads in a value. -/
def NoMarkedKeys (e : EventTree K L) : Prop :=
  ∀ items, Within (.dict items) e → ∀ f ∈ items,
    ¬IsSecret str f.1 ∧ ¬IsPayload str (isPayloadDict str (items.map Prod.fst)) f.1

/-- What is sent of an event tells no secrets, has no long byte strings, and is the event
    otherwise. -/
structure Redacts (e : EventTree K L) : Prop where
  secret : ∀ e', Alike str e e' → redact str e' = redact str e
  capped : NoLongBytes (redact str e)
  kept : Kept str e (redact str e)

end

variable {K L : Type} {str : K → String} {shape : Bool} {k : K} {e e' u : EventTree K L}
  {items items' : List (K × EventTree K L)} {xs xs' : List (EventTree K L)}
  {free : Bool → K → EventTree K L → EventTree K L → Prop}
  {leaf : EventTree K L → EventTree K L → Prop}

/-! ### Shapes -/

theorem sameList_iff : SameList str free leaf xs xs' ↔
    List.Forall₂ (SameShape str free leaf) xs xs' := by
  induction xs generalizing xs' with
  | nil => rw [SameList, List.forall₂_nil_left_iff]
  | cons x xs ih =>
    cases xs' with
    | nil => simp [SameList]
    | cons x' xs' => rw [SameList, ih, List.forall₂_cons]

theorem sameItems_iff : SameItems str free leaf shape items items' ↔
    List.Forall₂ (fun f f' => f.1 = f'.1 ∧
      (free shape f.1 f.2 f'.2 ∨ SameShape str free leaf f.2 f'.2)) items items' := by
  induction items generalizing items' with
  | nil => rw [SameItems, List.forall₂_nil_left_iff]
  | cons f items ih =>
    cases items' with
    | nil => simp [SameItems]
    | cons f' items' => rw [SameItems, ih, List.forall₂_cons, and_assoc]

theorem sameShape_refl (hleaf : ∀ e, leaf e e) (e : EventTree K L) :
    SameShape str free leaf e e := by
  induction e using EventTree.induct with
  | hdict items ih =>
    rw [SameShape, sameItems_iff, List.forall₂_same]
    exact fun f hf => ⟨rfl, .inr (ih f hf)⟩
  | hlist xs ih | htuple xs ih =>
    rw [SameShape, sameList_iff, List.forall₂_same]
    exact ih
  | _ => exact hleaf _

theorem alike_refl (e : EventTree K L) : Alike str e e := sameShape_refl (fun _ => rfl) e

/-- What is alike to a dictionary, to a list, and to a tuple. -/
theorem alike_dict_iff : Alike str (.dict items) e' ↔ ∃ items', e' = .dict items' ∧
    List.Forall₂ (fun f f' => f.1 = f'.1 ∧
      ((IsSecret str f.1 ∨ IsPayload str (isPayloadDict str (items.map Prod.fst)) f.1 ∧
        safeLen f.2 = safeLen f'.2) ∨ Alike str f.2 f'.2)) items items' := by
  rw [Alike]
  cases e' with
  | dict items' => simp only [SameShape, sameItems_iff, EventTree.dict.injEq, exists_eq_left']
  | _ => simp [SameShape]

theorem alike_list_iff : Alike str (.list xs) e' ↔
    ∃ xs', e' = .list xs' ∧ List.Forall₂ (Alike str) xs xs' := by
  rw [Alike]
  cases e' with
  | list xs' => simp only [SameShape, sameList_iff, EventTree.list.injEq, exists_eq_left']
  | _ => simp [SameShape]

theorem alike_tuple_iff : Alike str (.tuple xs) e' ↔
    ∃ xs', e' = .tuple xs' ∧ List.Forall₂ (Alike str) xs xs' := by
  rw [Alike]
  cases e' with
  | tuple xs' => simp only [SameShape, sameList_iff, EventTree.tuple.injEq, exists_eq_left']
  | _ => simp [SameShape]

/-- Alike values have one length. -/
theorem Alike.safeLen_eq (h : Alike str e e') : safeLen e = safeLen e' := by
  cases e with
  | dict items =>
    obtain ⟨items', rfl, -⟩ := alike_dict_iff.1 h
    rfl
  | list xs =>
    obtain ⟨xs', rfl, -⟩ := alike_list_iff.1 h
    rfl
  | tuple xs =>
    obtain ⟨xs', rfl, -⟩ := alike_tuple_iff.1 h
    rfl
  | _ => exact congrArg safeLen h

theorem forall₂_imp_of_mem {α β : Type} {R S : α → β → Prop} {as : List α} {bs : List β}
    (h : ∀ a ∈ as, ∀ b, R a b → S a b) (hR : List.Forall₂ R as bs) : List.Forall₂ S as bs := by
  induction hR with
  | nil => exact .nil
  | cons hab _ ih =>
    exact .cons (h _ List.mem_cons_self _ hab) (ih fun a ha => h a (List.mem_cons_of_mem _ ha))

/-- Other values in the place of one of a list are related to it. -/
theorem forall₂_replace {α : Type} {R : α → α → Prop} (hrefl : ∀ a, R a a) {a b : α} (h : R a b)
    (l₁ l₂ : List α) : List.Forall₂ R (l₁ ++ a :: l₂) (l₁ ++ b :: l₂) :=
  List.rel_append (List.forall₂_same.2 fun a _ => hrefl a)
    (.cons h (List.forall₂_same.2 fun a _ => hrefl a))

/-! ### Values without marked keys -/

theorem Within.trans {v w : EventTree K L} (h : Within u v) (h' : Within v w) : Within u w := by
  induction h' with
  | here => exact h
  | dict hf _ ih => exact .dict hf ih
  | list hx _ ih => exact .list hx ih
  | tuple hx _ ih => exact .tuple hx ih

/-- Nothing is alike to a value without marked keys but itself. -/
theorem eq_of_alike (hkeys : NoMarkedKeys str e) (h : Alike str e e') : e' = e := by
  induction e using EventTree.induct generalizing e' with
  | hdict items ih =>
    obtain ⟨items', rfl, hall⟩ := alike_dict_iff.1 h
    have heq : List.Forall₂ (· = ·) items items' := forall₂_imp_of_mem (fun f hf f' hf' => by
      obtain ⟨hns, hnp⟩ := hkeys items .here f hf
      obtain ⟨hk, (hs | ⟨hp, -⟩) | hv⟩ := hf'
      · exact absurd hs hns
      · exact absurd hp hnp
      · have hkeys' : NoMarkedKeys str f.2 := fun items' hw => hkeys items' (hw.trans (.dict hf .here))
        exact Prod.ext hk (ih f hf hkeys' hv).symm) hall
    rw [List.forall₂_eq_eq_eq] at heq
    rw [heq]
  | hlist xs ih =>
    obtain ⟨xs', rfl, hall⟩ := alike_list_iff.1 h
    have heq : List.Forall₂ (· = ·) xs xs' := forall₂_imp_of_mem (fun x hx x' hx' =>
      (ih x hx (fun items' hw => hkeys items' (hw.trans (.list hx .here))) hx').symm) hall
    rw [List.forall₂_eq_eq_eq] at heq
    rw [heq]
  | htuple xs ih =>
    obtain ⟨xs', rfl, hall⟩ := alike_tuple_iff.1 h
    have heq : List.Forall₂ (· = ·) xs xs' := forall₂_imp_of_mem (fun x hx x' hx' =>
      (ih x hx (fun items' hw => hkeys items' (hw.trans (.tuple hx .here))) hx').symm) hall
    rw [List.forall₂_eq_eq_eq] at heq
    rw [heq]
  | _ => exact h.symm

/-- Every value has another one of its length. -/
theorem exists_ne_safeLen (v : EventTree K L) : ∃ v', safeLen v = safeLen v' ∧ v' ≠ v := by
  cases v with
  | dict _ | tuple _ | leaf _ => exact ⟨.list [], rfl, by simp⟩
  | list _ => exact ⟨.tuple [], rfl, by simp⟩
  | bytes bs => exact ⟨.bytearray bs, rfl, by simp⟩
  | bytearray bs => exact ⟨.bytes bs, rfl, by simp⟩
  | text s => exact ⟨.bytes (.replicate s.length 0), by simp [safeLen], by simp⟩

/-- If there is a marked key, another value is alike. -/
theorem exists_alike_ne (hw : Within (.dict items) e) {f : K × EventTree K L} (hf : f ∈ items)
    (h : IsSecret str f.1 ∨ IsPayload str (isPayloadDict str (items.map Prod.fst)) f.1) :
    ∃ e', Alike str e e' ∧ e' ≠ e := by
  induction hw with
  | here =>
    obtain ⟨v', hlen, hne⟩ := exists_ne_safeLen f.2
    obtain ⟨l₁, l₂, rfl⟩ := List.append_of_mem hf
    refine ⟨.dict (l₁ ++ (f.1, v') :: l₂), alike_dict_iff.2 ⟨_, rfl, ?_⟩, fun heq => hne ?_⟩
    · exact forall₂_replace (fun f => ⟨rfl, .inr (alike_refl f.2)⟩)
        ⟨rfl, .inl (h.imp_right fun hp => ⟨hp, hlen⟩)⟩ l₁ l₂
    · have hitems := List.append_cancel_left (EventTree.dict.inj heq)
      exact congrArg Prod.snd (List.cons.inj hitems).1
  | @dict items' f' hf' _ ih =>
    obtain ⟨v', halike, hne⟩ := ih
    obtain ⟨l₁, l₂, rfl⟩ := List.append_of_mem hf'
    refine ⟨.dict (l₁ ++ (f'.1, v') :: l₂), alike_dict_iff.2 ⟨_, rfl, ?_⟩, fun heq => hne ?_⟩
    · exact forall₂_replace (fun f => ⟨rfl, .inr (alike_refl f.2)⟩) ⟨rfl, .inr halike⟩ l₁ l₂
    · have hitems := List.append_cancel_left (EventTree.dict.inj heq)
      exact congrArg Prod.snd (List.cons.inj hitems).1
  | @list xs x hx _ ih =>
    obtain ⟨v', halike, hne⟩ := ih
    obtain ⟨l₁, l₂, rfl⟩ := List.append_of_mem hx
    refine ⟨.list (l₁ ++ v' :: l₂), alike_list_iff.2 ⟨_, rfl, ?_⟩, fun heq => hne ?_⟩
    · exact forall₂_replace alike_refl halike l₁ l₂
    · exact (List.cons.inj (List.append_cancel_left (EventTree.list.inj heq))).1
  | @tuple xs x hx _ ih =>
    obtain ⟨v', halike, hne⟩ := ih
    obtain ⟨l₁, l₂, rfl⟩ := List.append_of_mem hx
    refine ⟨.tuple (l₁ ++ v' :: l₂), alike_tuple_iff.2 ⟨_, rfl, ?_⟩, fun heq => hne ?_⟩
    · exact forall₂_replace alike_refl halike l₁ l₂
    · exact (List.cons.inj (List.append_cancel_left (EventTree.tuple.inj heq))).1

/-! ### The walk -/

/-- What is sent tells no secrets, if no tuple that the walk comes to has marked keys. -/
theorem redact_eq_of_alike (hkeys : ∀ xs, Reached str (.tuple xs) e → NoMarkedKeys str (.tuple xs))
    (h : Alike str e e') : redact str e' = redact str e := by
  induction e using EventTree.induct generalizing e' with
  | hdict items ih =>
    obtain ⟨items', rfl, hall⟩ := alike_dict_iff.1 h
    have hfst : items'.map Prod.fst = items.map Prod.fst := by
      rw [← List.forall₂_eq_eq_eq, List.forall₂_map_left_iff, List.forall₂_map_right_iff]
      exact (hall.imp fun _ _ hf => hf.1.symm).flip
    rw [redact_dict, redact_dict, hfst, EventTree.dict.injEq, ← List.forall₂_eq_eq_eq,
      List.forall₂_map_left_iff, List.forall₂_map_right_iff]
    refine (forall₂_imp_of_mem (fun f hf f' hf' => ?_) hall).flip
    obtain ⟨hk, hv⟩ := hf'
    refine Prod.ext hk.symm ?_
    dsimp only
    rw [← hk]
    by_cases hmarked : IsSecret str f.1 ∨ IsPayload str (isPayloadDict str (items.map Prod.fst)) f.1
    · -- The text in the place of the value is that of its length.
      obtain ⟨s, hs⟩ := redactValue_of_isMarked (v := f.2) hmarked
      have hlen : IsSecret str f.1 ∨ safeLen f.2 = safeLen f'.2 := by
        rcases hv with (hsecret | ⟨-, hlen⟩) | hv
        · exact .inl hsecret
        · exact .inr hlen
        · exact .inr hv.safeLen_eq
      rw [hs _ hlen, hs _ (.inr rfl)]
    · obtain ⟨hns, hnp⟩ := not_or.1 hmarked
      rw [redactValue_of_not hns hnp, redactValue_of_not hns hnp]
      rcases hv with (hsecret | ⟨hp, -⟩) | hv
      · exact absurd hsecret hns
      · exact absurd hp hnp
      · exact ih f hf (fun xs hr => hkeys xs (.dict hf hns hnp hr)) hv
  | hlist xs ih =>
    obtain ⟨xs', rfl, hall⟩ := alike_list_iff.1 h
    rw [redact_list, redact_list, EventTree.list.injEq, ← List.forall₂_eq_eq_eq,
      List.forall₂_map_left_iff, List.forall₂_map_right_iff]
    exact (forall₂_imp_of_mem (fun x hx x' hx' =>
      ih x hx (fun xs hr => hkeys xs (.list hx hr)) hx') hall).flip
  | htuple xs => rw [eq_of_alike (hkeys xs .here) h]
  | _ => exact congrArg _ h.symm

/-- What is sent has the tuples that the walk comes to. -/
theorem within_redact (h : Reached str (.tuple xs) e) : Within (.tuple xs) (redact str e) := by
  induction h with
  | here =>
    rw [redact_tuple]
    exact .here
  | dict hf hs hp _ ih =>
    rw [redact_dict]
    refine .dict (List.mem_map_of_mem hf) ?_
    rwa [redactValue_of_not hs hp]
  | list hx _ ih =>
    rw [redact_list]
    exact .list (List.mem_map_of_mem hx) ih

/-- Another value in the place of a tuple that the walk comes to is sent. -/
theorem exists_alike_of_reached (h : Reached str (.tuple xs) e) {t : EventTree K L}
    (ht : Alike str (.tuple xs) t) :
    ∃ e', Alike str e e' ∧ (redact str e' = redact str e → t = .tuple xs) := by
  induction h with
  | here =>
    obtain ⟨xs', rfl, -⟩ := alike_tuple_iff.1 ht
    refine ⟨_, ht, fun heq => ?_⟩
    rwa [redact_tuple, redact_tuple] at heq
  | @dict items f hf hs hp _ ih =>
    obtain ⟨v', halike, himp⟩ := ih
    obtain ⟨l₁, l₂, rfl⟩ := List.append_of_mem hf
    refine ⟨.dict (l₁ ++ (f.1, v') :: l₂), alike_dict_iff.2 ⟨_, rfl, ?_⟩, fun heq => himp ?_⟩
    · exact forall₂_replace (fun f => ⟨rfl, .inr (alike_refl f.2)⟩) ⟨rfl, .inr halike⟩ l₁ l₂
    · have hfst : (l₁ ++ (f.1, v') :: l₂).map Prod.fst = (l₁ ++ f :: l₂).map Prod.fst := by
        simp only [List.map_append, List.map_cons]
      rw [redact_dict, redact_dict, hfst, EventTree.dict.injEq] at heq
      generalize isPayloadDict str ((l₁ ++ f :: l₂).map Prod.fst) = shape at hp heq
      rw [List.map_append, List.map_append] at heq
      have hitem := congrArg Prod.snd (List.cons.inj (List.append_cancel_left heq)).1
      dsimp only at hitem
      rwa [redactValue_of_not hs hp, redactValue_of_not hs hp] at hitem
  | @list xs x hx _ ih =>
    obtain ⟨v', halike, himp⟩ := ih
    obtain ⟨l₁, l₂, rfl⟩ := List.append_of_mem hx
    refine ⟨.list (l₁ ++ v' :: l₂), alike_list_iff.2 ⟨_, rfl, ?_⟩, fun heq => himp ?_⟩
    · exact forall₂_replace alike_refl halike l₁ l₂
    · rw [redact_list, redact_list, EventTree.list.injEq, List.map_append, List.map_append] at heq
      exact (List.cons.inj (List.append_cancel_left heq)).1

/-- What is sent is the event, up to what is marked. -/
theorem kept_redact (e : EventTree K L) : Kept str e (redact str e) := by
  unfold Kept
  induction e using EventTree.induct with
  | hdict items ih =>
    rw [redact_dict, SameShape, sameItems_iff, List.forall₂_map_right_iff, List.forall₂_same]
    refine fun f hf => ⟨rfl, ?_⟩
    by_cases hmarked : IsSecret str f.1 ∨ IsPayload str (isPayloadDict str (items.map Prod.fst)) f.1
    · exact .inl hmarked
    · obtain ⟨hns, hnp⟩ := not_or.1 hmarked
      dsimp only
      rw [redactValue_of_not hns hnp]
      exact .inr (ih f hf)
  | hlist xs ih =>
    rw [redact_list, SameShape, sameList_iff, List.forall₂_map_right_iff, List.forall₂_same]
    exact ih
  | htuple xs =>
    rw [redact_tuple]
    exact sameShape_refl (fun _ => .inl rfl) _
  | hbytes bs =>
    rw [SameShape, redact, capSize]
    split_ifs with hlong
    · exact .inr ⟨bs, .inl rfl, hlong⟩
    · exact .inl rfl
  | hbytearray bs =>
    rw [SameShape, redact, capSize]
    split_ifs with hlong
    · exact .inr ⟨bs, .inr rfl, hlong⟩
    · exact .inl rfl
  | htext | hleaf => exact .inl rfl

theorem noLongBytes_dict (h : ∀ f ∈ items, NoLongBytes f.2) : NoLongBytes (.dict items) := by
  rintro bs (hw | hw) <;> rcases hw with _ | ⟨hf, hw⟩
  · exact h _ hf bs (.inl hw)
  · exact h _ hf bs (.inr hw)

theorem noLongBytes_list (h : ∀ x ∈ xs, NoLongBytes x) : NoLongBytes (.list xs) := by
  rintro bs (hw | hw) <;> rcases hw with _ | _ | ⟨hx, hw⟩
  · exact h _ hx bs (.inl hw)
  · exact h _ hx bs (.inr hw)

theorem noLongBytes_text (s : String) : NoLongBytes (.text s : EventTree K L) := by
  rintro bs (hw | hw) <;> cases hw

theorem noLongBytes_leaf (a : L) : NoLongBytes (.leaf a : EventTree K L) := by
  rintro bs (hw | hw) <;> cases hw

/-- A long byte string is not sent. -/
theorem noLongBytes_capSize {bs : List UInt8} {obj : EventTree K L}
    (h : obj = .bytes bs ∨ obj = .bytearray bs) : NoLongBytes (capSize obj bs) := by
  rw [capSize]
  split_ifs with hlong
  · exact noLongBytes_text _
  · rcases h with rfl | rfl <;> rintro bs' (hw | hw) <;> cases hw <;> exact Nat.not_lt.1 hlong

/-- What is sent has no long byte strings if no tuple that the walk comes to has. -/
theorem noLongBytes_redact (h : ∀ xs, Reached str (.tuple xs) e → NoLongBytes (.tuple xs)) :
    NoLongBytes (redact str e) := by
  induction e using EventTree.induct with
  | hdict items ih =>
    rw [redact_dict]
    refine noLongBytes_dict (List.forall_mem_map.2 fun f hf => ?_)
    by_cases hmarked : IsSecret str f.1 ∨ IsPayload str (isPayloadDict str (items.map Prod.fst)) f.1
    · obtain ⟨s, hs⟩ := redactValue_of_isMarked (v := f.2) hmarked
      rw [hs f.2 (.inr rfl)]
      exact noLongBytes_text s
    · obtain ⟨hns, hnp⟩ := not_or.1 hmarked
      rw [redactValue_of_not hns hnp]
      exact ih f hf fun xs hxs => h xs (.dict hf hns hnp hxs)
  | hlist xs ih =>
    rw [redact_list]
    exact noLongBytes_list (List.forall_mem_map.2 fun x hx =>
      ih x hx fun xs hxs => h xs (.list hx hxs))
  | htuple xs => exact h xs .here
  | hbytes bs => exact noLongBytes_capSize (.inl rfl)
  | hbytearray bs => exact noLongBytes_capSize (.inr rfl)
  | htext s => exact noLongBytes_text s
  | hleaf a => exact noLongBytes_leaf a

/-- What is sent of an event tells no secrets, has no long byte strings, and is the event otherwise,
    if and only if there are neither marked keys nor long byte strings in the tuples that the walk
    comes to. -/
theorem redacts_iff (e : EventTree K L) : Redacts str e ↔
    ∀ xs, Reached str (.tuple xs) e → NoMarkedKeys str (.tuple xs) ∧ NoLongBytes (.tuple xs) := by
  constructor
  · rintro ⟨hsecret, hcapped, -⟩ xs hxs
    refine ⟨fun items hw f hf => ?_, fun bs hw => hcapped bs ?_⟩
    · rw [← not_or]
      intro hmarked
      obtain ⟨t, halike, hne⟩ := exists_alike_ne hw hf hmarked
      obtain ⟨e', halike', himp⟩ := exists_alike_of_reached hxs halike
      exact hne (himp (hsecret e' halike'))
    · exact hw.imp (·.trans (within_redact hxs)) (·.trans (within_redact hxs))
  · intro h
    exact ⟨fun e' => redact_eq_of_alike fun xs hxs => (h xs hxs).1,
      noLongBytes_redact fun xs hxs => (h xs hxs).2, kept_redact e⟩

/-- A password in the arguments of a call. -/
def argumentsEvent : EventTree String Unit :=
  .dict [("args", .tuple [.dict [("password", .text "hunter2")]])]

/-- The password is sent. -/
theorem not_redacts_arguments : ¬Redacts id argumentsEvent := by
  intro h
  obtain ⟨t, halike, hne⟩ : ∃ t, Alike id (.tuple [.dict [("password", .text "hunter2")]]) t ∧
      t ≠ (.tuple [.dict [("password", .text "hunter2")]] : EventTree String Unit) :=
    exists_alike_ne (.tuple List.mem_cons_self .here) List.mem_cons_self (.inl (by decide +kernel))
  have hreached : Reached id (.tuple [.dict [("password", .text "hunter2")]]) argumentsEvent :=
    .dict List.mem_cons_self (by decide +kernel) (by decide +kernel) .here
  obtain ⟨e', halike', himp⟩ := exists_alike_of_reached hreached halike
  exact hne (himp (h.secret e' halike'))

end AslanCore.Observability
