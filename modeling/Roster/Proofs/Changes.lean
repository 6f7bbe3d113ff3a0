import Mathlib.Logic.Relation
import Roster.Proofs.Membership

/-!
# Changes of a store

Everything that a synchronisation does to a store is made of five kinds of changes: a record gets
other fields, a record is created, a record is deleted, a membership begins, a membership ends. What
it may touch is its `Remit`: the records that it synchronises, the groups near to its provider and
the auto-membership groups; and the remit says in which modes records are created, which records are
converted and whether memberships begin at all. A store first grows and then shrinks (`Phase`),
since records are deleted only once none is created any more.

* `WellFormed.of_create` and its like: what an operation of the store that succeeds has done, for
  whatever it was given.
* `Remit.Change`: one change. `Remit.Changes`: any number of them.
* `Change.wellFormed`, `Change.kept` and their like: what one change keeps, and by induction what
  any number of them do.
* `Preserves`: an invariant of the store that each change keeps.
-/

namespace Roster

open Relation (ReflTransGen)

theorem bind_eq_ok {ε α β : Type} {x : Except ε α} {f : α → Except ε β} {b : β} :
    (x >>= f) = .ok b ↔ ∃ a, x = .ok a ∧ f a = .ok b := by
  cases x <;> simp [bind, Except.bind]

/-- If a step gives an answer for every item, the answers are those for the items. -/
theorem mem_of_mapM {ε α β : Type} {f : α → Except ε β} {xs : List α} {ys : List β}
    (h : xs.mapM f = .ok ys) :
    (∀ x ∈ xs, ∃ y ∈ ys, f x = .ok y) ∧ ∀ y ∈ ys, ∃ x ∈ xs, f x = .ok y := by
  induction xs generalizing ys with
  | nil =>
    obtain rfl : [] = ys := Except.ok.inj h
    exact ⟨nofun, nofun⟩
  | cons x xs ih =>
    rw [List.mapM_cons] at h
    obtain ⟨y, hy, h⟩ := bind_eq_ok.1 h
    obtain ⟨ys, hys, h⟩ := bind_eq_ok.1 h
    obtain rfl := Except.ok.inj h
    obtain ⟨hitems, hanswers⟩ := ih hys
    constructor
    · intro x' hx'
      rcases List.mem_cons.1 hx' with rfl | hx'
      · exact ⟨y, List.mem_cons_self, hy⟩
      · obtain ⟨y', hy', he⟩ := hitems x' hx'
        exact ⟨y', List.mem_cons_of_mem _ hy', he⟩
    · intro y' hy'
      rcases List.mem_cons.1 hy' with rfl | hy'
      · exact ⟨x, List.mem_cons_self, hy⟩
      · obtain ⟨x', hx', he⟩ := hanswers y' hy'
        exact ⟨x', List.mem_cons_of_mem _ hx', he⟩

namespace Store

variable {s s' : Store} {r g : Record} {id : Value} {k : Key} {b : Bool}

/-! ## Operations that succeed -/

theorem groupMembers_eq_ok {a : Scalar} {ms : List Scalar} (h : s.groupMembers g = .ok (a, ms)) :
    g.id.toScalar = .ok a ∧ s.members.lookup a = some ms := by
  unfold groupMembers at h
  dsimp only at h
  split at h
  · obtain ⟨_, h, -⟩ := bind_eq_ok.1 h
    cases h
  · obtain ⟨a', ha, h⟩ := bind_eq_ok.1 h
    split at h
    · next ns hl =>
      obtain ⟨rfl, rfl⟩ := Prod.mk.inj (Except.ok.inj h)
      exact ⟨ha, hl⟩
    · cases h

theorem create_eq_ok (h : s.create r = .ok s') :
    ∃ k, r.id.toKey = .ok k ∧ s.find? k = none := by
  unfold create at h
  obtain ⟨a, ha, h⟩ := bind_eq_ok.1 h
  dsimp only at h
  refine ⟨a.key, Value.toKey_eq_ok_iff.2 ⟨a, ha, rfl⟩, ?_⟩
  split at h
  · obtain ⟨_, h, -⟩ := bind_eq_ok.1 h
    cases h
  · next hn => simpa [has] using hn

/-- A record is created only under a key that is free. -/
theorem find?_of_create (hid : r.id.toKey = .ok k) (h : s.create r = .ok s') :
    s.find? k = none := by
  obtain ⟨j, hj, hnone⟩ := create_eq_ok h
  obtain rfl : k = j := Except.ok.inj (hid.symm.trans hj)
  exact hnone

theorem remove_eq_ok (h : s.remove id = .ok s') :
    ∃ k q, id.toKey = .ok k ∧ s.find? k = some q ∧ s' = s.drop (· == k) := by
  unfold remove at h
  obtain ⟨k, hk, h⟩ := bind_eq_ok.1 h
  split at h
  · next hh =>
    obtain ⟨q, hq⟩ := has_iff.1 hh
    exact ⟨k, q, hk, hq, (Except.ok.inj h).symm⟩
  · cases h

theorem addMember_eq_ok (h : s.addMember g id = .ok (b, s')) :
    ∃ a ms m, s.groupMembers g = .ok (a, ms) ∧ id.toScalar = .ok m ∧ (∃ q, s.find? m.key = some q) ∧
      (s' = s ∨ s' = { s with members := s.members.set a (ms ++ [m]) }) := by
  unfold addMember at h
  obtain ⟨⟨a, ms⟩, hg, h⟩ := bind_eq_ok.1 h
  obtain ⟨m, hm, h⟩ := bind_eq_ok.1 h
  dsimp only at h
  split at h
  · obtain ⟨_, h, -⟩ := bind_eq_ok.1 h
    cases h
  · next hh =>
    refine ⟨a, ms, m, hg, hm, has_iff.1 (by simpa using hh), ?_⟩
    split at h
    · exact .inl (Prod.mk.inj (Except.ok.inj h)).2.symm
    · exact .inr (Prod.mk.inj (Except.ok.inj h)).2.symm

theorem removeMember_eq_ok (h : s.removeMember g id = .ok (b, s')) :
    ∃ a ms m, s.groupMembers g = .ok (a, ms) ∧ id.toScalar = .ok m := by
  unfold removeMember at h
  obtain ⟨⟨a, ms⟩, hg, h⟩ := bind_eq_ok.1 h
  obtain ⟨m, hm, -⟩ := bind_eq_ok.1 h
  exact ⟨a, ms, m, hg, hm⟩

namespace WellFormed

/-- A record is created without members. -/
theorem created (h : s.WellFormed) (hs : s.create r = .ok s') :
    s'.WellFormed ∧ ∀ x g, s'.Member x g ↔ s.Member x g := by
  obtain ⟨k, hid, hk⟩ := create_eq_ok hs
  obtain ⟨s₁, hs₁, hwf, -, hmem⟩ := h.create_ok hid hk
  obtain rfl : s₁ = s' := Except.ok.inj (hs₁.symm.trans hs)
  exact ⟨hwf, hmem⟩

theorem of_create (h : s.WellFormed) (hs : s.create r = .ok s') : s'.WellFormed := (h.created hs).1

theorem of_addMember (h : s.WellFormed) (hs : s.addMember g id = .ok (b, s')) :
    s'.WellFormed := by
  obtain ⟨a, ms, m, hgm, hm, ⟨q, hq⟩, -⟩ := addMember_eq_ok hs
  obtain ⟨b', s₁, hs₁, hwf, -⟩ := h.addMember_eq hgm (groupMembers_eq_ok hgm).2 hm hq
  obtain ⟨-, rfl⟩ := Prod.mk.inj (Except.ok.inj (hs₁.symm.trans hs))
  exact hwf

/-- Whatever it is given, ending a membership cuts one. -/
theorem removeMember_cut (h : s.WellFormed) (hs : s.removeMember g id = .ok (b, s')) :
    ∃ j k, id.toKey = .ok j ∧ g.id.toKey = .ok k ∧ s' = s.cut fun x y => x == j && y == k := by
  obtain ⟨a, ms, m, hgm, hm⟩ := removeMember_eq_ok hs
  obtain ⟨ha, hl⟩ := groupMembers_eq_ok hgm
  obtain ⟨b', hs₁⟩ := h.removeMember_eq hgm hl hm
  exact ⟨m.key, a.key, Value.toKey_eq_ok_iff.2 ⟨m, hm, rfl⟩, Value.toKey_eq_ok_iff.2 ⟨a, ha, rfl⟩,
    (Prod.mk.inj (Except.ok.inj (hs.symm.trans hs₁))).2⟩

theorem of_removeMember (h : s.WellFormed) (hs : s.removeMember g id = .ok (b, s')) :
    s'.WellFormed := by
  obtain ⟨j, k, -, -, rfl⟩ := h.removeMember_cut hs
  exact h.cut _

end WellFormed

/-- Changing a record that is not there changes nothing. -/
theorem modify_of_none (hk : s.find? k = none) (f : Record → Record) : s.modify k f = s := by
  have hm : s.records.map (fun p => if p.1 = k then (p.1, f p.2) else p) = s.records.map id := by
    refine List.map_congr_left fun p hp => ?_
    have hne : k ≠ p.1 := by
      rintro rfl
      have := List.lookup_eq_none_iff.1 hk p hp
      simp at this
    rw [if_neg hne.symm, id]
  rw [modify, hm, List.map_id]

end Store

/-! ## Kinds of changes -/

/-- What becomes of a record that is synchronised: its id, its type and its reference stay, and so
do its names in the legacy mode. -/
structure Record.Becomes (r r' : Record) : Prop where
  id : r'.id = r.id
  group : r'.group = r.group
  ref : r'.ref = r.ref
  names : r'.isLegacy = true → r.isLegacy = true ∧ r'.names = r.names

namespace Record.Becomes

variable {r r' r'' : Record}

theorem refl (r : Record) : r.Becomes r := ⟨rfl, rfl, rfl, fun h => ⟨h, rfl⟩⟩

theorem trans (h : r.Becomes r') (h' : r'.Becomes r'') : r.Becomes r'' where
  id := h'.id.trans h.id
  group := h'.group.trans h.group
  ref := h'.ref.trans h.ref
  names := fun hl =>
    have h₁ := h'.names hl
    have h₂ := h.names h₁.1
    ⟨h₂.1, h₁.2.trans h₂.2⟩

theorem isGroup (h : r.Becomes r') : r'.isGroup = r.isGroup := by
  rw [Record.isGroup, Record.isGroup, h.group]

end Record.Becomes

/-- What a synchronisation may touch, and what it may make of it. -/
structure Remit where
  /-- The records that are synchronised. -/
  own : Key → Prop
  /-- The references of groups that may be created, changed and deleted. -/
  near : Option Ref → Prop
  /-- The auto-membership groups. -/
  auto : Key → Prop
  /-- The modes in which records may be created. -/
  born : Option Mode → Prop := fun _ => True
  /-- The records that may be converted. -/
  converts : Record → Prop := fun _ => True
  /-- Whether memberships may begin. -/
  fills : Prop := True

/-- Whether records may be created or deleted. -/
inductive Phase where
  | growing
  | shrinking

namespace Remit

variable (rm : Remit)

/-- A record under a key may be created and changed. -/
def Allows (k : Key) (r : Record) : Prop := rm.own k ∨ r.isGroup = true ∧ rm.near r.ref

/-- A record keeps its mode, unless it is one that may be converted. -/
def Recasts (r r' : Record) : Prop := r'.mode = r.mode ∨ rm.converts r ∧ r'.mode = some .dynamic

/-- The memberships of the group under a key may begin and end. -/
def Managed (s : Store) (k : Key) : Prop :=
  (∃ g, s.find? k = some g ∧ rm.near g.ref) ∨ rm.auto k

/-- One change of a store. -/
inductive Change : Phase → Store → Store → Prop where
  | put {p : Phase} {s : Store} {k : Key} {r r' : Record} (hk : s.find? k = some r)
    (hr : rm.Allows k r) (hb : r.Becomes r') (hm : rm.Recasts r r') : Change p s (s.put k r')
  | leave {p : Phase} {s : Store} {D : Key → Key → Bool}
    (hD : ∀ x g, D x g = true → rm.Managed s g) : Change p s (s.cut D)
  | create {s s' : Store} {k : Key} {r : Record} (hid : r.id.toKey = .ok k) (hr : rm.Allows k r)
    (hn : r.names = none) (hs : s.create r = .ok s') (hm : rm.born r.mode) : Change .growing s s'
  | join {s s' : Store} {k : Key} {g : Record} {id : Value} {b : Bool} (hg : g.id.toKey = .ok k)
    (hm : rm.Managed s k) (hs : s.addMember g id = .ok (b, s')) (hf : rm.fills) :
    Change .growing s s'
  | remove {s : Store} {k : Key} {r : Record} (hk : s.find? k = some r) (hr : rm.Allows k r)
    (hn : rm.near r.ref) : Change .shrinking s (s.drop (· == k))

/-- Any number of changes. -/
abbrev Changes (p : Phase) : Store → Store → Prop := ReflTransGen (rm.Change p)

variable {rm} {p : Phase} {s s' s'' : Store} {k : Key} {r r' : Record}

/-! ## What changes keep -/

theorem Change.wellFormed (h : rm.Change p s s') (hs : s.WellFormed) : s'.WellFormed := by
  cases h with
  | put hk _ hb => exact hs.put hk _ ⟨hb.id, hb.group⟩
  | leave _ => exact hs.cut _
  | create _ _ _ hc => exact hs.of_create hc
  | join _ _ hj => exact hs.of_addMember hj
  | remove _ _ _ => exact hs.drop _

theorem Changes.wellFormed (h : rm.Changes p s s') (hs : s.WellFormed) : s'.WellFormed := by
  induction h with
  | refl => exact hs
  | tail _ h ih => exact h.wellFormed ih

/-- While a store grows, every record stays. -/
theorem Change.kept (h : rm.Change .growing s s') (hr : s.find? k = some r) :
    ∃ r', s'.find? k = some r' ∧ r.Becomes r' := by
  cases h with
  | @put _ _ j q q' hk _ hb =>
    rw [Store.find?_put hk]
    by_cases hj : k = j
    · subst hj
      obtain rfl : r = q := Option.some.inj (hr.symm.trans hk)
      exact ⟨q', by rw [if_pos rfl], hb⟩
    · exact ⟨r, by rw [if_neg hj, hr], .refl r⟩
  | leave _ => exact ⟨r, hr, .refl r⟩
  | @create _ _ j q hid _ _ hc =>
    refine ⟨r, ?_, .refl r⟩
    rw [Store.find?_create hid hc, if_neg, hr]
    rintro rfl
    exact nomatch hr.symm.trans (Store.find?_of_create hid hc)
  | join _ _ hj => exact ⟨r, by rw [Store.find?, Store.records_addMember hj]; exact hr, .refl r⟩

theorem Changes.kept (h : rm.Changes .growing s s') (hr : s.find? k = some r) :
    ∃ r', s'.find? k = some r' ∧ r.Becomes r' := by
  induction h with
  | refl => exact ⟨r, hr, .refl r⟩
  | tail _ h ih =>
    obtain ⟨r₁, hr₁, hb₁⟩ := ih
    obtain ⟨r₂, hr₂, hb₂⟩ := h.kept hr₁
    exact ⟨r₂, hr₂, hb₁.trans hb₂⟩

/-- While a store shrinks, no record comes. -/
theorem Change.known (h : rm.Change .shrinking s s') (hr : s'.find? k = some r') :
    ∃ r, s.find? k = some r ∧ r.Becomes r' := by
  cases h with
  | @put _ _ j q q' hk _ hb =>
    rw [Store.find?_put hk] at hr
    split at hr
    · next hj =>
      subst hj
      obtain rfl := Option.some.inj hr
      exact ⟨q, hk, hb⟩
    · exact ⟨r', hr, .refl r'⟩
  | leave _ => exact ⟨r', hr, .refl r'⟩
  | remove _ _ _ =>
    rw [Store.find?_drop] at hr
    split at hr
    · cases hr
    · exact ⟨r', hr, .refl r'⟩

theorem Changes.known (h : rm.Changes .shrinking s s') (hr : s'.find? k = some r') :
    ∃ r, s.find? k = some r ∧ r.Becomes r' := by
  induction h generalizing r' with
  | refl => exact ⟨r', hr, .refl r'⟩
  | tail _ h ih =>
    obtain ⟨r₁, hr₁, hb₁⟩ := h.known hr
    obtain ⟨r₂, hr₂, hb₂⟩ := ih hr₁
    exact ⟨r₂, hr₂, hb₂.trans hb₁⟩

/-- A record that is there gets other fields. -/
theorem Changes.modify {f : Record → Record} (hs : s.WellFormed)
    (hf : ∀ r, s.find? k = some r → rm.Allows k r ∧ r.Becomes (f r) ∧ rm.Recasts r (f r)) :
    rm.Changes p s (s.modify k f) := by
  cases hk : s.find? k with
  | none =>
    rw [Store.modify_of_none hk]
  | some r =>
    rw [Store.modify_eq_put hs hk]
    obtain ⟨hr, hb, hm⟩ := hf r hk
    exact .single (.put hk hr hb hm)

theorem Allows.becomes (h : rm.Allows k r) (hb : r.Becomes r') : rm.Allows k r' :=
  h.imp id fun h => ⟨hb.isGroup.trans h.1, hb.ref.symm ▸ h.2⟩

/-! ## All the changes of a synchronisation -/

/-- The store grows, and then it shrinks. -/
def Turns (rm : Remit) (s s' : Store) : Prop :=
  ∃ s₁, rm.Changes .growing s s₁ ∧ rm.Changes .shrinking s₁ s'

theorem Turns.of_growing (h : rm.Changes .growing s s') : rm.Turns s s' := ⟨s', h, .refl⟩

theorem Turns.of_shrinking (h : rm.Changes .shrinking s s') : rm.Turns s s' := ⟨s, .refl, h⟩

theorem Turns.refl (s : Store) : rm.Turns s s := ⟨s, .refl, .refl⟩

theorem Turns.after (h : rm.Changes .growing s s') (h' : rm.Turns s' s'') : rm.Turns s s'' := by
  obtain ⟨s₁, h₁, h₂⟩ := h'
  exact ⟨s₁, h.trans h₁, h₂⟩

theorem Turns.andThen (h : rm.Turns s s') (h' : rm.Changes .shrinking s' s'') : rm.Turns s s'' := by
  obtain ⟨s₁, h₁, h₂⟩ := h
  exact ⟨s₁, h₁, h₂.trans h'⟩

theorem Turns.wellFormed (h : rm.Turns s s') (hs : s.WellFormed) : s'.WellFormed := by
  obtain ⟨s₁, h₁, h₂⟩ := h
  exact h₂.wellFormed (h₁.wellFormed hs)

/-- A record that is there before and afterwards is the same one. -/
theorem Turns.becomes (h : rm.Turns s s') (hr : s.find? k = some r) (hr' : s'.find? k = some r') :
    r.Becomes r' := by
  obtain ⟨s₁, h₁, h₂⟩ := h
  obtain ⟨r₁, hr₁, hb₁⟩ := h₁.kept hr
  obtain ⟨r₂, hr₂, hb₂⟩ := h₂.known hr'
  obtain rfl : r₁ = r₂ := Option.some.inj (hr₁.symm.trans hr₂)
  exact hb₁.trans hb₂

/-! ## Invariants -/

/-- An invariant of well-formed stores that every change within the remit keeps. -/
structure Preserves (rm : Remit) (I : Store → Prop) : Prop where
  wellFormed : ∀ s, I s → s.WellFormed
  change : ∀ p s s', I s → rm.Change p s s' → I s'

namespace Preserves

variable {I : Store → Prop}

theorem changes (h : rm.Preserves I) (hs : I s) (hc : rm.Changes p s s') : I s' := by
  induction hc with
  | refl => exact hs
  | tail _ hc ih => exact h.change _ _ _ ih hc

theorem turns (h : rm.Preserves I) (hs : I s) (ht : rm.Turns s s') : I s' := by
  obtain ⟨s₁, h₁, h₂⟩ := ht
  exact h.changes (h.changes hs h₁) h₂

end Preserves

end Remit

end Roster
