import Mathlib.Algebra.GroupWithZero.Nat
import Mathlib.Algebra.Order.BigOperators.Group.List
import Mathlib.Algebra.Order.Group.Nat
import Roster.Proofs.Store
import Roster.Sync.Unwinding

/-!
# Memberships

The memberships of a store form a relation between keys (`Store.Member`). Two operations take
memberships away: `Store.cut` takes single ones out of their lists, and `Store.drop` takes records
away together with their lists and all memberships of theirs. Every way in which a synchronisation
makes a store smaller is one of these or both. The lemmas here say what they, and the operations
that make a store larger, do to records, memberships and well-formedness.
-/

namespace Roster

namespace Assoc

variable {κ α : Type} [BEq κ] [EquivBEq κ]

omit [EquivBEq κ] in
theorem exists_mem_of_lookup {m : Assoc κ α} {k : κ} {v : α} (h : List.lookup k m = some v) :
    ∃ k', (k', v) ∈ m ∧ (k == k') = true := by
  induction m with
  | nil => cases h
  | cons p m ih =>
    obtain ⟨k', v'⟩ := p
    rw [lookup_cons] at h
    split at h
    · next he =>
      obtain rfl : v' = v := Option.some.inj h
      exact ⟨k', List.mem_cons_self, he⟩
    · obtain ⟨j, hj, he⟩ := ih h
      exact ⟨j, List.mem_cons_of_mem _ hj, he⟩

theorem lookup_of_mem {m : Assoc κ α} {k k' : κ} {v : α}
    (hd : m.Pairwise fun p q => (p.1 == q.1) = false) (h : (k', v) ∈ m) (he : (k == k') = true) :
    List.lookup k m = some v := by
  induction m with
  | nil => cases h
  | cons p m ih =>
    obtain ⟨hp, hm⟩ := List.pairwise_cons.1 hd
    rw [lookup_cons]
    rcases List.mem_cons.1 h with rfl | h
    · rw [if_pos he]
    · have hne : ¬ (k == p.1) = true := by
        intro hk
        have := hp _ h
        rw [← BEq.congr_left hk, he] at this
        cases this
      rw [if_neg hne, ih hm h]

/-- Setting a key that is present once changes the value that stands there. -/
theorem set_eq_map {m : Assoc κ α} {k : κ} {v u : α} (f : α → α)
    (hd : m.Pairwise fun p q => (p.1 == q.1) = false) (hl : List.lookup k m = some u)
    (hv : f u = v) : set k v m = m.map fun p => if p.1 == k then (p.1, f p.2) else p := by
  induction m with
  | nil => cases hl
  | cons p m ih =>
    obtain ⟨k', v'⟩ := p
    obtain ⟨hk, hm⟩ := List.pairwise_cons.1 hd
    rw [lookup_cons] at hl
    rw [set, List.map_cons]
    by_cases he : (k' == k) = true
    · rw [if_pos (BEq.symm he)] at hl
      obtain rfl : v' = u := Option.some.inj hl
      have hrest : m.map (fun p => if p.1 == k then (p.1, f p.2) else p) = m.map id := by
        refine List.map_congr_left fun q hq => ?_
        have hne : (q.1 == k) = false := by
          rw [← hk q hq, BEq.comm]
          exact (BEq.congr_left he).symm
        simp [hne]
      rw [if_pos he, if_pos he, hv, hrest, List.map_id]
    · have hne : ¬ (k == k') = true := fun h => he (BEq.symm h)
      rw [if_neg hne] at hl
      rw [if_neg he, if_neg he, ih hm hl]

end Assoc

namespace Store

variable {s : Store} {D D' : Key → Key → Bool} {X X' : Key → Bool} {x g : Key}

/-- The record under one key is a direct member of the group under another. -/
def Member (s : Store) (x g : Key) : Prop :=
  ∃ a ms m, (a, ms) ∈ s.members ∧ a.key = g ∧ m ∈ ms ∧ m.key = x

/-- The store without the memberships of a relation between members and groups. -/
def cut (s : Store) (D : Key → Key → Bool) : Store :=
  { s with members := s.members.map fun p => (p.1, p.2.filter fun m => !D m.key p.1.key) }

/-- The store without the records under some keys, their lists and their memberships. -/
def drop (s : Store) (X : Key → Bool) : Store where
  records := s.records.filter fun p => !X p.1
  members := (s.members.filter fun p => !X p.1.key).map fun p =>
    (p.1, p.2.filter fun m => !X m.key)

/-! ## Cutting -/

@[simp] theorem find?_cut (s : Store) (D : Key → Key → Bool) (k : Key) :
    (s.cut D).find? k = s.find? k := rfl

@[simp] theorem keys_members_cut (s : Store) (D : Key → Key → Bool) :
    (s.cut D).members.keys = s.members.keys := by
  simp [cut, Assoc.keys, List.map_map, Function.comp_def]

@[simp] theorem member_cut : (s.cut D).Member x g ↔ s.Member x g ∧ D x g = false := by
  constructor
  · rintro ⟨a, ms, m, hm, rfl, hmem, rfl⟩
    obtain ⟨⟨a', ms'⟩, hp, he⟩ := List.mem_map.1 hm
    obtain ⟨rfl, rfl⟩ := Prod.mk.inj he
    obtain ⟨hmem, hd⟩ := List.mem_filter.1 hmem
    exact ⟨⟨_, ms', m, hp, rfl, hmem, rfl⟩, by simpa using hd⟩
  · rintro ⟨⟨a, ms, m, hm, rfl, hmem, rfl⟩, hd⟩
    exact ⟨a, _, m, List.mem_map.2 ⟨_, hm, rfl⟩, rfl,
      List.mem_filter.2 ⟨hmem, by simpa using hd⟩, rfl⟩

theorem cut_cut (s : Store) (D D' : Key → Key → Bool) :
    (s.cut D).cut D' = s.cut fun x g => D x g || D' x g := by
  simp [cut, List.map_map, Function.comp_def, List.filter_filter, Bool.and_comm]

theorem cut_eq_self (h : ∀ x g, s.Member x g → D x g = false) : s.cut D = s := by
  have hm : s.members.map (fun p => (p.1, p.2.filter fun m => !D m.key p.1.key))
      = s.members.map id := by
    refine List.map_congr_left fun p hp => ?_
    have hf : p.2.filter (fun m => !D m.key p.1.key) = p.2 := by
      refine List.filter_eq_self.2 fun m hmem => ?_
      simp [h m.key p.1.key ⟨p.1, p.2, m, hp, rfl, hmem, rfl⟩]
    rw [hf]
    rfl
  rw [cut, hm, List.map_id]

theorem cut_congr (h : ∀ x g, s.Member x g → D x g = D' x g) : s.cut D = s.cut D' := by
  have hm : s.members.map (fun p => (p.1, p.2.filter fun m => !D m.key p.1.key))
      = s.members.map fun p => (p.1, p.2.filter fun m => !D' m.key p.1.key) := by
    refine List.map_congr_left fun p hp => ?_
    have hf : p.2.filter (fun m => !D m.key p.1.key)
        = p.2.filter fun m => !D' m.key p.1.key := by
      refine List.filter_congr fun m hmem => ?_
      rw [h m.key p.1.key ⟨p.1, p.2, m, hp, rfl, hmem, rfl⟩]
    rw [hf]
  rw [cut, cut, hm]

theorem WellFormed.cut (h : s.WellFormed) (D : Key → Key → Bool) : (s.cut D).WellFormed where
  own_keys := h.own_keys
  keys_nodup := h.keys_nodup
  groups := by
    rw [keys_members_cut]
    exact h.groups
  members_nodup := by
    intro a ms hm
    obtain ⟨⟨a', ms'⟩, hp, he⟩ := List.mem_map.1 hm
    obtain ⟨rfl, rfl⟩ := Prod.mk.inj he
    exact (h.members_nodup a' ms' hp).sublist (List.filter_sublist.map _)
  members_exist := by
    intro a ms hm m hmem
    obtain ⟨⟨a', ms'⟩, hp, he⟩ := List.mem_map.1 hm
    obtain ⟨rfl, rfl⟩ := Prod.mk.inj he
    exact h.members_exist a' ms' hp m (List.mem_filter.1 hmem).1

/-! ## Dropping -/

theorem find?_drop (s : Store) (X : Key → Bool) (k : Key) :
    (s.drop X).find? k = if X k then none else s.find? k := by
  show List.lookup k (s.records.filter fun p => !X p.1) = if X k then none else s.records.lookup k
  induction s.records with
  | nil => simp
  | cons p records ih =>
    obtain ⟨j, r⟩ := p
    by_cases hj : X j = true
    · rw [List.filter_cons_of_neg (by simp [hj]), ih, Assoc.lookup_cons]
      by_cases hk : k = j
      · subst hk
        simp [hj]
      · simp [hk]
    · rw [List.filter_cons_of_pos (by simp [hj]), Assoc.lookup_cons, ih, Assoc.lookup_cons]
      by_cases hk : k = j
      · subst hk
        simp [hj]
      · simp [hk]

@[simp] theorem member_drop : (s.drop X).Member x g ↔ s.Member x g ∧ X x = false ∧ X g = false := by
  constructor
  · rintro ⟨a, ms, m, hm, rfl, hmem, rfl⟩
    obtain ⟨⟨a', ms'⟩, hp, he⟩ := List.mem_map.1 hm
    obtain ⟨rfl, rfl⟩ := Prod.mk.inj he
    obtain ⟨hp, hx⟩ := List.mem_filter.1 hp
    obtain ⟨hmem, hy⟩ := List.mem_filter.1 hmem
    exact ⟨⟨_, ms', m, hp, rfl, hmem, rfl⟩, by simpa using hy, by simpa using hx⟩
  · rintro ⟨⟨a, ms, m, hm, rfl, hmem, rfl⟩, hy, hx⟩
    exact ⟨a, _, m, List.mem_map.2 ⟨_, List.mem_filter.2 ⟨hm, by simpa using hx⟩, rfl⟩, rfl,
      List.mem_filter.2 ⟨hmem, by simpa using hy⟩, rfl⟩

theorem drop_drop (s : Store) (X X' : Key → Bool) :
    (s.drop X).drop X' = s.drop fun k => X k || X' k := by
  simp [drop, List.filter_map, List.map_map, Function.comp_def, List.filter_filter, Bool.and_comm]

@[simp] theorem drop_false (s : Store) : (s.drop fun _ => false) = s := by
  have hid {α : Type} (l : List α) : l.filter (fun _ => true) = l :=
    List.filter_eq_self.2 fun _ _ => rfl
  simp [drop, hid]

theorem without_eq_drop (s : Store) (k : Key) : s.without k = s.drop (· == k) := rfl

theorem mem_all_drop {r : Record} (h : r ∈ (s.drop X).all) : r ∈ s.all := by
  obtain ⟨p, hp, rfl⟩ := List.mem_map.1 h
  exact List.mem_map_of_mem (List.mem_filter.1 hp).1

theorem WellFormed.drop (h : s.WellFormed) (X : Key → Bool) : (s.drop X).WellFormed where
  own_keys := fun k r hr => h.own_keys k r (List.mem_filter.1 hr).1
  keys_nodup := h.keys_nodup.sublist (List.filter_sublist.map _)
  groups := by
    have hm : ((s.drop X).members.keys).map Scalar.key
        = (s.members.keys.map Scalar.key).filter fun k => !X k := by
      simp [Store.drop, Assoc.keys, List.filter_map, Function.comp_def]
    have hr : Assoc.keys ((s.drop X).records.filter (·.2.isGroup))
        = (Assoc.keys (s.records.filter (·.2.isGroup))).filter fun k => !X k := by
      simp [Store.drop, Assoc.keys, List.filter_map, Function.comp_def, List.filter_filter,
        Bool.and_comm]
    rw [hm, hr, h.groups]
  members_nodup := by
    intro a ms hm
    obtain ⟨⟨a', ms'⟩, hp, he⟩ := List.mem_map.1 hm
    obtain ⟨rfl, rfl⟩ := Prod.mk.inj he
    exact (h.members_nodup a' ms' (List.mem_filter.1 hp).1).sublist (List.filter_sublist.map _)
  members_exist := by
    intro a ms hm m hmem
    obtain ⟨⟨a', ms'⟩, hp, he⟩ := List.mem_map.1 hm
    obtain ⟨rfl, rfl⟩ := Prod.mk.inj he
    obtain ⟨hmem, hx⟩ := List.mem_filter.1 hmem
    obtain ⟨q, hq, he⟩ := List.mem_map.1 (h.members_exist a' ms' (List.mem_filter.1 hp).1 m hmem)
    exact List.mem_map.2 ⟨q, List.mem_filter.2 ⟨hq, by rw [he]; exact hx⟩, he⟩

theorem Typed.cut (h : s.Typed) (D : Key → Key → Bool) : (s.cut D).Typed := h

theorem Typed.drop (h : s.Typed) (X : Key → Bool) : (s.drop X).Typed :=
  fun r hr => h r (mem_all_drop hr)

theorem Sound.cut {P : Ref → Prop} (h : s.Sound P) (D : Key → Key → Bool) : (s.cut D).Sound P :=
  ⟨h.wellFormed.cut D, h.typed.cut D, h.refs⟩

theorem Sound.drop {P : Ref → Prop} (h : s.Sound P) (X : Key → Bool) : (s.drop X).Sound P :=
  ⟨h.wellFormed.drop X, h.typed.drop X, fun r hr => h.refs r (mem_all_drop hr)⟩

/-! ## What the operations of the store come to -/

namespace WellFormed

theorem lists_pairwise (h : s.WellFormed) :
    s.members.Pairwise fun p q => (p.1 == q.1) = false := by
  have hn : (s.members.keys.map Scalar.key).Nodup := by
    rw [h.groups]
    exact h.keys_nodup.sublist (List.filter_sublist.map _)
  rw [Assoc.keys, List.map_map] at hn
  refine List.Pairwise.imp ?_ (List.pairwise_map.1 hn)
  intro p q hpq
  rw [← Bool.not_eq_true, Scalar.beq_iff]
  exact hpq

theorem exists_lookup (h : s.WellFormed) {r : Record} {a : Scalar} (hf : s.find? a.key = some r)
    (hg : r.isGroup = true) : ∃ ms, s.members.lookup a = some ms := by
  obtain ⟨b, ms, hm, hb⟩ := h.exists_list hf hg
  exact ⟨ms, Assoc.lookup_of_mem h.lists_pairwise hm (Scalar.beq_iff.2 hb.symm)⟩

/-- A record is a member of a group exactly if the list that is found for the group has it. -/
theorem member_iff (h : s.WellFormed) {a : Scalar} {ms : List Scalar}
    (hl : s.members.lookup a = some ms) : s.Member x a.key ↔ ∃ m ∈ ms, m.key = x := by
  constructor
  · rintro ⟨b, ns, m, hb, he, hm, hx⟩
    have := Assoc.lookup_of_mem h.lists_pairwise hb (Scalar.beq_iff.2 he.symm)
    obtain rfl : ms = ns := Option.some.inj (hl.symm.trans this)
    exact ⟨m, hm, hx⟩
  · rintro ⟨m, hm, hx⟩
    obtain ⟨b, hb, he⟩ := Assoc.exists_mem_of_lookup hl
    exact ⟨b, ms, m, hb, (Scalar.beq_iff.1 he).symm, hm, hx⟩

theorem groupMembers_ok (h : s.WellFormed) {k : Key} {r : Record} (hf : s.find? k = some r)
    (hg : r.isGroup = true) :
    ∃ a ms, s.groupMembers r = .ok (a, ms) ∧ r.id.toScalar = .ok a ∧ a.key = k ∧
      s.members.lookup a = some ms := by
  obtain ⟨a, ha, rfl⟩ := Value.toKey_eq_ok_iff.1 (h.toKey_of_find? hf)
  obtain ⟨ms, hl⟩ := h.exists_lookup hf hg
  refine ⟨a, ms, ?_, ha, rfl, hl⟩
  simp [Store.groupMembers, hg, ha, hl, bind, Except.bind, pure, Except.pure]

/-- Taking a member out of a list cuts the membership, if it is there. -/
theorem removeMember_eq (h : s.WellFormed) {r : Record} {a m : Scalar} {ms : List Scalar}
    {id : Value} (hgm : s.groupMembers r = .ok (a, ms)) (hl : s.members.lookup a = some ms)
    (hm : id.toScalar = .ok m) :
    ∃ b, s.removeMember r id = .ok (b, s.cut fun x g => x == m.key && g == a.key) := by
  have hcut : s.members.set a (ms.filter (· != m))
      = (s.cut fun x g => x == m.key && g == a.key).members := by
    rw [Assoc.set_eq_map (fun l => l.filter (· != m)) h.lists_pairwise hl rfl]
    refine List.map_congr_left fun p _ => ?_
    by_cases hp : (p.1 == a) = true
    · have hk : p.1.key = a.key := Scalar.beq_iff.1 hp
      rw [if_pos hp]
      refine congrArg (p.1, ·) (List.filter_congr fun y _ => ?_)
      have hb : (y == m) = (y.key == m.key) := by
        rw [Bool.eq_iff_iff, Scalar.beq_iff, beq_iff_eq]
      simp [bne, hb, hk]
    · have hk : p.1.key ≠ a.key := fun he => hp (Scalar.beq_iff.2 he)
      have hall : p.2.filter (fun y => !(y.key == m.key && p.1.key == a.key)) = p.2 :=
        List.filter_eq_self.2 fun y _ => by simp [hk]
      rw [if_neg hp, hall]
  unfold Store.removeMember
  simp only [hgm, hm, bind, Except.bind, pure, Except.pure]
  split
  · exact ⟨true, by rw [hcut]; rfl⟩
  · next hc =>
    refine ⟨false, ?_⟩
    rw [cut_eq_self]
    intro x g hmem
    by_cases hg : g = a.key
    · subst hg
      obtain ⟨y, hy, rfl⟩ := (h.member_iff hl).1 hmem
      have hne : y.key ≠ m.key := fun he =>
        hc (List.contains_iff_exists_mem_beq.2 ⟨y, hy, Scalar.beq_iff.2 he.symm⟩)
      simp [hne]
    · simp [hg]

/-- Ending a membership cuts it, if it is there. -/
theorem removeMember_ok (h : s.WellFormed) {k j : Key} {r : Record} {id : Value}
    (hf : s.find? k = some r) (hg : r.isGroup = true) (hid : id.toKey = .ok j) :
    ∃ b, s.removeMember r id = .ok (b, s.cut fun x g => x == j && g == k) := by
  obtain ⟨a, ms, hgm, -, rfl, hl⟩ := h.groupMembers_ok hf hg
  obtain ⟨m, hm, rfl⟩ := Value.toKey_eq_ok_iff.1 hid
  exact h.removeMember_eq hgm hl hm

/-- A group has no direct members exactly if nothing is a member of it. -/
theorem membersOf_ok (h : s.WellFormed) {k : Key} {r : Record} (hf : s.find? k = some r)
    (hg : r.isGroup = true) :
    ∃ ms, s.membersOf r = .ok ms ∧ (ms.isEmpty = true ↔ ∀ x, ¬ s.Member x k) := by
  obtain ⟨a, ms, hgm, -, rfl, hl⟩ := h.groupMembers_ok hf hg
  refine ⟨ms.filterMap fun m => s.find? m.key, ?_, ?_⟩
  · simp [Store.membersOf, hgm, bind, Except.bind, pure, Except.pure]
  · rw [List.isEmpty_iff, List.filterMap_eq_nil_iff]
    constructor
    · intro hn x hx
      obtain ⟨m, hm, rfl⟩ := (h.member_iff hl).1 hx
      obtain ⟨b, hb, -⟩ := Assoc.exists_mem_of_lookup hl
      obtain ⟨r', hr'⟩ := h.exists_member hb hm
      rw [hn m hm] at hr'
      cases hr'
    · intro hn m hm
      exact absurd ((h.member_iff hl).2 ⟨m, hm, rfl⟩) (hn m.key)

/-- What is a member of something is a record, and what it is a member of is a group. -/
theorem exists_of_member (h : s.WellFormed) (hm : s.Member x g) :
    (∃ r, s.find? x = some r) ∧ ∃ r, s.find? g = some r ∧ r.isGroup = true := by
  obtain ⟨a, ms, m, hp, rfl, hmem, rfl⟩ := hm
  exact ⟨h.exists_member hp hmem, h.exists_group hp⟩

end WellFormed

/-- The groups of a record are those of its memberships. -/
theorem memberOf_ok (s : Store) {id : Value} {j : Key} (hid : id.toKey = .ok j) :
    ∃ gs, s.memberOf id = .ok gs ∧ ∀ r, r ∈ gs ↔ ∃ k, s.find? k = some r ∧ s.Member j k := by
  obtain ⟨m, hm, rfl⟩ := Value.toKey_eq_ok_iff.1 hid
  refine ⟨s.members.filterMap fun p => if p.2.contains m then s.find? p.1.key else none, ?_, ?_⟩
  · unfold memberOf
    split
    · next he => rw [List.isEmpty_iff.1 he]; rfl
    · simp [hm, bind, Except.bind, pure, Except.pure]
  · intro r
    rw [List.mem_filterMap]
    constructor
    · rintro ⟨⟨a, ms⟩, hp, hr⟩
      dsimp only at hr
      split at hr
      · next hc =>
        obtain ⟨y, hy, he⟩ := List.contains_iff_exists_mem_beq.1 hc
        exact ⟨a.key, hr, a, ms, y, hp, rfl, hy, (Scalar.beq_iff.1 he).symm⟩
      · cases hr
    · rintro ⟨k, hf, a, ms, y, hp, rfl, hy, he⟩
      refine ⟨(a, ms), hp, ?_⟩
      have hc : ms.contains m = true :=
        List.contains_iff_exists_mem_beq.2 ⟨y, hy, Scalar.beq_iff.2 he.symm⟩
      dsimp only
      rw [if_pos hc, hf]

/-- Removing a record drops it. -/
theorem remove_ok {id : Value} {k : Key} {r : Record} (hid : id.toKey = .ok k)
    (hf : s.find? k = some r) : s.remove id = .ok (s.drop (· == k)) := by
  simp [Store.remove, hid, Store.has, hf, without_eq_drop, bind, Except.bind, pure, Except.pure]

/-! ## Changing a record -/

/-- The change keeps what makes a record well-formed where it stands: its id and its type. -/
def Keeps (f : Record → Record) (r : Record) : Prop := (f r).id = r.id ∧ (f r).group = r.group

theorem keys_modify (s : Store) (k : Key) (f : Record → Record) :
    (s.modify k f).records.keys = s.records.keys := by
  have h : (fun p : Key × Record => (if p.1 = k then (p.1, f p.2) else p).1) = (·.1) := by
    funext p
    split <;> rfl
  simp only [modify, Assoc.keys, List.map_map, Function.comp_def, h]

@[simp] theorem member_modify {k : Key} {f : Record → Record} :
    (s.modify k f).Member x g ↔ s.Member x g := Iff.rfl

theorem WellFormed.modify (h : s.WellFormed) {k : Key} {f : Record → Record}
    (hf : ∀ r, s.find? k = some r → Keeps f r) : (s.modify k f).WellFormed where
  own_keys := by
    intro j r hr
    obtain ⟨⟨j', r'⟩, hp, he⟩ := List.mem_map.1 hr
    dsimp only at he
    split at he
    · next hj =>
      obtain ⟨rfl, rfl⟩ := Prod.mk.inj he
      subst hj
      rw [(hf r' (h.find?_eq_some_iff.2 hp)).1]
      exact h.own_keys _ r' hp
    · obtain ⟨rfl, rfl⟩ := Prod.mk.inj he
      exact h.own_keys _ _ hp
  keys_nodup := by
    rw [keys_modify]
    exact h.keys_nodup
  groups := by
    have hk : Assoc.keys ((s.modify k f).records.filter (·.2.isGroup))
        = Assoc.keys (s.records.filter (·.2.isGroup)) := by
      simp only [Store.modify, Assoc.keys, List.filter_map, List.map_map]
      have hg : ∀ p ∈ s.records, ((fun q : Key × Record => q.2.isGroup) ∘
          fun q => if q.1 = k then (q.1, f q.2) else q) p = p.2.isGroup := by
        intro p hp
        dsimp only [Function.comp]
        split
        · next hj =>
          have := (hf p.2 (by rw [← hj]; exact h.find?_eq_some_iff.2 hp)).2
          rw [Record.isGroup, this, Record.isGroup]
        · rfl
      rw [List.filter_congr hg]
      refine List.map_congr_left fun p _ => ?_
      dsimp only [Function.comp]
      split <;> rfl
    rw [hk]
    exact h.groups
  members_nodup := h.members_nodup
  members_exist := by
    rw [keys_modify]
    exact h.members_exist

theorem Typed.modify (h : s.Typed) {k : Key} {f : Record → Record}
    (hf : ∀ r, r.Typed → (f r).Typed) : (s.modify k f).Typed := by
  intro r hr
  obtain ⟨p, hp, rfl⟩ := List.mem_map.1 hr
  obtain ⟨q, hq, rfl⟩ := List.mem_map.1 hp
  have := h q.2 (List.mem_map_of_mem hq)
  split
  · exact hf q.2 this
  · exact this

/-- The store with another record under a key. -/
def put (s : Store) (k : Key) (r : Record) : Store := s.modify k fun _ => r

theorem modify_eq_put (h : s.WellFormed) {k : Key} {r : Record} (hk : s.find? k = some r)
    (f : Record → Record) : s.modify k f = s.put k (f r) := by
  have hm : s.records.map (fun p => if p.1 = k then (p.1, f p.2) else p)
      = s.records.map fun p => if p.1 = k then (p.1, f r) else p := by
    refine List.map_congr_left fun p hp => ?_
    split
    · next hj =>
      subst hj
      obtain rfl : r = p.2 := Option.some.inj (hk.symm.trans (h.find?_eq_some_iff.2 hp))
      rfl
    · rfl
  rw [put, modify, modify, hm]

theorem put_put (s : Store) (k : Key) (r r' : Record) : (s.put k r).put k r' = s.put k r' := by
  simp only [put, modify, List.map_map]
  refine congrArg (fun l => Store.mk l s.members) (List.map_congr_left fun p _ => ?_)
  by_cases hk : p.1 = k <;> simp [hk]

theorem find?_put {k : Key} {r : Record} (hk : s.find? k = some r) (r' : Record) (j : Key) :
    (s.put k r').find? j = if j = k then some r' else s.find? j := by
  rw [put, find?_modify]
  split
  · next hj =>
    subst hj
    rw [hk, Option.map_some]
  · rfl

@[simp] theorem member_put {k : Key} {r : Record} : (s.put k r).Member x g ↔ s.Member x g :=
  Iff.rfl

theorem WellFormed.put (h : s.WellFormed) {k : Key} {r : Record} (hk : s.find? k = some r)
    (r' : Record) (hr : r'.id = r.id ∧ r'.group = r.group) : (s.put k r').WellFormed :=
  h.modify fun q hq => by
    obtain rfl : r = q := Option.some.inj (hk.symm.trans hq)
    exact hr

theorem Typed.put (h : s.Typed) {k : Key} {r : Record} (hr : r.Typed) : (s.put k r).Typed :=
  h.modify fun _ _ => hr

/-! ## New records and new memberships -/

theorem Typed.of_append (h : s.Typed) {s' : Store} {k : Key} {r : Record} (hr : r.Typed)
    (hs : s'.records = s.records ++ [(k, r)]) : s'.Typed := by
  intro q hq
  rw [all, hs, List.map_append, List.mem_append] at hq
  rcases hq with hq | hq
  · exact h q hq
  · obtain rfl : q = r := by simpa using hq
    exact hr

/-- The store with a new record at the end, and an empty list if it is a group. -/
def added (s : Store) (a : Scalar) (r : Record) : Store where
  records := s.records ++ [(a.key, r)]
  members := if r.isGroup then s.members ++ [(a, [])] else s.members

theorem mem_members_added {a : Scalar} {r : Record} {p : Scalar × List Scalar} (hp : p.2 ≠ []) :
    p ∈ (s.added a r).members ↔ p ∈ s.members := by
  have hne : p ≠ (a, []) := fun he => hp (congrArg Prod.snd he)
  rw [added]
  split
  · simp [hne]
  · rfl

theorem member_added {a : Scalar} {r : Record} : (s.added a r).Member x g ↔ s.Member x g := by
  unfold Member
  refine exists_congr fun b => exists_congr fun ms => exists_congr fun m => ?_
  refine and_congr_left fun ⟨_, hm, _⟩ => mem_members_added ?_
  rintro rfl
  cases hm

theorem WellFormed.added (h : s.WellFormed) {a : Scalar} {r : Record} (hid : r.id.toKey = .ok a.key)
    (hnew : a.key ∉ s.records.keys) : (s.added a r).WellFormed where
  own_keys := by
    intro j q hq
    rcases List.mem_append.1 hq with hq | hq
    · exact h.own_keys j q hq
    · obtain ⟨rfl, rfl⟩ := Prod.mk.inj (List.mem_singleton.1 hq)
      exact hid
  keys_nodup := by
    rw [Store.added, Assoc.keys, List.map_append]
    refine List.nodup_append.2 ⟨h.keys_nodup, by simp, fun j hj i hi he => ?_⟩
    obtain rfl : i = a.key := by simpa using hi
    exact hnew (he ▸ hj)
  groups := by
    have hg := h.groups
    rw [Assoc.keys] at hg ⊢
    rw [Store.added, List.filter_append, Assoc.keys, List.map_append]
    cases hr : r.isGroup with
    | true => simp [hr, hg, Assoc.keys]
    | false => simp [hr, hg, Assoc.keys]
  members_nodup := by
    intro b ms hm
    by_cases hms : ms = []
    · subst hms
      exact .nil
    · exact h.members_nodup b ms ((mem_members_added hms).1 hm)
  members_exist := by
    intro b ms hm m hmem
    have hm := (mem_members_added (List.ne_nil_of_mem hmem)).1 hm
    rw [Store.added, Assoc.keys, List.map_append]
    exact List.mem_append_left _ (h.members_exist b ms hm m hmem)

/-- A new record goes to the end, with an empty list if it is a group. -/
theorem WellFormed.create_ok (h : s.WellFormed) {k : Key} {r : Record} (hid : r.id.toKey = .ok k)
    (hk : s.find? k = none) :
    ∃ s', s.create r = .ok s' ∧ s'.WellFormed ∧ s'.records = s.records ++ [(k, r)] ∧
      ∀ x g, s'.Member x g ↔ s.Member x g := by
  obtain ⟨a, ha, rfl⟩ := Value.toKey_eq_ok_iff.1 hid
  have hnew : a.key ∉ s.records.keys := by
    intro hm
    obtain ⟨⟨j, q⟩, hp, he⟩ := List.mem_map.1 hm
    obtain rfl : j = a.key := he
    rw [h.find?_eq_some_iff.2 hp] at hk
    cases hk
  have hlist : ∀ p ∈ s.members, (p.1 == a) = false := by
    intro p hp
    rw [← Bool.not_eq_true, Scalar.beq_iff]
    intro he
    obtain ⟨g, hg, -⟩ := h.exists_group hp
    rw [he, hk] at hg
    cases hg
  have hrecords : s.records.set a.key r = s.records ++ [(a.key, r)] := by
    refine Assoc.set_of_new (fun p hp => ?_) r
    rw [beq_eq_false_iff_ne]
    intro he
    exact hnew (he ▸ List.mem_map_of_mem (f := (·.1)) hp)
  have hcreate : s.create r = .ok (s.added a r) := by
    simp only [create, ha, has, hk, hrecords, Assoc.set_of_new hlist, bind, Except.bind, pure,
      Except.pure, Option.isSome_none, Bool.false_eq_true, if_false]
    rfl
  exact ⟨_, hcreate, h.added hid hnew, rfl, fun x g => member_added⟩

/-- The store with one more member at the end of the list of a group. -/
def extend (s : Store) (a m : Scalar) : Store :=
  { s with members := s.members.map fun p => if p.1 == a then (p.1, p.2 ++ [m]) else p }

theorem mem_members_extend {a m b : Scalar} {ns : List Scalar} :
    (b, ns) ∈ (s.extend a m).members ↔
      ∃ l, (b, l) ∈ s.members ∧ ns = if b == a then l ++ [m] else l := by
  constructor
  · intro h
    obtain ⟨⟨b', l⟩, hp, he⟩ := List.mem_map.1 h
    dsimp only at he
    split at he
    · next hb =>
      obtain ⟨rfl, rfl⟩ := Prod.mk.inj he
      exact ⟨l, hp, (if_pos hb).symm⟩
    · next hb =>
      obtain ⟨rfl, rfl⟩ := Prod.mk.inj he
      exact ⟨l, hp, (if_neg hb).symm⟩
  · rintro ⟨l, hl, rfl⟩
    refine List.mem_map.2 ⟨(b, l), hl, ?_⟩
    by_cases hb : (b == a) = true <;> simp [hb]

theorem member_extend {a m : Scalar} {ms : List Scalar} (hl : s.members.lookup a = some ms) :
    (s.extend a m).Member x g ↔ s.Member x g ∨ x = m.key ∧ g = a.key := by
  constructor
  · rintro ⟨b, ns, y, hb, rfl, hy, rfl⟩
    obtain ⟨l, hbl, rfl⟩ := mem_members_extend.1 hb
    split at hy
    · next he =>
      rcases List.mem_append.1 hy with hy | hy
      · exact .inl ⟨b, l, y, hbl, rfl, hy, rfl⟩
      · obtain rfl := List.mem_singleton.1 hy
        exact .inr ⟨rfl, Scalar.beq_iff.1 he⟩
    · exact .inl ⟨b, l, y, hbl, rfl, hy, rfl⟩
  · rintro (⟨b, l, y, hb, rfl, hy, rfl⟩ | ⟨rfl, rfl⟩)
    · refine ⟨b, _, y, mem_members_extend.2 ⟨l, hb, rfl⟩, rfl, ?_, rfl⟩
      split
      · exact List.mem_append_left _ hy
      · exact hy
    · obtain ⟨b, hb, he⟩ := Assoc.exists_mem_of_lookup hl
      refine ⟨b, _, m, mem_members_extend.2 ⟨ms, hb, rfl⟩, (Scalar.beq_iff.1 he).symm, ?_, rfl⟩
      rw [if_pos (BEq.symm he)]
      simp

theorem WellFormed.extend (h : s.WellFormed) {a m : Scalar} (hm : m.key ∈ s.records.keys)
    (hnew : ¬ s.Member m.key a.key) : (s.extend a m).WellFormed where
  own_keys := h.own_keys
  keys_nodup := h.keys_nodup
  groups := by
    have hkeys : (s.extend a m).members.keys = s.members.keys := by
      rw [Store.extend, Assoc.keys, List.map_map]
      refine List.map_congr_left fun p _ => ?_
      by_cases hp : (p.1 == a) = true <;> simp [hp]
    rw [hkeys]
    exact h.groups
  members_nodup := by
    intro b ns hb
    obtain ⟨l, hbl, rfl⟩ := mem_members_extend.1 hb
    split
    · next he =>
      rw [List.map_append]
      refine List.nodup_append.2 ⟨h.members_nodup b l hbl, by simp, fun i hi i' hi' hii => ?_⟩
      obtain ⟨y, hy, rfl⟩ := List.mem_map.1 hi
      obtain rfl : i' = m.key := by simpa using hi'
      exact hnew ⟨b, l, y, hbl, Scalar.beq_iff.1 he, hy, hii⟩
    · exact h.members_nodup b l hbl
  members_exist := by
    intro b ns hb y hy
    obtain ⟨l, hbl, rfl⟩ := mem_members_extend.1 hb
    split at hy
    · rcases List.mem_append.1 hy with hy | hy
      · exact h.members_exist b l hbl y hy
      · obtain rfl := List.mem_singleton.1 hy
        exact hm
    · exact h.members_exist b l hbl y hy

/-- Putting a record in a list adds the membership, if it is not there. -/
theorem WellFormed.addMember_eq (h : s.WellFormed) {r q : Record} {a m : Scalar}
    {ms : List Scalar} {id : Value} (hgm : s.groupMembers r = .ok (a, ms))
    (hl : s.members.lookup a = some ms) (hm : id.toScalar = .ok m) (hq : s.find? m.key = some q) :
    ∃ b s', s.addMember r id = .ok (b, s') ∧ s'.WellFormed ∧ s'.records = s.records ∧
      ∀ x g, s'.Member x g ↔ s.Member x g ∨ x = m.key ∧ g = a.key := by
  have hhas : s.has m.key = true := has_iff.2 ⟨q, hq⟩
  have hin : ms.contains m = true ↔ s.Member m.key a.key := by
    rw [h.member_iff hl, List.contains_iff_exists_mem_beq]
    refine exists_congr fun y => and_congr_right fun _ => ?_
    rw [Scalar.beq_iff, eq_comm]
  cases hc : ms.contains m with
  | true =>
    refine ⟨false, s, ?_, h, rfl, fun x g => ⟨.inl, fun hx => hx.elim (fun hx => hx) ?_⟩⟩
    · simp [addMember, hgm, hm, hhas, hc, bind, Except.bind, pure, Except.pure]
    · rintro ⟨rfl, rfl⟩
      exact hin.1 hc
  | false =>
    have hset : { s with members := s.members.set a (ms ++ [m]) } = s.extend a m := by
      rw [Store.extend, Assoc.set_eq_map (fun l => l ++ [m]) h.lists_pairwise hl rfl]
    have hnew : ¬ s.Member m.key a.key := by rw [← hin, hc]; exact Bool.false_ne_true
    have hkey : m.key ∈ s.records.keys :=
      List.mem_map_of_mem (f := (·.1)) (h.find?_eq_some_iff.1 hq)
    refine ⟨true, s.extend a m, ?_, h.extend hkey hnew, rfl, fun x g => member_extend hl⟩
    rw [← hset]
    simp [addMember, hgm, hm, hhas, hc, bind, Except.bind, pure, Except.pure]

/-- Making a record a member of a group adds that membership, if it is not there. -/
theorem WellFormed.addMember_ok (h : s.WellFormed) {k j : Key} {r q : Record} {id : Value}
    (hf : s.find? k = some r) (hg : r.isGroup = true) (hid : id.toKey = .ok j)
    (hj : s.find? j = some q) :
    ∃ b s', s.addMember r id = .ok (b, s') ∧ s'.WellFormed ∧ s'.records = s.records ∧
      ∀ x g, s'.Member x g ↔ s.Member x g ∨ x = j ∧ g = k := by
  obtain ⟨a, ms, hgm, -, rfl, hl⟩ := h.groupMembers_ok hf hg
  obtain ⟨m, hm, rfl⟩ := Value.toKey_eq_ok_iff.1 hid
  exact h.addMember_eq hgm hl hm hj

/-! ## Counting memberships -/

theorem membershipCount_eq (s : Store) :
    s.membershipCount = (s.members.map fun p => p.2.length).sum := by
  have h (l : Assoc Scalar (List Scalar)) (n : Nat) :
      l.foldl (fun n p => n + p.2.length) n = n + (l.map fun p => p.2.length).sum := by
    induction l generalizing n with
    | nil => simp
    | cons p l ih => rw [List.foldl_cons, ih, List.map_cons, List.sum_cons, Nat.add_assoc]
  rw [membershipCount, h, Nat.zero_add]

/-- Cutting a membership that is there leaves fewer of them. -/
theorem membershipCount_cut_lt (hm : s.Member x g) (hD : D x g = true) :
    (s.cut D).membershipCount < s.membershipCount := by
  obtain ⟨a, ms, m, hp, rfl, hmem, rfl⟩ := hm
  rw [membershipCount_eq, membershipCount_eq]
  obtain ⟨l₁, l₂, he⟩ := List.append_of_mem hp
  have hle (l : Assoc Scalar (List Scalar)) :
      ((l.map fun p => (p.1, p.2.filter fun m => !D m.key p.1.key)).map fun p => p.2.length).sum
        ≤ (l.map fun p => p.2.length).sum := by
    rw [List.map_map]
    exact List.sum_le_sum fun p _ => List.length_filter_le _ _
  have hlt : (ms.filter fun m => !D m.key a.key).length < ms.length :=
    List.length_filter_lt_length_iff_exists.2 ⟨m, hmem, by simp [hD]⟩
  have h₁ := hle l₁
  have h₂ := hle l₂
  simp only [cut, he, List.map_append, List.map_cons, List.sum_append, List.sum_cons]
  omega

end Store

end Roster
