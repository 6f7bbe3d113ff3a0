import Roster.Proofs.Entering

/-!
# Groups joined

A record that joins groups goes to the end of their member lists, if it is not in them yet
(`Store.joined`). In this form the store after joining the auto-membership groups is known exactly,
with the order of its lists: joining them once more changes nothing (`joined_joined`), and a record
that is taken out of groups which it had only joined comes back to where it was
(`joined_cut_joined`).

* `applyMembership_joined_ends`, `syncGroup_joined_ends`, `localGroup_new_ends`: what a
  synchronisation makes of it.
-/

namespace Roster

/-- A list of members with one more at the end, if it is to join and is not there yet. -/
def enlist (m : Scalar) (join : Bool) (ms : List Scalar) : List Scalar :=
  if join && !ms.contains m then ms ++ [m] else ms

section Enlist

variable {m y : Scalar} {join join' : Bool} {ms : List Scalar}

theorem contains_iff_mem_keysOf : ms.contains m = true ↔ m.key ∈ keysOf ms := by
  rw [List.contains_iff_exists_mem_beq, keysOf, List.mem_map]
  refine exists_congr fun y => and_congr_right fun _ => ?_
  rw [Scalar.beq_iff, eq_comm]

@[simp] theorem enlist_false : enlist m false ms = ms := rfl

theorem enlist_of_contains (h : ms.contains m = true) : enlist m join ms = ms := by
  rw [enlist, h, Bool.not_true, Bool.and_false, if_neg Bool.false_ne_true]

theorem enlist_of_not_contains (h : ms.contains m = false) : enlist m true ms = ms ++ [m] := by
  rw [enlist, h, Bool.not_false, Bool.and_true, if_pos rfl]

theorem keysOf_append_self : m.key ∈ keysOf (ms ++ [m]) := by simp [keysOf]

theorem enlist_enlist : enlist m join' (enlist m join ms) = enlist m (join || join') ms := by
  cases hc : ms.contains m with
  | true => simp only [enlist_of_contains hc]
  | false =>
    cases join with
    | false => rfl
    | true =>
      have happend : (ms ++ [m]).contains m = true := contains_iff_mem_keysOf.2 keysOf_append_self
      rw [Bool.true_or, enlist_of_not_contains hc, enlist_of_contains happend]

theorem mem_enlist (h : y ∈ enlist m join ms) : y ∈ ms ∨ y = m ∧ join = true := by
  unfold enlist at h
  split at h
  · next hj =>
    rcases List.mem_append.1 h with h | h
    · exact .inl h
    · exact .inr ⟨List.mem_singleton.1 h, (Bool.and_eq_true_iff.1 hj).1⟩
  · exact .inl h

theorem mem_enlist_of_mem (h : y ∈ ms) : y ∈ enlist m join ms := by
  unfold enlist
  split
  · exact List.mem_append_left _ h
  · exact h

theorem mem_keysOf_enlist : m.key ∈ keysOf (enlist m true ms) := by
  cases hc : ms.contains m with
  | true =>
    rw [enlist_of_contains hc]
    exact contains_iff_mem_keysOf.1 hc
  | false =>
    rw [enlist_of_not_contains hc]
    exact keysOf_append_self

theorem nodup_enlist (h : (keysOf ms).Nodup) : (keysOf (enlist m join ms)).Nodup := by
  cases hc : ms.contains m with
  | true => rwa [enlist_of_contains hc]
  | false =>
    cases join with
    | false => exact h
    | true =>
      have hm : m.key ∉ keysOf ms := by
        rw [← contains_iff_mem_keysOf, hc]
        exact Bool.false_ne_true
      rw [enlist_of_not_contains hc, keysOf, List.map_append]
      refine List.nodup_append.2 ⟨h, by simp, fun a ha b hb he => ?_⟩
      obtain rfl : b = m.key := by simpa using hb
      exact hm (he ▸ ha)

end Enlist

namespace Store

variable {s : Store} {A B : Key → Bool} {D : Key → Key → Bool} {m : Scalar} {x g k : Key}
  {r : Record}

/-- The store in which a record has joined some groups. -/
def joined (s : Store) (A : Key → Bool) (m : Scalar) : Store :=
  { s with members := s.members.map fun p => (p.1, enlist m (A p.1.key) p.2) }

@[simp] theorem find?_joined : (s.joined A m).find? k = s.find? k := rfl

theorem joined_put : (s.put k r).joined A m = (s.joined A m).put k r := rfl

theorem joined_joined : (s.joined A m).joined B m = s.joined (fun g => A g || B g) m := by
  simp only [joined, List.map_map, Function.comp_def, enlist_enlist]

theorem joined_self : (s.joined A m).joined A m = s.joined A m := by
  simp only [joined_joined, Bool.or_self]

theorem joined_congr (h : ∀ p ∈ s.members, enlist m (A p.1.key) p.2 = enlist m (B p.1.key) p.2) :
    s.joined A m = s.joined B m := by
  rw [joined, joined, List.map_congr_left fun p hp => by rw [h p hp]]

@[simp] theorem joined_false : s.joined (fun _ => false) m = s := by
  simp [joined]

/-- Nothing is joined where nothing is asked for but what is there. -/
theorem joined_eq_self (h : ∀ p ∈ s.members, A p.1.key = true → p.2.contains m = true) :
    s.joined A m = s := by
  refine (joined_congr fun p hp => ?_).trans joined_false
  cases ha : A p.1.key with
  | true => rw [enlist_of_contains (h p hp ha), enlist_false]
  | false => rfl

/-- Groups that are left after they were joined, and only these, are joined again as before. -/
theorem joined_cut_joined (hD : ∀ x g, D x g = true → x = m.key ∧ ¬ s.Member m.key g) :
    ((s.joined A m).cut D).joined A m = s.joined A m := by
  have hlist : ∀ p ∈ s.members,
      enlist m (A p.1.key) ((enlist m (A p.1.key) p.2).filter fun y => !D y.key p.1.key)
        = enlist m (A p.1.key) p.2 := by
    rintro ⟨a, ms⟩ hp
    dsimp only
    -- who was a member before is not taken out
    have hkeep : ms.filter (fun y => !D y.key a.key) = ms := by
      refine List.filter_eq_self.2 fun y hy => ?_
      rw [Bool.not_eq_true', ← Bool.not_eq_true]
      intro hd
      obtain ⟨hk, hn⟩ := hD _ _ hd
      exact hn ⟨a, ms, y, hp, rfl, hy, hk⟩
    cases hc : ms.contains m with
    | true => rw [enlist_of_contains hc, hkeep, enlist_of_contains hc]
    | false =>
      cases A a.key with
      | false => exact hkeep
      | true =>
        rw [enlist_of_not_contains hc, List.filter_append, hkeep]
        cases hd : D m.key a.key with
        | true => simp [hd, enlist_of_not_contains hc]
        | false =>
          have happend : (ms ++ [m]).contains m = true :=
            contains_iff_mem_keysOf.2 keysOf_append_self
          simp [hd, enlist_of_contains happend]
  simp only [joined, cut, List.map_map, Function.comp_def]
  rw [List.map_congr_left fun p hp => by rw [hlist p hp]]

theorem keys_members_joined : (s.joined A m).members.keys = s.members.keys := by
  simp [joined, Assoc.keys, List.map_map, Function.comp_def]

namespace WellFormed

variable (h : s.WellFormed)
include h

theorem member_joined : (s.joined A m).Member x g ↔
    s.Member x g ∨ x = m.key ∧ A g = true ∧ ∃ r, s.find? g = some r ∧ r.isGroup = true := by
  constructor
  · rintro ⟨a, ns, y, hq, rfl, hy, rfl⟩
    obtain ⟨⟨a', ms⟩, hp, he⟩ := List.mem_map.1 hq
    obtain ⟨rfl, rfl⟩ := Prod.mk.inj he
    rcases mem_enlist hy with hy | ⟨rfl, ha⟩
    · exact .inl ⟨_, ms, y, hp, rfl, hy, rfl⟩
    · exact .inr ⟨rfl, ha, h.exists_group hp⟩
  · rintro (⟨a, ms, y, hp, rfl, hy, rfl⟩ | ⟨rfl, ha, r, hr, hg⟩)
    · exact ⟨a, _, y, List.mem_map_of_mem hp, rfl, mem_enlist_of_mem hy, rfl⟩
    · obtain ⟨a, ms, hp, rfl⟩ := h.exists_list hr hg
      have hm : m.key ∈ keysOf (enlist m (A a.key) ms) := by
        rw [ha]
        exact mem_keysOf_enlist
      obtain ⟨y, hy, hk⟩ := List.mem_map.1 hm
      exact ⟨a, _, y, List.mem_map_of_mem hp, rfl, hy, hk⟩

theorem joined (hm : s.find? m.key = some r) : (s.joined A m).WellFormed where
  own_keys := h.own_keys
  keys_nodup := h.keys_nodup
  groups := by
    rw [keys_members_joined]
    exact h.groups
  members_nodup := by
    intro a ns hq
    obtain ⟨⟨a', ms⟩, hp, he⟩ := List.mem_map.1 hq
    obtain ⟨rfl, rfl⟩ := Prod.mk.inj he
    exact nodup_enlist (h.members_nodup _ ms hp)
  members_exist := by
    intro a ns hq y hy
    obtain ⟨⟨a', ms⟩, hp, he⟩ := List.mem_map.1 hq
    obtain ⟨rfl, rfl⟩ := Prod.mk.inj he
    rcases mem_enlist hy with hy | ⟨rfl, -⟩
    · exact h.members_exist _ ms hp y hy
    · exact List.mem_map_of_mem (f := (·.1)) (h.find?_eq_some_iff.1 hm)

/-- Where the key is that of no group, there is nothing to join. -/
theorem joined_of_no_group (hg : ∀ r, s.find? g = some r → r.isGroup = false) :
    s.joined (· == g) m = s := by
  refine joined_eq_self fun p hp hk => ?_
  obtain ⟨r, hr, hgroup⟩ := h.exists_group hp
  rw [beq_iff_eq.1 hk] at hr
  rw [hg r hr] at hgroup
  cases hgroup

theorem joined_of_member (hm : s.Member m.key g) : s.joined (· == g) m = s := by
  obtain ⟨a, ms, y, hp, rfl, hy, hk⟩ := hm
  refine joined_eq_self fun p hp' he => ?_
  have hlook := Assoc.lookup_of_mem h.lists_pairwise hp (BEq.refl a)
  have hlook' := Assoc.lookup_of_mem (k := a) h.lists_pairwise hp'
    (Scalar.beq_iff.2 (beq_iff_eq.1 he).symm)
  obtain rfl : ms = p.2 := Option.some.inj (hlook.symm.trans hlook')
  exact contains_iff_mem_keysOf.2 (hk ▸ List.mem_map_of_mem hy)

/-- Making a record a member of a group, it joins that group. -/
theorem addMember_joined (hf : s.find? k = some r) (hg : r.isGroup = true) {id : Value}
    (hid : id.toScalar = .ok m) (hm : s.has m.key = true) :
    ∃ b, s.addMember r id = .ok (b, s.joined (· == k) m) := by
  obtain ⟨a, ms, hgm, -, rfl, hl⟩ := h.groupMembers_ok hf hg
  cases hc : ms.contains m with
  | true =>
    have hmem : s.Member m.key a.key := (h.member_iff hl).2
      (List.mem_map.1 (contains_iff_mem_keysOf.1 hc))
    refine ⟨false, ?_⟩
    rw [h.joined_of_member hmem]
    simp [addMember, hgm, hid, hm, hc, bind, Except.bind, pure, Except.pure]
  | false =>
    have hset : s.members.set a (ms ++ [m]) = (s.joined (· == a.key) m).members := by
      rw [Assoc.set_eq_map (enlist m true) h.lists_pairwise hl (enlist_of_not_contains hc)]
      refine List.map_congr_left fun p _ => ?_
      have hk : (p.1 == a) = (p.1.key == a.key) := by
        rw [Bool.eq_iff_iff, Scalar.beq_iff, beq_iff_eq]
      dsimp only
      rw [hk]
      cases p.1.key == a.key <;> rfl
    refine ⟨true, ?_⟩
    simp only [addMember, hgm, hid, hm, hc, bind, Except.bind, pure, Except.pure, Bool.not_true,
      Bool.false_eq_true, if_false, hset]
    rfl

end WellFormed

/-- A record stands where it stands. -/
theorem put_eq_self (h : s.WellFormed) (hk : s.find? k = some r) : s.put k r = s := by
  have hm : s.records.map (fun p => if p.1 = k then (p.1, r) else p) = s.records.map id := by
    refine List.map_congr_left fun p hp => ?_
    split
    · next hj =>
      subst hj
      obtain rfl : r = p.2 := Option.some.inj (hk.symm.trans (h.find?_eq_some_iff.2 hp))
      rfl
    · rfl
  rw [put, modify, hm, List.map_id]

end Store

namespace Context

variable {ctx : Context} {c : Scene} {s : Store} {k : Key} {r g : Record} {i : Identity}
  {a m : Scalar} {log : Channel} {E : Failure → Store → Prop}

/-- The groups that a record joins automatically: none in a dynamic context. -/
def autos (ctx : Context) (isGroup : Bool) (g : Key) : Bool :=
  !ctx.dynamic && decide (g ∈ (ctx.policy.autoMembershipFor isGroup).keys)

theorem autos_of_dynamic (h : ctx.dynamic = true) {isGroup : Bool} :
    ctx.autos isGroup = fun _ => false := by
  funext g
  rw [autos, h, Bool.not_true, Bool.false_and]

theorem autos_of_empty {isGroup : Bool} (h : ctx.policy.autoMembershipFor isGroup = ∅) :
    ctx.autos isGroup = fun _ => false := by
  funext g
  rw [autos, h]
  exact Bool.and_false _

theorem addMember_joined_ends (hc : c.Foresees E) (h : s.WellFormed) (hk : s.find? k = some g)
    (hg : g.isGroup = true) {id : Value} (hid : id.toScalar = .ok m) (hm : s.has m.key = true) :
    Sync.Ends c s (Sync.addMember g id) (fun _ s' => s' = s.joined (· == k) m) E := by
  obtain ⟨b, hadd⟩ := h.addMember_joined hk hg hid hm
  unfold Sync.addMember
  refine Sync.Ends.step (Sync.Ends.allowed hc (by decide) ?_)
  exact Sync.Ends.onStore_ok hadd rfl

theorem joinGroup_joined_ends (hc : c.Foresees E) (h : s.WellFormed) (hid : r.id.toScalar = .ok m)
    (hm : s.has m.key = true) :
    Sync.Ends c s (joinGroup r log (.scalar a)) (fun _ s' => s' = s.joined (· == a.key) m) E := by
  unfold joinGroup
  refine Sync.Ends.step (Sync.Ends.lookUp (k := a.key) rfl ?_)
  cases hg : s.find? a.key with
  | none =>
    refine Sync.Ends.log (h.joined_of_no_group fun q hq => ?_).symm
    rw [hg] at hq
    cases hq
  | some g =>
    simp only [Option.map_some]
    split
    · next hgroup =>
      refine Sync.Ends.bind (addMember_joined_ends hc h hg hgroup hid hm) ?_
      rintro _ _ rfl
      exact Sync.Ends.pure rfl
    · next hgroup =>
      refine Sync.Ends.log (h.joined_of_no_group fun q hq => ?_).symm
      obtain rfl : g = q := Option.some.inj (hg.symm.trans hq)
      simpa using hgroup

/-- A record joins its auto-membership groups. -/
theorem applyMembership_joined_ends (hc : c.Foresees E) (h : s.WellFormed)
    (hk : s.find? m.key = some r) (hid : r.id.toScalar = .ok m) (isGroup : Bool)
    (hn : (ctx.policy.autoMembershipFor isGroup).Texts) {log : Option Channel} :
    Sync.Ends c s (ctx.applyMembership (.stored m.key)
      (inOrder (ctx.policy.autoMembershipFor isGroup)) log)
      (fun _ s' => s' = s.joined (ctx.autos isGroup) m) E := by
  unfold applyMembership
  refine Sync.Ends.step (Sync.Ends.record hk ?_)
  split
  · next hdyn =>
    rw [autos_of_dynamic hdyn, Store.joined_false]
    exact Sync.Ends.log rfl
  · next hdyn =>
    refine Sync.Ends.step (Sync.Ends.result_ok (inOrder_eq hn) ?_)
    have hmap : ((ctx.policy.autoMembershipFor isGroup).members.map Value.scalar).forM
        (joinGroup r (log.getD ⟨"default_sync", none⟩))
        = (ctx.policy.autoMembershipFor isGroup).members.forM
          fun a => joinGroup r (log.getD ⟨"default_sync", none⟩) (.scalar a) := List.forM_map
    rw [hmap]
    refine (Sync.Ends.forM (I := fun done s' => s' = s.joined (fun g => decide (g ∈ keysOf done)) m)
      (by simp [keysOf]) ?_).mono ?_ fun _ _ => id
    · rintro done a rest _ he rfl
      have hhas : (s.joined (fun g => decide (g ∈ keysOf done)) m).has m.key = true :=
        Store.has_iff.2 ⟨r, hk⟩
      refine (joinGroup_joined_ends hc (h.joined hk) hid hhas).mono ?_ fun _ _ => id
      rintro _ _ rfl
      rw [Store.joined_joined]
      refine congrArg (Store.joined s · m) (funext fun g => ?_)
      rw [Bool.eq_iff_iff, Bool.or_eq_true, decide_eq_true_eq, decide_eq_true_eq, beq_iff_eq,
        keysOf, keysOf, List.map_append, List.mem_append, List.map_singleton, List.mem_singleton]
    · rintro _ _ rfl
      refine congrArg (Store.joined s · m) (funext fun g => ?_)
      rw [autos, Bool.eq_false_iff.2 hdyn, Bool.not_false, Bool.true_and]
      rfl

/-- A group takes over the attributes of its identity and joins its auto-membership groups. -/
theorem syncGroup_joined_ends (hc : c.Foresees E) (h : s.WellFormed) (hk : s.find? m.key = some r)
    (hid : r.id.toScalar = .ok m) (hr : r.Typed) (hi : i.Typed) (hp : ctx.policy.Typed)
    {log : Option Channel} :
    Sync.Ends c s (ctx.syncGroup i (.stored m.key) log)
      (fun _ s' => s' = (s.joined (ctx.autos true) m).put m.key (ctx.refreshed c i r)) E := by
  unfold syncGroup
  refine Sync.Ends.bind (syncProperties_ends h hk hr hi hp.groupMapping) ?_
  rintro _ _ rfl
  have hk' := Store.find?_put hk (r.takingOver ctx.policy.group.propertyMapping i) m.key
  rw [if_pos rfl] at hk'
  have hwf := h.put hk (r.takingOver ctx.policy.group.propertyMapping i) ⟨rfl, rfl⟩
  refine Sync.Ends.bind (applyMembership_joined_ends hc hwf hk' hid true hp.groupGroups) ?_
  rintro _ _ rfl
  refine (stamp_ends (hwf.joined hk') hk').mono ?_ fun _ _ => id
  rintro _ _ rfl
  rw [Store.joined_put, Store.put_put]
  rfl

/-- Where there are no groups to join, a group takes over the attributes of its identity and nothing
else happens. -/
theorem syncGroup_unjoined_ends (hc : c.Foresees E) (h : s.WellFormed) (hk : s.find? k = some r)
    (hr : r.Typed) (hi : i.Typed) (hp : ctx.policy.Typed)
    (hnone : ctx.autos true = fun _ => false) {log : Option Channel} :
    Sync.Ends c s (ctx.syncGroup i (.stored k) log)
      (fun _ s' => s' = s.put k (ctx.refreshed c i r)) E := by
  obtain ⟨m, hm, rfl⟩ := Value.toKey_eq_ok_iff.1 (h.toKey_of_find? hk)
  refine (syncGroup_joined_ends hc h hk hm hr hi hp).mono ?_ fun _ _ => id
  rintro _ _ rfl
  rw [hnone, Store.joined_false]

/-- A local group that is not there is created with the attributes of its identity, and joins its
auto-membership groups. -/
theorem localGroup_new_ends (hc : c.Foresees E) (h : s.WellFormed) (ht : s.Typed) (hi : i.Typed)
    (hid : i.id.toKey = .ok k) (hnew : s.find? k = none) (hp : ctx.policy.Typed)
    (htime : c.clock.IsTime) :
    Sync.Ends c s (ctx.localGroup i log)
      (fun a s' => a = some (.stored k, ctx.refreshed c i (ctx.newRecord i true)) ∧
        s'.WellFormed ∧ s'.Typed ∧
        (∀ y, s'.find? y
          = if y = k then some (ctx.refreshed c i (ctx.newRecord i true)) else s.find? y) ∧
        ∀ x y, s'.Member x y ↔ s.Member x y ∨
          x = k ∧ ctx.autos true y = true ∧ ∃ q, s'.find? y = some q ∧ q.isGroup = true) E := by
  have hty : (ctx.newRecord i true).Typed := typed_newRecord hi true
  obtain ⟨m, hm, rfl⟩ := Value.toKey_eq_ok_iff.1 hid
  unfold localGroup
  refine Sync.Ends.step (Sync.Ends.lookUp hid ?_)
  simp only [hnew, Option.map_none]
  refine Sync.Ends.bind (newRecord_ends hc h ht hi hid hnew true) ?_
  rintro _ s₁ ⟨rfl, hwf, ht₁, hfind, hmember⟩
  have hk : s₁.find? m.key = some (ctx.newRecord i true) := by rw [hfind, if_pos rfl]
  refine Sync.Ends.bind (syncGroup_joined_ends hc hwf hk hm hty hi hp) ?_
  rintro _ _ rfl
  have hfind' (y : Key) : ((s₁.joined (ctx.autos true) m).put m.key
      (ctx.refreshed c i (ctx.newRecord i true))).find? y
        = if y = m.key then some (ctx.refreshed c i (ctx.newRecord i true)) else s.find? y := by
    rw [Store.find?_put (s := s₁.joined (ctx.autos true) m) hk]
    split
    · rfl
    · next hy => rw [Store.find?_joined, hfind, if_neg hy]
  refine Sync.Ends.step (Sync.Ends.record ((hfind' m.key).trans (if_pos rfl)) ?_)
  refine Sync.Ends.pure ⟨rfl, (hwf.joined hk).put hk _ ⟨rfl, rfl⟩, ?_, hfind', fun x y => ?_⟩
  · exact Store.Typed.put ht₁
      { hty.takingOver hi _ with lastSynced := .inr htime }
  · rw [Store.member_put, hwf.member_joined, hmember]
    refine or_congr_right (and_congr_right fun _ => and_congr_right fun _ => ?_)
    rw [hfind, hfind']
    -- the new group is one before and after it takes over its attributes
    split
    · simp [newRecord, refreshed, Record.takingOver, Record.isGroup]
    · exact .rfl

/-! ## Placeholders -/

/-- A record that is there is the placeholder if it is a group of the provider. -/
theorem placeholder_found_ends {q : Ref} (hid : i.id.toKey = .ok k) (hk : s.find? k = some g) :
    Sync.Ends c s (ctx.placeholder log q i) (fun a s' => s' = s ∧
      a = if g.isGroup && ctx.owns g.ref then some (.stored k) else none) E := by
  unfold placeholder
  refine Sync.Ends.step (Sync.Ends.lookUp hid ?_)
  simp only [hk, Option.map_some]
  split
  · exact Sync.Ends.pure ⟨rfl, rfl⟩
  · refine Sync.Ends.step (Sync.Ends.log ?_)
    exact Sync.Ends.pure ⟨rfl, rfl⟩

/-- A placeholder that is not there is created. -/
theorem placeholder_new_ends {q : Ref} (hc : c.Foresees E) (h : s.WellFormed) (ht : s.Typed)
    (hq : q.Typed) (hi : i.Typed) (hid : i.id.toKey = .ok k) (hnew : s.find? k = none) :
    Sync.Ends c s (ctx.placeholder log q i) (fun a s' => a = some (.stored k) ∧
      s'.WellFormed ∧ s'.Typed ∧
      (∀ y, s'.find? y = if y = k then some (ctx.newRecord i true) else s.find? y) ∧
      ∀ x y, s'.Member x y ↔ s.Member x y) E := by
  unfold placeholder
  refine Sync.Ends.step (Sync.Ends.lookUp hid ?_)
  simp only [hnew, Option.map_none]
  refine Sync.Ends.bind (newRecord_ends hc h ht hi hid hnew true) ?_
  rintro _ s₁ ⟨rfl, h₁⟩
  refine Sync.Ends.step (Sync.Ends.shown (by rintro _ ⟨rfl⟩; exact hq) fun _ => ?_)
  refine Sync.Ends.step (Sync.Ends.audit ?_)
  refine Sync.Ends.step (Sync.Ends.log ?_)
  exact Sync.Ends.pure ⟨rfl, h₁⟩

end Context

end Roster
