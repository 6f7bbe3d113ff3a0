import Mathlib.Logic.Relation
import Roster.Proofs.Attributes
import Roster.Proofs.Membership

/-!
# What unwinding does

A membership is *clearable* if the group belongs to the provider or is an auto-membership group of
the member. Unwinding a record takes back the clearable memberships of the record and of all groups
that it reaches through clearable memberships, whatever cycles these form. It finds the names of the
groups of the provider among those it leaves, and it deletes those of them that lose all their
members by it, unless a failure strikes their removal (`Scene.Spares`).

The walk is destructive: what it has taken back is not met again. `Walked` says what a part of the
walk has done, relative to the store before the walk: it took back only what it reaches, and behind
each membership that it took back nothing is left. Behind a group that is met again there is nothing
left to do, so that no set of visited groups is needed.

* `unwindFrom_ends`: the walk, by induction on the bound of its depth.
* `walk_ends`: a whole walk, as a function of the store that it begins in.
* `unwind_ends`: the walk and the deletions, as one function of the store (`Context.unwoundStore`).
-/

namespace Roster

open Relation (ReflTransGen)

namespace Context

variable (ctx : Context)

/-- There is a group of the provider under the key. -/
def Owned (s : Store) (g : Key) : Prop := ∃ r, s.find? g = some r ∧ ctx.owns r.ref = true

/-- There is a group of the provider under the key, and it has the name. -/
def Named (s : Store) (g n : Key) : Prop :=
  ∃ r, s.find? g = some r ∧ ctx.owns r.ref = true ∧ r.principalName.toKey = .ok n

/-- A membership in a group of the provider or in an auto-membership group of the member. -/
def Clearable (s : Store) (x g : Key) : Prop :=
  s.Member x g ∧ ∃ r q, s.find? x = some r ∧ s.find? g = some q ∧
    (ctx.owns q.ref = true ∨
      ∃ a, q.id.toScalar = .ok a ∧ (ctx.policy.autoMembershipFor r.isGroup).contains a = true)

/-- What a record reaches through clearable memberships. -/
def Reaches (s : Store) (k x : Key) : Prop := ReflTransGen (ctx.Clearable s) k x

/-- Found names are texts, and found groups are records of the store. -/
structure Found (s : Store) (found : Unwound) : Prop where
  texts : found.names.Texts
  nodup : found.orphans.keys.Nodup
  records : ∀ p ∈ found.orphans, s.find? p.1 = some p.2

/-- What a part of the walk that starts at a record has done to the memberships `D` taken back so
far and to what was found. -/
structure Walked (s : Store) (k : Key) (D : Key → Key → Bool) (found : Unwound)
    (D' : Key → Key → Bool) (found' : Unwound) : Prop where
  kept : ∀ x g, D x g = true → D' x g = true
  sound : ∀ x g, D' x g = true → D x g = true ∨ ctx.Clearable s x g ∧ ctx.Reaches s k x
  closed : ∀ x g i, D' x g = true → D x g = false → ctx.Clearable s g i → D' g i = true
  names : ∀ n, n ∈ found'.names.keys ↔
    n ∈ found.names.keys ∨ ∃ x g, D' x g = true ∧ D x g = false ∧ ctx.Named s g n
  orphans : ∀ g, g ∈ found'.orphans.keys ↔ g ∈ found.orphans.keys ∨
    ctx.policy.hasDynamicGroups = false ∧ ctx.Owned s g ∧
      (∃ x, D' x g = true ∧ D x g = false) ∧ ∀ x, ¬ (s.cut D').Member x g

/-- The memberships taken back and one more. -/
def plus (D : Key → Key → Bool) (k j : Key) : Key → Key → Bool :=
  fun x g => D x g || (x == k && g == j)

theorem plus_eq_true {D : Key → Key → Bool} {k j x g : Key} :
    plus D k j x g = true ↔ D x g = true ∨ x = k ∧ g = j := by
  simp [plus]

theorem plus_eq_false {D : Key → Key → Bool} {k j x g : Key} :
    plus D k j x g = false ↔ D x g = false ∧ ¬ (x = k ∧ g = j) := by
  simp [plus]

variable {ctx} {c : Scene} {s : Store} {k j : Key} {D D₁ D₂ : Key → Key → Bool}
  {found f₁ f₂ f₃ : Unwound}

theorem owned_iff {g : Record} (hj : s.find? j = some g) :
    ctx.Owned s j ↔ ctx.owns g.ref = true := by
  simp [Owned, hj]

theorem named_iff {g : Record} (hj : s.find? j = some g) {n : Key} :
    ctx.Named s j n ↔ ctx.owns g.ref = true ∧ g.principalName.toKey = .ok n := by
  simp [Named, hj]

theorem clearable_iff {r g : Record} (hk : s.find? k = some r) (hj : s.find? j = some g) :
    ctx.Clearable s k j ↔ s.Member k j ∧ (ctx.owns g.ref = true ∨
      ∃ a, g.id.toScalar = .ok a ∧ (ctx.policy.autoMembershipFor r.isGroup).contains a = true) := by
  simp [Clearable, hk, hj]

/-! ## Steps of the walk -/

theorem Walked.refl (s : Store) (k : Key) (D : Key → Key → Bool) (found : Unwound) :
    ctx.Walked s k D found D found where
  kept := fun _ _ h => h
  sound := fun _ _ h => .inl h
  closed := fun x g _ h h' => absurd h (by simp [h'])
  names := fun n => ⟨.inl, fun h => h.elim id fun ⟨_, _, h, h', _⟩ => absurd h (by simp [h'])⟩
  orphans := fun g => ⟨.inl, fun h => h.elim id fun ⟨_, _, ⟨_, h, h'⟩, _⟩ => absurd h (by simp [h'])⟩

theorem Walked.kept_of_plus (h : ctx.Walked s j (plus D₁ k j) f₂ D₂ f₃) {x g : Key}
    (hd : D₁ x g = true) : D₂ x g = true :=
  h.kept x g (plus_eq_true.2 (.inl hd))

theorem Walked.fresh_of_plus (h : ctx.Walked s k D found D₁ f₁) {x g : Key}
    (hd : plus D₁ k j x g = false) : D x g = false := by
  cases hx : D x g with
  | false => rfl
  | true => exact absurd (h.kept x g hx) (by simp [(plus_eq_false.1 hd).1])

/-- The names found before a group, the name of the group and the names found beyond it. -/
theorem Walked.names_step (hw : ctx.Walked s k D found D₁ f₁) (hD : D k j = false)
    (hgo : ctx.Walked s j (plus D₁ k j) f₂ D₂ f₃)
    (hnames : ∀ n, n ∈ f₂.names.keys ↔ n ∈ f₁.names.keys ∨ ctx.Named s j n) (n : Key) :
    n ∈ f₃.names.keys ↔
      n ∈ found.names.keys ∨ ∃ x g, D₂ x g = true ∧ D x g = false ∧ ctx.Named s g n := by
  rw [hgo.names, hnames, hw.names]
  constructor
  · rintro (((h | ⟨x, g, h₁, hd, hn⟩) | hn) | ⟨x, g, h₂, hd, hn⟩)
    · exact .inl h
    · exact .inr ⟨x, g, hgo.kept_of_plus h₁, hd, hn⟩
    · exact .inr ⟨k, j, hgo.kept k j (plus_eq_true.2 (.inr ⟨rfl, rfl⟩)), hD, hn⟩
    · exact .inr ⟨x, g, h₂, hw.fresh_of_plus hd, hn⟩
  · rintro (h | ⟨x, g, h₂, hd, hn⟩)
    · exact .inl (.inl (.inl h))
    · cases hp : plus D₁ k j x g with
      | false => exact .inr ⟨x, g, h₂, hp, hn⟩
      | true =>
        rcases plus_eq_true.1 hp with h₁ | ⟨rfl, rfl⟩
        · exact .inl (.inl (.inr ⟨x, g, h₁, hd, hn⟩))
        · exact .inl (.inr hn)

/-- The groups left without members before a group, beyond it and, perhaps, itself. -/
theorem Walked.orphans_step (hw : ctx.Walked s k D found D₁ f₁) (hD : D k j = false)
    (hgo : ctx.Walked s j (plus D₁ k j) f₂ D₂ f₃) (horphans : f₂.orphans = f₁.orphans) (g : Key) :
    (g ∈ f₃.orphans.keys ∨ g = j ∧ ctx.policy.hasDynamicGroups = false ∧ ctx.Owned s j ∧
        ∀ x, ¬ (s.cut D₂).Member x j) ↔
      g ∈ found.orphans.keys ∨ ctx.policy.hasDynamicGroups = false ∧ ctx.Owned s g ∧
        (∃ x, D₂ x g = true ∧ D x g = false) ∧ ∀ x, ¬ (s.cut D₂).Member x g := by
  have hempty : (∀ x, ¬ (s.cut D₁).Member x g) → ∀ x, ¬ (s.cut D₂).Member x g := by
    intro h x hx
    obtain ⟨hm, hd⟩ := Store.member_cut.1 hx
    refine h x (Store.member_cut.2 ⟨hm, ?_⟩)
    cases h₁ : D₁ x g with
    | false => rfl
    | true => exact absurd (hgo.kept_of_plus h₁) (by simp [hd])
  rw [hgo.orphans, horphans, hw.orphans]
  constructor
  · rintro (((h | ⟨hdyn, ho, ⟨x, h₁, hd⟩, he⟩) | ⟨hdyn, ho, ⟨x, h₂, hd⟩, he⟩) | ⟨rfl, hdyn, ho, he⟩)
    · exact .inl h
    · exact .inr ⟨hdyn, ho, ⟨x, hgo.kept_of_plus h₁, hd⟩, hempty he⟩
    · exact .inr ⟨hdyn, ho, ⟨x, h₂, hw.fresh_of_plus hd⟩, he⟩
    · exact .inr ⟨hdyn, ho, ⟨k, hgo.kept k _ (plus_eq_true.2 (.inr ⟨rfl, rfl⟩)), hD⟩, he⟩
  · rintro (h | ⟨hdyn, ho, ⟨x, h₂, hd⟩, he⟩)
    · exact .inl (.inl (.inl h))
    · by_cases hj : g = j
      · subst hj
        exact .inr ⟨rfl, hdyn, ho, he⟩
      · -- the last membership of the group was taken back before, or beyond the group now left
        cases hp : plus D₁ k j x g with
        | false => exact .inl (.inr ⟨hdyn, ho, ⟨x, h₂, hp⟩, he⟩)
        | true =>
          have h₁ : D₁ x g = true := (plus_eq_true.1 hp).resolve_right fun h => hj h.2
          by_cases hex : ∃ y, (s.cut D₁).Member y g
          · obtain ⟨y, hy⟩ := hex
            obtain ⟨hm, hd₁⟩ := Store.member_cut.1 hy
            have hd₂ : D₂ y g = true := by
              by_contra hn
              exact he y (Store.member_cut.2 ⟨hm, by simpa using hn⟩)
            exact .inl (.inr ⟨hdyn, ho, ⟨y, hd₂, plus_eq_false.2 ⟨hd₁, fun h => hj h.2⟩⟩, he⟩)
          · exact .inl (.inl (.inr ⟨hdyn, ho, ⟨x, h₁, hd⟩, fun y hy => hex ⟨y, hy⟩⟩))

/-- One more membership of the record where the walk began is taken back, and the walk goes on at
the group. Then the name of the group and, if it has no members any more, the group itself are
found. -/
theorem Walked.step {f₄ : Unwound} (hw : ctx.Walked s k D found D₁ f₁) (hD : D k j = false)
    (hc : ctx.Clearable s k j) (hgo : ctx.Walked s j (plus D₁ k j) f₂ D₂ f₃)
    (hout : ∀ i, ctx.Clearable s j i → D₂ j i = true)
    (hnames : ∀ n, n ∈ f₂.names.keys ↔ n ∈ f₁.names.keys ∨ ctx.Named s j n)
    (horphans : f₂.orphans = f₁.orphans) (hnames' : f₄.names = f₃.names)
    (horphans' : ∀ g, g ∈ f₄.orphans.keys ↔ g ∈ f₃.orphans.keys ∨
      g = j ∧ ctx.policy.hasDynamicGroups = false ∧ ctx.Owned s j ∧
        ∀ x, ¬ (s.cut D₂).Member x j) :
    ctx.Walked s k D found D₂ f₄ where
  kept := fun x g h => hgo.kept_of_plus (hw.kept x g h)
  sound := by
    intro x g h
    rcases hgo.sound x g h with h | ⟨hx, hr⟩
    · rcases plus_eq_true.1 h with h | ⟨rfl, rfl⟩
      · exact hw.sound x g h
      · exact .inr ⟨hc, .refl⟩
    · exact .inr ⟨hx, .head hc hr⟩
  closed := by
    intro x g i h hd hi
    cases hp : plus D₁ k j x g with
    | false => exact hgo.closed x g i h hp hi
    | true =>
      rcases plus_eq_true.1 hp with h₁ | ⟨rfl, rfl⟩
      · exact hgo.kept_of_plus (hw.closed x g i h₁ hd hi)
      · exact hout i hi
  names := fun n => by rw [hnames', hw.names_step hD hgo hnames]
  orphans := fun g => by rw [horphans', hw.orphans_step hD hgo horphans]

/-! ## The walk -/

theorem removeMember_ends (h : s.WellFormed) {g : Record} {id : Value} (hj : s.find? j = some g)
    (hg : g.isGroup = true) (hid : id.toKey = .ok k) :
    Sync.Ends c s (Sync.removeMember g id)
      (fun _ s' => s' = s.cut fun x y => x == k && y == j) (fun f s' => c.Refuses s f ∧ s' = s) := by
  obtain ⟨b, hr⟩ := h.removeMember_ok hj hg hid
  refine Sync.Ends.step (Sync.Ends.allow (fun _ => ?_) fun hp => ?_)
  · exact Sync.Ends.onStore_ok hr rfl
  · exact ⟨⟨_, g, by decide, Store.mem_all_of_find? hj, rfl, hp⟩, rfl⟩

/-- Of the memberships in groups of the provider, those that are not declared end. -/
theorem pruneGroup_cut_ends {E : Failure → Store → Prop} (hc : c.Foresees E) (h : s.WellFormed)
    {r g : Record} {log : Channel} (hid : r.id.toKey = .ok k) (hj : s.find? j = some g)
    (hg : g.isGroup = true) (declared : List Key) :
    Sync.Ends c s (ctx.pruneGroup log r declared g) (fun _ s' => s' = s.cut fun x y =>
      (x == k && y == j) && (!declared.contains j && ctx.owns g.ref)) E := by
  unfold pruneGroup
  refine Sync.Ends.step (Sync.Ends.result_ok (h.toKey_of_find? hj) ?_)
  split
  · next hp =>
    refine Sync.Ends.bind ((removeMember_ends h hj hg hid).mono (fun _ _ => id)
      fun _ _ hf => hc.of_refuses hf.1 _) ?_
    rintro _ _ rfl
    simp only [hp, Bool.and_true]
    exact Sync.Ends.log rfl
  · next hp =>
    simp only [Bool.not_eq_true] at hp
    simp only [hp, Bool.and_false]
    exact Sync.Ends.pure (Store.cut_eq_self fun _ _ _ => rfl).symm

/-- Pruning the groups of a record, one after the other. -/
theorem pruneGroups_cut_ends {E : Failure → Store → Prop} (hc : c.Foresees E) (h : s.WellFormed)
    {r : Record} {log : Channel} (hid : r.id.toKey = .ok k) {gs : List Record}
    (hgs : ∀ g ∈ gs, ∃ j, s.find? j = some g ∧ s.Member k j) (declared : List Key) :
    Sync.Ends c s (gs.forM (ctx.pruneGroup log r declared)) (fun _ s' => ∃ D, s' = s.cut D ∧
      ∀ x j, D x j = true ↔
        x = k ∧ ∃ g ∈ gs, s.find? j = some g ∧ j ∉ declared ∧ ctx.owns g.ref = true) E := by
  refine Sync.Ends.forM (I := fun done s' => ∃ D, s' = s.cut D ∧ ∀ x j, D x j = true ↔
    x = k ∧ ∃ g ∈ done, s.find? j = some g ∧ j ∉ declared ∧ ctx.owns g.ref = true)
    ⟨fun _ _ => false, (Store.cut_eq_self fun _ _ _ => rfl).symm, by simp⟩ ?_
  rintro done g rest _ he ⟨D, rfl, hD⟩
  obtain ⟨j, hj, hkj⟩ := hgs g (by rw [he]; simp)
  obtain ⟨-, g', hg', hgroup⟩ := h.exists_of_member hkj
  obtain rfl : g = g' := Option.some.inj (hj.symm.trans hg')
  refine (pruneGroup_cut_ends hc (h.cut D) hid hj hgroup declared).mono ?_ fun _ _ => id
  rintro _ _ rfl
  refine ⟨_, Store.cut_cut .., fun x y => ?_⟩
  simp only [Bool.or_eq_true, hD, Bool.and_eq_true, beq_iff_eq, Bool.not_eq_true',
    List.contains_eq_mem, decide_eq_false_iff_not, List.mem_append, List.mem_singleton]
  constructor
  · rintro (⟨rfl, g', hg', h'⟩ | ⟨⟨rfl, rfl⟩, hy, ho⟩)
    · exact ⟨rfl, g', .inl hg', h'⟩
    · exact ⟨rfl, g, .inr rfl, hj, hy, ho⟩
  · rintro ⟨rfl, g', hg' | rfl, hy, h'⟩
    · exact .inl ⟨rfl, g', hg', hy, h'⟩
    · -- a record stands under the key of its id only
      obtain rfl : y = j :=
        Except.ok.inj ((h.toKey_of_find? hy).symm.trans (h.toKey_of_find? hj))
      exact .inr ⟨⟨rfl, rfl⟩, h'⟩

/-- Of the memberships of a record in groups of the provider, those that are not declared end. -/
theorem prune_ends {E : Failure → Store → Prop} (hc : c.Foresees E) (h : s.WellFormed) {r : Record}
    {log : Channel} (hid : r.id.toKey = .ok k) (declared : List Key) :
    Sync.Ends c s (do
      let groups ← Sync.result ((← get).store.memberOf r.id)
      groups.forM (ctx.pruneGroup log r declared)) (fun _ s' => ∃ D, s' = s.cut D ∧
        ∀ x g, D x g = true ↔ x = k ∧ s.Member k g ∧ ctx.Owned s g ∧ g ∉ declared) E := by
  obtain ⟨gs, hgs, hmem⟩ := s.memberOf_ok hid
  refine Sync.Ends.get (fun _ _ _ _ hs _ hs' => by rw [hs, hs']) fun w _ hw => ?_
  refine Sync.Ends.step (Sync.Ends.result_ok (by rw [hw]; exact hgs) ?_)
  refine (pruneGroups_cut_ends hc h hid (fun p hp => (hmem p).1 hp) declared).mono ?_
    fun _ _ => id
  rintro _ _ ⟨D, rfl, hD⟩
  refine ⟨D, rfl, fun x g => (hD x g).trans (and_congr_right fun _ => ?_)⟩
  constructor
  · rintro ⟨p, hp, hg, hn, ho⟩
    obtain ⟨g', hg', hm⟩ := (hmem p).1 hp
    -- a record stands under the key of its id only
    obtain rfl : g = g' :=
      Except.ok.inj ((h.toKey_of_find? hg).symm.trans (h.toKey_of_find? hg'))
    exact ⟨hm, ⟨p, hg, ho⟩, hn⟩
  · rintro ⟨hm, ⟨p, hg, ho⟩, hn⟩
    exact ⟨p, (hmem p).2 ⟨g, hg, hm⟩, hg, hn, ho⟩

theorem endMembership_ends (h : s.WellFormed) {r g : Record} (hid : r.id.toKey = .ok k)
    (hj : s.find? j = some g) (hg : g.isGroup = true) :
    Sync.Ends c s (endMembership r g)
      (fun _ s' => s' = s.cut fun x y => x == k && y == j) (fun f s' => c.Refuses s f ∧ s' = s) := by
  refine Sync.Ends.bind (removeMember_ends h hj hg hid) ?_
  rintro _ _ rfl
  exact Sync.Ends.audit rfl

theorem isOrphaned_ends (h : s.WellFormed) {g : Record} (hj : s.find? j = some g)
    (hg : g.isGroup = true) {E : Failure → Store → Prop} :
    Sync.Ends c s (ctx.isOrphaned g) (fun b s' => s' = s ∧
      (b = true ↔ ctx.policy.hasDynamicGroups = false ∧ ∀ x, ¬ s.Member x j)) E := by
  obtain ⟨ms, hms, hempty⟩ := h.membersOf_ok hj hg
  unfold isOrphaned
  cases hdyn : ctx.policy.hasDynamicGroups with
  | true => exact Sync.Ends.pure ⟨rfl, by simp⟩
  | false =>
    refine Sync.Ends.get (fun _ _ _ _ hs _ hs' => by rw [hs, hs']) fun w _ hs => ?_
    rw [hs, hms]
    exact Sync.Ends.pure ⟨rfl, by simpa using hempty⟩

/-- What going on at a group promises. -/
def GoesOn (ctx : Context) (c : Scene) (s : Store) (j : Key) (D : Key → Key → Bool)
    (found : Unwound) (x : Sync Unwound) : Prop :=
  Sync.Ends c (s.cut D) x
    (fun found' s' => ∃ D', s' = s.cut D' ∧ Found s found' ∧ ctx.Walked s j D found D' found' ∧
      ∀ i, ctx.Clearable s j i → D' j i = true)
    (fun f s' => c.Refuses s f ∧ ∃ D', s' = s.cut D')

theorem Found.insert (hf : Found s found) {t : String} :
    Found s { found with names := found.names.insert (.text t) } where
  texts := hf.texts.insert
  nodup := hf.nodup
  records := hf.records

theorem Found.set (hf : Found s found) {g : Record} (hj : s.find? j = some g) :
    Found s { found with orphans := found.orphans.set j g } where
  texts := hf.texts
  nodup := Assoc.nodup_keys_set hf.nodup
  records := by
    intro p hp
    rcases Assoc.mem_of_mem_set hp with rfl | hp
    · exact hj
    · exact hf.records p hp

/-- Taking back one membership of the record where a call of the walk began. -/
theorem unwindGroup_ends (h : s.WellFormed) (ht : s.Typed) {r g : Record} {log : Channel}
    {goOn : Record → Unwound → Sync Unwound} (hk : s.find? k = some r) (hj : s.find? j = some g)
    (hm : (s.cut D).Member k j)
    (hgo : ∀ D' f, D' k j = true → (∀ x i, D x i = true → D' x i = true) → Found s f →
      GoesOn ctx c s j D' f (goOn g f))
    (hf : Found s f₁) (hw : ctx.Walked s k D found D₁ f₁) :
    Sync.Ends c (s.cut D₁) (ctx.unwindGroup log r goOn f₁ g)
      (fun f s' => ∃ D', s' = s.cut D' ∧ Found s f ∧ ctx.Walked s k D found D' f ∧
        (∀ x i, D₁ x i = true → D' x i = true) ∧ (ctx.Clearable s k j → D' k j = true))
      (fun f s' => c.Refuses s f ∧ ∃ D', s' = s.cut D') := by
  obtain ⟨hmem, hD⟩ := Store.member_cut.1 hm
  obtain ⟨-, ⟨g', hj', hg⟩⟩ := h.exists_of_member hmem
  obtain rfl : g = g' := Option.some.inj (hj.symm.trans hj')
  have hwf : (s.cut D₁).WellFormed := h.cut D₁
  have hend : Sync.Ends c (s.cut D₁) (endMembership r g)
      (fun _ s' => s' = s.cut (plus D₁ k j)) (fun f s' => c.Refuses s f ∧ ∃ D', s' = s.cut D') := by
    refine (endMembership_ends hwf (hwf.toKey_of_find? hk) hj hg).mono ?_ ?_
    · rintro _ _ rfl
      exact Store.cut_cut ..
    · rintro f _ ⟨hr, rfl⟩
      exact ⟨hr, D₁, rfl⟩
  have hplus : ∀ x i, D x i = true → plus D₁ k j x i = true :=
    fun x i hd => plus_eq_true.2 (.inl (hw.kept x i hd))
  have hpkj : plus D₁ k j k j = true := plus_eq_true.2 (.inr ⟨rfl, rfl⟩)
  have hmono {D' : Key → Key → Bool} (hd : ∀ x i, plus D₁ k j x i = true → D' x i = true) :
      ∀ x i, D₁ x i = true → D' x i = true := fun x i h₁ => hd x i (plus_eq_true.2 (.inl h₁))
  unfold unwindGroup
  by_cases hown : ctx.owns g.ref = true
  · rw [if_pos hown]
    have hc : ctx.Clearable s k j := (clearable_iff hk hj).2 ⟨hmem, .inl hown⟩
    obtain ⟨t, hname⟩ := (ht g (Store.mem_all_of_find? hj)).principalName
    have hnames (n : Key) : n ∈ (f₁.names.insert (.text t)).keys ↔
        n ∈ f₁.names.keys ∨ ctx.Named s j n := by
      rw [named_iff hj, hname, Value.toKey_text, Except.ok.injEq, or_comm]
      simp only [hown, true_and, eq_comm (a := Key.text t)]
      exact mem_keysOf_insertName
    refine Sync.Ends.step (Sync.Ends.result_ok (a := Scalar.text t) (by rw [hname]; rfl) ?_)
    refine Sync.Ends.bind hend ?_
    rintro _ _ rfl
    refine Sync.Ends.bind (hgo _ _ hpkj hplus hf.insert) ?_
    rintro f₃ _ ⟨D₂, rfl, hf₃, hgo₃, hout⟩
    refine Sync.Ends.bind (isOrphaned_ends (h.cut D₂) hj hg) ?_
    rintro b _ ⟨rfl, hb⟩
    have hkj : D₂ k j = true := hgo₃.kept k j hpkj
    cases b with
    | false =>
      refine Sync.Ends.pure ⟨D₂, rfl, hf₃, ?_, hmono hgo₃.kept, fun _ => hkj⟩
      refine hw.step hD hc hgo₃ hout hnames rfl rfl fun i => ⟨.inl, fun hi => hi.elim id ?_⟩
      rintro ⟨-, hdyn, -, he⟩
      exact absurd (hb.2 ⟨hdyn, he⟩) Bool.false_ne_true
    | true =>
      obtain ⟨hdyn, he⟩ := hb.1 rfl
      refine Sync.Ends.step (Sync.Ends.result_ok (h.toKey_of_find? hj) ?_)
      refine Sync.Ends.pure ⟨D₂, rfl, hf₃.set hj, ?_, hmono hgo₃.kept, fun _ => hkj⟩
      refine hw.step hD hc hgo₃ hout hnames rfl rfl fun i => ?_
      rw [Assoc.mem_keys_set, or_comm]
      exact or_congr_right ⟨fun hi => ⟨hi, hdyn, (owned_iff hj).2 hown, he⟩, fun hi => hi.1⟩
  · rw [if_neg hown]
    obtain ⟨a, ha, -⟩ := Value.toKey_eq_ok_iff.1 (h.toKey_of_find? hj)
    refine Sync.Ends.step (Sync.Ends.result_ok ha ?_)
    split
    · next hauto =>
      have hc : ctx.Clearable s k j := (clearable_iff hk hj).2 ⟨hmem, .inr ⟨a, ha, hauto⟩⟩
      refine Sync.Ends.bind hend ?_
      rintro _ _ rfl
      refine (hgo _ _ hpkj hplus hf).mono ?_ fun _ _ => id
      rintro f₃ _ ⟨D₂, rfl, hf₃, hgo₃, hout⟩
      refine ⟨D₂, rfl, hf₃, ?_, hmono hgo₃.kept, fun _ => hgo₃.kept k j hpkj⟩
      refine hw.step hD hc hgo₃ hout (fun n => ?_) rfl rfl fun i => ?_
      · simp [named_iff hj, hown]
      · simp [owned_iff hj, hown]
    · next hauto =>
      refine Sync.Ends.step (Sync.Ends.log ?_)
      refine Sync.Ends.pure ⟨D₁, rfl, hf, hw, fun _ _ => id, fun hc => ?_⟩
      rw [clearable_iff hk hj] at hc
      rcases hc.2 with ho | ⟨a', ha', ho⟩
      · exact absurd ho hown
      · obtain rfl : a = a' := Except.ok.inj (ha.symm.trans ha')
        exact absurd ho hauto

/-- The walk that starts at a record takes back what is clearable below it; a bound above the number
of memberships is never reached. -/
theorem unwindFrom_ends (h : s.WellFormed) (ht : s.Typed) (log : Channel) (bound : Nat) {r : Record}
    (hk : s.find? k = some r) (hf : Found s found) (hb : (s.cut D).membershipCount < bound) :
    GoesOn ctx c s k D found (ctx.unwindFrom log bound r found) := by
  induction bound generalizing k D r found with
  | zero => omega
  | succ bound ih =>
    have hid := h.toKey_of_find? hk
    obtain ⟨gs, hgs, hmem⟩ := (s.cut D).memberOf_ok hid
    unfold unwindFrom
    refine Sync.Ends.get (fun _ _ _ _ hs _ hs' => by rw [hs, hs']) fun w _ hs => ?_
    refine Sync.Ends.step (Sync.Ends.result_ok (by rw [hs]; exact hgs) ?_)
    refine (Sync.Ends.foldlM (I := fun done f s' => ∃ D', s' = s.cut D' ∧ Found s f ∧
      ctx.Walked s k D found D' f ∧
      ∀ g ∈ done, ∀ j, s.find? j = some g → ctx.Clearable s k j → D' k j = true)
      ⟨D, rfl, hf, .refl .., by simp⟩ ?_).mono ?_ fun _ _ => id
    · rintro done g rest f _ he ⟨D₁, rfl, hf₁, hw, hdone⟩
      obtain ⟨j, hj, hm⟩ := (hmem g).1 (by rw [he]; simp)
      refine (unwindGroup_ends h ht hk hj hm ?_ hf₁ hw).mono ?_ fun _ _ => id
      · intro D' f' hkj hle hf'
        refine ih hj hf' ?_
        have hcut : (s.cut D).cut D' = s.cut D' := by
          rw [Store.cut_cut]
          refine Store.cut_congr fun x i _ => ?_
          cases hd : D x i with
          | false => rfl
          | true => rw [hle x i hd]; rfl
        have := Store.membershipCount_cut_lt hm hkj
        rw [hcut] at this
        omega
      · rintro f' _ ⟨D₂, rfl, hf', hw', hle, hkj⟩
        refine ⟨D₂, rfl, hf', hw', fun q hq i hi hc => ?_⟩
        rcases List.mem_append.1 hq with hq | hq
        · exact hle k i (hdone q hq i hi hc)
        · obtain rfl : q = g := by simpa using hq
          -- a record stands under the key of its id only
          have : i = j := Except.ok.inj ((h.toKey_of_find? hi).symm.trans (h.toKey_of_find? hj))
          subst this
          exact hkj hc
    · rintro f _ ⟨D', rfl, hf', hw, hdone⟩
      refine ⟨D', rfl, hf', hw, fun j hc => ?_⟩
      cases hd : D k j with
      | true => exact hw.kept k j hd
      | false =>
        obtain ⟨hm, -, q, -, hq, -⟩ := id hc
        exact hdone q ((hmem q).2 ⟨j, hq, Store.member_cut.2 ⟨hm, hd⟩⟩) j hq hc

/-! ## The groups left without members -/

end Context

/-- The keys of records whose removal fails: those for whose ids this is planned and, where failures
are planned for turns of calls, any others. -/
structure Scene.Spares (c : Scene) (s : Store) (K : Key → Bool) : Prop where
  planned : ∀ g r, s.find? g = some r → c.plans .removeRecord r.id = true → K g = true
  may : ∀ g r, s.find? g = some r → K g = true → c.MayRefuse .removeRecord r.id

namespace Scene.Spares

variable {c : Scene} {s s' : Store} {K : Key → Bool} {g : Key} {r : Record}

/-- Only what is planned for ids fails. -/
theorem of_planned : c.Spares s fun g => (s.find? g).any fun r => c.plans .removeRecord r.id where
  planned g r hr hp := by rw [hr]; exact hp
  may g r hr hp := by
    rw [hr] at hp
    exact .inl hp

theorem of_find? (h : c.Spares s K) (hf : ∀ g, s.find? g = s'.find? g) : c.Spares s' K :=
  ⟨fun g r hr => h.planned g r ((hf g).trans hr), fun g r hr => h.may g r ((hf g).trans hr)⟩

/-- One more removal fails. -/
theorem kept (h : c.Spares s K) (hr : s.find? g = some r) (hmay : c.MayRefuse .removeRecord r.id) :
    c.Spares s fun k => k == g || K k where
  planned k q hq hp := by rw [h.planned k q hq hp, Bool.or_true]
  may k q hq hk := by
    rcases Bool.or_eq_true_iff.1 hk with he | hk
    · obtain rfl := beq_iff_eq.1 he
      obtain rfl := Option.some.inj (hr.symm.trans hq)
      exact hmay
    · exact h.may k q hq hk

/-- The removal of one record succeeds. -/
theorem deleted (h : c.Spares (s.drop (· == g)) K) (hr : s.find? g = some r)
    (hp : c.plans .removeRecord r.id = false) : c.Spares s fun k => k != g && K k where
  planned k q hq hk := by
    have hne : k ≠ g := by
      rintro rfl
      obtain rfl := Option.some.inj (hr.symm.trans hq)
      rw [hp] at hk
      cases hk
    rw [h.planned k q (by rw [Store.find?_drop, if_neg (by simpa using hne), hq]) hk, Bool.and_true]
    exact bne_iff_ne.2 hne
  may k q hq hk := by
    obtain ⟨hne, hk⟩ := Bool.and_eq_true_iff.1 hk
    exact h.may k q (by rw [Store.find?_drop, if_neg (by simpa using hne), hq]) hk

/-- Where no failure of the store is planned no removal fails. -/
theorem eq_false (h : c.Spares s K) (hc : c.StoreWorks) (hr : s.find? g = some r) : K g = false :=
  Bool.eq_false_iff.2 fun hk => hc _ _ (h.may g r hr hk)

end Scene.Spares

namespace Context

variable {ctx : Context} {c : Scene} {s : Store} {k j : Key} {K : Key → Bool} {found f₁ : Unwound}
  {D D₁ D₂ : Key → Key → Bool}

/-- A group without members is deleted, or its deletion meets a planned failure and it stays. -/
theorem deleteOrphan_ends {g : Record} {log : Channel} (hj : s.find? j = some g)
    (h : s.WellFormed) (hid : g.id.IsText) {E : Failure → Store → Prop} :
    Sync.Ends c s (deleteOrphan log g)
      (fun _ s' => s' = s ∧ c.MayRefuse .removeRecord g.id ∨
        s' = s.drop (· == j) ∧ c.plans .removeRecord g.id = false) E := by
  unfold deleteOrphan
  refine Sync.Ends.tryCatch (F := fun f s' =>
    s' = s ∧ c.MayRefuse .removeRecord g.id ∧ f.isA .store = true) ?_ ?_
  · refine Sync.Ends.bind ((remove_ends hid (h.toKey_of_find? hj) hj).mono (fun _ _ => id) ?_) ?_
    · rintro f _ ⟨rfl, rfl, hp⟩
      exact ⟨rfl, hp, rfl⟩
    · rintro _ _ ⟨rfl, hp⟩
      refine Sync.Ends.step (Sync.Ends.audit ?_)
      exact Sync.Ends.log (.inr ⟨rfl, hp⟩)
  · rintro f s ⟨rfl, hp, hstore⟩
    rw [if_pos hstore]
    refine Sync.Ends.step (Sync.Ends.audit ?_)
    exact Sync.Ends.log (.inl ⟨rfl, hp⟩)

/-- The groups found are deleted one after the other, unless their deletion fails. -/
theorem deleteOrphans_ends {orphans : Assoc Key Record} {log : Channel}
    (h : s.WellFormed) (ht : s.Typed) (hd : orphans.keys.Nodup)
    (hf : ∀ p ∈ orphans, s.find? p.1 = some p.2) {E : Failure → Store → Prop} :
    Sync.Ends c s ((orphans.map (·.2)).forM (deleteOrphan log))
      (fun _ s' => ∃ K, c.Spares s K ∧ s' = s.drop fun k => orphans.keys.contains k && !K k) E := by
  induction orphans generalizing s with
  | nil => exact Sync.Ends.pure ⟨_, .of_planned, s.drop_false.symm⟩
  | cons p orphans ih =>
    obtain ⟨j, g⟩ := p
    obtain ⟨hj, hd⟩ := List.nodup_cons.1 hd
    have hg : s.find? j = some g := hf _ List.mem_cons_self
    have hrest : ∀ p ∈ orphans, s.find? p.1 = some p.2 ∧ p.1 ≠ j := by
      intro p hp
      refine ⟨hf p (List.mem_cons_of_mem _ hp), ?_⟩
      rintro rfl
      exact hj (List.mem_map_of_mem (f := (·.1)) hp)
    refine Sync.Ends.bind (deleteOrphan_ends hg h (ht g (Store.mem_all_of_find? hg)).id) ?_
    rintro _ _ (⟨rfl, hmay⟩ | ⟨rfl, hp⟩)
    · refine (ih h ht hd fun p hp => (hrest p hp).1).mono ?_ fun _ _ => id
      rintro _ _ ⟨K, hK, rfl⟩
      refine ⟨_, hK.kept hg hmay, congrArg (Store.drop _) (funext fun k => ?_)⟩
      cases he : k == j with
      | true =>
        obtain rfl := beq_iff_eq.1 he
        have hnot : (Assoc.keys orphans).contains k = false := by
          rw [← Bool.not_eq_true, List.contains_iff_mem]
          exact hj
        rw [hnot, Bool.true_or, Bool.not_true, Bool.false_and, Bool.and_false]
      | false => rw [Assoc.keys_cons, List.contains_cons, he, Bool.false_or, Bool.false_or]
    · have hfind {p : Key × Record} (hp : p ∈ orphans) :
          (s.drop (· == j)).find? p.1 = some p.2 := by
        rw [Store.find?_drop, if_neg (by simpa using (hrest p hp).2), (hrest p hp).1]
      refine (ih (h.drop _) (ht.drop _) hd fun p hp => hfind hp).mono ?_ fun _ _ => id
      rintro _ _ ⟨K, hK, rfl⟩
      refine ⟨_, hK.deleted hg hp, (Store.drop_drop ..).trans
        (congrArg s.drop (funext fun k => ?_))⟩
      cases he : k == j with
      | true => rw [Assoc.keys_cons, List.contains_cons, bne, he]; rfl
      | false =>
        rw [Assoc.keys_cons, List.contains_cons, bne, he, Bool.false_or, Bool.false_or,
          Bool.not_false, Bool.true_and]

/-! ## All of it -/

open Classical in
/-- The memberships that unwinding a record takes back. -/
noncomputable def cleared (ctx : Context) (s : Store) (k : Key) : Key → Key → Bool :=
  fun x g => decide (ctx.Clearable s x g ∧ ctx.Reaches s k x)

open Classical in
/-- The groups that unwinding a record deletes: groups of the provider all whose members, of which
there are some, are among what the record reaches, and whose removal does not fail. -/
noncomputable def orphaned (ctx : Context) (K : Key → Bool) (s : Store) (k : Key) : Key → Bool :=
  fun g => decide (ctx.policy.hasDynamicGroups = false ∧ ctx.Owned s g ∧ (∃ x, s.Member x g) ∧
    (∀ x, s.Member x g → ctx.Reaches s k x) ∧ K g = false)

theorem cleared_iff {x g : Key} :
    ctx.cleared s k x g = true ↔ ctx.Clearable s x g ∧ ctx.Reaches s k x := by
  simp only [cleared, decide_eq_true_eq]

theorem orphaned_iff {g : Key} :
    ctx.orphaned K s k g = true ↔ ctx.policy.hasDynamicGroups = false ∧ ctx.Owned s g ∧
      (∃ x, s.Member x g) ∧ (∀ x, s.Member x g → ctx.Reaches s k x) ∧ K g = false := by
  simp only [orphaned, decide_eq_true_eq]

/-- The store after unwinding a record, the removal of the records under some keys having failed. -/
noncomputable def unwoundStore (ctx : Context) (K : Key → Bool) (s : Store) (k : Key) : Store :=
  (s.cut (ctx.cleared s k)).drop (ctx.orphaned K s k)

/-- The names that unwinding a record finds. -/
def UnwoundNames (ctx : Context) (s : Store) (k : Key) (names : NameSet) : Prop :=
  names.Texts ∧ ∀ n, n ∈ names.keys ↔
    ∃ x g, ctx.Clearable s x g ∧ ctx.Reaches s k x ∧ ctx.Named s g n

/-- In a group of the provider every membership is clearable. -/
theorem clearable_of_owned (h : s.WellFormed) {x g : Key} (hm : s.Member x g)
    (ho : ctx.Owned s g) : ctx.Clearable s x g := by
  obtain ⟨⟨r, hr⟩, -⟩ := h.exists_of_member hm
  obtain ⟨q, hq, hown⟩ := ho
  exact ⟨hm, r, q, hr, hq, .inl hown⟩

/-- A walk from a record that has nothing more to take back has taken back what is below it. -/
theorem Walked.cleared_iff (hw : ctx.Walked s k (fun _ _ => false) found D f₁)
    (hout : ∀ i, ctx.Clearable s k i → D k i = true) (x g : Key) :
    D x g = true ↔ ctx.Clearable s x g ∧ ctx.Reaches s k x := by
  constructor
  · intro hd
    exact (hw.sound x g hd).resolve_left Bool.false_ne_true
  · rintro ⟨hc, hr⟩
    have hall : ∀ y, ctx.Reaches s k y → ∀ i, ctx.Clearable s y i → D y i = true := by
      intro y hy
      induction hy with
      | refl => exact hout
      | tail _ hyz ih => exact fun i hi => hw.closed _ _ i (ih _ hyz) rfl hi
    exact hall x hr g hc

/-- A walk from a record takes back the memberships below it. It finds the names of the groups of
the provider that are left, and of these the groups that lose all their members. -/
theorem walk_ends (h : s.WellFormed) (ht : s.Typed) {r : Record} (hk : s.find? k = some r)
    (log : Channel) {bound : Nat} (hb : s.membershipCount < bound) :
    Sync.Ends c s (ctx.unwindFrom log bound r {})
      (fun found s' => s' = s.cut (ctx.cleared s k) ∧ ctx.UnwoundNames s k found.names ∧
        Found s found ∧ ∀ g, g ∈ found.orphans.keys ↔
          ctx.policy.hasDynamicGroups = false ∧ ctx.Owned s g ∧ (∃ x, s.Member x g) ∧
            ∀ x, s.Member x g → ctx.Reaches s k x)
      (fun f s' => c.Refuses s f ∧ ∃ D, s' = s.cut D) := by
  have hnone : s.cut (fun _ _ => false) = s := Store.cut_eq_self fun _ _ _ => rfl
  have hstart : Found s {} :=
    ⟨fun x hx => absurd hx List.not_mem_nil, .nil, fun p hp => absurd hp List.not_mem_nil⟩
  have hwalk : GoesOn ctx c s k (fun _ _ => false) {} (ctx.unwindFrom log bound r {}) :=
    unwindFrom_ends h ht _ _ hk hstart (by rwa [hnone])
  rw [GoesOn, hnone] at hwalk
  refine hwalk.mono ?_ fun _ _ => id
  rintro f _ ⟨D, rfl, hf, hw, hout⟩
  have hD := hw.cleared_iff hout
  refine ⟨Store.cut_congr fun x g _ => ?_, ⟨hf.texts, fun n => ?_⟩, hf, fun g => ?_⟩
  · rw [Bool.eq_iff_iff, hD, cleared_iff]
  · rw [hw.names]
    constructor
    · rintro (hn | ⟨x, g, hd, -, hn⟩)
      · exact absurd hn List.not_mem_nil
      · obtain ⟨hc, hr⟩ := (hD x g).1 hd
        exact ⟨x, g, hc, hr, hn⟩
    · rintro ⟨x, g, hc, hr, hn⟩
      exact .inr ⟨x, g, (hD x g).2 ⟨hc, hr⟩, rfl, hn⟩
  · rw [hw.orphans]
    constructor
    · rintro (hg | ⟨hdyn, ho, ⟨x, hd, -⟩, he⟩)
      · exact absurd hg List.not_mem_nil
      · refine ⟨hdyn, ho, ⟨x, ((hD x g).1 hd).1.1⟩, fun y hy => ?_⟩
        have hdy : D y g = true := by
          by_contra hn
          exact he y (Store.member_cut.2 ⟨hy, by simpa using hn⟩)
        exact ((hD y g).1 hdy).2
    · rintro ⟨hdyn, ho, ⟨x, hx⟩, hall⟩
      have hd (y : Key) (hy : s.Member y g) : D y g = true :=
        (hD y g).2 ⟨clearable_of_owned h hy ho, hall y hy⟩
      refine .inr ⟨hdyn, ho, ⟨x, hd x hx, rfl⟩, fun y hy => ?_⟩
      obtain ⟨hm, hn⟩ := Store.member_cut.1 hy
      rw [hd y hm] at hn
      cases hn

/-- Unwinding a record takes back the memberships below it, finds the names of the groups of the
provider that are left, and deletes those that lose all their members. -/
theorem unwind_ends (h : s.WellFormed) (ht : s.Typed) {r : Record} {log : Option Channel}
    (hk : s.find? k = some r) :
    Sync.Ends c s (ctx.unwind r log)
      (fun names s' => ctx.UnwoundNames s k names ∧
        ∃ K, c.Spares s K ∧ s' = ctx.unwoundStore K s k)
      (fun f s' => c.Refuses s f ∧ ∃ D, s' = s.cut D) := by
  unfold unwind
  refine Sync.Ends.get (fun _ _ _ _ hs _ hs' => by rw [hs, hs']) fun w _ hs => ?_
  refine Sync.Ends.bind (walk_ends h ht hk _ (by rw [hs]; omega)) ?_
  rintro f _ ⟨rfl, hnames, hf, horphans⟩
  refine Sync.Ends.bind (deleteOrphans_ends (h.cut _) (ht.cut _) hf.nodup hf.records) ?_
  rintro _ _ ⟨K, hK, rfl⟩
  refine Sync.Ends.pure ⟨hnames, K, hK.of_find? fun g => Store.find?_cut .., ?_⟩
  refine congrArg (s.cut (ctx.cleared s k)).drop (funext fun g => ?_)
  rw [Bool.eq_iff_iff, Bool.and_eq_true, List.contains_iff_mem, horphans, orphaned_iff,
    Bool.not_eq_true', and_assoc, and_assoc, and_assoc]

end Context

end Roster
