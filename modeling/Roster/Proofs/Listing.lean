import Roster.Proofs.Targets

/-!
# What member lists come to

Making member lists creates groups, lets them join other groups automatically, adds members, goes
on and takes records out of groups again, and it comes by the same records several times with
different numbers of hops left. `Enlists` is the closed form of all this: a record that was expanded
has its targets among the groups of the provider, a group that was created has joined its
auto-membership groups as far as it was not taken out of them again, and everything else stays.

Only targets get members, and an expanded record is in all its targets. So what one visit added is
never taken away by another one, and steps of this form put together are of this form
(`Enlists.trans`).

* `materialize_enlists`: materializing the memberships of a record, in either kind of context and
  whatever failures are planned.
-/

namespace Roster

/-- There is a group under the key. -/
def Store.HasGroup (s : Store) (g : Key) : Prop := ∃ q, s.find? g = some q ∧ q.isGroup = true

namespace Context

/-- The key is free and gets a record with the memberships `A`. -/
def Born (s : Store) (A : Key → Key → Prop) (g : Key) : Prop := s.find? g = none ∧ ∃ x, A x g

/-- The closed form of adding memberships `A` and expanding the records `X`. Of the groups that new
groups join automatically, it tells the members of those that were there before. -/
structure Enlists (ctx : Context) (m : Memory) (c : Scene) (s : Store) (A : Key → Key → Prop)
    (X : Key → Prop) (s' : Store) : Prop where
  wellFormed : s'.WellFormed
  typed : s'.Typed
  records : ∀ y r, s'.find? y = some r ↔ s.find? y = some r ∨ Born s A y ∧
    ∃ i, m.identities.lookup y = some i ∧ r = ctx.refreshed c i (ctx.newRecord i true)
  present : ∀ x, X x → ∃ r, s'.find? x = some r
  added : ∀ x g, A x g → s'.Member x g
  member : ∀ x g, (Born s A x → ctx.autos true g = true → s.HasGroup g) → (s'.Member x g ↔
    A x g ∨ (s.Member x g ∨ Born s A x ∧ ctx.autos true g = true) ∧ ¬ (X x ∧ ctx.Owned s g))
  declared : ∀ x g, A x g → ctx.Joins m s x g
  complete : ∀ x g, X x → ctx.Joins m s x g → A x g

variable {ctx : Context} {m : Memory} {c : Scene} {k g x y : Key} {s s' s'' : Store} {r : Record}
  {i : Identity} {ref : Option Ref} {d : Nat} {log : Channel} {A B : Key → Key → Prop}
  {X Y : Key → Prop} {E : Failure → Store → Prop}

/-! ## Putting steps together -/

namespace Enlists

theorem refl (hs : s.WellFormed) (ht : s.Typed) :
    ctx.Enlists m c s (fun _ _ => False) (fun _ => False) s where
  wellFormed := hs
  typed := ht
  records := by simp [Born]
  present := fun _ => False.elim
  added := fun _ _ => False.elim
  member := by simp [Born]
  declared := fun _ _ => False.elim
  complete := fun _ _ h => h.elim

theorem congr (h : ctx.Enlists m c s A X s') (ha : ∀ x g, A x g ↔ B x g)
    (hx : ∀ x, X x ↔ Y x) : ctx.Enlists m c s B Y s' := by
  obtain rfl : A = B := funext fun x => funext fun g => propext (ha x g)
  obtain rfl : X = Y := funext fun x => propext (hx x)
  exact h

section Kept

variable (h : ctx.Enlists m c s A X s')
include h

theorem kept (hr : s.find? y = some r) : s'.find? y = some r := (h.records y r).2 (.inl hr)

theorem exists_of_exists (hx : ∃ r, s.find? x = some r) : ∃ r, s'.find? x = some r := by
  obtain ⟨r, hr⟩ := hx
  exact ⟨r, h.kept hr⟩

theorem hasGroup (hg : s.HasGroup g) : s'.HasGroup g := by
  obtain ⟨q, hq, hgroup⟩ := hg
  exact ⟨q, h.kept hq, hgroup⟩

/-- Whether a record that was there is one of the provider stays. -/
theorem owned_iff (hg : ∃ q, s.find? g = some q) : ctx.Owned s' g ↔ ctx.Owned s g := by
  obtain ⟨q, hq⟩ := hg
  rw [Context.owned_iff hq, Context.owned_iff (h.kept hq)]

variable (hb : ctx.Backed m)
include hb

theorem usable_iff : ctx.Usable s' g ↔ ctx.Usable s g := by
  constructor
  · exact fun hu r hr => hu r (h.kept hr)
  · intro hu r hr
    rcases (h.records g r).1 hr with hr | ⟨-, i, hi, rfl⟩
    · exact hu r hr
    · refine ⟨rfl, ?_⟩
      show ctx.owns i.ref = true
      rw [(hb.memory.of_lookup hi).2.2]
      exact hb.owns_ref _

theorem offers_iff : ctx.Offers m s' ref g ↔ ctx.Offers m s ref g := by
  simp only [Offers, h.usable_iff hb]

theorem joins_iff : ctx.Joins m s' x g ↔ ctx.Joins m s x g := by
  simp only [Joins, h.offers_iff hb]

theorem visits_iff : ctx.Visits m s' d k x ↔ ctx.Visits m s d k x :=
  visits_congr fun _ _ => h.joins_iff hb

/-- A key is free afterwards if it was free and got no members. -/
theorem find?_eq_none_iff : s'.find? x = none ↔ s.find? x = none ∧ ¬ ∃ y, A y x := by
  simp only [Option.eq_none_iff_forall_ne_some, Ne, h.records, not_or, not_and]
  constructor
  · intro hn
    refine ⟨fun r => (hn r).1, ?_⟩
    rintro ⟨y, hy⟩
    obtain ⟨i, hi, -⟩ := hb.isGroup_of_joins (h.declared y x hy)
    refine (hn _).2 ⟨?_, y, hy⟩ ⟨i, hi, rfl⟩
    exact Option.eq_none_iff_forall_ne_some.2 fun r => (hn r).1
  · rintro ⟨hn, hno⟩ r
    exact ⟨hn r, fun hborn => absurd hborn.2 hno⟩

theorem born_trans :
    Born s A x ∨ Born s' B x ↔ Born s (fun x g => A x g ∨ B x g) x := by
  simp only [Born, h.find?_eq_none_iff hb, exists_or]
  tauto

end Kept

variable (hb : ctx.Backed m)
include hb

/-- A membership that was added is that of a target, which a later visit does not end. -/
theorem member_of_added (h : ctx.Enlists m c s A X s') (h' : ctx.Enlists m c s' B Y s'')
    (hA : A x g) : s''.Member x g := by
  have hm := h.added x g hA
  obtain ⟨-, hg⟩ := h.wellFormed.exists_of_member hm
  rw [h'.member x g fun _ _ => hg]
  by_cases hB : B x g
  · exact .inl hB
  · refine .inr ⟨.inl hm, fun hY => hB (h'.complete x g hY.1 ?_)⟩
    exact (h.joins_iff hb).2 (h.declared x g hA)

/-- Expanding some records and then others is expanding all of them. -/
theorem trans (hs : s.WellFormed) (h : ctx.Enlists m c s A X s')
    (h' : ctx.Enlists m c s' B Y s'') :
    ctx.Enlists m c s (fun x g => A x g ∨ B x g) (fun x => X x ∨ Y x) s'' where
  wellFormed := h'.wellFormed
  typed := h'.typed
  records := by
    intro y r
    rw [h'.records, h.records, ← h.born_trans hb, or_and_right, or_assoc]
  present := by
    rintro x (hx | hy)
    · exact h'.exists_of_exists (h.present x hx)
    · exact h'.present x hy
  added := by
    rintro x g (hA | hB)
    · exact member_of_added hb h h' hA
    · exact h'.added x g hB
  member := by
    intro x g hg
    rw [← h.born_trans hb] at hg
    rw [h'.member x g fun hx ha => h.hasGroup (hg (.inr hx) ha),
      h.member x g fun hx => hg (.inl hx), ← h.born_trans hb]
    -- who is in the group already, or joins it automatically, finds it in the store before
    have howned (hx : s.HasGroup g) : ctx.Owned s' g ↔ ctx.Owned s g := by
      obtain ⟨q, hq, -⟩ := hx
      exact h.owned_iff ⟨q, hq⟩
    have hin (hm : s.Member x g) : s.HasGroup g := (hs.exists_of_member hm).2
    -- a record created by the second step was not expanded by the first
    have hborn (hx : Born s' B x) : ¬ X x := by
      intro hX
      obtain ⟨r, hr⟩ := h.present x hX
      rw [hx.1] at hr
      cases hr
    constructor
    · rintro (hB | ⟨(hA | ⟨hm | ⟨hx, ha⟩, hn⟩) | ⟨hx, ha⟩, hn'⟩)
      · exact .inl (.inr hB)
      · exact .inl (.inl hA)
      · refine .inr ⟨.inl hm, ?_⟩
        rintro ⟨hX | hY, ho⟩
        · exact hn ⟨hX, ho⟩
        · exact hn' ⟨hY, (howned (hin hm)).2 ho⟩
      · refine .inr ⟨.inr ⟨.inl hx, ha⟩, ?_⟩
        rintro ⟨hX | hY, ho⟩
        · exact hn ⟨hX, ho⟩
        · exact hn' ⟨hY, (howned (hg (.inl hx) ha)).2 ho⟩
      · refine .inr ⟨.inr ⟨.inr hx, ha⟩, ?_⟩
        rintro ⟨hX | hY, ho⟩
        · exact hborn hx hX
        · exact hn' ⟨hY, (howned (hg (.inr hx) ha)).2 ho⟩
    · rintro ((hA | hB) | ⟨hm | ⟨hx | hx, ha⟩, hn⟩)
      · by_cases hB : B x g
        · exact .inl hB
        · refine .inr ⟨.inl (.inl hA), fun hY => hB (h'.complete x g hY.1 ?_)⟩
          exact (h.joins_iff hb).2 (h.declared x g hA)
      · exact .inl hB
      · refine .inr ⟨.inl (.inr ⟨.inl hm, fun hX => hn ⟨.inl hX.1, hX.2⟩⟩), fun hY => ?_⟩
        exact hn ⟨.inr hY.1, (howned (hin hm)).1 hY.2⟩
      · refine .inr ⟨.inl (.inr ⟨.inr ⟨hx, ha⟩, fun hX => hn ⟨.inl hX.1, hX.2⟩⟩), fun hY => ?_⟩
        exact hn ⟨.inr hY.1, (howned (hg (.inl hx) ha)).1 hY.2⟩
      · refine .inr ⟨.inr ⟨hx, ha⟩, fun hY => ?_⟩
        exact hn ⟨.inr hY.1, (howned (hg (.inr hx) ha)).1 hY.2⟩
  declared := by
    rintro x g (hA | hB)
    · exact h.declared x g hA
    · exact (h.joins_iff hb).1 (h'.declared x g hB)
  complete := by
    rintro x g (hX | hY) hj
    · exact .inl (h.complete x g hX hj)
    · exact .inr (h'.complete x g hY ((h.joins_iff hb).2 hj))

omit hb in
/-- A record joins a target, which is created if need be. -/
theorem join (hj : ctx.Joins m s k g) (hi : m.identities.lookup g = some i) (hs : s'.WellFormed)
    (ht : s'.Typed)
    (hr : ∀ y r, s'.find? y = some r ↔ s.find? y = some r ∨
      s.find? y = none ∧ y = g ∧ r = ctx.refreshed c i (ctx.newRecord i true))
    (hadd : s'.Member k g)
    (hm : ∀ x y, (s.find? x = none ∧ x = g → ctx.autos true y = true → s.HasGroup y) →
      (s'.Member x y ↔ (s.Member x y ∨ (s.find? x = none ∧ x = g) ∧ ctx.autos true y = true) ∨
        x = k ∧ y = g)) :
    ctx.Enlists m c s (fun x y => x = k ∧ y = g) (fun _ => False) s' where
  wellFormed := hs
  typed := ht
  records := by
    intro y r
    rw [hr, Born, and_assoc]
    refine or_congr_right (and_congr_right fun _ => ?_)
    constructor
    · rintro ⟨rfl, rfl⟩
      exact ⟨⟨k, rfl, rfl⟩, i, hi, rfl⟩
    · rintro ⟨⟨_, -, rfl⟩, i', hi', rfl⟩
      obtain rfl : i = i' := Option.some.inj (hi.symm.trans hi')
      exact ⟨rfl, rfl⟩
  present := fun _ => False.elim
  added := by
    rintro x y ⟨rfl, rfl⟩
    exact hadd
  member := by
    intro x y hy
    have hborn : Born s (fun x y => x = k ∧ y = g) x ↔ s.find? x = none ∧ x = g := by simp [Born]
    rw [hborn] at hy ⊢
    rw [hm x y hy, or_comm]
    simp
  declared := by
    rintro x y ⟨rfl, rfl⟩
    exact hj
  complete := fun _ _ => False.elim

end Enlists

/-! ## The walk -/

/-- What going on at a group promises. -/
def GoesOut (ctx : Context) (m : Memory) (c : Scene) (E : Failure → Store → Prop)
    (goOn : Identity → Subject → Sync Unit) (d : Nat) : Prop :=
  ∀ ⦃k : Key⦄ ⦃i : Identity⦄ ⦃s : Store⦄, s.WellFormed → s.Typed →
    m.identities.lookup k = some i → (∃ r, s.find? k = some r) →
    Sync.Ends c s (goOn i (.stored k)) (fun _ s' => ctx.Enlists m c s
      (fun x g => ctx.Visits m s d k x ∧ ctx.Joins m s x g) (ctx.Visits m s d k) s') E

/-- After pruning, a record has its targets among the groups of the provider and no others. -/
theorem prune_enlists (hc : c.Expects E) (hs : s.WellFormed) (ht : s.Typed)
    (hk : s.find? k = some r) {declared : List Key} (hd : ∀ g, g ∈ declared ↔ ctx.Joins m s k g)
    (hm : ∀ g, ctx.Joins m s k g → s.Member k g) :
    Sync.Ends c s (do
      let groups ← Sync.result ((← get).store.memberOf r.id)
      groups.forM (ctx.pruneGroup log r declared)) (fun _ s' =>
        ctx.Enlists m c s (fun x g => x = k ∧ ctx.Joins m s k g) (· = k) s') E := by
  refine (prune_ends hc.store hs (hs.toKey_of_find? hk) declared).mono ?_ fun _ _ => id
  rintro _ _ ⟨D, rfl, hD⟩
  -- what has members is there already
  have hborn (y : Key) : ¬ Born s (fun x g => x = k ∧ ctx.Joins m s k g) y := by
    rintro ⟨hn, _, rfl, hj⟩
    obtain ⟨-, q, hq, -⟩ := hs.exists_of_member (hm y hj)
    rw [hn] at hq
    cases hq
  exact {
    wellFormed := hs.cut D
    typed := ht.cut D
    records := by simp [hborn]
    present := by
      rintro x rfl
      exact ⟨r, hk⟩
    added := by
      rintro x g ⟨rfl, hj⟩
      exact Store.member_cut.2 ⟨hm g hj, by rw [← Bool.not_eq_true, hD, hd]; tauto⟩
    member := by
      intro x g _
      rw [Store.member_cut, ← Bool.not_eq_true, hD, hd]
      simp only [hborn, false_and, or_false]
      constructor
      · rintro ⟨hx, hn⟩
        by_cases hxk : x = k ∧ ctx.Owned s g
        · obtain ⟨rfl, ho⟩ := hxk
          exact .inl ⟨rfl, by_contra fun hj => hn ⟨rfl, hx, ho, hj⟩⟩
        · exact .inr ⟨hx, hxk⟩
      · rintro (⟨rfl, hj⟩ | ⟨hx, hn⟩)
        · exact ⟨hm g hj, fun hcut => hcut.2.2.2 hj⟩
        · exact ⟨hx, fun hcut => hn ⟨hcut.1, hcut.2.2.1⟩⟩
    declared := by
      rintro x g ⟨rfl, hj⟩
      exact hj
    complete := by
      rintro x g rfl hj
      exact ⟨rfl, hj⟩ }

namespace Backed

variable (h : ctx.Backed m) (hc : c.Expects E) (htime : c.clock.IsTime)
include h hc htime

/-- A usable group that is not there is created with the attributes of its identity, and joins its
auto-membership groups; one that is there is left as it is. -/
theorem localGroup_ends (hs : s.WellFormed) (ht : s.Typed)
    (hi : m.identities.lookup k = some i) :
    Sync.Ends c s (ctx.localGroup i log) (fun a s' =>
      ¬ ctx.Usable s k ∧ a = none ∧ s' = s ∨
      ctx.Usable s k ∧ ∃ g, a = some (.stored k, g) ∧ s'.find? k = some g ∧ g.isGroup = true ∧
        s'.WellFormed ∧ s'.Typed ∧ (∀ y r, s'.find? y = some r ↔ s.find? y = some r ∨
          s.find? y = none ∧ y = k ∧ r = ctx.refreshed c i (ctx.newRecord i true)) ∧
        ∀ x y, (s.find? x = none ∧ x = k → ctx.autos true y = true → s.HasGroup y) →
          (s'.Member x y ↔
            s.Member x y ∨ (s.find? x = none ∧ x = k) ∧ ctx.autos true y = true)) E := by
  obtain ⟨hty, hid, -⟩ := h.memory.of_lookup hi
  cases hf : s.find? k with
  | some g =>
    have hfree (x : Key) : ¬ (s.find? x = none ∧ x = k) := by
      rintro ⟨hn, rfl⟩
      rw [hf] at hn
      cases hn
    refine (localGroup_found_ends hid hf).mono ?_ fun _ _ => id
    rintro _ s ⟨rfl, hn | ⟨hus, rfl⟩⟩
    · exact .inl ⟨hn.1, hn.2, rfl⟩
    · refine .inr ⟨hus, g, rfl, hf, hus.isGroup hf, hs, ht, fun y r => ?_, fun x y _ => ?_⟩
      · rw [← and_assoc, or_iff_left fun hy => hfree y hy.1]
      · rw [or_iff_left fun hx => hfree x hx.1]
  | none =>
    refine (localGroup_new_ends hc.store hs ht hty hid hf h.policy htime).mono ?_ fun _ _ => id
    rintro _ s' ⟨rfl, hwf, hty', hfind, hmem⟩
    refine .inr ⟨usable_of_none hf, _, rfl, (hfind k).trans (if_pos rfl), rfl, hwf, hty',
      fun y r => ?_, fun x y hy => ?_⟩
    · rw [hfind]
      by_cases hyk : y = k
      · subst hyk
        simp [hf, eq_comm]
      · simp [hyk]
    · rw [hmem]
      refine or_congr_right ?_
      constructor
      · rintro ⟨rfl, ha, -⟩
        exact ⟨⟨hf, rfl⟩, ha⟩
      · rintro ⟨⟨-, rfl⟩, ha⟩
        obtain ⟨q, hq, hgroup⟩ := hy ⟨hf, rfl⟩ ha
        refine ⟨rfl, ha, q, ?_, hgroup⟩
        rw [hfind, if_neg, hq]
        rintro rfl
        rw [hf] at hq
        cases hq

/-- Declaring one group of a record adds that membership and expands the group. -/
theorem declareGroup_enlists {goOn : Identity → Subject → Sync Unit}
    (hgo : ctx.GoesOut m c E goOn d) (hs : s.WellFormed) (ht : s.Typed)
    (hi : m.identities.lookup k = some i) (hk : s.find? k = some r) (href : ref ∈ i.groups)
    (declared : List Key) :
    Sync.Ends c s (ctx.declareGroup log r goOn declared ref)
      (fun declared' s' => ctx.Enlists m c s
          (fun x g => ∃ t, ctx.Offers m s ref t ∧
            (x = k ∧ g = t ∨ ctx.Visits m s d t x ∧ ctx.Joins m s x g))
          (fun x => ∃ t, ctx.Offers m s ref t ∧ ctx.Visits m s d t x) s' ∧
        ∀ g, g ∈ declared' ↔ g ∈ declared ∨ ctx.Offers m s ref g) E := by
  have htyped := typed_of_mem_groups (h.memory.of_lookup hi).1 href
  refine h.served.declareGroup_ends hc htyped (fun hn => ?_)
    (fun _ _ hlook _ => h.localGroup_ends hc htime hs ht hlook) ?_
  · exact ⟨(Enlists.refl hs ht).congr (by simp [hn]) (by simp [hn]), by simp [hn]⟩
  · rintro j g q s₁ hlook hus hoffers ⟨hq, hgroup, hs₁, ht₁, hrecs₁, hmem₁⟩
    have hk₁ : s₁.find? k = some r := (hrecs₁ k r).2 (.inl hk)
    refine Sync.Ends.bind (addMember_ends hc.store hs₁ hq hgroup (hs.toKey_of_find? hk) hk₁) ?_
    rintro _ s₂ ⟨hs₂, hrecs₂, hmem₂⟩
    have hfind₂ (y : Key) : s₂.find? y = s₁.find? y := by rw [Store.find?, Store.find?, hrecs₂]
    have ht₂ : s₂.Typed := fun r hr => ht₁ r (by rwa [Store.all, hrecs₂] at hr)
    have hjoin : ctx.Joins m s k g := (joins_iff hi).2 ⟨ref, href, (hoffers g).2 rfl⟩
    have h₂ := Enlists.join hjoin hlook hs₂ ht₂ (fun y r => by rw [hfind₂, hrecs₁])
      ((hmem₂ k g).2 (.inr ⟨rfl, rfl⟩)) fun x y hy => by rw [hmem₂, hmem₁ x y hy]
    refine Sync.Ends.step (Sync.Ends.result_ok (hs₁.toKey_of_find? hq) ?_)
    refine Sync.Ends.bind (hgo hs₂ ht₂ hlook ⟨q, (hfind₂ g).trans hq⟩) ?_
    rintro _ s₃ h₃
    refine Sync.Ends.pure ⟨(h₂.trans h hs h₃).congr (fun x y => ?_) fun x => ?_, fun y => ?_⟩
    · simp [hoffers, h₂.visits_iff h, h₂.joins_iff h]
    · simp [hoffers, h₂.visits_iff h]
    · rw [List.mem_cons, hoffers, or_comm]

/-- Materializing the memberships of a record expands what it visits. -/
theorem materialize_enlists (d : Nat) : ctx.GoesOut m c E (ctx.materialize log d) d := by
  induction d with
  | zero =>
    intro k i s hs ht _ _
    exact Sync.Ends.pure ((Enlists.refl hs ht).congr (by simp [Visits]) (by simp [Visits]))
  | succ d ih =>
    rintro k i s hs ht hi ⟨r, hk⟩
    unfold materialize
    refine Sync.Ends.step (requireKnown_ends (h.memory.of_lookup hi).1.known ?_)
    refine Sync.Ends.step (Sync.Ends.record hk ?_)
    refine Sync.Ends.bind (Sync.Ends.foldlM (I := fun done declared s' =>
      ctx.Enlists m c s
        (fun x g => ∃ ref ∈ done, ∃ t, ctx.Offers m s ref t ∧
          (x = k ∧ g = t ∨ ctx.Visits m s d t x ∧ ctx.Joins m s x g))
        (fun x => ∃ ref ∈ done, ∃ t, ctx.Offers m s ref t ∧ ctx.Visits m s d t x) s' ∧
      ∀ g, g ∈ declared ↔ ∃ ref ∈ done, ctx.Offers m s ref g)
      ⟨(Enlists.refl hs ht).congr (by simp) (by simp), by simp⟩ ?_) ?_
    · rintro done ref rest declared s₁ he ⟨h₁, hdecl⟩
      have href : ref ∈ i.groups := by rw [he]; simp
      refine (h.declareGroup_enlists hc htime ih h₁.wellFormed h₁.typed hi (h₁.kept hk) href
        declared).mono ?_ fun _ _ => id
      rintro declared' s₂ ⟨h₂, hdecl'⟩
      simp only [h₁.offers_iff h, h₁.visits_iff h, h₁.joins_iff h] at h₂ hdecl'
      refine ⟨(h₁.trans h hs h₂).congr (fun x g => ?_) fun x => ?_, fun g => ?_⟩
      · simp [or_and_right, exists_or]
      · simp [or_and_right, exists_or]
      · simp [hdecl', hdecl, or_and_right, exists_or]
    · rintro declared s₁ ⟨h₁, hdecl⟩
      have hjoins (g : Key) : g ∈ declared ↔ ctx.Joins m s₁ k g := by
        rw [hdecl, h₁.joins_iff h, joins_iff hi]
      have hmember (g : Key) (hg : ctx.Joins m s₁ k g) : s₁.Member k g := by
        obtain ⟨ref, href, ho⟩ := (hdecl g).1 ((hjoins g).2 hg)
        exact h₁.added k g ⟨ref, href, g, ho, .inl ⟨rfl, rfl⟩⟩
      refine (prune_enlists hc h₁.wellFormed h₁.typed (h₁.kept hk) hjoins hmember).mono ?_
        fun _ _ => id
      intro _ s₂ h₂
      refine (h₁.trans h hs h₂).congr (fun x g => ?_) fun x => ?_
      · simp only [h₁.joins_iff h, exists_offers_iff hi, Visits]
        constructor
        · rintro (⟨t, ht, ⟨rfl, rfl⟩ | ⟨hv, hj⟩⟩ | ⟨rfl, hj⟩)
          · exact ⟨.inl rfl, ht⟩
          · exact ⟨.inr ⟨t, ht, hv⟩, hj⟩
          · exact ⟨.inl rfl, hj⟩
        · rintro ⟨rfl | ⟨t, ht, hv⟩, hj⟩
          · exact .inr ⟨rfl, hj⟩
          · exact .inl ⟨t, ht, .inr ⟨hv, hj⟩⟩
      · rw [exists_offers_iff hi, or_comm]
        rfl

end Backed

end Context

end Roster
