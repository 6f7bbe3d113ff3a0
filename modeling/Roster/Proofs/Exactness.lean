import Mathlib.Data.List.Chain
import Roster.Proofs.Again
import Roster.Proofs.Agreement

/-!
# Which member lists a user is in

Synchronising a user in a standard context leaves it, among the groups of the provider, in exactly
those that it declares and those that users join automatically, and with other groups nothing
changes but that it joins those of them that users join automatically. The same holds of the groups
that are expanded on the way, if groups join none automatically (`member_lists_exact`).

A group that is created joins the auto-membership groups of groups at once. If it is expanded, it is
then taken out of those that belong to the provider and that it does not declare; so it keeps all of
them only where it is met at the last hop (`autos_kept_iff`). A user joins its auto-membership
groups in the end and keeps them.

* `Context.Points`: which groups an identity declares, apart from any store.
* `Context.Listed`: what a synchronisation comes to, in terms of the store before.
-/

namespace Roster

namespace Context

/-- The identity under a key declares the group under another one, by a reference of the
provider. -/
def Points (ctx : Context) (m : Memory) (x g : Key) : Prop :=
  ∃ i, m.identities.lookup x = some i ∧ ∃ ref ∈ i.groups, ∃ j, ctx.leadsTo m ref = some j ∧
    j.id.toKey = .ok g

/-- There is a group of the provider under the key. -/
def HasLocal (ctx : Context) (s : Store) (g : Key) : Prop :=
  ∃ q, s.find? g = some q ∧ q.isGroup = true ∧ ctx.owns q.ref = true

/-- A membership that is made within a number of hops. -/
def Made (ctx : Context) (m : Memory) (s : Store) (d : Nat) (k x g : Key) : Prop :=
  ctx.Visits m s d k x ∧ ctx.Joins m s x g

/-- What synchronising a user comes to, with memberships made within a number of hops. -/
structure Listed (ctx : Context) (m : Memory) (c : Scene) (d : Nat) (k : Key) (s s' : Store) :
    Prop where
  users : ∀ r, s.find? k = some r ∨ s'.find? k = some r → r.isGroup = false
  records : ∀ y r, y ≠ k → (s'.find? y = some r ↔ s.find? y = some r ∨
    Born s (ctx.Made m s d k) y ∧ ∃ i, m.identities.lookup y = some i ∧
      r = ctx.refreshed c i (ctx.newRecord i true))
  member : ∀ x g, (Born s (ctx.Made m s d k) x → ctx.autos true g = true → s.HasGroup g) →
    (s'.Member x g ↔ (ctx.Made m s d k x g ∨
      (s.Member x g ∨ Born s (ctx.Made m s d k) x ∧ ctx.autos true g = true) ∧
        ¬ (ctx.Visits m s d k x ∧ ctx.Owned s g)) ∨
      x = k ∧ ctx.autos false g = true ∧ s'.HasGroup g)

variable {ctx : Context} {m : Memory} {c : Scene} {k g x y : Key} {s s₁ s₂ s' : Store}
  {r r₁ : Record} {u : Identity} {d : Nat} {log : Option Channel} {E : Failure → Store → Prop}

theorem joins_iff_points : ctx.Joins m s x g ↔ ctx.Points m x g ∧ ctx.Usable s g := by
  constructor
  · rintro ⟨i, hi, ref, href, j, hj, hg, hus⟩
    exact ⟨⟨i, hi, ref, href, j, hj, hg⟩, hus⟩
  · rintro ⟨⟨i, hi, ref, href, j, hj, hg⟩, hus⟩
    exact ⟨i, hi, ref, href, j, hj, hg, hus⟩

/-- What is visited after the start is met at the end of a chain of targets. -/
theorem visits_iff_chain : ctx.Visits m s d k x ↔ 0 < d ∧ x = k ∨
    ∃ path, (k :: (path ++ [x])).IsChain (ctx.Joins m s) ∧ (path ++ [x]).length < d := by
  induction d generalizing k with
  | zero => simp [Visits]
  | succ d ih =>
    simp only [Visits, ih, Nat.zero_lt_succ, true_and, List.length_append, List.length_singleton]
    refine or_congr_right ?_
    constructor
    · rintro ⟨g, hg, ⟨hd, rfl⟩ | ⟨path, hpath, hlen⟩⟩
      · exact ⟨[], .cons_cons hg (.singleton _), by simpa using hd⟩
      · exact ⟨g :: path, .cons_cons hg hpath, by simpa using hlen⟩
    · rintro ⟨path, hpath, hlen⟩
      cases path with
      | nil =>
        obtain ⟨hx, -⟩ := List.isChain_cons_cons.1 hpath
        exact ⟨x, hx, .inl ⟨by simpa using hlen, rfl⟩⟩
      | cons g path =>
        obtain ⟨hg, hpath⟩ := List.isChain_cons_cons.1 hpath
        exact ⟨g, hg, .inr ⟨path, hpath, by simpa using hlen⟩⟩

/-- The end of a chain is related to what stands before it. -/
theorem exists_of_isChain {R : Key → Key → Prop} {path : List Key}
    (h : (k :: (path ++ [x])).IsChain R) : ∃ y, R y x := by
  rw [← List.cons_append, List.isChain_append] at h
  obtain ⟨-, -, hlast⟩ := h
  exact ⟨_, hlast _ (List.getLast?_eq_some_getLast (by simp)) x rfl⟩

/-! ## Synchronising a user -/

theorem expects_anything : c.Expects fun _ _ => True :=
  ⟨fun _ _ _ _ _ => trivial, fun _ _ _ => trivial⟩

/-- Groups other than the user are the same where the other records are. -/
theorem hasGroup_congr (hf : ∀ y, y ≠ k → s₁.find? y = s.find? y)
    (h₁ : ∀ r, s₁.find? k = some r → r.isGroup = false)
    (h : ∀ r, s.find? k = some r → r.isGroup = false) : s₁.HasGroup g ↔ s.HasGroup g := by
  by_cases hg : g = k
  · subst hg
    refine iff_of_false ?_ ?_
    · rintro ⟨q, hq, hgroup⟩
      rw [h₁ q hq] at hgroup
      cases hgroup
    · rintro ⟨q, hq, hgroup⟩
      rw [h q hq] at hgroup
      cases hgroup
  · rw [Store.HasGroup, hf g hg, Store.HasGroup]

namespace Backed

variable (h : ctx.Backed m)
include h

/-- No target stands under the key of a user. -/
theorem ne_of_joins (hu : m.identities.lookup k = some u) (hg : u.isGroup = false)
    (hj : ctx.Joins m s x g) : g ≠ k := by
  rintro rfl
  obtain ⟨j, hj, hgroup⟩ := h.isGroup_of_joins hj
  obtain rfl : u = j := Option.some.inj (hu.symm.trans hj)
  rw [hg] at hgroup
  cases hgroup

/-- A walk over a store in which the user has got another record, after which the user has joined
groups. -/
theorem listed (hu : m.identities.lookup k = some u) (hg : u.isGroup = false) (hs : s.WellFormed)
    (hs₁ : s₁.Hosts k r₁) (hwas : ∀ q, s.find? k = some q → q.isGroup = false)
    (hf₁ : ∀ y, y ≠ k → s₁.find? y = s.find? y)
    (hm₁ : ∀ x g, s₁.Member x g ↔ s.Member x g)
    (h₂ : ctx.Enlists m c s₁ (ctx.Made m s₁ d k) (ctx.Visits m s₁ d k) s₂)
    (huser : ∀ q, s'.find? k = some q → q.isGroup = false)
    (hf' : ∀ y, y ≠ k → s'.find? y = s₂.find? y)
    (hm' : ∀ x g, s'.Member x g ↔
      s₂.Member x g ∨ x = k ∧ ctx.autos false g = true ∧ s₂.HasGroup g) :
    ctx.Listed m c d k s s' := by
  have hwas₁ : ∀ q, s₁.find? k = some q → q.isGroup = false := by
    intro q hq
    obtain rfl : r₁ = q := Option.some.inj (hs₁.own.symm.trans hq)
    exact hs₁.isUser
  have hwas₂ : ∀ q, s₂.find? k = some q → q.isGroup = false := by
    intro q hq
    obtain rfl : r₁ = q := Option.some.inj ((h₂.kept hs₁.own).symm.trans hq)
    exact hs₁.isUser
  -- the record of the user stands in nobody's way
  have hjoins (x g : Key) : ctx.Joins m s₁ x g ↔ ctx.Joins m s x g := by
    refine h.joins_congr fun g j hj hgroup => ?_
    have hgk : g ≠ k := by
      rintro rfl
      obtain rfl : u = j := Option.some.inj (hu.symm.trans hj)
      rw [hg] at hgroup
      cases hgroup
    rw [Usable, hf₁ g hgk, Usable]
  have hvisits (x : Key) : ctx.Visits m s₁ d k x ↔ ctx.Visits m s d k x := visits_congr hjoins
  have hmade (x g : Key) : ctx.Made m s₁ d k x g ↔ ctx.Made m s d k x g :=
    and_congr (hvisits x) (hjoins x g)
  have hborn (y : Key) : Born s₁ (ctx.Made m s d k) y ↔ Born s (ctx.Made m s d k) y := by
    refine and_congr_left ?_
    rintro ⟨x, -, hx⟩
    rw [hf₁ y (h.ne_of_joins hu hg hx)]
  have hhas (g : Key) : s₁.HasGroup g ↔ s.HasGroup g := hasGroup_congr hf₁ hwas₁ hwas
  have h₂ := h₂.congr hmade hvisits
  refine ⟨fun q hq => hq.elim (hwas q) (huser q), fun y q hy => ?_, fun x g hx => ?_⟩
  · rw [hf' y hy, h₂.records, hf₁ y hy, hborn]
  · have howned (hgroup : s.HasGroup g) : ctx.Owned s₁ g ↔ ctx.Owned s g := by
      obtain ⟨q, hq, hgroup⟩ := hgroup
      have hgk : g ≠ k := by
        rintro rfl
        rw [hwas q hq] at hgroup
        cases hgroup
      rw [Owned, hf₁ g hgk, Owned]
    rw [hm', hasGroup_congr hf' huser hwas₂, h₂.member, hm₁, hborn]
    · refine or_congr_left (or_congr_right (and_congr_right ?_))
      rintro (hm | ⟨hborn', ha⟩)
      · rw [howned (hs.exists_of_member hm).2]
      · rw [howned (hx hborn' ha)]
    · intro hx' ha
      exact (hhas g).2 (hx ((hborn x).1 hx') ha)

variable (htime : c.clock.IsTime) (hd : ctx.dynamic = false)
include htime hd

/-- Synchronising a user, whose record may be a new one. -/
theorem syncUser_lists (hu : m.identities.lookup k = some u) (hg : u.isGroup = false)
    (hs : s.WellFormed) (hs₁ : s₁.Hosts k r) (hwas : ∀ q, s.find? k = some q → q.isGroup = false)
    (hf₁ : ∀ y, y ≠ k → s₁.find? y = s.find? y) (hm₁ : ∀ x g, s₁.Member x g ↔ s.Member x g) :
    Sync.Ends c s₁ (ctx.syncUser u (.stored k) log) (fun _ s' => (∃ q, s'.find? k = some q) ∧
      ctx.Listed m c ctx.policy.user.nestingDepth.toNat k s s') fun _ _ => True := by
  obtain ⟨a, ha, rfl⟩ := Value.toKey_eq_ok_iff.1 (hs₁.wellFormed.toKey_of_find? hs₁.own)
  have hty := (h.memory.of_lookup hu).1
  have hr := hs₁.typed r (Store.mem_all_of_find? hs₁.own)
  have hs₂ := hs₁.put (hr.takingOver hty ctx.policy.user.propertyMapping) ⟨rfl, rfl⟩
  unfold syncUser
  refine Sync.Ends.bind (syncProperties_ends hs₁.wellFormed hs₁.own hr hty h.policy.userMapping) ?_
  rintro _ _ rfl
  unfold syncMembership
  rw [if_neg (by simp [hd])]
  have hwalk : ctx.GoesOut m c (fun _ _ => True) (ctx.materialize (log.getD ⟨"default_sync", none⟩)
    ctx.policy.user.nestingDepth.toNat) ctx.policy.user.nestingDepth.toNat :=
    h.materialize_enlists expects_anything htime _
  refine Sync.Ends.bind (hwalk hs₂.wellFormed hs₂.typed hu ⟨_, hs₂.own⟩) ?_
  intro _ s₃ h₃
  have hk₃ := h₃.kept hs₂.own
  refine Sync.Ends.bind (applyMembership_joined_ends expects_anything.store h₃.wellFormed hk₃ ha
    false h.policy.userGroups) ?_
  rintro _ _ rfl
  have hk₄ : (s₃.joined (ctx.autos false) a).find? a.key = _ := hk₃
  refine (stamp_ends (h₃.wellFormed.joined hk₃) hk₄).mono ?_ fun _ _ => id
  rintro _ _ rfl
  have hfind := Store.find?_put hk₄
    { r.takingOver ctx.policy.user.propertyMapping u with lastSynced := c.clock }
  refine ⟨⟨_, (hfind a.key).trans (if_pos rfl)⟩,
    h.listed hu hg hs hs₂ hwas (fun y hy => ?_) (fun x g => ?_) h₃ ?_ (fun y hy => ?_)
      fun x g => ?_⟩
  · rw [Store.find?_put hs₁.own, if_neg hy, hf₁ y hy]
  · rw [Store.member_put, hm₁]
  · intro q hq
    rw [hfind, if_pos rfl] at hq
    obtain rfl := Option.some.inj hq
    exact hs₂.isUser
  · rw [hfind, if_neg hy, Store.find?_joined]
  · rw [Store.member_put, h₃.wellFormed.member_joined]
    rfl

/-- A user that is reported as added or updated was synchronised. -/
theorem sync_lists (hs : s.WellFormed) (ht : s.Typed) (hu : m.identities.lookup k = some u)
    (hkind : u.kind = .user) :
    Sync.Ends c s (ctx.sync u) (fun a s' => a.status = .add ∨ a.status = .update →
      ctx.Listed m c ctx.policy.user.nestingDepth.toNat k s s') fun _ _ => True := by
  obtain ⟨hty, hid, -⟩ := h.memory.of_lookup hu
  have hg : u.isGroup = false := by simp [Identity.isGroup, hkind]
  refine h.sync_user_ends (F := fun _ _ => True) hu hkind (fun _ _ _ _ => trivial) ?_ ?_
  · intro hk log
    unfold addIdentity
    rw [hg]
    refine Sync.Ends.bind
      (newRecord_ends expects_anything.store hs ht hty hid hk false) ?_
    rintro _ s₁ ⟨rfl, hwf, ht₁, hfind, hmem⟩
    have hs₁ : s₁.Hosts k (ctx.newRecord u false) := ⟨hwf, ht₁, (hfind k).trans (if_pos rfl), rfl⟩
    refine Sync.Ends.bind (h.syncUser_lists htime hd hu hg hs hs₁ (by simp [hk])
      (fun y hy => (hfind y).trans (if_neg hy)) hmem) ?_
    rintro _ s₂ ⟨⟨q, hq⟩, hlisted⟩
    refine Sync.Ends.step (Sync.Ends.log ?_)
    exact resultOf_ends hq fun _ _ _ => hlisted
  · intro r hk log
    have hr := ht r (Store.mem_all_of_find? hk)
    have hno {status : Status} (hstatus : status = .foreign ∨ status = .nop) {Q : Prop} :
        status = .add ∨ status = .update → Q := by
      rcases hstatus with rfl | rfl <;> simp
    unfold updateIdentity
    refine Sync.Ends.step (Sync.Ends.record hk ?_)
    refine Sync.Ends.step (requireKnown_ends hty.known ?_)
    dsimp only
    split
    · exact Sync.Ends.throw_bind trivial
    next hsame =>
    have hgroup : r.isGroup = false := ((sameType_iff hr u).1 (by simpa using hsame)).trans hg
    split
    · refine Sync.Ends.step (Sync.Ends.log ?_)
      exact Sync.Ends.pure (hno (.inl rfl))
    simp only [hgroup, Bool.false_eq_true, if_false]
    refine Sync.Ends.bind (isExpired_ends htime hr h.policy.userExpiration) ?_
    rintro b s ⟨-, rfl⟩
    split
    · refine Sync.Ends.bind (h.syncUser_lists htime hd hu hg hs ⟨hs, ht, hk, hgroup⟩
        (fun q hq => Option.some.inj (hk.symm.trans hq) ▸ hgroup) (fun _ _ => rfl)
        fun _ _ => .rfl) ?_
      rintro _ s₂ ⟨⟨q, hq⟩, hlisted⟩
      exact resultOf_ends hq fun _ _ _ => hlisted
    · refine Sync.Ends.step (Sync.Ends.log ?_)
      exact resultOf_ends hk fun _ ha => hno (.inr ha)

end Backed

/-! ## In terms of the store before -/

namespace Listed

variable (h : ctx.Listed m c d k s s')
include h

theorem kept (hy : y ≠ k) (hr : s.find? y = some r) : s'.find? y = some r :=
  (h.records y r hy).2 (.inl hr)

theorem ne_of_group (hr : s'.find? g = some r) (hgroup : r.isGroup = true) : g ≠ k := by
  rintro rfl
  rw [h.users r (.inr hr)] at hgroup
  cases hgroup

theorem usable_iff (hb : ctx.Backed m) (hy : y ≠ k) : ctx.Usable s' y ↔ ctx.Usable s y := by
  constructor
  · exact fun hus r hr => hus r (h.kept hy hr)
  · intro hus r hr
    rcases (h.records y r hy).1 hr with hr | ⟨-, i, hi, rfl⟩
    · exact hus r hr
    · refine ⟨rfl, ?_⟩
      show ctx.owns i.ref = true
      rw [(hb.memory.of_lookup hi).2.2]
      exact hb.owns_ref _

/-- What is declared, and is a group of the provider afterwards, is a target. -/
theorem joins (hb : ctx.Backed m) (hp : ctx.Points m x g) (hl : ctx.HasLocal s' g) :
    ctx.Joins m s x g := by
  obtain ⟨q, hq, hgroup, howns⟩ := hl
  refine joins_iff_points.2 ⟨hp, (h.usable_iff hb (h.ne_of_group hq hgroup)).1 ?_⟩
  rw [Context.usable_iff hq, hgroup, howns]
  rfl

/-- What is expanded is in the groups of the provider that it declares, and in other groups as
before. -/
theorem member_iff (hb : ctx.Backed m) (hs : s.WellFormed) (hx : ctx.Visits m s d k x)
    (hborn : Born s (ctx.Made m s d k) x → ctx.autos true g = false)
    (hr : s'.find? g = some r) (hgroup : r.isGroup = true) :
    s'.Member x g ↔ (if ctx.owns r.ref then ctx.Points m x g else s.Member x g) ∨
      x = k ∧ ctx.autos false g = true := by
  have hgk := h.ne_of_group hr hgroup
  have hborn' : ¬ (Born s (ctx.Made m s d k) x ∧ ctx.autos true g = true) := by
    rintro ⟨hx, ha⟩
    rw [hborn hx] at ha
    cases ha
  have husable : ctx.Usable s g ↔ ctx.owns r.ref = true := by
    rw [← h.usable_iff hb hgk, Context.usable_iff hr, hgroup, Bool.true_and]
  have howned (hm : s.Member x g) : ctx.Owned s g ↔ ctx.owns r.ref = true := by
    obtain ⟨-, q, hq, -⟩ := hs.exists_of_member hm
    obtain rfl : q = r := Option.some.inj ((h.kept hgk hq).symm.trans hr)
    exact Context.owned_iff hq
  rw [h.member x g fun hx ha => absurd ⟨hx, ha⟩ hborn', or_iff_left hborn']
  refine or_congr ?_ (and_congr_right fun _ => and_iff_left ⟨r, hr, hgroup⟩)
  rw [Made, joins_iff_points, husable]
  cases howns : ctx.owns r.ref with
  | true =>
    simp only [hx, and_true, true_and, if_true, or_iff_left_iff_imp]
    rintro ⟨hm, hn⟩
    exact absurd ((howned hm).2 howns) hn
  | false =>
    simp only [Bool.false_eq_true, and_false, false_or, if_false, and_iff_left_iff_imp]
    rintro hm ⟨-, ho⟩
    rw [(howned hm).1 ho] at howns
    cases howns

end Listed

/-! ## Runs -/

variable {p : Policy} {w w' : World} {a : SyncResult}

theorem autos_standard (p : Policy) (pr : Provider) (isGroup : Bool) (g : Key) :
    (Context.mk p pr false).autos isGroup g = true ↔ g ∈ (p.autoMembershipFor isGroup).keys := by
  simp [autos]

/-- A run whose answer has a status. -/
theorem exists_of_status {x : Sync SyncResult} {st : Status}
    (h : (x w).1.toOption.map SyncResult.status = some st) :
    ∃ a, x w = (.ok a, (x w).2) ∧ a.status = st := by
  rcases hx : x w with ⟨f | a, w'⟩ <;> rw [hx] at h
  · cases h
  · exact ⟨a, rfl, Option.some.inj h⟩

/-- A user that is reported as added or updated is one of the provider of the policy, and was
synchronised. -/
theorem listed_of_sync (hp : p.Typed) (hm : m.Typed) (hs : w.store.WellFormed) (ht : w.store.Typed)
    (hclock : w.clock.IsTime) (hu : m.identities.lookup k = some u) (hkind : u.kind = .user)
    (h : (Context.mk p m.provider false).sync u w = (.ok a, w'))
    (hstatus : a.status = .add ∨ a.status = .update) :
    (Context.mk p m.provider false).Backed m ∧
      (Context.mk p m.provider false).Listed m w.scene p.user.nestingDepth.toNat k w.store
        w'.store := by
  by_cases hname : p.provider = m.name
  · have hb : (Context.mk p m.provider false).Backed m := ⟨rfl, hname, hm, hp⟩
    exact ⟨hb, (hb.sync_lists hclock rfl hs ht hu hkind).of_ok rfl rfl h hstatus⟩
  · have hown : (Context.mk p m.provider false).owns u.ref = false := by
      rw [(hm.of_lookup hu).2.2, ← Bool.not_eq_true, owns_ref_iff hp.provider hm.name]
      exact hname
    rw [sync_foreign_user hkind hown] at h
    obtain ⟨ha, -⟩ := Prod.mk.inj h
    obtain rfl := Except.ok.inj ha
    rcases hstatus with he | he <;> cases he

/-- A synchronised user is, among the groups of the provider, in exactly those that it declares and
those that users join automatically; with other groups, it has only joined those that users join
automatically. If groups join none automatically, what is expanded on the way is, among the groups
of the provider, in exactly those that it declares, and in other groups as before. Without hops,
nothing happens but that the user joins groups automatically. -/
theorem member_lists_exact (hp : p.Typed) (hm : m.Typed) (hs : w.store.WellFormed)
    (ht : w.store.Typed) (hclock : w.clock.IsTime) (hu : m.identities.lookup k = some u)
    (hkind : u.kind = .user) (h : (Context.mk p m.provider false).sync u w = (.ok a, w'))
    (hstatus : a.status = .add ∨ a.status = .update) :
    (0 < p.user.nestingDepth →
      (∀ g r, w'.store.find? g = some r → r.isGroup = true →
        (w'.store.Member k g ↔
          (if p.ownsOption r.ref then (Context.mk p m.provider false).Points m k g
            else w.store.Member k g) ∨ g ∈ p.user.autoMembership.keys)) ∧
      (p.group.autoMembership = ∅ → ∀ path x,
        (k :: (path ++ [x])).IsChain (fun y g => (Context.mk p m.provider false).Points m y g ∧
          (Context.mk p m.provider false).HasLocal w'.store g) →
        ((path ++ [x]).length : Int) < p.user.nestingDepth →
        ∀ g r, w'.store.find? g = some r → r.isGroup = true →
          (w'.store.Member x g ↔
            if p.ownsOption r.ref then (Context.mk p m.provider false).Points m x g
              else w.store.Member x g))) ∧
    (p.user.nestingDepth ≤ 0 → ∀ x g, w'.store.Member x g ↔ w.store.Member x g ∨
      x = k ∧ g ∈ p.user.autoMembership.keys ∧ w'.store.HasGroup g) := by
  obtain ⟨hb, hlisted⟩ := listed_of_sync hp hm hs ht hclock hu hkind h hstatus
  have hg : u.isGroup = false := by simp [Identity.isGroup, hkind]
  refine ⟨fun hdepth => ⟨fun g r hr hgroup => ?_, fun hempty path x hpath hlen g r hr hgroup => ?_⟩,
    fun hdepth x g => ?_⟩
  · rw [hlisted.member_iff hb hs (visits_iff_chain.2 (.inl ⟨by omega, rfl⟩)) ?_ hr hgroup,
      autos_standard]
    · exact or_congr .rfl (by simp [Policy.autoMembershipFor])
    · rintro ⟨-, y, -, hy⟩
      exact absurd rfl (hb.ne_of_joins hu hg hy)
  · have hchain : (k :: (path ++ [x])).IsChain
        ((Context.mk p m.provider false).Joins m w.store) :=
      hpath.imp fun _ _ hyg => hlisted.joins hb hyg.1 hyg.2
    have hxk : x ≠ k := by
      obtain ⟨_, -, q, hq, hgroup, -⟩ := exists_of_isChain hpath
      exact hlisted.ne_of_group hq hgroup
    have hauto : (Context.mk p m.provider false).autos true = fun _ => false :=
      autos_of_empty hempty
    rw [hlisted.member_iff hb hs (visits_iff_chain.2 (.inr ⟨path, hchain, by omega⟩))
      (fun _ => by rw [hauto]) hr hgroup, or_iff_left fun hx => hxk hx.1]
    exact .rfl
  · rw [Int.toNat_eq_zero.2 hdepth] at hlisted
    have hborn : ¬ Born w.store ((Context.mk p m.provider false).Made m w.store 0 k) x := by
      rintro ⟨-, y, hy, -⟩
      exact hy
    rw [hlisted.member x g fun hx => absurd hx hborn]
    simp [hborn, Visits, Made, autos_standard, Policy.autoMembershipFor]

/-- The user is in the group that it declares and in the one that users join, and the group that it
declares is in the one that is declared there. -/
theorem member_lists_exact_joiningUsers :
    joiningUsers.Typed ∧ cyclicGroups.Typed ∧ ∃ u a w',
      cyclicGroups.identities.lookup (.text "u") = some u ∧ u.kind = .user ∧
      (Context.mk joiningUsers cyclicGroups.provider false).sync u {} = (.ok a, w') ∧
      a.status = .add ∧ w'.store.Member (.text "u") (.text "g") ∧
      w'.store.Member (.text "u") (.text "h") ∧ w'.store.Member (.text "g") (.text "h") := by
  have hug : (Context.mk joiningUsers cyclicGroups.provider false).Points cyclicGroups
      (.text "u") (.text "g") :=
    ⟨_, rfl, _, List.mem_cons_self, _, rfl, rfl⟩
  have hgh : (Context.mk joiningUsers cyclicGroups.provider false).Points cyclicGroups
      (.text "g") (.text "h") :=
    ⟨_, rfl, _, List.mem_cons_self, _, rfl, rfl⟩
  obtain ⟨a, h, hadd⟩ : ∃ a, (Context.mk joiningUsers cyclicGroups.provider false).sync
      (cyclicGroups.entry .user "u" [some ⟨.text "g", .text "P"⟩]) {} = (.ok a, _) ∧
      a.status = .add := exists_of_status (by decide +kernel)
  have hlocal : ∀ g ∈ ["g", "h"], (((Context.mk joiningUsers cyclicGroups.provider false).sync
      (cyclicGroups.entry .user "u" [some ⟨.text "g", .text "P"⟩]) {}).2.store.find?
        (.text g)).map (fun r => r.isGroup && joiningUsers.ownsOption r.ref) = some true := by
    decide +kernel
  have hgroup (g : String) (hg : g ∈ ["g", "h"]) :
      ∃ r, (((Context.mk joiningUsers cyclicGroups.provider false).sync
        (cyclicGroups.entry .user "u" [some ⟨.text "g", .text "P"⟩]) {}).2.store.find?
          (.text g)) = some r ∧ r.isGroup = true ∧ joiningUsers.ownsOption r.ref = true := by
    simpa using hlocal g hg
  obtain ⟨g, hg, hg', howns⟩ := hgroup "g" (by simp)
  obtain ⟨r, hr, hr', howns'⟩ := hgroup "h" (by simp)
  obtain ⟨hexact, -⟩ := member_lists_exact (w := {}) (k := .text "u") typed_joiningUsers
    typed_cyclicGroups Store.wellFormed_empty Store.typed_empty (Value.isTime_int (by decide))
    rfl rfl h (.inl hadd)
  obtain ⟨huser, hgroups⟩ := hexact (by decide)
  refine ⟨typed_joiningUsers, typed_cyclicGroups, _, a, _, rfl, rfl, h, hadd,
    (huser _ g hg hg').2 (.inl ?_), (huser _ r hr hr').2 (.inr (by decide)),
    (hgroups rfl [] _ ?_ (by decide) _ r hr hr').2 ?_⟩
  · rwa [if_pos howns]
  · exact .cons_cons ⟨hug, g, hg, hg', howns⟩ (.singleton _)
  · rwa [if_pos howns']

/-! ## Groups that are created -/

/-- A group that is created joins the auto-membership groups of groups. It stays in one that belongs
to the provider only if it declares it, or if it is met at the last hop only, where it is not
expanded; in others it stays. -/
theorem autos_kept_iff {b : Key} {q : Record} (hp : p.Typed) (hm : m.Typed)
    (hs : w.store.WellFormed) (ht : w.store.Typed) (hclock : w.clock.IsTime)
    (hu : m.identities.lookup k = some u) (hkind : u.kind = .user)
    (h : (Context.mk p m.provider false).sync u w = (.ok a, w'))
    (hstatus : a.status = .add ∨ a.status = .update) (hb : w.store.find? b = some q)
    (hbgroup : q.isGroup = true) (hauto : b ∈ p.group.autoMembership.keys)
    (hnew : w.store.find? g = none) (hg : w'.store.find? g = some r) (hgroup : r.isGroup = true) :
    w'.store.Member g b ↔ p.ownsOption q.ref = false ∨
      (Context.mk p m.provider false).Points m g b ∨
      ¬ ∃ path, (k :: (path ++ [g])).IsChain ((Context.mk p m.provider false).Joins m w.store) ∧
        ((path ++ [g]).length : Int) < p.user.nestingDepth := by
  obtain ⟨-, hlisted⟩ := listed_of_sync hp hm hs ht hclock hu hkind h hstatus
  have hgk := hlisted.ne_of_group hg hgroup
  have hborn := ((hlisted.records g r hgk).1 hg).resolve_left (by simp [hnew])
  have hout : ¬ w.store.Member g b := by
    intro hmem
    obtain ⟨⟨q, hq⟩, -⟩ := hs.exists_of_member hmem
    rw [hnew] at hq
    cases hq
  have hvisits : (Context.mk p m.provider false).Visits m w.store p.user.nestingDepth.toNat k g ↔
      ∃ path, (k :: (path ++ [g])).IsChain ((Context.mk p m.provider false).Joins m w.store) ∧
        ((path ++ [g]).length : Int) < p.user.nestingDepth := by
    rw [visits_iff_chain, or_iff_right fun hx => hgk hx.2]
    exact exists_congr fun path => and_congr_right fun _ => by omega
  have hjoins : (Context.mk p m.provider false).Joins m w.store g b ↔
      (Context.mk p m.provider false).Points m g b ∧ p.ownsOption q.ref = true := by
    rw [joins_iff_points, usable_iff hb, hbgroup, Bool.true_and]
    rfl
  have howned : (Context.mk p m.provider false).Owned w.store b ↔ p.ownsOption q.ref = true :=
    owned_iff hb
  rw [hlisted.member g b fun _ _ => ⟨q, hb, hbgroup⟩, or_iff_left fun hx => hgk hx.1,
    or_iff_right hout, and_iff_right ⟨hborn.1, (autos_standard ..).2 hauto⟩, Made, hjoins, howned,
    ← hvisits]
  by_cases hv : (Context.mk p m.provider false).Visits m w.store p.user.nestingDepth.toNat k g <;>
    by_cases ho : p.ownsOption q.ref = true <;> simp [hv, ho]

/-- A policy that follows two hops, under which groups join a group of the provider. -/
def clubbing : Policy :=
  { twoHops with group := { autoMembership := .ofList [.text "club"] } }

theorem typed_clubbing : clubbing.Typed :=
  { Policy.typed_default "P" with groupGroups := NameSet.texts_empty.insert }

/-- The group that groups join. -/
def clubOnly : Store where
  records := [(.text "club", {
    id := .text "club", group := .bool true, principalName := .text "Club"
    ref := some ⟨.text "club", .text "P"⟩ })]
  members := [(.text "club", [])]

theorem typed_clubOnly : clubOnly.Typed := by
  intro r hr
  obtain rfl : r = _ := List.mem_singleton.1 hr
  constructor <;> simp [Value.IsText, Value.IsTime]
  exact ⟨⟨_, rfl⟩, .inr ⟨_, rfl⟩⟩

/-- The group that is met at the last hop stays in the group that groups join. -/
theorem autos_kept_iff_clubbing :
    clubbing.Typed ∧ cyclicGroups.Typed ∧ clubOnly.WellFormed ∧ clubOnly.Typed ∧ ∃ u a w' r,
      cyclicGroups.identities.lookup (.text "u") = some u ∧ u.kind = .user ∧
      (Context.mk clubbing cyclicGroups.provider false).sync u { store := clubOnly } = (.ok a, w') ∧
      a.status = .add ∧ clubOnly.find? (.text "h") = none ∧
      w'.store.find? (.text "h") = some r ∧ r.isGroup = true ∧
      w'.store.Member (.text "h") (.text "club") := by
  obtain ⟨a, h, hadd⟩ : ∃ a, (Context.mk clubbing cyclicGroups.provider false).sync
      (cyclicGroups.entry .user "u" [some ⟨.text "g", .text "P"⟩]) { store := clubOnly }
        = (.ok a, _) ∧ a.status = .add := exists_of_status (by decide +kernel)
  obtain ⟨r, hr, hgroup⟩ := Option.map_eq_some_iff.1 (show (((Context.mk clubbing
    cyclicGroups.provider false).sync (cyclicGroups.entry .user "u" [some ⟨.text "g", .text "P"⟩])
      { store := clubOnly }).2.store.find? (.text "h")).map Record.isGroup = some true by
        decide +kernel)
  have hwf : clubOnly.WellFormed := by decide
  refine ⟨typed_clubbing, typed_cyclicGroups, hwf, typed_clubOnly, _, a, _, r, rfl, rfl, h, hadd,
    rfl, hr, hgroup, (autos_kept_iff (w := { store := clubOnly }) (k := .text "u") typed_clubbing
      typed_cyclicGroups hwf typed_clubOnly (Value.isTime_int (by decide)) rfl rfl h (.inl hadd)
      rfl rfl (by decide) rfl hr hgroup).2 (.inr (.inr ?_))⟩
  -- the user declares only the other group
  rintro ⟨path, hpath, hlen⟩
  cases path with
  | cons y path =>
    simp only [List.length_append, List.length_cons] at hlen
    simp only [clubbing, twoHops] at hlen
    omega
  | nil =>
    obtain ⟨⟨i, hi, ref, href, j, hj, hkey, -⟩, -⟩ := List.isChain_cons_cons.1 hpath
    obtain rfl := Option.some.inj hi
    obtain rfl := List.mem_singleton.1 href
    obtain rfl := Option.some.inj hj
    exact absurd (Except.ok.inj hkey) (by decide)

/-- The group that is expanded does not stay in it. -/
theorem created_group_not_kept :
    ∃ u a w' r, cyclicGroups.identities.lookup (.text "u") = some u ∧ u.kind = .user ∧
      (Context.mk clubbing cyclicGroups.provider false).sync u { store := clubOnly } = (.ok a, w') ∧
      a.status = .add ∧ clubOnly.HasGroup (.text "club") ∧
      .text "club" ∈ clubbing.group.autoMembership.keys ∧ clubOnly.find? (.text "g") = none ∧
      w'.store.find? (.text "g") = some r ∧ r.isGroup = true ∧
      ¬ w'.store.Member (.text "g") (.text "club") := by
  obtain ⟨a, h, hadd⟩ : ∃ a, (Context.mk clubbing cyclicGroups.provider false).sync
      (cyclicGroups.entry .user "u" [some ⟨.text "g", .text "P"⟩]) { store := clubOnly }
        = (.ok a, _) ∧ a.status = .add := exists_of_status (by decide +kernel)
  obtain ⟨r, hr, hgroup⟩ := Option.map_eq_some_iff.1 (show (((Context.mk clubbing
    cyclicGroups.provider false).sync (cyclicGroups.entry .user "u" [some ⟨.text "g", .text "P"⟩])
      { store := clubOnly }).2.store.find? (.text "g")).map Record.isGroup = some true by
        decide +kernel)
  have hclub : ∀ p ∈ ((Context.mk clubbing cyclicGroups.provider false).sync
      (cyclicGroups.entry .user "u" [some ⟨.text "g", .text "P"⟩])
        { store := clubOnly }).2.store.members,
      p.1.key = .text "club" → ∀ y ∈ p.2, y.key ≠ .text "g" := by
    decide +kernel
  refine ⟨_, a, _, r, rfl, rfl, h, hadd, ⟨_, rfl, rfl⟩, by decide, rfl, hr, hgroup, ?_⟩
  rintro ⟨c, ms, y, hp, hc, hy, hk⟩
  exact hclub _ hp hc y hy hk

end Context

end Roster
