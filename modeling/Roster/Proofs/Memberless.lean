import Roster.Proofs.Again
import Roster.Proofs.Receding

/-!
# Dynamic groups without members

A dynamic group stands for its members, who name it, and so it should have no member list. In the
standard path groups are created in the legacy mode and get members; a dynamic context creates
groups in the dynamic mode. It gives them no members as long as it makes no member lists: under a
policy that forces records onto the dynamic path, or that follows no groups. Otherwise a user of the
legacy mode is synchronised as in a standard context, and the groups that are created for it are in
the dynamic mode and have it as a member (`memberless_iff`).

* `Store.Memberless`: no group in the dynamic mode has members.
* `Deed.Under`: synchronisations under a policy in one of the two ways.
-/

namespace Roster

namespace Store

/-- No group in the dynamic mode has members. -/
def Memberless (s : Store) : Prop :=
  ∀ k g, s.find? k = some g → g.isGroup = true → g.mode = some .dynamic → ∀ x, ¬ s.Member x k

/-- All records are in the legacy mode. -/
def AllLegacy (s : Store) : Prop := ∀ k r, s.find? k = some r → r.mode = some .legacy

theorem AllLegacy.memberless {s : Store} (h : s.AllLegacy) : s.Memberless := by
  intro k g hk _ hm
  rw [h k g hk] at hm
  cases hm

end Store

/-! ## Invariants -/

namespace Remit

/-- The remit of standard contexts: records are created in the legacy mode, and none is
converted. -/
def standard : Remit where
  own _ := True
  near _ := True
  auto _ := True
  born m := m = some .legacy
  converts _ := False

theorem standard_covers {ctx : Context} (hd : ctx.dynamic = false) : standard.Covers ctx where
  owned _ _ := trivial
  found _ _ _ := trivial
  joined _ _ _ := trivial
  born := by rw [Context.recordMode, hd]; rfl
  converts hd' := absurd (hd.symm.trans hd') Bool.false_ne_true
  fills _ := trivial

/-- The remit of dynamic contexts that make no member lists: no membership begins, and only users
are converted. -/
def unfilled : Remit where
  own _ := True
  near _ := True
  auto _ := True
  converts r := r.isGroup = false
  fills := False

theorem unfilled_covers {ctx : Context} (hd : ctx.dynamic = true)
    (hp : ctx.policy.enforcesDynamic = true ∨ ctx.policy.user.nestingDepth ≤ 0) :
    unfilled.Covers ctx where
  owned _ _ := trivial
  found _ _ _ := trivial
  joined _ _ _ := trivial
  born := trivial
  converts _ _ h := h
  fills := by
    rintro (hd' | ⟨he, hn⟩)
    · exact Bool.false_ne_true (hd'.symm.trans hd)
    · rcases hp with hp | hp
      · exact Bool.false_ne_true (he.symm.trans hp)
      · exact absurd hn (Int.not_lt.2 hp)

/-- In the remit of standard contexts all records stay in the legacy mode. -/
theorem legacy_preserved : standard.Preserves fun s => s.WellFormed ∧ s.AllLegacy where
  wellFormed _ h := h.1
  change p s s' := by
    rintro ⟨hs, hall⟩ hc
    refine ⟨hc.wellFormed hs, fun k r hr => ?_⟩
    cases hc with
    | @put _ _ j q q' hj _ _ hm =>
      rw [Store.find?_put hj] at hr
      split at hr
      · obtain rfl := Option.some.inj hr
        rcases hm with hm | ⟨hconv, -⟩
        · rw [hm, hall j q hj]
        · exact hconv.elim
      · exact hall k r hr
    | leave _ => exact hall k r hr
    | @create _ _ j q hid _ _ hs' hb =>
      rw [Store.find?_create hid hs'] at hr
      split at hr
      · obtain rfl := Option.some.inj hr
        exact hb
      · exact hall k r hr
    | join _ _ hj _ =>
      rw [Store.find?, Store.records_addMember hj] at hr
      exact hall k r hr
    | remove _ _ _ =>
      rw [Store.find?_drop] at hr
      split at hr
      · cases hr
      · exact hall k r hr

/-- Where no membership begins and only users are converted, groups in the dynamic mode stay without
members. -/
theorem memberless_preserved : unfilled.Preserves fun s => s.WellFormed ∧ s.Memberless where
  wellFormed _ h := h.1
  change p s s' := by
    rintro ⟨hs, hnone⟩ hc
    refine ⟨hc.wellFormed hs, fun k g hg hgroup hmode x hm => ?_⟩
    cases hc with
    | @put _ _ j q q' hj _ hb hcast =>
      rw [Store.member_put] at hm
      rw [Store.find?_put hj] at hg
      split at hg
      · next he =>
        subst he
        obtain rfl := Option.some.inj hg
        have hq : q.isGroup = true := hb.isGroup.symm.trans hgroup
        rcases hcast with hcast | ⟨huser, -⟩
        · exact hnone k q hj hq (hcast.symm.trans hmode) x hm
        · exact Bool.false_ne_true (huser.symm.trans hq)
      · exact hnone k g hg hgroup hmode x hm
    | leave _ => exact hnone k g hg hgroup hmode x (Store.member_cut.1 hm).1
    | @create _ _ j q hid _ _ hs' _ =>
      have hm := ((hs.created hs').2 x k).1 hm
      obtain ⟨-, g', hg', -⟩ := hs.exists_of_member hm
      rw [Store.find?_create hid hs'] at hg
      split at hg
      · next he =>
        rw [he, Store.find?_of_create hid hs'] at hg'
        cases hg'
      · exact hnone k g hg hgroup hmode x hm
    | join _ _ _ hf => exact hf.elim
    | remove _ _ _ =>
      rw [Store.find?_drop] at hg
      split at hg
      · cases hg
      · exact hnone k g hg hgroup hmode x (Store.member_drop.1 hm).1

end Remit

/-! ## Runs under a policy -/

namespace Deed

open Sync (Keeps)

/-- A synchronisation under a policy in one of the two ways, or something that happens in the
meantime. The provider may know something else each time. -/
inductive Under (p : Policy) (dynamic : Bool) : Deed → Prop where
  | sync (provider : Provider) (i : Identity) : Under p dynamic (.sync ⟨p, provider, dynamic⟩ i)
  | syncId (provider : Provider) (id : Value) : Under p dynamic (.syncId ⟨p, provider, dynamic⟩ id)
  | meanwhile (clock : Value) (faults : Faults) (held : List (Nat × Record)) :
    Under p dynamic (.meanwhile clock faults held)

theorem Under.keeps {p : Policy} {dynamic : Bool} {deed : Deed} {rm : Remit} {I : Store → Prop}
    (h : deed.Under p dynamic) (hrm : rm.Preserves I) (ho : ∀ k, rm.own k)
    (hc : ∀ provider, rm.Covers ⟨p, provider, dynamic⟩) :
    Keeps I deed.perform fun _ => True := by
  cases h with
  | sync provider i =>
    rw [perform]
    exact discard_keeps (sync_keeps hrm ho (hc provider) i)
  | syncId provider id =>
    rw [perform]
    exact discard_keeps (syncId_keeps hrm ho (hc provider) id)
  | meanwhile clock faults held =>
    rw [perform]
    exact Keeps.modify fun _ hs => hs

/-- After a run of standard contexts, one of dynamic contexts that make no member lists. -/
theorem memberless_run {p q : Policy} {first later : List Deed}
    (hp : p.enforcesDynamic = true ∨ p.user.nestingDepth ≤ 0)
    (hfirst : ∀ deed ∈ first, deed.Under q false) (hlater : ∀ deed ∈ later, deed.Under p true) :
    (run (first ++ later) {}).store.Memberless := by
  have hlegacy : (run first {}).store.WellFormed ∧ (run first {}).store.AllLegacy :=
    run_keeps (I := fun s => s.WellFormed ∧ s.AllLegacy) (fun deed hm =>
      (hfirst deed hm).keeps Remit.legacy_preserved (fun _ => trivial)
        fun _ => Remit.standard_covers rfl) ⟨Store.wellFormed_empty, nofun⟩
  rw [run_append]
  refine (run_keeps (I := fun s => s.WellFormed ∧ s.Memberless) (fun deed hm =>
    (hlater deed hm).keeps Remit.memberless_preserved (fun _ => trivial)
      fun _ => Remit.unfilled_covers rfl hp) ⟨hlegacy.1, hlegacy.2.memberless⟩).2

end Deed

/-! ## Where member lists are made -/

namespace Context

variable {p : Policy} {groups : List (Option Ref)} {c : Scene} {s : Store} {r : Record}

/-- A user of the provider of a policy. -/
def teamUser (p : Policy) (groups : List (Option Ref)) : Identity :=
  Memory.identity { name := p.provider } .user (.text "u") groups .null []

/-- The user and a group. -/
def team (p : Policy) (groups : List (Option Ref)) : Memory where
  name := p.provider
  identities := [
    (.text "g", Memory.identity { name := p.provider } .group (.text "g") [] .null []),
    (.text "u", teamUser p groups)]

/-- The reference to the group. -/
def teamRef (p : Policy) : Option Ref := some ⟨.text "g", p.provider⟩

/-- What the provider knows is found by references into it. -/
theorem resolve_team (groups : List (Option Ref)) (hp : p.provider.IsText) (t : String) :
    p.owns ⟨.text t, p.provider⟩ = true ∧ (team p groups).resolve ⟨.text t, p.provider⟩
      = .ok ((team p groups).identities.lookup (.text t)) := by
  obtain ⟨name, hname⟩ := hp
  refine ⟨by simp [Policy.owns, hname], ?_⟩
  rw [Memory.resolve, if_pos (by simp [team, hname])]
  rfl

theorem typed_team (hp : p.provider.IsText) (hg : ∀ g ∈ groups, g = teamRef p) :
    (team p groups).Typed where
  name := hp
  identities := by
    rintro _ _ (_ | ⟨_, _ | ⟨_, ⟨⟩⟩⟩)
    · refine ⟨Memory.typed_identity hp (.inr rfl) ⟨_, rfl⟩ ⟨_, rfl⟩ (fun g hm => ?_) [], rfl, rfl⟩
      cases hm
    · refine ⟨Memory.typed_identity hp (.inl rfl) ⟨_, rfl⟩ ⟨_, rfl⟩ (fun g hm => ?_) [], rfl, rfl⟩
      exact ⟨_, hg g hm, ⟨_, rfl⟩, .inr hp⟩

theorem backed_team (hp : p.Typed) (hg : ∀ g ∈ groups, g = teamRef p) (dynamic : Bool) :
    (Context.mk p (team p groups).provider dynamic).Backed (team p groups) where
  provider := rfl
  name := rfl
  memory := typed_team hp.provider hg
  policy := hp

/-- The user has a record in the legacy mode, and there is no other one. -/
structure Alone (p : Policy) (s : Store) (r : Record) : Prop extends s.Alone (.text "u") r where
  isTyped : r.Typed
  legacy : r.isLegacy = true
  bound : r.ref = some ⟨.text "u", p.provider⟩

/-- Where there is no other record, a user without groups joins none. -/
theorem materialize_alone_ends {ctx : Context} (hc : c.faults = {}) {k : Key} {i : Identity}
    (hs : s.Alone k r) (hi : i.isKnown = true) (hg : i.groups = []) (d : Nat) (log : Channel)
    {E : Failure → Store → Prop} :
    Sync.Ends c s (ctx.materialize log d i (.stored k)) (fun _ s' => s' = s) E := by
  cases d with
  | zero => exact Sync.Ends.pure rfl
  | succ d =>
    unfold materialize
    refine Sync.Ends.step (requireKnown_ends hi ?_)
    refine Sync.Ends.step (Sync.Ends.record hs.user ?_)
    rw [hg]
    refine (prune_ends (Scene.StoreWorks.of_quiet hc).foresees hs.wellFormed
      (hs.wellFormed.toKey_of_find? hs.user) []).mono ?_ fun _ _ => id
    rintro _ _ ⟨D, rfl, -⟩
    exact Store.cut_eq_self fun x g hm => (hs.not_member hm).elim

/-- A standard context leaves a user without groups alone. -/
theorem sync_alone_ends (hp : p.Typed) (hc : c.faults = {}) (htime : c.clock.IsTime)
    {E : Failure → Store → Prop} :
    Sync.Ends c {} ((Context.mk p (team p []).provider false).sync (teamUser p []))
      (fun _ s' => ∃ r, Alone p s' r) E := by
  have h := backed_team hp (fun _ hm => absurd hm List.not_mem_nil) false
  have hu : (team p []).identities.lookup (.text "u") = some (teamUser p []) := rfl
  have hty := (h.memory.of_lookup hu).1
  refine h.sync_new_ends (.of_quiet hc) Store.wellFormed_empty hu rfl rfl fun s₁ log hs₁ => ?_
  generalize hq : (Context.mk p (team p []).provider false).newRecord (teamUser p []) false = q
    at hs₁
  have hqt : q.Typed := hq ▸ typed_newRecord hty false
  have ha : s₁.Alone (.text "u") q := .create (by rw [← hq]; rfl) (by rw [← hq]; rfl) hs₁
  unfold syncUser
  refine Sync.Ends.bind (syncProperties_ends ha.wellFormed ha.user hqt hty hp.userMapping) ?_
  rintro _ _ rfl
  have ha₂ := ha.put (q.takingOver p.user.propertyMapping (teamUser p [])) ⟨rfl, rfl⟩
  refine Sync.Ends.bind (materialize_alone_ends hc ha₂ hty.known rfl _ _) ?_
  rintro _ _ rfl
  have hnames : ((Context.mk p (team p []).provider false).policy.autoMembershipFor false).Texts :=
    hp.userGroups
  refine Sync.Ends.bind (applyMembership_joined_ends (m := .text "u")
    (Scene.StoreWorks.of_quiet hc).foresees ha₂.wellFormed ha₂.user (by rw [← hq]; rfl) false
    hnames) ?_
  rintro _ _ rfl
  have hjoined (A : Key → Bool) : (s₁.put (.text "u")
      (q.takingOver p.user.propertyMapping (teamUser p []))).joined A (.text "u")
        = s₁.put (.text "u") (q.takingOver p.user.propertyMapping (teamUser p [])) := by
    rw [ha₂.eq]
    rfl
  rw [hjoined]
  refine (stamp_ends ha₂.wellFormed ha₂.user).mono ?_ fun _ _ => id
  rintro _ _ rfl
  have ha₃ := ha₂.put { q.takingOver p.user.propertyMapping (teamUser p []) with
    lastSynced := c.clock } ⟨rfl, rfl⟩
  refine ⟨⟨_, ha₃.user⟩, _, ha₃, { hqt.takingOver hty _ with lastSynced := .inr htime }, ?_, ?_⟩
  · rw [← hq]
    rfl
  · rw [← hq]
    rfl

/-- A dynamic context that follows groups without enforcing names makes the user a member of its
group, which it creates in the dynamic mode. -/
theorem syncId_joins_ends (hp : p.Typed) (hgroup : Fields.Distinct p.group.propertyMapping)
    (hc : c.faults = {}) (htime : c.clock.IsTime) (he : p.enforcesDynamic = false)
    (hdepth : 0 < p.user.nestingDepth) (hs : Alone p s r) :
    Sync.Ends c s ((Context.mk p (team p [teamRef p]).provider true).syncId (.text "u"))
      (fun _ s' => s'.Member (.text "u") (.text "g") ∧
        ∃ g, s'.find? (.text "g") = some g ∧ g.isGroup = true ∧ g.mode = some .dynamic)
      fun _ _ => False := by
  have hb := backed_team hp (fun _ => List.eq_of_mem_singleton) true
  generalize hm : team p [teamRef p] = m at hb
  have hu : m.identities.lookup (.text "u") = some (teamUser p [teamRef p]) := by rw [← hm]; rfl
  have hty := (hb.memory.of_lookup hu).1
  have hcalm : (Context.mk p m.provider true).Calm m c (· = .text "u") :=
    { hb with
      dynamic := rfl, quiet := hc, time := htime, mapping := hgroup
      users := by
        rintro _ i rfl hi
        obtain rfl := Option.some.inj (hu.symm.trans hi)
        rfl }
  have hready : s.Ready (· = .text "u") :=
    { wellFormed := hs.wellFormed, typed := hs.typed hs.isTyped
      users := by
        rintro _ q rfl hq
        obtain rfl := Option.some.inj (hs.user.symm.trans hq)
        exact hs.isUser }
  have hjoins : (Context.mk p m.provider true).Joins m s (.text "u") (.text "g") := by
    obtain ⟨hown, hres⟩ := resolve_team [teamRef p] hp.provider "g"
    have hleads : (Context.mk p m.provider true).leadsTo m (teamRef p) = some _ :=
      leadsTo_eq_some_iff.2 ⟨_, rfl, hown, by rw [← hm, hres]; rfl, rfl⟩
    exact ⟨_, hu, teamRef p, List.mem_singleton_self _, _, hleads, rfl,
      usable_of_none (hs.only _ (by decide))⟩
  obtain ⟨ns, hns⟩ := hb.exists_names (Scene.not_failsLookups hc) hty
  obtain ⟨hown, hres⟩ := resolve_team [teamRef p] hp.provider "u"
  rw [hm, hu] at hres
  refine syncId_owned_ends rfl hs.user hs.bound hown fun log => ?_
  have hq := hs.isTyped.ref _ hs.bound
  unfold refresh
  refine Sync.Ends.bind ((hb.served.fetch_fixed_ends hq hres).mono (fun _ _ h => h)
    fun _ _ hf => Scene.not_failsLookups hc hf.2) ?_
  rintro _ s ⟨rfl, rfl⟩
  have hsame : sameType r (teamUser p [teamRef p]) = true :=
    (sameType_iff hs.isTyped _).2 hs.isUser
  dsimp only
  rw [if_neg (by simp [hsame]), syncRecord, hs.isUser, if_neg Bool.false_ne_true]
  refine Sync.Ends.bind (hcalm.syncUser_ends hready rfl hu hs.user hns) ?_
  rintro _ s₁ ⟨hown₁, -, hmoved⟩
  refine (resultOf_told_ends hown₁).mono ?_ fun _ _ => id
  rintro _ _ ⟨-, rfl⟩
  rw [Moved, if_neg (by simp [he])] at hmoved
  obtain ⟨d, hd⟩ : ∃ d, p.user.nestingDepth.toNat = d + 1 :=
    ⟨p.user.nestingDepth.toNat - 1, by omega⟩
  have hvisits : (Context.mk p m.provider true).Visits m s p.user.nestingDepth.toNat (.text "u")
      (.text "u") := by
    rw [hd]
    exact .inl rfl
  refine ⟨(hmoved.member _ _).2 (.inl ⟨⟨.inr hs.legacy, hvisits⟩, hjoins⟩), _,
    (hmoved.records _ _ (by decide)).2 (.inr ⟨hs.only _ (by decide), ⟨_, ⟨.inr hs.legacy, hvisits⟩,
      hjoins⟩, _, by rw [← hm]; rfl, rfl⟩), rfl, rfl⟩

end Context

namespace Deed

/-- A user is synchronised in the standard way; then it joins a group and is synchronised again. -/
def joinedLater (p : Policy) : List Deed × List Deed :=
  ([.sync ⟨p, (Context.team p []).provider, false⟩ (Context.teamUser p [])],
    [.syncId ⟨p, (Context.team p [Context.teamRef p]).provider, true⟩ (.text "u")])

theorem joinedLater_under (p : Policy) :
    (∀ deed ∈ (joinedLater p).1, deed.Under p false) ∧
      ∀ deed ∈ (joinedLater p).2, deed.Under p true := by
  constructor
  · rintro _ (_ | ⟨_, ⟨⟩⟩)
    exact .sync _ _
  · rintro _ (_ | ⟨_, ⟨⟩⟩)
    exact .syncId _ _

theorem joinedLater_not_memberless {p : Policy} (hp : p.Typed)
    (hgroup : Fields.Distinct p.group.propertyMapping) (he : p.enforcesDynamic = false)
    (hdepth : 0 < p.user.nestingDepth) :
    ¬ (run ((joinedLater p).1 ++ (joinedLater p).2) {}).store.Memberless := by
  have htime : (World.scene {}).clock.IsTime := Value.isTime_int (by decide)
  obtain ⟨a, w₁, hw₁, hc₁, r, hr⟩ := (Context.sync_alone_ends hp (c := World.scene {}) rfl htime
    (E := fun _ _ => False)).run (w := {}) rfl rfl
  obtain ⟨b, w₂, hw₂, -, hm, g, hg, hgr, hmode⟩ :=
    (Context.syncId_joins_ends hp hgroup (c := World.scene {}) rfl htime he hdepth hr).run hc₁ rfl
  have hfirst : run (joinedLater p).1 {} = w₁ := congrArg Prod.snd (Sync.bind_apply_ok hw₁)
  have hlater : run (joinedLater p).2 w₁ = w₂ := congrArg Prod.snd (Sync.bind_apply_ok hw₂)
  rw [run_append, hfirst, hlater]
  exact fun h => h _ g hg hgr hmode _ hm

/-- From the empty store, under a standard context and then under a dynamic one of a policy, groups
in the dynamic mode never have members if the policy forces records onto the dynamic path or follows
no groups; and if the policy does neither, some have. -/
theorem memberless_iff (p : Policy) :
    (p.enforcesDynamic = true ∨ p.user.nestingDepth ≤ 0 → ∀ q first later,
      (∀ deed ∈ first, deed.Under q false) → (∀ deed ∈ later, deed.Under p true) →
        (run (first ++ later) {}).store.Memberless) ∧
    (p.Typed → Fields.Distinct p.group.propertyMapping →
      (∀ first later, (∀ deed ∈ first, deed.Under p false) → (∀ deed ∈ later, deed.Under p true) →
        (run (first ++ later) {}).store.Memberless) →
      p.enforcesDynamic = true ∨ p.user.nestingDepth ≤ 0) := by
  refine ⟨fun hp q first later hfirst hlater => memberless_run hp hfirst hlater,
    fun hp hgroup hall => ?_⟩
  by_contra hn
  rw [not_or, Bool.not_eq_true, Int.not_le] at hn
  obtain ⟨hfirst, hlater⟩ := joinedLater_under p
  exact joinedLater_not_memberless hp hgroup hn.1 hn.2 (hall _ _ hfirst hlater)

/-- A policy that forces records onto the dynamic path, with dynamic groups, and one that does
not. -/
def grouping (dynamicGroups : Bool) : Policy :=
  { provider := .text "P", group := { dynamicGroups } }

theorem typed_grouping (dynamicGroups : Bool) : (grouping dynamicGroups).Typed :=
  { Policy.typed_default "P" with }

/-- Under the one policy the two synchronisations leave no dynamic group with members, under the
other not every run does. -/
theorem memberless_iff_grouping :
    (run ((joinedLater (grouping true)).1 ++ (joinedLater (grouping true)).2) {}).store.Memberless ∧
    (grouping false).Typed ∧ Fields.Distinct (grouping false).group.propertyMapping ∧
    ¬ ∀ first later, (∀ deed ∈ first, deed.Under (grouping false) false) →
      (∀ deed ∈ later, deed.Under (grouping false) true) →
        (run (first ++ later) {}).store.Memberless := by
  refine ⟨?_, typed_grouping false, .nil, fun hall => ?_⟩
  · obtain ⟨hfirst, hlater⟩ := joinedLater_under (grouping true)
    exact (memberless_iff (grouping true)).1 (.inl rfl) (grouping true) _ _ hfirst hlater
  · have hnot : ¬ ((grouping false).enforcesDynamic = true ∨
        (grouping false).user.nestingDepth ≤ 0) := by decide
    exact hnot ((memberless_iff (grouping false)).2 (typed_grouping false) .nil hall)

/-- Without enforcement, the group that is created for a user of the legacy mode is in the dynamic
mode and has the user as a member. -/
theorem joinedLater_dynamic_member : ¬ ∀ (p : Policy) (first later : List Deed),
    (∀ deed ∈ first, deed.Under p false) → (∀ deed ∈ later, deed.Under p true) →
      (run (first ++ later) {}).store.Memberless := by
  intro hall
  obtain ⟨hfirst, hlater⟩ := joinedLater_under (grouping false)
  exact hall (grouping false) _ _ hfirst hlater (.text "g") _ rfl rfl rfl (.text "u")
    ⟨.text "g", [.text "u"], .text "u", List.mem_singleton_self _, rfl,
      List.mem_singleton_self _, rfl⟩

end Deed

end Roster
