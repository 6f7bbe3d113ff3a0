import Roster.Proofs.Collecting
import Roster.Proofs.Conversion
import Roster.Proofs.Materializing

/-!
# Two ways to the same record

A user that is synchronised in the standard way and then converted ends as one that is synchronised
in the dynamic way from the start. The memberships that materializing made are all below the user,
so that unwinding takes back all of them and deletes all groups; and the names that it finds on its
unbounded walk are those that collecting finds within the number of hops
(`convert_of_sync_eq_sync`).
-/

namespace Roster

open Relation (ReflTransGen)

/-! ## Stores with one user -/

/-- The store holds a user and nothing else. -/
structure Store.Alone (s : Store) (k : Key) (r : Record) : Prop where
  wellFormed : s.WellFormed
  user : s.find? k = some r
  isUser : r.isGroup = false
  only : ∀ x, x ≠ k → s.find? x = none

namespace Store.Alone

variable {s : Store} {k x g : Key} {r : Record}

theorem mem_records (h : s.Alone k r) {p : Key × Record} : p ∈ s.records ↔ p = (k, r) := by
  obtain ⟨j, q⟩ := p
  rw [← h.wellFormed.find?_eq_some_iff]
  by_cases hj : j = k
  · subst hj
    rw [h.user]
    simp [eq_comm]
  · simp [h.only j hj, hj]

/-- There is only one such store. -/
theorem eq (h : s.Alone k r) : s = { records := [(k, r)], members := [] } := by
  have hrecords : s.records = [(k, r)] := by
    have hnd := h.wellFormed.keys_nodup
    have hmem {p : Key × Record} := h.mem_records (p := p)
    cases hs : s.records with
    | nil => simpa [hs] using hmem.2 rfl
    | cons p rest =>
      rw [hs] at hnd hmem
      obtain ⟨hp, -⟩ := List.nodup_cons.1 hnd
      obtain rfl := hmem.1 List.mem_cons_self
      cases rest with
      | nil => rfl
      | cons q rest =>
        obtain rfl := hmem.1 (List.mem_cons_of_mem _ List.mem_cons_self)
        exact absurd (List.mem_map_of_mem List.mem_cons_self) hp
  have hmembers : s.members = [] := by
    have hg := h.wellFormed.groups
    rw [hrecords, List.filter_cons_of_neg (by simp [h.isUser])] at hg
    simpa [Assoc.keys] using hg
  obtain ⟨records, members⟩ := s
  obtain rfl : records = _ := hrecords
  obtain rfl : members = _ := hmembers
  rfl

theorem not_member (h : s.Alone k r) : ¬ s.Member x g := by
  intro hm
  obtain ⟨-, q, hq, hg⟩ := h.wellFormed.exists_of_member hm
  obtain rfl : g = k := by
    by_contra hne
    rw [h.only g hne] at hq
    cases hq
  obtain rfl : r = q := Option.some.inj (h.user.symm.trans hq)
  rw [h.isUser] at hg
  cases hg

theorem typed (h : s.Alone k r) (hr : r.Typed) : s.Typed := by
  intro q hq
  obtain ⟨p, hp, rfl⟩ := List.mem_map.1 hq
  obtain rfl := h.mem_records.1 hp
  exact hr

/-- The user is changed. -/
theorem put (h : s.Alone k r) (r' : Record) (hr : r'.id = r.id ∧ r'.group = r.group) :
    (s.put k r').Alone k r' where
  wellFormed := h.wellFormed.put h.user r' hr
  user := by rw [Store.find?_put h.user, if_pos rfl]
  isUser := by
    rw [Record.isGroup, hr.2]
    exact h.isUser
  only := fun x hx => by rw [Store.find?_put h.user, if_neg hx, h.only x hx]

/-- The user is the first record. -/
theorem create (hk : r.id.toKey = .ok k) (hg : r.isGroup = false)
    (hs : Store.create {} r = .ok s) : s.Alone k r := by
  obtain ⟨s', hs', hwf, -⟩ := wellFormed_empty.create_ok hk rfl
  obtain rfl : s = s' := Except.ok.inj (hs.symm.trans hs')
  refine ⟨hwf, ?_, hg, fun x hx => ?_⟩
  · rw [Store.find?_create hk hs, if_pos rfl]
  · rw [Store.find?_create hk hs, if_neg hx]
    rfl

end Store.Alone

namespace Context

variable {ctx : Context} {m : Memory} {c : Scene} {s : Store} {k x g : Key} {r : Record}
  {i u : Identity} {d : Nat} {E : Failure → Store → Prop} {α : Type}

/-! ## Declared memberships and hops -/

theorem declared_congr {other : Context} (hp : other.policy = ctx.policy) :
    other.Declared m d i x g ↔ ctx.Declared m d i x g := by
  have hleads (ref : Option Ref) : other.leadsTo m ref = ctx.leadsTo m ref := by
    rw [leadsTo, hp, leadsTo]
  induction d generalizing i with
  | zero => rfl
  | succ d ih => simp only [Declared, hleads, ih]

/-- A group that hops lead to is held by the provider. -/
theorem Backed.lookup_of_within (h : ctx.Backed m) {refs : List (Option Ref)}
    (hrefs : TypedRefs refs) (hi : ctx.Within m d refs i) : ∃ g, m.identities.lookup g = some i := by
  induction d generalizing refs with
  | zero => exact hi.elim
  | succ d ih =>
    obtain ⟨ref, href, j, hj, hi⟩ := hi
    obtain ⟨q, rfl, hq⟩ := hrefs ref href
    obtain ⟨hty, -, g, -, hg⟩ := h.served.group_of_leadsTo (by rintro _ ⟨rfl⟩; exact hq) hj
    rcases hi with rfl | hi
    · exact ⟨g, hg⟩
    · exact ih hty.groups hi

/-- The groups of memberships declared within a number of hops are those that the hops lead to. -/
theorem Backed.within_iff (h : ctx.Backed m) (hk : m.identities.lookup k = some i) :
    (∃ x, ctx.Declared m d i x g) ↔
      ∃ j, ctx.Within m d i.groups j ∧ m.identities.lookup g = some j := by
  induction d generalizing i k with
  | zero => simp [Declared, Within]
  | succ d ih =>
    obtain ⟨hty, hid, -⟩ := h.memory.of_lookup hk
    have hheld {ref : Option Ref} {j : Identity} (href : ref ∈ i.groups)
        (hj : ctx.leadsTo m ref = some j) : ∃ k, m.identities.lookup k = some j :=
      h.lookup_of_within (d := 1) hty.groups ⟨ref, href, j, hj, .inl rfl⟩
    simp only [Declared, Within]
    constructor
    · rintro ⟨x, ref, href, j, hj, hx⟩
      obtain ⟨k', hk'⟩ := hheld href hj
      rcases hx with ⟨-, hg⟩ | hx
      · obtain rfl : g = k' := Except.ok.inj (hg.symm.trans (h.memory.of_lookup hk').2.1)
        exact ⟨j, ⟨ref, href, j, hj, .inl rfl⟩, hk'⟩
      · obtain ⟨j', hj', hg⟩ := (ih hk').1 ⟨x, hx⟩
        exact ⟨j', ⟨ref, href, j, hj, .inr hj'⟩, hg⟩
    · rintro ⟨j', ⟨ref, href, j, hj, rfl | hj'⟩, hg⟩
      · exact ⟨k, ref, href, j', hj, .inl ⟨hid, (h.memory.of_lookup hg).2.1⟩⟩
      · obtain ⟨k', hk'⟩ := hheld href hj
        obtain ⟨x, hx⟩ := (ih hk').2 ⟨j', hj', hg⟩
        exact ⟨x, ref, href, j, hj, .inr hx⟩

/-- Where all declared memberships within a number of hops are clearable, their members are
reached. -/
theorem Backed.reaches_of_declared (h : ctx.Backed m) {dyn : Context}
    (hk : m.identities.lookup k = some i)
    (hc : ∀ x g, ctx.Declared m d i x g → dyn.Clearable s x g) (hx : ctx.Declared m d i x g) :
    dyn.Reaches s k x := by
  induction d generalizing i k with
  | zero => exact hx.elim
  | succ d ih =>
    obtain ⟨hty, hid, -⟩ := h.memory.of_lookup hk
    obtain ⟨ref, href, j, hj, ⟨hx, -⟩ | hx⟩ := hx
    · obtain rfl := Except.ok.inj (hid.symm.trans hx)
      exact .refl
    · obtain ⟨q, rfl, hq⟩ := hty.groups ref href
      obtain ⟨-, -, kj, hkj, hlook⟩ := h.served.group_of_leadsTo (by rintro _ ⟨rfl⟩; exact hq) hj
      refine .head (hc k kj ⟨_, href, j, hj, .inl ⟨hid, hkj⟩⟩) (ih hlook ?_ hx)
      exact fun x g hxg => hc x g ⟨_, href, j, hj, .inr hxg⟩

/-! ## Synchronising in the standard way -/

/-- A store with a user, the groups that it is declared in within a number of hops, and the declared
memberships. -/
structure Materialized (ctx : Context) (m : Memory) (d : Nat) (k : Key) (u : Identity) (r : Record)
    (s : Store) : Prop where
  wellFormed : s.WellFormed
  typed : s.Typed
  user : s.find? k = some r
  groups : ∀ x q, s.find? x = some q → x ≠ k → ∃ i, m.identities.lookup x = some i ∧
    q.ref = i.ref ∧ q.principalName = i.principalName
  member : ∀ x g, s.Member x g ↔ ctx.Declared m d u x g
  used : ∀ x q, s.find? x = some q → x ≠ k → ∃ y, s.Member y x

/-- The record of a user after it was created and synchronised. -/
def syncedUser (ctx : Context) (c : Scene) (u : Identity) : Record :=
  { (ctx.newRecord u false).takingOver ctx.policy.user.propertyMapping u with
    lastSynced := c.clock }

theorem Mirror.of_alone (h : s.Alone k r) (hr : r.Typed) : ctx.Mirror m k r s where
  wellFormed := h.wellFormed
  typed := h.typed hr
  user := h.user
  groups := fun x q hq hx => by rw [h.only x hx] at hq; cases hq
  declared := fun _ _ hm => absurd hm h.not_member

theorem Grown.materialized {s₀ : Store} (h : ctx.Grown m k r s₀ (ctx.Declared m d u) s)
    (h₀ : s₀.Alone k r) (r' : Record) (hr : r'.id = r.id ∧ r'.group = r.group) (ht : r'.Typed) :
    ctx.Materialized m d k u r' (s.put k r') := by
  have hfind (x : Key) := Store.find?_put h.mirror.user r' x
  constructor
  · exact h.mirror.wellFormed.put h.mirror.user r' hr
  · exact h.mirror.typed.put ht
  · rw [hfind, if_pos rfl]
  · intro x q hq hx
    rw [hfind, if_neg hx] at hq
    obtain ⟨i, hi, -, hrest⟩ := h.mirror.groups x q hq hx
    exact ⟨i, hi, hrest⟩
  · intro x g
    rw [Store.member_put, h.member]
    exact or_iff_right h₀.not_member
  · intro x q hq hx
    rw [hfind, if_neg hx] at hq
    obtain ⟨y, hy⟩ := h.used x q hq (h₀.only x hx)
    exact ⟨y, Store.member_put.2 hy⟩

/-- A new user comes with the groups that it is declared in. -/
theorem Standard.sync_ends (h : ctx.Standard m c) (hu : m.identities.lookup k = some u)
    (hkind : u.kind = .user) :
    Sync.Ends c {} (ctx.sync u) (fun _ s' =>
      ctx.Materialized m ctx.policy.user.nestingDepth.toNat k u (ctx.syncedUser c u) s') E := by
  obtain ⟨hty, hid, -⟩ := h.memory.of_lookup hu
  have hnotGroup : ∀ i, m.identities.lookup k = some i → i.isGroup = false := by
    intro i hi
    obtain rfl : u = i := Option.some.inj (hu.symm.trans hi)
    simp [Identity.isGroup, hkind]
  have hnew : (ctx.newRecord u false).Typed := typed_newRecord hty false
  refine h.sync_new_ends h.storeWorks Store.wellFormed_empty hu hkind rfl ?_
  intro s₁ log hs₁
  have halone : s₁.Alone k (ctx.newRecord u false) := .create hid rfl hs₁
  unfold syncUser
  refine Sync.Ends.bind (syncProperties_ends halone.wellFormed halone.user hnew hty
    h.policy.userMapping) ?_
  rintro _ _ rfl
  generalize hr : (ctx.newRecord u false).takingOver ctx.policy.user.propertyMapping u = r
  have halone₂ : (s₁.put k r).Alone k r := halone.put r (by rw [← hr]; exact ⟨rfl, rfl⟩)
  have htyped : r.Typed := hr ▸ hnew.takingOver hty _
  have hempty : inOrder ctx.policy.user.autoMembership = .ok [] := by
    rw [h.userGroups]
    rfl
  unfold syncMembership
  rw [if_neg (by simp [h.dynamic])]
  refine Sync.Ends.bind (h.materialize_ends hnotGroup _ (.of_alone halone₂ htyped) hu
    ⟨r, halone₂.user⟩) ?_
  rintro _ s₃ hgrown
  refine Sync.Ends.bind (h.applyMembership_ends hgrown.mirror.user hempty) ?_
  rintro _ s₃ rfl
  refine (stamp_ends hgrown.mirror.wellFormed hgrown.mirror.user).mono ?_ fun _ _ => id
  rintro _ _ rfl
  have hmat := hgrown.materialized halone₂ { r with lastSynced := c.clock } ⟨rfl, rfl⟩
    { htyped with lastSynced := .inr h.time }
  rw [syncedUser, hr]
  exact ⟨⟨_, hmat.user⟩, hmat⟩

/-! ## Converting what was materialized -/

namespace Materialized

/-- What was materialized depends on the policy, not on the way in which memberships are kept. -/
theorem congr (h : ctx.Materialized m d k u r s) {other : Context}
    (hp : other.policy = ctx.policy) : other.Materialized m d k u r s :=
  { h with member := fun x g => by rw [declared_congr hp, h.member] }

variable (h : ctx.Materialized m d k u r s) (hb : ctx.Backed m)
  (hu : m.identities.lookup k = some u) (hr : r.isGroup = false)
include h hb hr

/-- A group that has members stands for a group of the provider. -/
theorem exists_group (hm : s.Member x g) : ∃ q i, s.find? g = some q ∧
    m.identities.lookup g = some i ∧ q.ref = some (m.ref i.id) ∧
    q.principalName = i.principalName := by
  obtain ⟨-, q, hq, hg⟩ := h.wellFormed.exists_of_member hm
  have hne : g ≠ k := by
    rintro rfl
    obtain rfl : r = q := Option.some.inj (h.user.symm.trans hq)
    rw [hr] at hg
    cases hg
  obtain ⟨i, hi, href, hname⟩ := h.groups g q hq hne
  exact ⟨q, i, hq, hi, href.trans (hb.memory.of_lookup hi).2.2, hname⟩

theorem owned (hm : s.Member x g) : ctx.Owned s g := by
  obtain ⟨q, i, hq, -, href, -⟩ := h.exists_group hb hr hm
  refine ⟨q, hq, ?_⟩
  rw [href]
  exact hb.owns_ref _

theorem clearable (hm : s.Member x g) : ctx.Clearable s x g :=
  clearable_of_owned h.wellFormed hm (h.owned hb hr hm)

include hu

/-- Everything that has groups is below the user. -/
theorem reaches (hm : s.Member x g) : ctx.Reaches s k x :=
  hb.reaches_of_declared hu (fun x g hd => h.clearable hb hr ((h.member x g).2 hd))
    ((h.member x g).1 hm)

/-- Unwinding the user leaves nothing else. -/
theorem alone (hdyn : ctx.policy.hasDynamicGroups = false) (hc : c.StoreWorks) {K : Key → Bool}
    (hK : c.Spares s K) : (ctx.unwoundStore K s k).Alone k r where
  wellFormed := (h.wellFormed.cut _).drop _
  user := find?_unwoundStore_user h.wellFormed h.user hr
  isUser := hr
  only := by
    intro x hx
    rw [find?_unwoundStore]
    cases hq : s.find? x with
    | none => rw [ite_self]
    | some q =>
      obtain ⟨y, hy⟩ := h.used x q hq hx
      rw [if_pos]
      exact orphaned_iff.2 ⟨hdyn, h.owned hb hr hy, ⟨y, hy⟩, fun z hz => h.reaches hb hu hr hz,
        hK.eq_false hc hq⟩

/-- Unwinding the user finds the names of the groups within the number of hops. -/
theorem mem_names {names : NameSet} (hn : ctx.UnwoundNames s k names) (n : Key) :
    n ∈ names.keys ↔ ctx.NameWithin m d u.groups n := by
  have hnamed {x g : Key} {j : Identity} (hm : s.Member x g)
      (hj : m.identities.lookup g = some j) :
      ctx.Named s g n ↔ j.principalName.toKey = .ok n := by
    obtain ⟨q, i, hq, hi, href, hname⟩ := h.exists_group hb hr hm
    obtain rfl : j = i := Option.some.inj (hj.symm.trans hi)
    have hown : ctx.owns q.ref = true := by
      rw [href]
      exact hb.owns_ref _
    simp [Named, hq, hown, hname]
  rw [hn.2]
  constructor
  · rintro ⟨x, g, hc, -, hname⟩
    obtain ⟨j, hj, hg⟩ := (hb.within_iff hu).1 ⟨x, (h.member x g).1 hc.1⟩
    exact ⟨j, hj, (hnamed hc.1 hg).1 hname⟩
  · rintro ⟨j, hj, hname⟩
    obtain ⟨g, hg⟩ := hb.lookup_of_within (hb.memory.of_lookup hu).1.groups hj
    obtain ⟨x, hx⟩ := (hb.within_iff hu).2 ⟨j, hj, hg⟩
    have hm := (h.member x g).2 hx
    exact ⟨x, g, h.clearable hb hr hm, h.reaches hb hu hr hm, (hnamed hm hg).2 hname⟩

end Materialized

/-! ## Synchronising in the dynamic way -/

/-- A user of the dynamic mode that stands alone keeps the names and stays alone. -/
theorem Backed.syncNames_alone_ends (h : ctx.Backed m) (hc : c.StoreWorks) (hplain : Plain c m)
    (hdyn : ctx.policy.hasDynamicGroups = false) (hu : u.Typed) (hs : s.Alone k r)
    (hlegacy : r.isLegacy = false) (depth : Int) {log : Option Channel} :
    Sync.Ends c s (ctx.syncNames u (.stored k) depth log) (fun _ s' => ∃ names : NameSet,
      names.Texts ∧ (∀ n, n ∈ names.keys ↔ ctx.NameWithin m depth.toNat u.groups n) ∧
      s'.Alone k { r with names := some (.set names) }) E := by
  unfold syncNames
  refine Sync.Ends.step (Sync.Ends.record hs.user ?_)
  rw [if_neg (by simp [hs.isUser]), if_neg (by simp [hlegacy])]
  refine Sync.Ends.bind (h.served.namesOf_ends hu _ _) ?_
  rintro names _ ⟨rfl, htexts, hnames⟩
  unfold keepNames
  rw [if_neg (by simp [hlegacy])]
  refine Sync.Ends.bind (setNames_ends hc.foresees hs.wellFormed hs.user hlegacy names) ?_
  rintro _ _ rfl
  refine Sync.Ends.step (Sync.Ends.log ?_)
  unfold ensurePlaceholders
  rw [if_neg (by simp [hdyn]), if_neg (by simp [hlegacy])]
  refine Sync.Ends.step (Sync.Ends.pure ?_)
  exact Sync.Ends.pure ⟨names, htexts, hnames hplain.clear, hs.put _ ⟨rfl, rfl⟩⟩

/-- A new user of the dynamic mode comes alone, with the names of the groups within the number of
hops. -/
theorem Backed.sync_dynamic_ends (h : ctx.Backed m) (hmode : ctx.dynamic = true)
    (hdyn : ctx.policy.hasDynamicGroups = false) (hmap : m.directMapping = false)
    (hq : c.faults = {}) (hu : m.identities.lookup k = some u) (hkind : u.kind = .user) :
    Sync.Ends c {} (ctx.sync u) (fun _ s' => ∃ names : NameSet, names.Texts ∧
      (∀ n, n ∈ names.keys ↔
        ctx.NameWithin m ctx.policy.user.nestingDepth.toNat u.groups n) ∧
      s'.Alone k { ctx.syncedUser c u with names := some (.set names) }) E := by
  obtain ⟨hty, hid, -⟩ := h.memory.of_lookup hu
  have hworks : c.StoreWorks := .of_quiet hq
  have hplain : Plain c m := ⟨Scene.not_failsLookups hq, hmap⟩
  refine h.sync_new_ends hworks Store.wellFormed_empty hu hkind rfl ?_
  intro s₁ log hs₁
  have halone : s₁.Alone k (ctx.newRecord u false) := .create hid rfl hs₁
  unfold syncUser
  refine Sync.Ends.bind (syncProperties_ends halone.wellFormed halone.user
    (typed_newRecord hty false) hty h.policy.userMapping) ?_
  rintro _ _ rfl
  have hlegacy : ((ctx.newRecord u false).takingOver
      ctx.policy.user.propertyMapping u).isLegacy = false := by
    simp [Record.isLegacy, Record.takingOver, newRecord, recordMode, hmode]
  rw [syncedUser]
  generalize hr : (ctx.newRecord u false).takingOver ctx.policy.user.propertyMapping u = r
  rw [hr] at hlegacy
  have halone₂ : (s₁.put k r).Alone k r := halone.put r (by rw [← hr]; exact ⟨rfl, rfl⟩)
  unfold syncMembership
  rw [if_pos hmode]
  refine Sync.Ends.bind (h.syncNames_alone_ends hworks hplain hdyn hty halone₂ hlegacy _) ?_
  rintro _ s₂ ⟨names, htexts, hnames, halone₃⟩
  unfold applyMembership
  refine Sync.Ends.step (Sync.Ends.step (Sync.Ends.record halone₃.user ?_))
  rw [if_pos hmode]
  refine Sync.Ends.log ?_
  refine (stamp_ends halone₃.wellFormed halone₃.user).mono ?_ fun _ _ => id
  rintro _ _ rfl
  have halone₄ := halone₃.put { r with
    names := some (.set names), lastSynced := c.clock } ⟨rfl, rfl⟩
  exact ⟨⟨_, halone₄.user⟩, names, htexts, hnames, halone₄⟩

/-! ## Both ways -/

/-- A new user that is synchronised in the standard way and then converted ends in the same store as
one that is synchronised in the dynamic way. The store holds nothing else, and its names are those
that collecting finds within the number of hops and that unwinding finds. -/
theorem convert_of_sync_eq_sync {p : Policy} {m : Memory} {u : Identity} {k : Key} {w : World}
    (hp : p.Typed) (hm : m.Typed) (hname : p.provider = m.name) (hmap : m.directMapping = false)
    (hdyn : p.group.dynamicGroups = false) (huauto : p.user.autoMembership = ∅)
    (hgauto : p.group.autoMembership = ∅) (hu : m.identities.lookup k = some u)
    (hkind : u.kind = .user) (hs : w.store = {}) (hq : w.faults = {}) (ht : w.clock.IsTime) :
    ∃ res w₁ w₂ res' w₃ names r document,
      sync ⟨p, m.provider, false⟩ u w = (.ok res, w₁) ∧
      convertMembership ⟨p, m.provider, true⟩ (.stored k) w₁ = (.ok true, w₂) ∧
      sync ⟨p, m.provider, true⟩ u w = (.ok res', w₃) ∧
      w₂.store.snapshot = .ok document ∧ w₃.store.snapshot = .ok document ∧
      w₂.store = w₃.store ∧ w₂.store = { records := [(k, r)], members := [] } ∧
      r.isGroup = false ∧ r.names = some (.set names) ∧
      (∀ log, ∃ w', collect ⟨p, m.provider, true⟩ log p.user.nestingDepth.toNat ∅ u.groups w
        = (.ok names, w')) ∧
      ∀ log q, w₁.store.find? k = some q →
        ∃ w', unwind ⟨p, m.provider, true⟩ q log w₁ = (.ok names, w') := by
  have hstd : Standard ⟨p, m.provider, false⟩ m w.scene :=
    { provider := rfl, name := hname, memory := hm, policy := hp, dynamic := rfl
      userGroups := huauto, groupGroups := hgauto, quiet := hq, time := ht }
  have hback : Backed ⟨p, m.provider, true⟩ m := ⟨rfl, hname, hm, hp⟩
  have hplain : Plain w.scene m := ⟨Scene.not_failsLookups hq, hmap⟩
  have hty := (hm.of_lookup hu).1
  obtain ⟨res, w₁, h₁, hc₁, hmat⟩ := (hstd.sync_ends hu hkind).run rfl hs
  generalize hr : syncedUser ⟨p, m.provider, false⟩ w.scene u = r₁ at hmat
  have hgroup : r₁.isGroup = false := by rw [← hr]; rfl
  have hlegacy : r₁.isLegacy = true := by rw [← hr]; rfl
  replace hmat : Materialized ⟨p, m.provider, true⟩ m p.user.nestingDepth.toNat k u r₁ w₁.store :=
    hmat.congr rfl
  have hnever {f : Failure} : ¬ w.scene.Refuses w₁.store f := hstd.storeWorks.not_refuses
  obtain ⟨b, w₂, h₂, -, hb, hconv⟩ := ((convertMembership_ends hmat.wellFormed hmat.typed hmat.user
    hgroup).mono (fun _ _ => id) fun _ _ => hnever).run hc₁ rfl
  obtain ⟨names, K, hn, hK, hw₂⟩ := (hconv.resolve_left fun h => by simp [hlegacy] at h).2
  have hnames := hmat.mem_names hback hu hgroup hn
  have halone := hmat.alone hback hu hgroup hdyn hstd.storeWorks hK
  rw [Store.modify_eq_put halone.wellFormed halone.user] at hw₂
  have halone₂ : w₂.store.Alone k (r₁.toDynamic names) := hw₂ ▸ halone.put _ ⟨rfl, rfl⟩
  obtain ⟨res', w₃, h₃, -, names', htexts, hnames', halone₃⟩ :=
    (hback.sync_dynamic_ends rfl hdyn hmap hq hu hkind).run rfl hs
  obtain rfl : names = names' := hn.1.ext htexts fun n => (hnames n).trans (hnames' n).symm
  have hsame : w₂.store = w₃.store := by
    rw [halone₂.eq, halone₃.eq, ← hr]
    rfl
  obtain ⟨document, hd, -⟩ := Store.read_snapshot halone₂.wellFormed
    (halone₂.typed ((hmat.typed r₁ (Store.mem_all_of_find? hmat.user)).toDynamic hn.1))
  refine ⟨res, w₁, w₂, res', w₃, names, _, document, h₁, ?_, h₃, hd, hsame ▸ hd, hsame, halone₂.eq,
    hgroup, rfl, ?_, ?_⟩
  · rw [h₂, hb, hlegacy]
  · intro log
    obtain ⟨found, w', hw', -, -, htexts', hfound⟩ := (hback.collect_groups_ends hty log
      p.user.nestingDepth.toNat).run rfl rfl
    obtain rfl : names = found := hn.1.ext htexts' fun n =>
      (hnames n).trans (hfound hplain n).symm
    exact ⟨w', hw'⟩
  · intro log q hq
    obtain rfl : r₁ = q := Option.some.inj (hmat.user.symm.trans hq)
    have hunwind : Sync.Ends w.scene w₁.store (unwind ⟨p, m.provider, true⟩ r₁ log)
        (fun found _ => UnwoundNames ⟨p, m.provider, true⟩ w₁.store k found) fun _ _ => False :=
      (unwind_ends hmat.wellFormed hmat.typed hmat.user).mono (fun _ _ h => h.1)
        fun _ _ h => hnever h.1
    obtain ⟨found, w', hw', -, hfound⟩ := hunwind.run hc₁ rfl
    obtain rfl : names = found := hn.1.ext hfound.1 fun n =>
      (hn.2 n).trans (hfound.2 n).symm
    exact ⟨w', hw'⟩

/-- A user in a group that is in a cycle with another one. -/
def cyclicGroups : Memory where
  name := .text "P"
  identities := [
    (.text "u", entry .user "u" [some ⟨.text "g", .text "P"⟩]),
    (.text "g", entry .group "g" [some ⟨.text "h", .text "P"⟩]),
    (.text "h", entry .group "h" [some ⟨.text "g", .text "P"⟩])]
where
  /-- An identity that is called by its id. -/
  entry (kind : Kind) (id : String) (groups : List (Option Ref)) : Identity :=
    Memory.identity { name := .text "P" } kind (.text id) groups .null []

/-- A policy that follows two hops. -/
def twoHops : Policy where
  provider := .text "P"
  user := { nestingDepth := 2 }

theorem typed_cyclicGroups : cyclicGroups.Typed where
  name := ⟨_, rfl⟩
  identities := by
    have hentry (kind : Kind) (id g : String) (hkind : kind = .user ∨ kind = .group) :
        (cyclicGroups.entry kind id [some ⟨.text g, .text "P"⟩]).Typed := by
      refine Memory.typed_identity ⟨_, rfl⟩ hkind ⟨_, rfl⟩ ⟨_, rfl⟩ (fun q hq => ?_) _
      obtain rfl := List.mem_singleton.1 hq
      exact ⟨_, rfl, ⟨_, rfl⟩, .inr ⟨_, rfl⟩⟩
    intro k i hi
    simp only [cyclicGroups, List.mem_cons, Prod.mk.injEq, List.not_mem_nil, or_false] at hi
    rcases hi with ⟨rfl, rfl⟩ | ⟨rfl, rfl⟩ | ⟨rfl, rfl⟩
    · exact ⟨hentry _ _ _ (.inl rfl), rfl, rfl⟩
    · exact ⟨hentry _ _ _ (.inr rfl), rfl, rfl⟩
    · exact ⟨hentry _ _ _ (.inr rfl), rfl, rfl⟩

theorem typed_twoHops : twoHops.Typed := { Policy.typed_default "P" with }

/-- A policy that follows two hops and keeps placeholders of groups. -/
def placing : Policy := { twoHops with group := { dynamicGroups := true } }

theorem typed_placing : placing.Typed := { Policy.typed_default "P" with }

theorem convert_of_sync_eq_sync_cyclicGroups :
    twoHops.Typed ∧ cyclicGroups.Typed ∧ ∃ u res w₁ w₂ res' w₃,
      cyclicGroups.identities.lookup (.text "u") = some u ∧
      sync ⟨twoHops, cyclicGroups.provider, false⟩ u {} = (.ok res, w₁) ∧
      convertMembership ⟨twoHops, cyclicGroups.provider, true⟩ (.stored (.text "u")) w₁
        = (.ok true, w₂) ∧
      sync ⟨twoHops, cyclicGroups.provider, true⟩ u {} = (.ok res', w₃) ∧
      w₂.store = w₃.store := by
  obtain ⟨res, w₁, w₂, res', w₃, _, _, _, h₁, h₂, h₃, -, -, hsame, -⟩ :=
    convert_of_sync_eq_sync (w := {}) typed_twoHops typed_cyclicGroups rfl rfl rfl rfl rfl
      (k := .text "u") rfl rfl rfl rfl (Value.isTime_int (by decide))
  exact ⟨typed_twoHops, typed_cyclicGroups, _, res, w₁, w₂, res', w₃, rfl, h₁, h₂, h₃, hsame⟩

end Context

end Roster
