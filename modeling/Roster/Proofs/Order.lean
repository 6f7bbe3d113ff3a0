import Mathlib.Data.List.Nodup
import Roster.Proofs.UserTurn

/-!
# Users in any order

Users are synchronised one after the other, and each of them finds what the ones before have left:
groups that they created, member lists that they pruned, groups that they deleted since nobody was
left. The results and the store are the same in any order all the same, up to the order of records
and of members: after any number of turns the store is given by what it was before and by the set of
the users who had theirs (`Synced`).

* `Store.Alike`: the same store up to the order of records and of members.
* `sync_any_order`: a list of users and a permutation of it lead to the same results and to stores
  that are alike.
-/

namespace Roster

/-! ## Stores up to order -/

/-- The same records, the same groups and the same members of each, in any order. -/
structure Store.Alike (s s' : Store) : Prop where
  records : s.records.Perm s'.records
  groups : s.members.keys.Perm s'.members.keys
  members : ∀ g ms ms', (g, ms) ∈ s.members → (g, ms') ∈ s'.members → ms.Perm ms'

namespace Store

variable {s s' : Store} {a b : Scalar} {ms : List Scalar}

theorem WellFormed.groups_nodup (h : s.WellFormed) : s.members.keys.Nodup := by
  refine List.Nodup.of_map Scalar.key ?_
  rw [h.groups]
  exact h.keys_nodup.sublist (List.filter_sublist.map _)

/-- A list belongs to the id of a group record. -/
theorem Typed.mem_groups_iff (ht : s.Typed) (h : s.WellFormed) :
    a ∈ s.members.keys ↔ ∃ r, s.find? a.key = some r ∧ r.isGroup = true ∧ r.id = .scalar a := by
  constructor
  · intro ha
    obtain ⟨⟨_, ms⟩, hm, rfl⟩ := List.mem_map.1 ha
    obtain ⟨r, hr, hg⟩ := h.exists_group hm
    exact ⟨r, hr, hg, ht.id_of_find? h hr⟩
  · rintro ⟨r, hr, hg, hid⟩
    obtain ⟨b, ms, hm, hb⟩ := h.exists_list hr hg
    rw [← hb] at hr
    obtain rfl : a = b := Value.scalar.inj (hid.symm.trans (ht.id_of_find? h hr))
    exact List.mem_map_of_mem hm

/-- A list holds the ids of the members. -/
theorem Typed.mem_list_iff (ht : s.Typed) (h : s.WellFormed) (hm : (a, ms) ∈ s.members) :
    b ∈ ms ↔ s.Member b.key a.key ∧ ∃ r, s.find? b.key = some r ∧ r.id = .scalar b := by
  constructor
  · intro hb
    obtain ⟨r, hr⟩ := h.exists_member hm hb
    exact ⟨⟨a, ms, b, hm, rfl, hb, rfl⟩, r, hr, ht.id_of_find? h hr⟩
  · rintro ⟨hmem, r, hr, hid⟩
    have hl : s.members.lookup a = some ms :=
      Assoc.lookup_of_mem h.lists_pairwise hm (Scalar.beq_iff.2 rfl)
    obtain ⟨b', hb', he⟩ := (h.member_iff hl).1 hmem
    rw [← he] at hr
    obtain rfl : b = b' := Value.scalar.inj (hid.symm.trans (ht.id_of_find? h hr))
    exact hb'

/-- Stores with the same records and memberships are alike. -/
theorem Alike.of_same (h : s.WellFormed) (ht : s.Typed) (h' : s'.WellFormed) (ht' : s'.Typed)
    (hr : ∀ k, s.find? k = s'.find? k) (hm : ∀ x g, s.Member x g ↔ s'.Member x g) :
    s.Alike s' where
  records := by
    refine (List.perm_ext_iff_of_nodup (List.Nodup.of_map _ h.keys_nodup)
      (List.Nodup.of_map _ h'.keys_nodup)).2 ?_
    rintro ⟨k, r⟩
    rw [← h.find?_eq_some_iff, ← h'.find?_eq_some_iff, hr]
  groups := by
    refine (List.perm_ext_iff_of_nodup h.groups_nodup h'.groups_nodup).2 fun a => ?_
    rw [ht.mem_groups_iff h, ht'.mem_groups_iff h', hr]
  members := by
    intro a ms ms' hms hms'
    refine (List.perm_ext_iff_of_nodup (List.Nodup.of_map _ (h.members_nodup a ms hms))
      (List.Nodup.of_map _ (h'.members_nodup a ms' hms'))).2 fun b => ?_
    rw [ht.mem_list_iff h hms, ht'.mem_list_iff h' hms', hm, hr]

end Store

namespace Context

variable {ctx : Context} {m : Memory} {c : Scene} {K T T' : Key → Prop} {k : Key}
  {s a b : Store} {u : Identity} {names : Identity → NameSet}
  {A : Key → Key → Prop} {R P X : Key → Prop} {us us' : List Identity}

/-! ## Closed forms determine the store -/

theorem Clears.unique (ha : ctx.Clears m c K s R P a) (hb : ctx.Clears m c K s R P b) :
    (∀ y, ¬ K y → a.find? y = b.find? y) ∧ ∀ x g, a.Member x g ↔ b.Member x g :=
  ⟨fun y hy => (ha.records y hy).trans (hb.records y hy).symm,
    fun x g => (ha.member x g).trans (hb.member x g).symm⟩

theorem Declares.unique (ha : ctx.Declares m c K s A X a) (hb : ctx.Declares m c K s A X b) :
    (∀ y, ¬ K y → a.find? y = b.find? y) ∧ ∀ x g, a.Member x g ↔ b.Member x g :=
  ⟨fun y hy => Option.ext fun r => (ha.records y r hy).trans (hb.records y r hy).symm,
    fun x g => (ha.member x g).trans (hb.member x g).symm⟩

theorem Moved.unique (ha : ctx.Moved m c K s X P a) (hb : ctx.Moved m c K s X P b) :
    (∀ y, ¬ K y → a.find? y = b.find? y) ∧ ∀ x g, a.Member x g ↔ b.Member x g := by
  unfold Moved at ha hb
  split at ha
  · next he => exact ha.unique (by rwa [if_pos he] at hb)
  · next he => exact ha.unique (by rwa [if_neg he] at hb)

/-! ## Any number of turns -/

/-- What the turns of the users under the keys `T` lead to, in whichever order they come. -/
structure Synced (ctx : Context) (m : Memory) (c : Scene) (K : Key → Prop)
    (names : Identity → NameSet) (s : Store) (T : Key → Prop) (s' : Store) : Prop where
  turned : ∀ k u, T k → m.identities.lookup k = some u →
    s'.find? k = ctx.afterTurn c (names u) u (s.find? k)
  others : ∀ k, K k → ¬ T k → s'.find? k = s.find? k
  moved : ctx.Moved m c K s (fun x => ∃ k, T k ∧ ctx.Walks m c s k x)
    (fun x => ∃ k, T k ∧ ctx.Spends c s k x) s'

namespace Synced

theorem refl (hs : s.Ready K) : ctx.Synced m c K names s (fun _ => False) s where
  turned := fun _ _ => False.elim
  others := fun _ _ _ => rfl
  moved := (Moved.of_own hs (fun _ _ => rfl) fun _ _ => .rfl).congr (by simp) (by simp)

/-- One more turn. It finds the record of its user untouched. What it visits is what it would have
visited at first, and what it takes back it would have taken back at first as well, except for what
the turns before have taken back already. -/
theorem turn (hc : ctx.Calm m c K) (hs : s.Ready K) (h : ctx.Synced m c K names s T a)
    (hTK : ∀ j, T j → K j) (hk : K k) (hnew : ¬ T k) (hT : ∀ j, T' j ↔ T j ∨ j = k)
    (hu : m.identities.lookup k = some u)
    (hb : ctx.Steps m c K k a (ctx.afterTurn c (names u) u (a.find? k)) (ctx.Walks m c a k)
      (ctx.Spends c a k) b) : ctx.Synced m c K names s T' b := by
  obtain rfl : T' = fun x => T x ∨ x = k := funext fun x => propext (hT x)
  have hown := h.others k hk hnew
  refine ⟨?_, ?_, ?_⟩
  · intro j v hj hv
    by_cases hjk : j = k
    · subst hjk
      obtain rfl : u = v := Option.some.inj (hu.symm.trans hv)
      rw [hb.own, hown]
    · have hjT := hj.resolve_right hjk
      rw [hb.others j (hTK j hjT) hjk, h.turned j v hjT hv]
  · intro j hj hn
    rw [hb.others j hj fun he => hn (.inr he), h.others j hj fun ht => hn (.inl ht)]
  · refine (h.moved.trans hc hs hb.moved).congr (fun x => ?_) fun he x => ?_
    · simp only [Walks, h.moved.visits_iff hc hs, hown, or_and_right, exists_or, exists_eq_left]
    · have hreach := h.moved.reaches_iff hc hs he (k := k) (x := x)
      -- what was taken back before counts as taken back either way
      simp only [or_and_right, exists_or, exists_eq_left]
      rw [Spends, Spends, hown]
      simp only [or_and_left, hreach]

/-- The set of the users who had their turn determines the records and the memberships. -/
theorem unique (hu : ∀ k, T k → ∃ u, m.identities.lookup k = some u)
    (ha : ctx.Synced m c K names s T a) (hb : ctx.Synced m c K names s T b) :
    (∀ k, a.find? k = b.find? k) ∧ ∀ x g, a.Member x g ↔ b.Member x g := by
  obtain ⟨hrecords, hmember⟩ := ha.moved.unique hb.moved
  refine ⟨fun k => ?_, hmember⟩
  by_cases hk : K k
  · by_cases hT : T k
    · obtain ⟨u, hu⟩ := hu k hT
      rw [ha.turned k u hT hu, hb.turned k u hT hu]
    · rw [ha.others k hk hT, hb.others k hk hT]
  · exact hrecords k hk

theorem alike (hu : ∀ k, T k → ∃ u, m.identities.lookup k = some u)
    (ha : ctx.Synced m c K names s T a) (hb : ctx.Synced m c K names s T b) : a.Alike b := by
  obtain ⟨hr, hm⟩ := ha.unique hu hb
  have hra := ha.moved.ready
  have hrb := hb.moved.ready
  exact .of_same hra.wellFormed hra.typed hrb.wellFormed hrb.typed hr hm

end Synced

/-- The keys under which a provider in memory holds the identities of a list. -/
def Held (m : Memory) (us : List Identity) (k : Key) : Prop :=
  ∃ u ∈ us, m.identities.lookup k = some u

theorem Held.mono (hsub : ∀ u ∈ us', u ∈ us) (h : Held m us' k) : Held m us k := by
  obtain ⟨u, hu, hk⟩ := h
  exact ⟨u, hsub u hu, hk⟩

/-- The outcome for a user in a store. -/
def outcome (ctx : Context) (c : Scene) (names : Identity → NameSet) (s : Store) (u : Identity) :
    SyncResult :=
  ctx.answer c (names u) u (s.get u.id).toOption.join

theorem outcome_eq (hid : u.id.toKey = .ok k) :
    ctx.outcome c names s u = ctx.answer c (names u) u (s.find? k) := by
  simp [outcome, Store.get, hid, bind, Except.bind, pure, Except.pure, Except.toOption]

/-- The turns of different users, one after the other. -/
theorem Calm.syncs_ends (h : ctx.Calm m c (Held m us)) (hs : s.Ready (Held m us))
    (hnames : ∀ k u, m.identities.lookup k = some u → ctx.HasNames c u (names u))
    (hus : ∀ u ∈ us, u.kind = .user ∧ ∃ k, m.identities.lookup k = some u)
    (hsub : ∀ u ∈ us', u ∈ us) (hnd : us'.Nodup) :
    Sync.Ends c s (us'.mapM ctx.sync) (fun as s' => as = us'.map (ctx.outcome c names s) ∧
      ctx.Synced m c (Held m us) names s (Held m us') s') (fun _ _ => False) := by
  refine Sync.Ends.mapM (I := fun done s' =>
    ctx.Synced m c (Held m us) names s (Held m done) s') ?_ ?_
  · have hnone : Held m [] = fun _ => False := funext fun k => by simp [Held]
    rw [hnone]
    exact .refl hs
  · intro done u rest s' he h'
    have hmem : u ∈ us := hsub u (by rw [he]; simp)
    have hdone : ∀ v ∈ done, v ∈ us := fun v hv => hsub v (by rw [he]; simp [hv])
    obtain ⟨hkind, k, hu⟩ := hus u hmem
    have hk : Held m us k := ⟨u, hmem, hu⟩
    have hnew : ¬ Held m done k := by
      rintro ⟨v, hv, hv'⟩
      obtain rfl : u = v := Option.some.inj (hu.symm.trans hv')
      rw [he] at hnd
      exact (List.nodup_append.1 hnd).2.2 u hv u (by simp) rfl
    have hid := (h.memory.of_lookup hu).2.1
    have hT (j : Key) : Held m (done ++ [u]) j ↔ Held m done j ∨ j = k := by
      simp only [Held, List.mem_append, List.mem_singleton, or_and_right, exists_or,
        exists_eq_left]
      refine or_congr_right ⟨fun hj => ?_, fun hj => hj ▸ hu⟩
      exact Except.ok.inj ((h.memory.of_lookup hj).2.1.symm.trans hid)
    refine (h.sync_turn h'.moved.ready hk hu hkind (hnames k u hu)).mono ?_ fun _ _ => id
    rintro _ s'' ⟨rfl, h''⟩
    refine ⟨?_, h'.turn h hs (fun j => Held.mono hdone) hk hnew hT hu h''⟩
    rw [outcome_eq hid, h'.others k hk hnew]

/-- The context in which users of the configured provider are synchronised. -/
theorem Calm.of_users {p : Policy} (hp : p.Typed) (hmap : Fields.Distinct p.group.propertyMapping)
    (hm : m.Typed) (hname : p.provider = m.name) (hq : c.faults = {}) (hc : c.clock.IsTime)
    (hus : ∀ u ∈ us, u.kind = .user) : Calm ⟨p, m.provider, true⟩ m c (Held m us) where
  provider := rfl
  name := hname
  memory := hm
  policy := hp
  dynamic := rfl
  quiet := hq
  time := hc
  mapping := hmap
  users := by
    rintro k i ⟨u, hu, hk⟩ hi
    obtain rfl : u = i := Option.some.inj (hk.symm.trans hi)
    simp [Identity.isGroup, hus u hu]

/-- Users of another provider than the configured one are left alone. -/
theorem syncs_foreign_ends {p : Policy} (hp : p.Typed) (hm : m.Typed) (hname : p.provider ≠ m.name)
    (hus : ∀ u ∈ us, u.kind = .user ∧ ∃ k, m.identities.lookup k = some u)
    {E : Failure → Store → Prop} :
    Sync.Ends c s (us.mapM (sync ⟨p, m.provider, true⟩))
      (fun as s' => as = us.map foreignResult ∧ s' = s) E := by
  refine Sync.Ends.mapM (I := fun _ s' => s' = s) rfl ?_
  rintro done u rest _ he rfl
  obtain ⟨hkind, k, hu⟩ := hus u (by rw [he]; simp)
  have hown : owns ⟨p, m.provider, true⟩ u.ref = false := by
    obtain ⟨a, ha⟩ := hp.provider
    obtain ⟨b, hb⟩ := hm.name
    rw [(hm.of_lookup hu).2.2, ← Bool.not_eq_true]
    intro ho
    obtain rfl : b = a := (Policy.owns_iff (r := m.ref u.id) ha hb).1 ho
    exact hname (ha.trans hb.symm)
  rw [sync_foreign_user hkind hown]
  exact Sync.Ends.pure ⟨rfl, rfl⟩

/-- Different users whose ids no groups have are synchronised in any order with the same results,
and what is left is the same up to the order of records and of members. -/
theorem sync_any_order {p : Policy} {m : Memory} {us us' : List Identity} {w : World}
    (hp : p.Typed) (hmap : Fields.Distinct p.group.propertyMapping) (hm : m.Typed)
    (hs : w.store.WellFormed) (ht : w.store.Typed) (hq : w.faults = {}) (hc : w.clock.IsTime)
    (hus : ∀ u ∈ us, u.kind = .user ∧ ∃ k, m.identities.lookup k = some u ∧
      ∀ r, w.store.find? k = some r → r.isGroup = false)
    (hnd : us.Nodup) (hperm : us.Perm us') :
    ∃ result w₁ w₂,
      us.mapM (sync ⟨p, m.provider, true⟩) w = (.ok (us.map result), w₁) ∧
      us'.mapM (sync ⟨p, m.provider, true⟩) w = (.ok (us'.map result), w₂) ∧
      w₁.store.Alike w₂.store := by
  have hus₁ : ∀ u ∈ us, u.kind = .user ∧ ∃ k, m.identities.lookup k = some u := fun u hu =>
    ⟨(hus u hu).1, (hus u hu).2.imp fun _ => And.left⟩
  have hsub : ∀ u ∈ us', u ∈ us := fun _ => hperm.mem_iff.2
  by_cases hname : p.provider = m.name
  · have hcalm : Calm ⟨p, m.provider, true⟩ m w.scene (Held m us) :=
      .of_users hp hmap hm hname hq hc fun u hu => (hus u hu).1
    have hready : w.store.Ready (Held m us) := by
      refine ⟨hs, ht, ?_⟩
      rintro k r ⟨u, hu, hk⟩ hr
      obtain ⟨-, j, hj, hgroup⟩ := hus u hu
      obtain rfl : k = j :=
        Except.ok.inj ((hm.of_lookup hk).2.1.symm.trans (hm.of_lookup hj).2.1)
      exact hgroup r hr
    have hlookups : ¬ w.scene.FailsLookups := Scene.not_failsLookups hq
    choose! names hnames using fun (u : Identity) (hu : u.Typed) =>
      hcalm.exists_names hlookups hu
    have hnames' (k : Key) (u : Identity) (hu : m.identities.lookup k = some u) :=
      hnames u (hm.of_lookup hu).1
    obtain ⟨_, w₁, h₁, -, rfl, hs₁⟩ :=
      (hcalm.syncs_ends hready hnames' hus₁ (fun _ => id) hnd).run rfl rfl
    obtain ⟨_, w₂, h₂, -, rfl, hs₂⟩ :=
      (hcalm.syncs_ends hready hnames' hus₁ hsub (hperm.nodup hnd)).run rfl rfl
    have hheld : Held m us' = Held m us := funext fun k => by simp only [Held, hperm.mem_iff]
    rw [hheld] at hs₂
    refine ⟨_, w₁, w₂, h₁, h₂, hs₁.alike ?_ hs₂⟩
    rintro k ⟨u, -, hu⟩
    exact ⟨u, hu⟩
  · obtain ⟨_, w₁, h₁, -, rfl, hs₁⟩ := (syncs_foreign_ends hp hm hname hus₁).run rfl rfl
    obtain ⟨_, w₂, h₂, -, rfl, hs₂⟩ := (syncs_foreign_ends hp hm hname
      fun u hu => hus₁ u (hsub u hu)).run rfl rfl
    refine ⟨foreignResult, w₁, w₂, h₁, h₂, ?_⟩
    rw [hs₁, hs₂]
    exact .of_same hs ht hs ht (fun _ => rfl) fun _ _ => .rfl

/-- A user of a group of a provider. -/
def groupUser (id : String) : Identity :=
  Memory.identity { name := .text "P" } .user (.text id) [some ⟨.text "g1", .text "P"⟩] .null []

/-- Two users of one group. -/
def groupUsers : Memory where
  name := .text "P"
  identities := [
    (.text "u", groupUser "u"), (.text "v", groupUser "v"),
    (.text "g1", Memory.identity { name := .text "P" } .group (.text "g1") [] .null [])]

/-- A policy that enforces names. -/
def enforcing : Policy where
  provider := .text "P"
  user := { enforceDynamic := true }

theorem typed_groupUsers : groupUsers.Typed where
  name := ⟨_, rfl⟩
  identities := by
    have huser (id : String) : (groupUser id).Typed := by
      refine Memory.typed_identity ⟨_, rfl⟩ (.inl rfl) ⟨_, rfl⟩ ⟨_, rfl⟩ (fun q hq => ?_) _
      obtain rfl := List.mem_singleton.1 hq
      exact ⟨_, rfl, ⟨_, rfl⟩, .inr ⟨_, rfl⟩⟩
    intro k i hi
    simp only [groupUsers, List.mem_cons, Prod.mk.injEq, List.not_mem_nil, or_false] at hi
    rcases hi with ⟨rfl, rfl⟩ | ⟨rfl, rfl⟩ | ⟨rfl, rfl⟩
    · exact ⟨huser _, rfl, rfl⟩
    · exact ⟨huser _, rfl, rfl⟩
    · exact ⟨Memory.typed_identity ⟨_, rfl⟩ (.inr rfl) ⟨_, rfl⟩ ⟨_, rfl⟩
        (fun q hq => absurd hq List.not_mem_nil) _, rfl, rfl⟩

theorem typed_enforcing : enforcing.Typed := { Policy.typed_default "P" with }

/-- Both users are migrated, and whoever comes last leaves no group behind. -/
theorem sync_any_order_nestedGroups :
    enforcing.Typed ∧ groupUsers.Typed ∧ Job.nestedGroups.WellFormed ∧ Job.nestedGroups.Typed ∧
    ∃ (result : Identity → SyncResult) (w₁ w₂ : World),
      [groupUser "u", groupUser "v"].mapM (sync ⟨enforcing, groupUsers.provider, true⟩)
        { store := Job.nestedGroups } = (.ok [result (groupUser "u"), result (groupUser "v")], w₁) ∧
      [groupUser "v", groupUser "u"].mapM (sync ⟨enforcing, groupUsers.provider, true⟩)
        { store := Job.nestedGroups } = (.ok [result (groupUser "v"), result (groupUser "u")], w₂) ∧
      w₁.store.Alike w₂.store ∧ w₁.store.members = [] := by
  have hne : groupUser "u" ≠ groupUser "v" := fun h => by
    have hid : Value.text "u" = Value.text "v" := congrArg Identity.id h
    simp at hid
  have hus : ∀ u ∈ [groupUser "u", groupUser "v"], u.kind = .user ∧
      ∃ k, groupUsers.identities.lookup k = some u ∧
        ∀ r, Job.nestedGroups.find? k = some r → r.isGroup = false := by
    intro u hu
    simp only [List.mem_cons, List.not_mem_nil, or_false] at hu
    rcases hu with rfl | rfl
    · refine ⟨rfl, .text "u", rfl, ?_⟩
      rintro _ ⟨rfl⟩
      rfl
    · refine ⟨rfl, .text "v", rfl, ?_⟩
      rintro _ ⟨rfl⟩
      rfl
  have hperm : [groupUser "u", groupUser "v"].Perm [groupUser "v", groupUser "u"] := .swap ..
  obtain ⟨result, w₁, w₂, h₁, h₂, halike⟩ := sync_any_order (w := { store := Job.nestedGroups })
    typed_enforcing .nil typed_groupUsers Job.wellFormed_nestedGroups Job.typed_nestedGroups rfl
    (Value.isTime_int (by decide)) hus (by simp [hne]) hperm
  refine ⟨typed_enforcing, typed_groupUsers, Job.wellFormed_nestedGroups, Job.typed_nestedGroups,
    result, w₁, w₂, h₁, h₂, halike, ?_⟩
  have hrun := congrArg (fun a => a.2.store.members) h₁
  exact hrun.symm.trans (by decide +kernel)

end Context

end Roster
