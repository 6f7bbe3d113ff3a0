import Roster.Proofs.Escaping
import Roster.Proofs.Making
import Roster.Proofs.Renewing

/-!
# Synchronising a record again

Where nothing fails and the clock stands still, synchronising a record once more changes nothing
and has the same outcome (`syncId_again`); only a record that was deleted is then reported as
unknown. A group has taken over its attributes and joined its groups. A user has kept its names, or
its member lists were made; then it joined groups automatically, and these it leaves and joins again
where they belong to the provider and it does not declare them.
-/

namespace Roster

namespace Context

/-- The memberships of a user with the record are represented by member lists. -/
def Lists (ctx : Context) (r : Record) : Prop :=
  ctx.dynamic = true → r.isLegacy = true ∧ ctx.policy.enforcesDynamic = false

/-- The record synchronised at the time of the clock. -/
def stamped (c : Scene) (r : Record) : Record := { r with lastSynced := c.clock }

/-- The record is there with the type and the reference that it had, and the step does nothing. -/
def Done (c : Scene) (k : Key) (r : Record) (x : Option Channel → Sync Unit) (s : Store) : Prop :=
  (∃ q, s.find? k = some q ∧ q.group = r.group ∧ q.ref = r.ref) ∧
    ∀ log, Sync.Ends c s (x log) (fun _ s' => s' = s) (fun _ _ => False)

variable {ctx : Context} {m : Memory} {c : Scene} {k j : Key} {u i : Identity} {s : Store}
  {r : Record} {a : Scalar} {id : Value} {ref : Ref} {ns : NameSet} {log : Option Channel}
  {E : Failure → Store → Prop}

/-! ## Memberships -/

/-- Where memberships are represented by member lists, these are materialized. -/
theorem syncMembership_of_materialize_ends (hl : ctx.Lists r) (hs : s.Hosts k r) {depth : Int}
    {Q : Unit → Store → Prop}
    (h : ∀ log, Sync.Ends c s (ctx.materialize log depth.toNat u (.stored k)) Q E) :
    Sync.Ends c s (ctx.syncMembership u (.stored k) depth log) Q E := by
  unfold syncMembership
  split
  · next hd =>
    obtain ⟨hlegacy, he⟩ := hl hd
    unfold syncNames
    refine Sync.Ends.step (Sync.Ends.record hs.own ?_)
    rw [if_neg (by simp [hs.isUser]), if_pos (by simp [hlegacy, he])]
    refine Sync.Ends.step (Sync.Ends.log ?_)
    exact h _
  · exact h _

/-- A record on which names are kept has them already. -/
theorem represented_represented (c : Scene) (ns : NameSet)
    (hl : r.isLegacy = true → ctx.policy.enforcesDynamic = true) :
    (ctx.represented ns r).isLegacy = false ∧
      ctx.represented ns (stamped c (ctx.represented ns r)) = stamped c (ctx.represented ns r) := by
  have hlegacy : (ctx.represented ns r).isLegacy = false := by
    unfold represented
    split
    · next h => rw [if_pos (hl h)]; rfl
    · next h => exact Bool.eq_false_iff.2 h
  refine ⟨hlegacy, ?_⟩
  have hnames : (ctx.represented ns r).names = some (.set ns) := by
    unfold represented
    split
    · next h => rw [if_pos (hl h)]; rfl
    · rfl
  have hl' : ¬ (stamped c (ctx.represented ns r)).isLegacy = true := Bool.eq_false_iff.1 hlegacy
  rw [represented, if_neg hl', ← hnames]
  rfl

/-- What a reference leads to is known beforehand. -/
theorem Served.fetch_fixed_ends (h : ctx.Served m) (hq : ref.Typed) {b : Option Identity}
    (hb : m.resolve ref = .ok b) :
    Sync.Ends c s (ctx.resolve ref) (fun b' s' => b' = b ∧ s' = s)
      (fun f _ => c.LookupFails f) := by
  refine (h.fetch_ends hq).mono ?_ fun _ _ hf => hf.2
  rintro b' s ⟨rfl, hb'⟩
  exact ⟨(Except.ok.inj (hb.symm.trans hb')).symm, rfl⟩

namespace Still

variable (h : ctx.Still m c)
include h

/-- The record of a host, stamped, and in groups that it joined. -/
theorem hosts_stamped (hs : s.Hosts k r) (ha : a.key = k) (A : Key → Bool) :
    ((s.joined A a).put k (stamped c r)).Hosts k (stamped c r) := by
  have hj : (s.joined A a).Hosts k r :=
    ⟨hs.wellFormed.joined (ha ▸ hs.own), hs.typed, hs.own, hs.isUser⟩
  exact hj.put { hs.typed r (Store.mem_all_of_find? hs.own) with lastSynced := .inr h.time }
    ⟨rfl, rfl⟩

/-- The memberships of a user are represented, which changes mode and names of its record at most.
After it joined groups and was stamped, they are represented again, and joining the groups once more
gives the same store. -/
theorem syncMembership_again (hs : s.Hosts k r) (hu : m.identities.lookup j = some u)
    (ha : a.key = k) :
    Sync.Ends c s (ctx.syncMembership u (.stored k) ctx.policy.user.nestingDepth log)
      (fun _ s' => ∃ md names r', r' = { r with mode := md, names := names } ∧ s'.Hosts k r' ∧
        ∀ log', Sync.Ends c ((s'.joined (ctx.autos false) a).put k (stamped c r'))
          (ctx.syncMembership u (.stored k) ctx.policy.user.nestingDepth log')
          (fun _ s'' => s''.Hosts k (stamped c r') ∧ s''.joined (ctx.autos false) a
            = (s'.joined (ctx.autos false) a).put k (stamped c r')) (fun _ _ => False))
      (fun _ _ => False) := by
  have hty := (h.memory.of_lookup hu).1
  by_cases hl : ctx.Lists r
  · refine syncMembership_of_materialize_ends hl hs fun log => ?_
    refine (h.materialize_settles hty _ hs (Function.update_self ..) ⟨r, hs.own⟩).mono ?_
      fun _ _ => id
    rintro _ s' ⟨hfills, hset⟩
    refine ⟨r.mode, r.names, r, rfl, hfills.toHosts, fun log' => ?_⟩
    have hs' := h.hosts_stamped hfills.toHosts ha (ctx.autos false)
    have hl' : ctx.Lists (stamped c r) := hl
    exact syncMembership_of_materialize_ends hl' hs' fun log =>
      h.materialize_again hty hfills.toHosts hset ha hs'
  · obtain ⟨hd, hn⟩ := Classical.not_imp.1 hl
    have hlegacy : r.isLegacy = true → ctx.policy.enforcesDynamic = true := by
      intro hleg
      by_contra he
      exact hn ⟨hleg, Bool.eq_false_iff.2 he⟩
    have hcalm := h.calm hd
    obtain ⟨ns, hns⟩ := h.exists_names (Scene.not_failsLookups h.quiet) hty
    obtain ⟨hleg', hsame⟩ := represented_represented c ns hlegacy
    have hjoined (t : Store) : t.joined (ctx.autos false) a = t := by
      rw [autos_of_dynamic hd, Store.joined_false]
    simp only [hjoined, syncMembership, if_pos hd]
    refine (hcalm.syncNames_places hs hu hns hlegacy).mono ?_ fun _ _ => id
    rintro _ s' ⟨hs₁, hplaced⟩
    have hrep : ∃ md names, ctx.represented ns r = { r with mode := md, names := names } := by
      unfold represented
      split
      · rw [if_pos (hlegacy ‹_›)]
        exact ⟨_, _, rfl⟩
      · exact ⟨r.mode, _, rfl⟩
    obtain ⟨md, names, hr'⟩ := hrep
    refine ⟨md, names, ctx.represented ns r, hr', hs₁, fun log' => ?_⟩
    have hs₂ := h.hosts_stamped hs₁ ha fun _ => false
    rw [Store.joined_false] at hs₂
    refine (hcalm.syncNames_rests hs₂ hu hns hleg' hsame fun hdyn => ?_).mono ?_ fun _ _ => id
    · exact (hplaced hdyn).of_own h.toBacked hs₁ hs₂ fun x hx => by
        rw [Store.find?_put hs₁.own, if_neg hx]
    · rintro _ _ rfl
      exact ⟨hs₂, rfl⟩

/-! ## One record -/

/-- A group that was synchronised has the attributes of its identity and is in its groups. -/
theorem syncGroup_again (hs : s.WellFormed) (ht : s.Typed) (hk : s.find? k = some r)
    (hi : i.Typed) :
    Sync.Ends c s (ctx.syncGroup i (.stored k) log)
      (fun _ s' => Done c k r (ctx.syncGroup i (.stored k)) s') E := by
  obtain ⟨a, ha, rfl⟩ := Value.toKey_eq_ok_iff.1 (hs.toKey_of_find? hk)
  have hr := ht r (Store.mem_all_of_find? hk)
  have hq : (ctx.refreshed c i r).Typed := { hr.takingOver hi _ with lastSynced := .inr h.time }
  have hwf := hs.joined (A := ctx.autos true) hk
  have hfind : ((s.joined (ctx.autos true) a).put a.key (ctx.refreshed c i r)).find? a.key
      = some (ctx.refreshed c i r) := by
    rw [Store.find?_put (s := s.joined (ctx.autos true) a) hk, if_pos rfl]
  refine (syncGroup_joined_ends h.storeWorks.foresees hs hk ha hr hi h.policy).mono ?_
    fun _ _ => id
  rintro _ _ rfl
  refine ⟨⟨_, hfind, rfl, rfl⟩, fun log => ?_⟩
  refine (syncGroup_joined_ends h.storeWorks.foresees (hwf.put hk (ctx.refreshed c i r)
    ⟨rfl, rfl⟩) hfind ha hq hi
    h.policy).mono ?_ fun _ _ => id
  rintro _ _ rfl
  rw [Store.joined_put, Store.joined_self, Store.put_put,
    refreshed_refreshed h.groupMapping h.policy.groupMapping]

/-- A user that was synchronised. -/
theorem syncUser_again (hs : s.Hosts k r) (hu : m.identities.lookup j = some u) :
    Sync.Ends c s (ctx.syncUser u (.stored k) log)
      (fun _ s' => Done c k r (ctx.syncUser u (.stored k)) s') (fun _ _ => False) := by
  obtain ⟨a, ha, hak⟩ := Value.toKey_eq_ok_iff.1 (hs.wellFormed.toKey_of_find? hs.own)
  subst hak
  have hty := (h.memory.of_lookup hu).1
  have hr := hs.typed r (Store.mem_all_of_find? hs.own)
  have hs₁ := hs.put (hr.takingOver hty ctx.policy.user.propertyMapping) ⟨rfl, rfl⟩
  unfold syncUser
  refine Sync.Ends.bind (syncProperties_ends hs.wellFormed hs.own hr hty h.policy.userMapping) ?_
  rintro _ _ rfl
  refine Sync.Ends.bind (h.syncMembership_again hs₁ hu rfl) ?_
  rintro _ s₂ ⟨md, names, r₂, hr₂, hs₂, hagain⟩
  have hid : r₂.id.toScalar = .ok a := by rw [hr₂]; exact ha
  refine Sync.Ends.bind (applyMembership_joined_ends h.storeWorks.foresees hs₂.wellFormed hs₂.own
    hid false h.policy.userGroups) ?_
  rintro _ _ rfl
  have hs₃ := h.hosts_stamped hs₂ rfl (ctx.autos false)
  refine (stamp_ends (hs₂.wellFormed.joined hs₂.own) hs₂.own).mono ?_ fun _ _ => id
  rintro _ _ rfl
  refine ⟨⟨_, hs₃.own, by rw [hr₂]; rfl, by rw [hr₂]; rfl⟩, fun log' => ?_⟩
  -- the attributes are taken over, which changes nothing any more
  have hsame : (stamped c r₂).takingOver ctx.policy.user.propertyMapping u = stamped c r₂ := by
    rw [hr₂]
    simp only [stamped, Record.takingOver, takenOver_takenOver h.userMapping h.policy.userMapping]
  refine Sync.Ends.bind (syncProperties_ends hs₃.wellFormed hs₃.own
    (hs₃.typed _ (Store.mem_all_of_find? hs₃.own)) hty h.policy.userMapping) ?_
  rintro _ _ rfl
  rw [hsame, Store.put_eq_self hs₃.wellFormed hs₃.own]
  refine Sync.Ends.bind (hagain log') ?_
  rintro _ s₄ ⟨hs₄, hjoined⟩
  refine Sync.Ends.bind (applyMembership_joined_ends h.storeWorks.foresees hs₄.wellFormed hs₄.own
    hid false h.policy.userGroups) ?_
  rintro _ _ rfl
  rw [hjoined]
  refine (stamp_ends hs₃.wellFormed hs₃.own).mono ?_ fun _ _ => id
  rintro _ _ rfl
  exact Store.put_eq_self hs₃.wellFormed hs₃.own

theorem syncRecord_again (hs : s.WellFormed) (ht : s.Typed) (hk : s.find? k = some r)
    (hi : m.identities.lookup j = some i) :
    Sync.Ends c s (ctx.syncRecord i (.stored k) r.isGroup log)
      (fun _ s' => Done c k r (ctx.syncRecord i (.stored k) r.isGroup) s') (fun _ _ => False) := by
  unfold syncRecord
  cases hg : r.isGroup with
  | true => exact h.syncGroup_again hs ht hk (h.memory.of_lookup hi).1
  | false => exact h.syncUser_again ⟨hs, ht, hk, hg⟩ hi

/-- A record that was synchronised with its identity is synchronised once more. -/
theorem refresh_again (hs : s.WellFormed) (ht : s.Typed) (hk : s.find? k = some r)
    (href : r.ref = some ref) (hi : m.resolve ref = .ok (some i)) (hsame : sameType r i = true)
    (log : Channel) :
    Sync.Ends c s (ctx.refresh id (.stored k) r ref log) (fun a s' => a.status = .update ∧
      ∃ q, s'.find? k = some q ∧ q.ref = some ref ∧ ∀ log, Sync.Ends c s'
        (ctx.refresh id (.stored k) q ref log) (fun a' s'' => a' = a ∧ s'' = s')
        (fun _ _ => False)) (fun _ _ => False) := by
  have hq := (ht r (Store.mem_all_of_find? hk)).ref ref href
  obtain ⟨_, ha, hholds⟩ := h.memory.resolve hq
  obtain ⟨j, -, hj⟩ := (hholds i (Except.ok.inj (ha.symm.trans hi))).key
  have hfetch (t : Store) : Sync.Ends c t (ctx.resolve ref) (fun b t' => b = some i ∧ t' = t)
      (fun _ _ => False) :=
    (h.served.fetch_fixed_ends hq hi).mono (fun _ _ hb => hb)
      fun _ _ hf => Scene.not_failsLookups h.quiet hf.2
  unfold refresh
  refine Sync.Ends.bind (hfetch s) ?_
  rintro _ s ⟨rfl, rfl⟩
  dsimp only
  rw [if_neg (by simp [hsame])]
  refine Sync.Ends.bind (h.syncRecord_again hs ht hk hj) ?_
  rintro _ s₁ ⟨⟨q, hq₁, hgroup, hqref⟩, hagain⟩
  refine (resultOf_told_ends hq₁).mono ?_ fun _ _ hf => hf
  rintro _ _ ⟨rfl, rfl⟩
  refine ⟨rfl, q, hq₁, hqref.trans href, fun log => ?_⟩
  have hsame₁ : sameType q i = true := by rwa [sameType, hgroup]
  have hgroup₁ : q.isGroup = r.isGroup := by rw [Record.isGroup, hgroup, Record.isGroup]
  refine Sync.Ends.bind (hfetch _) ?_
  rintro _ s ⟨rfl, rfl⟩
  dsimp only
  rw [if_neg (by simp [hsame₁]), hgroup₁]
  refine Sync.Ends.bind (hagain (some log)) ?_
  rintro _ s rfl
  exact resultOf_told_ends hq₁

end Still

/-! ## Records by their ids -/

theorem syncId_absent_ends (hid : id.toKey = .ok k) (hk : s.find? k = none) :
    Sync.Ends c s (ctx.syncId id)
      (fun a s' => a = ⟨id, none, .bool false, .never, .nop⟩ ∧ s' = s) E := by
  unfold syncId
  refine Sync.Ends.step (Sync.Ends.lookUp hid ?_)
  simp only [hk, Option.map_none]
  refine Sync.Ends.step (Sync.Ends.log ?_)
  exact Sync.Ends.pure ⟨rfl, rfl⟩

/-- A record of another provider, or of none, is left as it is. -/
theorem syncId_foreign_ends (hid : id.toKey = .ok k) (hk : s.find? k = some r)
    (ho : ctx.owns r.ref = false) :
    Sync.Ends c s (ctx.syncId id)
      (fun a s' => a = ⟨id, r.ref, r.group, .never, .foreign⟩ ∧ s' = s) E := by
  unfold syncId
  refine Sync.Ends.step (Sync.Ends.lookUp hid ?_)
  simp only [hk, Option.map_some]
  cases href : r.ref with
  | none => exact Sync.Ends.pure ⟨rfl, rfl⟩
  | some ref =>
    rw [href] at ho
    dsimp only
    rw [if_pos (by rw [show ctx.policy.owns ref = false from ho]; rfl)]
    exact Sync.Ends.pure ⟨rfl, rfl⟩

/-- A record of the provider is refreshed. -/
theorem syncId_owned_ends (hid : id.toKey = .ok k) (hk : s.find? k = some r)
    (href : r.ref = some ref) (ho : ctx.policy.owns ref = true) {Q : SyncResult → Store → Prop}
    (h : ∀ log, Sync.Ends c s (ctx.refresh id (.stored k) r ref log) Q fun f s' =>
      E (wrapped id.display f) s') : Sync.Ends c s (ctx.syncId id) Q E := by
  unfold syncId
  refine Sync.Ends.step (Sync.Ends.lookUp hid ?_)
  simp only [hk, Option.map_some, href]
  rw [if_neg (by simp [ho])]
  refine Sync.Ends.step (channelFor_ends fun log => ?_)
  exact guarded_ends (h log) fun _ _ hf => hf

/-- A record goes when its identity is gone. -/
theorem Served.refresh_gone_ends (h : ctx.Served m) (hid : id.IsText) (hkey : id.toKey = .ok k)
    (hk : s.find? k = some r) (hq : ref.Typed) (hgone : m.resolve ref = .ok none) (log : Channel) :
    Sync.Ends c s (ctx.refresh id (.stored k) r ref log)
      (fun a s' => a.status = .delete ∧ s'.find? k = none) (fun _ _ => True) := by
  unfold refresh
  refine Sync.Ends.bind ((h.fetch_fixed_ends hq hgone).mono (fun _ _ hb => hb)
    fun _ _ _ => trivial) ?_
  rintro _ s ⟨rfl, rfl⟩
  refine Sync.Ends.bind ((remove_ends hid hkey hk).mono (fun _ _ ha => ha)
    fun _ _ _ => trivial) ?_
  rintro _ _ ⟨rfl, -⟩
  refine Sync.Ends.step (Sync.Ends.shown (by rintro _ ⟨rfl⟩; exact hq) fun _ => ?_)
  refine Sync.Ends.step (Sync.Ends.log ?_)
  refine Sync.Ends.pure ⟨rfl, ?_⟩
  rw [Store.find?_drop, if_pos (beq_self_eq_true k)]

/-- There is no answer where the identity is of another type than the record. -/
theorem Served.refresh_mismatch_ends (h : ctx.Served m) (hq : ref.Typed)
    (hi : m.resolve ref = .ok (some i)) (hsame : sameType r i = false) (log : Channel) :
    Sync.Ends c s (ctx.refresh id (.stored k) r ref log) (fun _ _ => False) (fun _ _ => True) := by
  unfold refresh
  refine Sync.Ends.bind ((h.fetch_fixed_ends hq hi).mono (fun _ _ hb => hb)
    fun _ _ _ => trivial) ?_
  rintro _ s ⟨rfl, rfl⟩
  dsimp only
  rw [if_pos (by simp [hsame])]
  refine Sync.Ends.step (Sync.Ends.shown (by rintro _ ⟨rfl⟩; exact hq) fun _ => ?_)
  exact Sync.Ends.throw_bind trivial

/-- A reference that belongs to the provider of the policy and leads somewhere belongs to the
provider in memory. -/
theorem Served.name_of_resolve (h : ctx.Served m) (hq : ref.Typed)
    (ho : ctx.policy.owns ref = true) (hi : m.resolve ref = .ok (some i)) :
    ctx.policy.provider = m.name := by
  obtain ⟨p, hp⟩ := h.policy.provider
  obtain ⟨n, hn⟩ := h.memory.name
  have hm : (ref.provider == m.name) = true := by
    by_contra hne
    rw [Memory.resolve, if_neg hne] at hi
    cases Except.ok.inj hi
  rw [Policy.owns, hp] at ho
  rw [hn] at hm
  rw [hp, hn]
  rcases hq.provider with hnull | ⟨t, ht⟩
  · rw [hnull] at hm
    cases hm
  · rw [ht, Value.scalar_beq_scalar, Scalar.text_beq_text, beq_iff_eq] at hm ho
    rw [← hm, ← ho]

/-- What an answer is followed by: the same, but that a record that was deleted is unknown. -/
def followed (id : Value) (a : SyncResult) : SyncResult :=
  if a.status = .delete then ⟨id, none, .bool false, .never, .nop⟩ else a

/-- Synchronising a record of the provider twice. -/
theorem Served.syncId_owned_again_ends (h : ctx.Served m)
    (hstill : ctx.policy.provider = m.name → ctx.Still m c) (hs : s.WellFormed) (ht : s.Typed)
    (hkey : id.toKey = .ok k) (hk : s.find? k = some r) (href : r.ref = some ref)
    (hown : ctx.policy.owns ref = true) :
    Sync.Ends c s (ctx.syncId id) (fun a s' => Sync.Ends c s' (ctx.syncId id)
      (fun a' s'' => a' = followed id a ∧ s'' = s') (fun _ _ => False)) (fun _ _ => True) := by
  have hr := ht r (Store.mem_all_of_find? hk)
  have hq := hr.ref ref href
  have hid : id.IsText := ht.id_eq_of_find? hs hkey hk ▸ hr.id
  obtain ⟨b, hb, -⟩ := h.memory.resolve hq
  refine syncId_owned_ends hkey hk href hown fun log => ?_
  cases b with
  | none =>
    refine (h.refresh_gone_ends hid hkey hk hq hb log).mono ?_ fun _ _ hf => hf
    rintro a s' ⟨ha, hgone⟩
    rw [followed, if_pos ha]
    exact syncId_absent_ends hkey hgone
  | some i =>
    cases hsame : sameType r i with
    | false =>
      exact (h.refresh_mismatch_ends hq hb hsame log).mono (fun _ _ => False.elim) fun _ _ hf => hf
    | true =>
      -- the identity is found, so that the provider is the one of the policy
      have hst := hstill (h.name_of_resolve hq hown hb)
      refine (hst.refresh_again hs ht hk href hb hsame log).mono ?_ fun _ _ _ => trivial
      rintro a s' ⟨ha, q, hq', hqref, hagain⟩
      rw [followed, if_neg (by rw [ha]; decide)]
      exact syncId_owned_ends hkey hq' hqref hown hagain

/-- Synchronising any record twice. -/
theorem Served.syncId_again_ends (h : ctx.Served m)
    (hstill : ctx.policy.provider = m.name → ctx.Still m c) (hs : s.WellFormed) (ht : s.Typed)
    (id : Value) :
    Sync.Ends c s (ctx.syncId id) (fun a s' => Sync.Ends c s' (ctx.syncId id)
      (fun a' s'' => a' = followed id a ∧ s'' = s') (fun _ _ => False)) (fun _ _ => True) := by
  cases hkey : id.toKey with
  | error f =>
    unfold syncId
    refine Sync.Ends.step (Sync.Ends.lookUp_any (fun k hk => ?_) fun _ => trivial)
    rw [hkey] at hk
    cases hk
  | ok k =>
    cases hk : s.find? k with
    | none =>
      refine (syncId_absent_ends hkey hk).mono ?_ fun _ _ hf => hf
      rintro _ s ⟨rfl, rfl⟩
      exact syncId_absent_ends hkey hk
    | some r =>
      cases ho : ctx.owns r.ref with
      | false =>
        refine (syncId_foreign_ends hkey hk ho).mono ?_ fun _ _ hf => hf
        rintro _ s ⟨rfl, rfl⟩
        exact syncId_foreign_ends hkey hk ho
      | true =>
        obtain ⟨ref, href, hown⟩ := (Option.any_eq_true ..).1 ho
        exact h.syncId_owned_again_ends hstill hs ht hkey hk href hown

/-- Synchronising a record again changes nothing and has the same outcome, unless the record was
deleted: then it is unknown. -/
theorem syncId_again {p : Policy} {m : Memory} (dynamic : Bool) {id : Value} {w w' : World}
    {a : SyncResult} (hp : p.Typed) (huser : Fields.Distinct p.user.propertyMapping)
    (hgroup : Fields.Distinct p.group.propertyMapping) (hm : m.Typed) (hs : w.store.WellFormed)
    (ht : w.store.Typed) (hfaults : w.faults = {}) (hclock : w.clock.IsTime)
    (h : (Context.mk p m.provider dynamic).syncId id w = (.ok a, w')) :
    ∃ a' w'', (Context.mk p m.provider dynamic).syncId id w' = (.ok a', w'') ∧
      w''.store = w'.store ∧
      a' = if a.status = .delete then ⟨id, none, .bool false, .never, .nop⟩ else a := by
  have hserved : (Context.mk p m.provider dynamic).Served m := ⟨rfl, hm, hp⟩
  have hends := (hserved.syncId_again_ends (c := w.scene) (fun hn =>
    { provider := rfl, name := hn, memory := hm, policy := hp, quiet := hfaults, time := hclock,
      userMapping := huser, groupMapping := hgroup }) hs ht id).holds w rfl rfl
  rw [h] at hends
  obtain ⟨a', w'', hw'', -, ha', hs''⟩ := hends.2.run hends.1 rfl
  exact ⟨a', w'', hw'', hs'', ha'⟩

/-- A policy under which users join a group of the provider. -/
def joiningUsers : Policy where
  provider := .text "P"
  user := { nestingDepth := 2, autoMembership := .ofList [.text "h"] }

theorem typed_joiningUsers : joiningUsers.Typed :=
  { Policy.typed_default "P" with userGroups := NameSet.texts_empty.insert }

/-- The user leaves the group that it does not declare, and joins it again. -/
theorem syncId_again_joiningUsers :
    joiningUsers.Typed ∧ cyclicGroups.Typed ∧ ∃ a w' w'',
      (Context.mk joiningUsers cyclicGroups.provider false).syncId (.text "u")
        { store := userInGroup } = (.ok a, w') ∧ a.status = .update ∧
      (Context.mk joiningUsers cyclicGroups.provider false).syncId (.text "u") w' = (.ok a, w'') ∧
      w''.store = w'.store := by
  obtain ⟨a, w', h, hstatus⟩ : ∃ a w',
      (Context.mk joiningUsers cyclicGroups.provider false).syncId (.text "u")
        { store := userInGroup } = (.ok a, w') ∧ a.status = .update := ⟨_, _, rfl, rfl⟩
  obtain ⟨a', w'', hw'', hs, ha⟩ := syncId_again false typed_joiningUsers .nil .nil
    typed_cyclicGroups wellFormed_userInGroup sound_userInGroup.typed rfl
    (Value.isTime_int (by decide)) h
  rw [if_neg (by rw [hstatus]; decide)] at ha
  exact ⟨typed_joiningUsers, typed_cyclicGroups, a, w', w'', h, hstatus, ha ▸ hw'', hs⟩

end Context

end Roster
