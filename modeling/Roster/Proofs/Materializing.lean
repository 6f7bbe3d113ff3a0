import Roster.Proofs.Enrolling
import Roster.Proofs.Unwinding

/-!
# Member lists made from declared groups

Where nothing fails and no auto-membership groups are named, the standard representation of the
memberships of a new user consists of local images of groups of the provider: `Mirror` says that
every record besides the user stands for a group of the provider and every membership for a
declared one. Materializing keeps this, adds exactly the declared memberships within the given
number of hops (`materialize_ends`) and never ends one, since every membership it meets is declared.
-/

namespace Roster

namespace Context

/-- Where nothing fails: a standard context with typed data and no auto-membership groups. -/
structure Standard (ctx : Context) (m : Memory) (c : Scene) : Prop extends ctx.Backed m where
  dynamic : ctx.dynamic = false
  userGroups : ctx.policy.user.autoMembership = ∅
  groupGroups : ctx.policy.group.autoMembership = ∅
  quiet : c.faults = {}
  time : c.clock.IsTime

/-- A declared membership within a number of hops of an identity. -/
def Declared (ctx : Context) (m : Memory) : Nat → Identity → Key → Key → Prop
  | 0, _, _, _ => False
  | d + 1, i, x, g => ∃ ref ∈ i.groups, ∃ j, ctx.leadsTo m ref = some j ∧
      (i.id.toKey = .ok x ∧ j.id.toKey = .ok g ∨ Declared ctx m d j x g)

/-- A store that holds a user and images of groups of the provider, with declared memberships. -/
structure Mirror (ctx : Context) (m : Memory) (k₀ : Key) (u : Record) (s : Store) : Prop where
  wellFormed : s.WellFormed
  typed : s.Typed
  user : s.find? k₀ = some u
  groups : ∀ k r, s.find? k = some r → k ≠ k₀ → ∃ i, m.identities.lookup k = some i ∧
    r.group = .bool true ∧ r.ref = i.ref ∧ r.principalName = i.principalName
  declared : ∀ x g, s.Member x g → ∃ i j, ∃ ref ∈ i.groups, m.identities.lookup x = some i ∧
    ctx.leadsTo m ref = some j ∧ j.id.toKey = .ok g

/-- What materializing has added to a store: memberships, and groups that have members. -/
structure Grown (ctx : Context) (m : Memory) (k₀ : Key) (u : Record) (s : Store)
    (added : Key → Key → Prop) (s' : Store) : Prop where
  mirror : ctx.Mirror m k₀ u s'
  kept : ∀ k r, s.find? k = some r → s'.find? k = some r
  member : ∀ x g, s'.Member x g ↔ s.Member x g ∨ added x g
  used : ∀ k r, s'.find? k = some r → s.find? k = none → ∃ x, s'.Member x k

variable {ctx : Context} {m : Memory} {c : Scene} {k₀ k : Key} {u r : Record} {i : Identity}
  {s s' s'' : Store} {A B : Key → Key → Prop} {E : Failure → Store → Prop} {log : Channel}

theorem Mirror.grown (h : ctx.Mirror m k₀ u s) : ctx.Grown m k₀ u s (fun _ _ => False) s where
  mirror := h
  kept := fun _ _ hr => hr
  member := fun _ _ => (or_iff_left not_false).symm
  used := fun k r hr hn => by rw [hr] at hn; cases hn

/-- An image of a group is added. -/
theorem Mirror.addGroup (h : ctx.Mirror m k₀ u s) (hwf : s'.WellFormed) (ht : s'.Typed)
    (hi : m.identities.lookup k = some i) (hne : k ≠ k₀)
    (hr : r.group = .bool true ∧ r.ref = i.ref ∧ r.principalName = i.principalName)
    (hfind : ∀ j, s'.find? j = if j = k then some r else s.find? j)
    (hmem : ∀ x g, s'.Member x g ↔ s.Member x g) : ctx.Mirror m k₀ u s' where
  wellFormed := hwf
  typed := ht
  user := by rw [hfind, if_neg (Ne.symm hne), h.user]
  groups := by
    intro j q hq hj
    rw [hfind] at hq
    split at hq
    · next hjk =>
      subst hjk
      obtain rfl := Option.some.inj hq
      exact ⟨i, hi, hr⟩
    · exact h.groups j q hq hj
  declared := fun x g hx => h.declared x g ((hmem x g).1 hx)

/-- A declared membership is added. -/
theorem Mirror.addMember (h : ctx.Mirror m k₀ u s) (hwf : s'.WellFormed)
    (hrecs : s'.records = s.records) {j : Identity} {ref : Option Ref} {x₀ g₀ : Key}
    (hi : m.identities.lookup x₀ = some i) (href : ref ∈ i.groups)
    (hj : ctx.leadsTo m ref = some j) (hg : j.id.toKey = .ok g₀)
    (hmem : ∀ x g, s'.Member x g ↔ s.Member x g ∨ x = x₀ ∧ g = g₀) : ctx.Mirror m k₀ u s' where
  wellFormed := hwf
  typed := fun r hr => h.typed r (by rwa [Store.all, hrecs] at hr)
  user := by rw [Store.find?, hrecs]; exact h.user
  groups := fun y r hr => h.groups y r (by rwa [Store.find?, hrecs] at hr)
  declared := by
    intro x g hx
    rcases (hmem x g).1 hx with hx | ⟨rfl, rfl⟩
    · exact h.declared x g hx
    · exact ⟨i, j, ref, href, hi, hj, hg⟩

/-- A group is there, perhaps since just now, and one membership in it is added. -/
theorem Mirror.grown_of_member {x g : Key} (h : ctx.Mirror m k₀ u s'')
    (hkept : ∀ j r, s.find? j = some r → s'.find? j = some r)
    (hnew : ∀ j r, s'.find? j = some r → s.find? j = none → j = g)
    (hsame : ∀ y j, s'.Member y j ↔ s.Member y j) (hrecs : s''.records = s'.records)
    (hmem : ∀ y j, s''.Member y j ↔ s'.Member y j ∨ y = x ∧ j = g) :
    ctx.Grown m k₀ u s (fun y j => y = x ∧ j = g) s'' where
  mirror := h
  kept := fun j r hr => by rw [Store.find?, hrecs]; exact hkept j r hr
  member := fun y j => by rw [hmem, hsame]
  used := by
    intro j r hr hn
    rw [Store.find?, hrecs] at hr
    obtain rfl := hnew j r hr hn
    exact ⟨x, (hmem _ _).2 (.inr ⟨rfl, rfl⟩)⟩

theorem Grown.trans (h : ctx.Grown m k₀ u s A s') (h' : ctx.Grown m k₀ u s' B s'') :
    ctx.Grown m k₀ u s (fun x g => A x g ∨ B x g) s'' where
  mirror := h'.mirror
  kept := fun k r hr => h'.kept k r (h.kept k r hr)
  member := fun x g => by rw [h'.member, h.member, or_assoc]
  used := by
    intro k r hr hn
    cases hk : s'.find? k with
    | none => exact h'.used k r hr hk
    | some q =>
      obtain ⟨x, hx⟩ := h.used k q hk hn
      exact ⟨x, (h'.member x k).2 (.inl hx)⟩

theorem Grown.congr (h : ctx.Grown m k₀ u s A s') (hab : ∀ x g, A x g ↔ B x g) :
    ctx.Grown m k₀ u s B s' :=
  ⟨h.mirror, h.kept, fun x g => by rw [h.member, hab], h.used⟩

namespace Standard

variable (h : ctx.Standard m c)
include h

theorem storeWorks : c.StoreWorks := .of_quiet h.quiet

theorem not_lookupFails (f : Failure) : ¬ c.LookupFails f :=
  fun hf => Scene.not_failsLookups h.quiet hf.2

/-- There are no groups to join. -/
theorem applyMembership_ends (hk : s.find? k = some r) {groups : Except Failure (List Value)}
    (hg : groups = .ok []) {log : Option Channel} :
    Sync.Ends c s (ctx.applyMembership (.stored k) groups log) (fun _ s' => s' = s) E := by
  unfold applyMembership
  refine Sync.Ends.step (Sync.Ends.record hk ?_)
  rw [if_neg (by simp [h.dynamic])]
  refine Sync.Ends.step (Sync.Ends.result_ok hg ?_)
  exact Sync.Ends.pure rfl

/-- A group that is not there is created with the attributes of its identity; one that is there is
left as it is. -/
theorem localGroup_ends (hm : ctx.Mirror m k₀ u s) (hi : m.identities.lookup k = some i)
    (hg : i.isGroup = true)
    (hk₀ : ∀ i, m.identities.lookup k₀ = some i → i.isGroup = false) :
    Sync.Ends c s (ctx.localGroup i log) (fun a s' => ∃ g, a = some (.stored k, g) ∧
      s'.find? k = some g ∧ g.isGroup = true ∧ ctx.Mirror m k₀ u s' ∧
      (∀ j r, s.find? j = some r → s'.find? j = some r) ∧
      (∀ x y, s'.Member x y ↔ s.Member x y) ∧
      ∀ j r, s'.find? j = some r → s.find? j = none → j = k) E := by
  obtain ⟨hty, hid, href⟩ := h.memory.of_lookup hi
  have hne : k ≠ k₀ := by
    rintro rfl
    rw [hk₀ i hi] at hg
    cases hg
  cases hf : s.find? k with
  | some g =>
    obtain ⟨i', hi', hgroup, href', -⟩ := hm.groups k g hf hne
    obtain rfl : i = i' := Option.some.inj (hi.symm.trans hi')
    have hgt : g.isGroup = true := by rw [Record.isGroup, hgroup]; rfl
    have hown : ctx.owns g.ref = true := by
      rw [href', href]
      exact h.owns_ref _
    unfold localGroup
    refine Sync.Ends.step (Sync.Ends.lookUp hid ?_)
    simp only [hf, Option.map_some]
    rw [if_pos (by simp [hgt, hown])]
    exact Sync.Ends.pure ⟨g, rfl, hf, hgt, hm, fun _ _ hr => hr, fun _ _ => .rfl,
      fun j r hr hn => by rw [hr] at hn; cases hn⟩
  | none =>
    refine (localGroup_new_ends h.storeWorks.foresees hm.wellFormed hm.typed hty hid hf h.policy
      h.time).mono ?_ fun _ _ => id
    rintro _ s' ⟨rfl, hwf, hty', hfind, hmem⟩
    have hmem' (x y : Key) : s'.Member x y ↔ s.Member x y := by
      refine (hmem x y).trans (or_iff_left ?_)
      rintro ⟨-, hy, -⟩
      have hnone : ctx.autos true = fun _ => false := autos_of_empty h.groupGroups
      rw [hnone] at hy
      cases hy
    refine ⟨_, rfl, (hfind k).trans (if_pos rfl), rfl,
      hm.addGroup hwf hty' hi hne ⟨rfl, rfl, rfl⟩ hfind hmem', ?_, hmem', ?_⟩
    · intro j r hr
      rw [hfind, if_neg, hr]
      rintro rfl
      rw [hf] at hr
      cases hr
    · intro j r hr hn
      by_contra hj
      rw [hfind, if_neg hj, hn] at hr
      cases hr

/-- What going on at a group adds. -/
def GoesUp (ctx : Context) (m : Memory) (c : Scene) (k₀ : Key) (u : Record)
    (goOn : Identity → Subject → Sync Unit) (d : Nat) : Prop :=
  ∀ {k : Key} {i : Identity} {s : Store}, ctx.Mirror m k₀ u s → m.identities.lookup k = some i →
    (∃ r, s.find? k = some r) → Sync.Ends c s (goOn i (.stored k))
      (fun _ s' => ctx.Grown m k₀ u s (ctx.Declared m d i) s') (fun _ _ => False)

/-- Declaring one group of a record adds that membership and what lies beyond it. -/
theorem declareGroup_ends
    (hk₀ : ∀ i, m.identities.lookup k₀ = some i → i.isGroup = false)
    {goOn : Identity → Subject → Sync Unit} {d : Nat} (hgo : GoesUp ctx m c k₀ u goOn d)
    (hm : ctx.Mirror m k₀ u s) (hi : m.identities.lookup k = some i) (hk : s.find? k = some r)
    {ref : Option Ref} (href : ref ∈ i.groups) (declared : List Key) :
    Sync.Ends c s (ctx.declareGroup log r goOn declared ref)
      (fun declared' s' => ctx.Grown m k₀ u s (fun x g => ∃ j, ctx.leadsTo m ref = some j ∧
          (x = k ∧ j.id.toKey = .ok g ∨ ctx.Declared m d j x g)) s' ∧
        ∀ g, g ∈ declared' ↔ g ∈ declared ∨
          ∃ j, ctx.leadsTo m ref = some j ∧ j.id.toKey = .ok g)
      (fun _ _ => False) := by
  obtain ⟨q, rfl, hq⟩ := (h.memory.of_lookup hi).1.groups ref href
  have htyped : ∀ r, some q = some r → r.Typed := by
    rintro _ ⟨rfl⟩
    exact hq
  have hnone (hn : ctx.leadsTo m (some q) = none) :
      ctx.Grown m k₀ u s (fun x g => ∃ j, ctx.leadsTo m (some q) = some j ∧
        (x = k ∧ j.id.toKey = .ok g ∨ ctx.Declared m d j x g)) s ∧
      ∀ g, g ∈ declared ↔ g ∈ declared ∨
        ∃ j, ctx.leadsTo m (some q) = some j ∧ j.id.toKey = .ok g :=
    ⟨hm.grown.congr fun x g => by simp [hn], fun g => by simp [hn]⟩
  unfold declareGroup
  by_cases ho : ctx.owns (some q) = true
  · rw [if_neg (by simp [ho])]
    refine Sync.Ends.bind ((h.served.externalGroup_ends htyped).mono (fun _ _ => id)
      fun f _ hf => h.not_lookupFails f hf.2) ?_
    rintro a s ⟨rfl, ha⟩
    cases a with
    | none => exact Sync.Ends.pure (hnone ha.symm)
    | some j =>
      obtain ⟨-, hjg, kj, hkj, hlook⟩ := h.served.group_of_leadsTo htyped ha.symm
      refine Sync.Ends.bind (h.localGroup_ends hm hlook hjg hk₀) ?_
      rintro _ s₁ ⟨g, rfl, hg, hgg, hm₁, hkept₁, hmem₁, hnew₁⟩
      dsimp only
      refine Sync.Ends.bind (addMember_ends h.storeWorks.foresees hm₁.wellFormed hg hgg
        (hm.wellFormed.toKey_of_find? hk) (hkept₁ k r hk)) ?_
      rintro _ s₂ ⟨hwf₂, hrecs, hmem₂⟩
      have hm₂ : ctx.Mirror m k₀ u s₂ :=
        hm₁.addMember hwf₂ hrecs hi href ha.symm hkj hmem₂
      have hgrown : ctx.Grown m k₀ u s (fun x y => x = k ∧ y = kj) s₂ :=
        hm₂.grown_of_member hkept₁ hnew₁ hmem₁ hrecs hmem₂
      refine Sync.Ends.step (Sync.Ends.result_ok (hm₁.wellFormed.toKey_of_find? hg) ?_)
      refine Sync.Ends.bind (hgo hm₂ hlook ⟨g, by rw [Store.find?, hrecs]; exact hg⟩) ?_
      rintro _ s₃ hs₃
      have hj' (j' : Identity) : ctx.leadsTo m (some q) = some j' ↔ j' = j := by
        rw [← ha, Option.some.injEq, eq_comm]
      have hkey (y : Key) : j.id.toKey = .ok y ↔ y = kj := by
        rw [hkj, Except.ok.injEq, eq_comm]
      refine Sync.Ends.pure ⟨(hgrown.trans hs₃).congr fun x y => ?_, fun y => ?_⟩
      · simp only [hj', exists_eq_left, hkey]
      · simp only [hj', exists_eq_left, hkey, List.mem_cons]
        exact or_comm
  · rw [if_pos (by simp [ho])]
    refine Sync.Ends.step (Sync.Ends.shown htyped fun _ => ?_)
    refine Sync.Ends.step (Sync.Ends.log ?_)
    refine Sync.Ends.pure (hnone ?_)
    rw [Option.eq_none_iff_forall_ne_some]
    intro j hj
    exact ho (owns_of_leadsTo hj)

/-- Materializing adds the declared memberships within a number of hops. -/
theorem materialize_ends
    (hk₀ : ∀ i, m.identities.lookup k₀ = some i → i.isGroup = false) (d : Nat) :
    GoesUp ctx m c k₀ u (ctx.materialize log d) d := by
  induction d with
  | zero => exact fun hm _ _ => Sync.Ends.pure hm.grown
  | succ d ih =>
    rintro k i s hm hi ⟨r, hk⟩
    obtain ⟨hty, hid, -⟩ := h.memory.of_lookup hi
    unfold materialize
    refine Sync.Ends.step (requireKnown_ends hty.known ?_)
    refine Sync.Ends.step (Sync.Ends.record hk ?_)
    refine Sync.Ends.bind (Sync.Ends.foldlM (I := fun done declared s' =>
      ctx.Grown m k₀ u s (fun x g => ∃ ref ∈ done, ∃ j, ctx.leadsTo m ref = some j ∧
        (x = k ∧ j.id.toKey = .ok g ∨ ctx.Declared m d j x g)) s' ∧
      ∀ g, g ∈ declared ↔ ∃ ref ∈ done, ∃ j, ctx.leadsTo m ref = some j ∧ j.id.toKey = .ok g)
      ⟨hm.grown.congr fun x g => by simp, fun g => by simp⟩ ?_) ?_
    · rintro done ref rest declared s₁ he ⟨hgrown, hdecl⟩
      refine (h.declareGroup_ends hk₀ ih hgrown.mirror hi (hgrown.kept k r hk)
        (by rw [he]; simp) declared).mono ?_ fun _ _ => id
      rintro declared' s₂ ⟨hgrown', hdecl'⟩
      refine ⟨(hgrown.trans hgrown').congr fun x g => ?_, fun g => ?_⟩
      · simp [or_and_right, exists_or]
      · rw [hdecl', hdecl]
        simp [or_and_right, exists_or]
    · rintro declared s₁ ⟨hgrown, hdecl⟩
      refine (prune_ends h.storeWorks.foresees hgrown.mirror.wellFormed
        (hgrown.mirror.wellFormed.toKey_of_find? (hgrown.kept k r hk)) declared).mono ?_
        fun _ _ => id
      rintro _ _ ⟨D, rfl, hD⟩
      rw [Store.cut_eq_self]
      · refine hgrown.congr fun x g => ?_
        simp only [Declared, hid, Except.ok.injEq, eq_comm (a := x)]
      · -- every membership is declared
        intro x g _
        rw [← Bool.not_eq_true, hD]
        rintro ⟨-, hm, -, hn⟩
        obtain ⟨i', j, ref, href, hi', hj, hkj⟩ := hgrown.mirror.declared k g hm
        obtain rfl : i = i' := Option.some.inj (hi.symm.trans hi')
        exact hn ((hdecl g).2 ⟨ref, href, j, hj, hkj⟩)

end Standard

end Context

end Roster
