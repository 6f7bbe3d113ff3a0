import Roster.Proofs.Chains
import Roster.Proofs.Targets

/-!
# The closure of placeholders

With dynamic groups, placeholders of groups are made sure of by a walk that follows references for a
number of hops. It goes on where nothing in the store stands in the way of a placeholder, while it
changes this store itself, and in circles it comes by the same group again and again. All the same,
what it comes to depends on the store before it alone: a placeholder is a group of the provider, so
it stands in the way of no other one.

* `Context.visited`: the groups that the walk comes by, in order; `Context.OpenChain`: how it gets
  there.
* `Context.Carries`: a record with the attributes of an identity in the place of its own.
* `Context.Installed`: what making sure of placeholders comes to.
* `Context.Installing.ensureGroups_installs`: by induction on the hops, the walk installs the
  placeholders of what it comes by.
* `Context.ensureGroups_exact`: when the walk fails, and what it comes to when it does not.
-/

namespace Roster

/-- A property of a record. -/
def Record.property (r : Record) (name : Scalar) : Option Value :=
  r.properties.mapping?.bind (·.lookup name)

/-- A property of an identity. -/
def Identity.property (i : Identity) (name : Scalar) : Option Value :=
  i.properties.mapping?.bind (·.lookup name)

/-- What is known of a step by its outcome and its calls. -/
theorem Sync.Gives.ends {α : Type} {c : Scene} {s : Store} {x : Sync α} {cs : List Call}
    {o : Except Failure α} (h : Sync.Gives c x cs o) :
    Sync.Ends c s x (fun a s' => s' = s ∧ o = .ok a) fun f s' => s' = s ∧ o = .error f := by
  refine .of_apply (o := o) (t := s) (fun w hc hs => ?_) (fun _ ha => ⟨rfl, ha⟩)
    fun _ hf => ⟨rfl, hf⟩
  obtain ⟨w', hw, hc', hs', -⟩ := h w hc
  exact ⟨w', hw, hc', hs'.trans hs⟩

namespace Context

/-- Lookups have definite outcomes, and the identities that references of the provider lead to are
identities of the provider. -/
structure Grounded (ctx : Context) : Prop where
  lookup : ∀ r : Ref, r.Typed → ∀ f,
    (ctx.provider.lookup r).outcome = .error f → f.isA .lookup = true
  identity : ∀ r : Ref, r.Typed → ∀ i,
    (ctx.provider.lookup r).outcome = .ok (some i) → i.Typed
  own : ∀ r : Ref, r.Typed → ctx.policy.owns r = true → ∀ i,
    (ctx.provider.lookup r).outcome = .ok (some i) → ctx.owns i.ref = true

/-- A dynamic context with typed data, in which only lookups of some references fail. -/
structure Installing (ctx : Context) (c : Scene) : Prop extends ctx.Grounded where
  dynamic : ctx.dynamic = true
  policy : ctx.policy.Typed
  mapping : Fields.Distinct ctx.policy.group.propertyMapping
  storeWorks : c.StoreWorks
  uncounted : c.Uncounted
  time : c.clock.IsTime

/-! ## What a walk comes by -/

/-- The group that a reference leads to, with its key, if nothing in the store stands in its
way. -/
def opening (ctx : Context) (c : Scene) (s : Store) (r : Ref) : Option (Key × Identity) :=
  (ctx.provider.groupBehind c r).bind fun i =>
    match i.id.toKey with
    | .ok k => if (s.find? k).all fun q => q.isGroup && ctx.owns q.ref then some (k, i) else none
    | .error _ => none

/-- The groups that a walk of a number of hops comes by, with their keys and in order. -/
def visited (ctx : Context) (c : Scene) (s : Store) : Nat → List (Option Ref) →
    List (Key × Identity)
  | 0, _ => []
  | d + 1, refs => (ctx.own refs).flatMap fun r =>
      (ctx.opening c s r).elim [] fun p => p :: visited ctx c s d p.2.groups

/-- A walk of a number of hops looks the reference up. -/
def Meets (ctx : Context) (c : Scene) (s : Store) : Nat → List (Option Ref) → Ref → Prop
  | 0, _, _ => False
  | d + 1, refs, q => ∃ r ∈ ctx.own refs, r = q ∨
      ∃ p, ctx.opening c s r = some p ∧ Meets ctx c s d p.2.groups q

/-- A chain of references to groups that nothing in the store stands in the way of. -/
structure OpenChain (ctx : Context) (c : Scene) (s : Store) (refs : List (Option Ref))
    (rs : List Ref) : Prop extends ctx.Chain c refs rs where
  clear : ∀ r ∈ rs, ∃ i k, ctx.provider.groupBehind c r = some i ∧ i.id.toKey = .ok k ∧
    ctx.Usable s k

/-- A group with its key at the end of an open chain of no more references than hops. -/
def ComesBy (ctx : Context) (c : Scene) (s : Store) (depth : Int) (refs : List (Option Ref))
    (y : Key) (i : Identity) : Prop :=
  ∃ rs q, ctx.OpenChain c s refs (rs ++ [q]) ∧ ((rs ++ [q]).length : Int) ≤ depth ∧
    ctx.provider.groupBehind c q = some i ∧ i.id.toKey = .ok y

/-- The lookup of a reference fails that is given, or that is declared at the end of an open chain
of fewer references than hops. -/
def Breaks (ctx : Context) (c : Scene) (s : Store) (depth : Int) (refs : List (Option Ref)) :
    Prop :=
  ∃ rs q f, ctx.OpenChain c s refs rs ∧ (rs.length : Int) < depth ∧
    ctx.Chain c refs (rs ++ [q]) ∧ ctx.provider.found c q = .error f

/-- What comes by under a key, in order. -/
def underKey (y : Key) (vs : List (Key × Identity)) : List Identity :=
  vs.filterMap fun p => if p.1 = y then some p.2 else none

variable {ctx : Context} {c : Scene} {s s' s₀ : Store} {refs refs' : List (Option Ref)}
  {ref : Option Ref} {r q : Ref} {rs : List Ref} {k y : Key} {i j : Identity} {b b' b'' : Record}
  {vs vs' : List (Key × Identity)} {p : Key × Identity} {d : Nat} {log : Channel}

theorem opening_eq_some_iff : ctx.opening c s r = some (k, i) ↔
    ctx.provider.groupBehind c r = some i ∧ i.id.toKey = .ok k ∧ ctx.Usable s k := by
  have husable (k : Key) :
      ((s.find? k).all fun q => q.isGroup && ctx.owns q.ref) = true ↔ ctx.Usable s k := by
    simp [Option.all_eq_true, Usable]
  rw [opening, Option.bind_eq_some_iff]
  constructor
  · rintro ⟨j, hj, h⟩
    rcases hk : j.id.toKey with f | k' <;> rw [hk] at h
    · cases h
    · dsimp only at h
      split at h
      · next hus =>
        obtain ⟨rfl, rfl⟩ := Prod.mk.inj (Option.some.inj h)
        exact ⟨hj, hk, (husable _).1 hus⟩
      · cases h
  · rintro ⟨hi, hk, hus⟩
    refine ⟨i, hi, ?_⟩
    rw [hk]
    exact if_pos ((husable k).2 hus)

theorem own_append : ctx.own (refs ++ refs') = ctx.own refs ++ ctx.own refs' := by
  simp [own]

theorem visited_append :
    ctx.visited c s d (refs ++ refs') = ctx.visited c s d refs ++ ctx.visited c s d refs' := by
  cases d with
  | zero => rfl
  | succ d => rw [visited, own_append, List.flatMap_append, visited, visited]

theorem meets_append :
    ctx.Meets c s d (refs ++ refs') q ↔ ctx.Meets c s d refs q ∨ ctx.Meets c s d refs' q := by
  cases d with
  | zero => simp [Meets]
  | succ d => simp only [Meets, own_append, List.mem_append, or_and_right, exists_or]

theorem mem_visited_iff :
    p ∈ ctx.visited c s d refs ↔ ∃ q, ctx.Meets c s d refs q ∧ ctx.opening c s q = some p := by
  induction d generalizing refs with
  | zero => simp [visited, Meets]
  | succ d ih =>
    simp only [visited, Meets, List.mem_flatMap]
    constructor
    · rintro ⟨r, hr, hp⟩
      cases ho : ctx.opening c s r with
      | none => simp [ho] at hp
      | some p' =>
        rw [ho] at hp
        rcases List.mem_cons.1 hp with rfl | hp
        · exact ⟨r, ⟨r, hr, .inl rfl⟩, ho⟩
        · obtain ⟨q, hq, hp⟩ := ih.1 hp
          exact ⟨q, ⟨r, hr, .inr ⟨p', ho, hq⟩⟩, hp⟩
    · rintro ⟨q, ⟨r, hr, rfl | ⟨p', ho, hq⟩⟩, hp⟩
      · exact ⟨r, hr, by rw [hp]; exact List.mem_cons_self⟩
      · exact ⟨r, hr, by rw [ho]; exact List.mem_cons_of_mem _ (ih.2 ⟨q, hq, hp⟩)⟩

/-- A walk looks up what open chains lead to. -/
theorem meets_iff : ctx.Meets c s d refs q ↔ ∃ rs, ctx.OpenChain c s refs rs ∧
    ctx.Chain c refs (rs ++ [q]) ∧ rs.length < d := by
  induction d generalizing refs with
  | zero => simp [Meets]
  | succ d ih =>
    simp only [Meets, ih]
    constructor
    · rintro ⟨r, hr, rfl | ⟨p, ho, rs, hopen, hchain, hlen⟩⟩
      · exact ⟨[], ⟨⟨nofun, nofun, .nil⟩, nofun⟩, chain_singleton.2 hr, Nat.succ_pos d⟩
      · obtain ⟨hi, hk, hus⟩ := opening_eq_some_iff.1 ho
        have hchain' : ctx.Chain c refs (r :: rs ++ [q]) :=
          (chain_cons (by simp)).2 ⟨hr, p.2, hi, hchain⟩
        exact ⟨r :: rs, ⟨hchain'.of_append, List.forall_mem_cons.2 ⟨⟨p.2, p.1, hi, hk, hus⟩,
          hopen.clear⟩⟩, hchain', by simpa using hlen⟩
    · rintro ⟨rs, hopen, hchain, hlen⟩
      cases rs with
      | nil => exact ⟨q, chain_singleton.1 hchain, .inl rfl⟩
      | cons r rs =>
        obtain ⟨hr, i, hi, hchain⟩ := (chain_cons (by simp)).1 hchain
        obtain ⟨⟨j, k, hj, hk, hus⟩, hclear⟩ := List.forall_mem_cons.1 hopen.clear
        obtain rfl : i = j := Option.some.inj (hi.symm.trans hj)
        exact ⟨r, hr, .inr ⟨(k, i), opening_eq_some_iff.2 ⟨hi, hk, hus⟩, rs,
          ⟨hchain.of_append, hclear⟩, hchain, by simpa using hlen⟩⟩

/-- A lookup on the way fails. -/
def Lost (ctx : Context) (c : Scene) (s : Store) (d : Nat) (refs : List (Option Ref)) : Prop :=
  ∃ q f, ctx.Meets c s d refs q ∧ ctx.provider.found c q = .error f

theorem lost_append :
    ctx.Lost c s d (refs ++ refs') ↔ ctx.Lost c s d refs ∨ ctx.Lost c s d refs' := by
  simp only [Lost, meets_append, or_and_right, exists_or]

theorem own_single (ho : ctx.policy.owns r = true) : ctx.own [some r] = [r] := by
  simp [own, ho]

theorem own_single_of_foreign (ho : ∀ r, ref = some r → ctx.policy.owns r = false) :
    ctx.own [ref] = [] := by
  cases ref with
  | none => rfl
  | some r => simp [own, ho r rfl]

theorem visited_single (ho : ctx.policy.owns r = true) : ctx.visited c s (d + 1) [some r] =
    (ctx.opening c s r).elim [] fun p => p :: ctx.visited c s d p.2.groups := by
  rw [visited, own_single ho, List.flatMap_singleton]

theorem lost_single (ho : ctx.policy.owns r = true) : ctx.Lost c s (d + 1) [some r] ↔
    (∃ f, ctx.provider.found c r = .error f) ∨
      ∃ p, ctx.opening c s r = some p ∧ ctx.Lost c s d p.2.groups := by
  simp only [Lost, Meets, own_single ho, List.mem_singleton, exists_eq_left]
  constructor
  · rintro ⟨q, f, rfl | ⟨p, hp, hq⟩, hf⟩
    · exact .inl ⟨f, hf⟩
    · exact .inr ⟨p, hp, q, f, hq, hf⟩
  · rintro (⟨f, hf⟩ | ⟨p, hp, q, f, hq, hf⟩)
    · exact ⟨r, f, .inl rfl, hf⟩
    · exact ⟨q, f, .inr ⟨p, hp, hq⟩, hf⟩

/-! ## Records -/

/-- A record with the name of an identity and its mapped properties, synchronised just now, and with
everything else as in another record. -/
structure Carries (ctx : Context) (c : Scene) (i : Identity) (b b' : Record) : Prop where
  same : b' = { b with
    principalName := i.principalName, properties := b'.properties, lastSynced := c.clock }
  whole : ctx.policy.group.propertyMapping = [] → b'.properties = i.properties
  mapped : ∀ localName name, (localName, .scalar name) ∈ ctx.policy.group.propertyMapping →
    b'.property localName = (i.property name).filter fun v => !(v matches .null)
  others : ctx.policy.group.propertyMapping ≠ [] → ∀ name,
    (∀ p ∈ ctx.policy.group.propertyMapping, (p.1 == name) = false) →
      b'.property name = b.property name

theorem carries_refreshed (hd : Fields.Distinct ctx.policy.group.propertyMapping)
    (hm : Fields.MapNames ctx.policy.group.propertyMapping) (hi : i.Typed) (hb : b.Typed) :
    ctx.Carries c i b (ctx.refreshed c i b) := by
  obtain ⟨external, he⟩ := hi.properties
  obtain ⟨own, ho⟩ := hb.properties
  have hproperties : (ctx.refreshed c i b).properties =
      .mapping (if ctx.policy.group.propertyMapping.isEmpty then external
        else (copyProperties external own ctx.policy.group.propertyMapping).1) := by
    simp only [refreshed, Record.takingOver, he, ho, takenOver]
  have hcopied (hne : ctx.policy.group.propertyMapping ≠ []) (name : Scalar) :
      (ctx.refreshed c i b).property name =
        (copyProperties external own ctx.policy.group.propertyMapping).1.lookup name := by
    rw [Record.property, hproperties, if_neg (by simpa using hne)]
    rfl
  refine ⟨rfl, fun hempty => ?_, fun l n hl => ?_, fun hne n hn => ?_⟩
  · rw [hproperties, hempty, he]
    rfl
  · rw [hcopied (List.ne_nil_of_mem hl), lookup_copyProperties hd hm hl, Identity.property, he]
    rfl
  · rw [hcopied hne, lookup_copyProperties_of_ne hn, Record.property, ho]
    rfl

/-- What counts is the last identity. -/
theorem Carries.trans (h : ctx.Carries c i b b') (h' : ctx.Carries c j b' b'') :
    ctx.Carries c j b b'' where
  same := by
    rw [h'.same, h.same]
  whole := h'.whole
  mapped := h'.mapped
  others := fun hne n hn => (h'.others hne n hn).trans (h.others hne n hn)

/-- The record that a placeholder is made of: the one that is there or else a new one for the first
group that comes by. -/
def origin (ctx : Context) (s : Store) (y : Key) (is : List Identity) : Option Record :=
  (s.find? y).or (is.head?.map fun i => ctx.newRecord i true)

/-- Placeholders were made sure of for groups that came by, and nothing else happened. Each of them
carries the attributes of the last group that came by under its key. -/
structure Installed (ctx : Context) (c : Scene) (s : Store) (vs : List (Key × Identity))
    (s' : Store) : Prop where
  wellFormed : s'.WellFormed
  typed : s'.Typed
  usable : ∀ y, ctx.Usable s' y ↔ ctx.Usable s y
  untouched : ∀ y, underKey y vs = [] → s'.find? y = s.find? y
  installed : ∀ y i, (underKey y vs).getLast? = some i → ∃ b b',
    ctx.origin s y (underKey y vs) = some b ∧ s'.find? y = some b' ∧ ctx.Carries c i b b'
  member : ∀ x g, s'.Member x g ↔ s.Member x g

theorem mem_underKey : i ∈ underKey y vs ↔ (y, i) ∈ vs := by
  simp only [underKey, List.mem_filterMap, Option.ite_none_right_eq_some, Option.some.injEq]
  constructor
  · rintro ⟨p, hp, rfl, rfl⟩
    exact hp
  · exact fun h => ⟨(y, i), h, rfl, rfl⟩

/-- Further groups do not matter where there is a record already. -/
theorem origin_append {is js : List Identity} (h : ctx.origin s y is = some b) :
    ctx.origin s y (is ++ js) = some b := by
  unfold origin at h ⊢
  cases hf : s.find? y with
  | some _ => rwa [hf] at h
  | none =>
    cases is with
    | nil => simp [hf] at h
    | cons i is => rwa [hf] at h

theorem underKey_concat_self : underKey k (vs ++ [(k, i)]) = underKey k vs ++ [i] := by
  simp [underKey]

theorem underKey_concat_of_ne (hy : y ≠ k) : underKey y (vs ++ [(k, i)]) = underKey y vs := by
  simp [underKey, Ne.symm hy]

namespace Installed

theorem refl (hs : s.WellFormed) (ht : s.Typed) : ctx.Installed c s [] s :=
  ⟨hs, ht, fun _ => .rfl, fun _ _ => rfl, nofun, fun _ _ => .rfl⟩

/-- The placeholder of one more group carries the attributes of this group. -/
theorem carries_last (h : ctx.Installed c s₀ vs s) (hctx : ctx.Installing c) (hi : i.Typed) :
    ∃ b, ctx.origin s₀ k (underKey k vs ++ [i]) = some b ∧
      ctx.Carries c i b (ctx.refreshed c i ((s.find? k).getD (ctx.newRecord i true))) := by
  have hcarries {b : Record} (hb : b.Typed) : ctx.Carries c i b (ctx.refreshed c i b) :=
    carries_refreshed hctx.mapping hctx.policy.groupMapping hi hb
  rcases hlast : (underKey k vs).getLast? with _ | j
  · -- it is the first one
    have hnil := List.getLast?_eq_none_iff.1 hlast
    have hfirst := h.untouched k hnil
    rw [hnil, List.nil_append]
    cases hf : s₀.find? k with
    | none =>
      rw [hfirst, hf]
      exact ⟨_, by rw [origin, hf]; rfl, hcarries (typed_newRecord hi true)⟩
    | some b =>
      have hb := h.typed b (Store.mem_all_of_find? (hfirst.trans hf))
      rw [hfirst, hf]
      exact ⟨b, by rw [origin, hf]; rfl, hcarries hb⟩
  · obtain ⟨b, b', horigin, hf, hold⟩ := h.installed k j hlast
    rw [hf]
    exact ⟨b, origin_append horigin,
      hold.trans (hcarries (h.typed b' (Store.mem_all_of_find? hf)))⟩

/-- One more group comes by. -/
theorem add (h : ctx.Installed c s₀ vs s) (hctx : ctx.Installing c) (hus : ctx.Usable s₀ k)
    (hi : i.Typed) (hown : ctx.owns i.ref = true) (hs' : s'.WellFormed) (ht' : s'.Typed)
    (hfind : ∀ y, s'.find? y = if y = k
      then some (ctx.refreshed c i ((s.find? k).getD (ctx.newRecord i true))) else s.find? y)
    (hmem : ∀ x g, s'.Member x g ↔ s.Member x g) : ctx.Installed c s₀ (vs ++ [(k, i)]) s' where
  wellFormed := hs'
  typed := ht'
  usable := by
    intro y
    by_cases hy : y = k
    · subst hy
      refine iff_of_true (fun q hq => ?_) hus
      rw [hfind, if_pos rfl] at hq
      obtain rfl := Option.some.inj hq
      cases hf : s.find? y with
      | none => exact ⟨rfl, hown⟩
      | some b => exact (h.usable y).2 hus b hf
    · rw [← h.usable, Usable, hfind, if_neg hy, Usable]
  untouched := by
    intro y hy
    have hne : y ≠ k := by
      rintro rfl
      simp [underKey_concat_self] at hy
    rw [underKey_concat_of_ne hne] at hy
    rw [hfind, if_neg hne, h.untouched y hy]
  installed := by
    intro y j hj
    by_cases hy : y = k
    · subst hy
      rw [underKey_concat_self] at hj ⊢
      rw [List.getLast?_concat] at hj
      obtain rfl := Option.some.inj hj
      obtain ⟨b, horigin, hcarries⟩ := h.carries_last hctx hi
      exact ⟨b, _, horigin, (hfind y).trans (if_pos rfl), hcarries⟩
    · rw [underKey_concat_of_ne hy] at hj ⊢
      rw [hfind, if_neg hy]
      exact h.installed y j hj
  member := fun x g => (hmem x g).trans (h.member x g)

/-- Nothing comes by at a reference of the provider whose lookup does not fail and that opens
nothing. -/
theorem unopened (h : ctx.Installed c s₀ vs s) (ho : ctx.policy.owns r = true)
    (hok : ∀ f, ctx.provider.found c r ≠ .error f) (hn : ctx.opening c s₀ r = none) :
    ¬ ctx.Lost c s₀ (d + 1) [some r] ∧
      ctx.Installed c s₀ (vs ++ ctx.visited c s₀ (d + 1) [some r]) s := by
  constructor
  · intro hl
    rcases (lost_single ho).1 hl with ⟨f, hf⟩ | ⟨p, hp, -⟩
    · exact hok f hf
    · cases hn.symm.trans hp
  · rw [visited_single ho, hn]
    simpa using h

/-- Nothing comes by at a reference that is not one of the provider. -/
theorem skipped (h : ctx.Installed c s₀ vs s)
    (ho : ∀ r, ref = some r → ctx.policy.owns r = false) :
    ¬ ctx.Lost c s₀ (d + 1) [ref] ∧
      ctx.Installed c s₀ (vs ++ ctx.visited c s₀ (d + 1) [ref]) s := by
  have hforeign : ctx.own [ref] = [] := own_single_of_foreign ho
  constructor
  · rintro ⟨q, f, ⟨r, hr, -⟩, -⟩
    rw [hforeign] at hr
    cases hr
  · rw [visited, hforeign]
    simpa using h

end Installed

/-! ## The walk -/

/-- The group behind a reference, unless its lookup fails. -/
theorem externalGroup_found_ends {log : Option Channel} (hr : r.Typed) (hc : c.Uncounted)
    (ho : ctx.policy.owns r = true) :
    Sync.Ends c s (ctx.externalGroup (some r) log)
      (fun a s' => s' = s ∧ a = ctx.provider.groupBehind c r ∧
        ∀ f, ctx.provider.found c r ≠ .error f)
      (fun f _ => ctx.provider.found c r = .error f) := by
  have hfetch : Sync.Ends c s (ctx.resolve r) _ _ := (Provider.fetch_gives hr hc).ends
  unfold externalGroup
  simp only [ho, Bool.not_true, Bool.false_eq_true, if_false]
  refine Sync.Ends.bind (hfetch.mono (fun _ _ ha => ha) fun _ _ hf => hf.2) ?_
  rintro a s ⟨rfl, ha⟩
  have hok (f : Failure) : ctx.provider.found c r ≠ .error f := by
    rw [ha]
    nofun
  have hno (hn : ctx.provider.groupBehind c r = none) :
      Sync.Ends c s (externalGroup.notAGroup log r)
        (fun a s' => s' = s ∧ a = ctx.provider.groupBehind c r ∧
          ∀ f, ctx.provider.found c r ≠ .error f)
        (fun f _ => ctx.provider.found c r = .error f) := by
    refine Sync.Ends.step (Sync.Ends.shown (by rintro _ ⟨rfl⟩; exact hr) fun _ => ?_)
    refine Sync.Ends.step (Sync.Ends.log ?_)
    exact Sync.Ends.pure ⟨rfl, hn.symm, hok⟩
  cases a with
  | none => exact hno (Provider.groupBehind_eq_none ha nofun)
  | some i =>
    dsimp only
    split
    · next hg =>
      exact Sync.Ends.pure ⟨rfl, (Provider.groupBehind_eq_some_iff.2 ⟨ha, hg⟩).symm, hok⟩
    · next hg =>
      exact hno (Provider.groupBehind_eq_none ha fun j hj => Option.some.inj hj ▸ hg)

/-- What going on at the groups of a group promises. -/
def Installs (ctx : Context) (c : Scene) (s₀ : Store) (goOn : List (Option Ref) → Sync Unit)
    (d : Nat) : Prop :=
  ∀ ⦃refs : List (Option Ref)⦄ ⦃vs : List (Key × Identity)⦄ ⦃s : Store⦄,
    (∀ r, some r ∈ refs → r.Typed) → ctx.Installed c s₀ vs s →
    Sync.Ends c s (goOn refs)
      (fun _ s' => ¬ ctx.Lost c s₀ d refs ∧ ctx.Installed c s₀ (vs ++ ctx.visited c s₀ d refs) s')
      (fun f _ => f.isA .lookup = true ∧ ctx.Lost c s₀ d refs)

namespace Installing

variable (h : ctx.Installing c)
include h

/-- A placeholder that is there gets the attributes of its group, and those beyond it are made sure
of. -/
theorem syncGroup_installs {goOn : List (Option Ref) → Sync Unit} (hgo : ctx.Installs c s₀ goOn d)
    (hs : ctx.Installed c s₀ vs s) (hus : ctx.Usable s₀ k) (hi : i.Typed)
    (hown : ctx.owns i.ref = true) (hs' : s'.WellFormed) (ht' : s'.Typed)
    (hfind : ∀ y, s'.find? y =
      if y = k then some ((s.find? k).getD (ctx.newRecord i true)) else s.find? y)
    (hmem : ∀ x g, s'.Member x g ↔ s.Member x g) :
    Sync.Ends c s' (do ctx.syncGroup i (.stored k) (some log); goOn i.groups)
      (fun _ s'' => ¬ ctx.Lost c s₀ d i.groups ∧
        ctx.Installed c s₀ (vs ++ (k, i) :: ctx.visited c s₀ d i.groups) s'')
      (fun f _ => f.isA .lookup = true ∧ ctx.Lost c s₀ d i.groups) := by
  have hk := (hfind k).trans (if_pos rfl)
  have hty := ht' _ (Store.mem_all_of_find? hk)
  refine Sync.Ends.bind (syncGroup_unjoined_ends h.storeWorks.foresees hs' hk hty hi h.policy
    (autos_of_dynamic h.dynamic)) ?_
  rintro _ _ rfl
  have hinstalled : ctx.Installed c s₀ (vs ++ [(k, i)])
      (s'.put k (ctx.refreshed c i ((s.find? k).getD (ctx.newRecord i true)))) :=
    hs.add h hus hi hown (hs'.put hk _ ⟨rfl, rfl⟩)
      (ht'.put { hty.takingOver hi _ with lastSynced := .inr h.time })
      (fun y => by rw [Store.find?_put hk, hfind]; split <;> rfl) hmem
  refine (hgo (fun q hq => typed_of_mem_groups hi hq q rfl) hinstalled).mono ?_ fun _ _ => id
  rintro _ s'' ⟨hlost, h''⟩
  exact ⟨hlost, by simpa using h''⟩

/-- The placeholder of one reference is made sure of, and those beyond it. -/
theorem ensureGroup_installs {goOn : List (Option Ref) → Sync Unit} (hgo : ctx.Installs c s₀ goOn d)
    (hr : ∀ r, ref = some r → r.Typed) (hs : ctx.Installed c s₀ vs s) :
    Sync.Ends c s (ctx.ensureGroup log goOn ref)
      (fun _ s' => ¬ ctx.Lost c s₀ (d + 1) [ref] ∧
        ctx.Installed c s₀ (vs ++ ctx.visited c s₀ (d + 1) [ref]) s')
      (fun f _ => f.isA .lookup = true ∧ ctx.Lost c s₀ (d + 1) [ref]) := by
  by_cases ho : ∃ r, ref = some r ∧ ctx.policy.owns r = true
  · obtain ⟨r, rfl, ho⟩ := ho
    have hr := hr r rfl
    unfold ensureGroup
    refine Sync.Ends.bind ((externalGroup_found_ends hr h.uncounted ho).mono (fun _ _ ha => ha)
      fun f _ hf => ⟨Provider.isA_lookup_of_found (h.lookup r hr) hf,
        (lost_single ho).2 (.inl ⟨f, hf⟩)⟩) ?_
    rintro a s ⟨rfl, ha, hok⟩
    cases a with
    | none => exact Sync.Ends.pure (hs.unopened ho hok (by rw [opening, ← ha]; rfl))
    | some i =>
      have hi := h.identity r hr i (Provider.outcome_of_groupBehind ha.symm)
      have hown := h.own r hr ho i (Provider.outcome_of_groupBehind ha.symm)
      obtain ⟨t, hk⟩ := hi.id.toKey
      refine Sync.Ends.bind (placeholder_usable_ends h.storeWorks.foresees hs.wellFormed hs.typed hr
        hi hk) ?_
      rintro a s₁ (⟨hno, rfl, rfl⟩ | ⟨hus, rfl, hwf₁, ht₁, hfind₁, hmem₁⟩)
      · refine Sync.Ends.pure (hs.unopened ho hok (Option.eq_none_iff_forall_ne_some.2 ?_))
        rintro ⟨k', j⟩ hj
        obtain ⟨hj, hk', hus⟩ := opening_eq_some_iff.1 hj
        obtain rfl : i = j := Option.some.inj (ha.trans hj)
        obtain rfl := Except.ok.inj (hk.symm.trans hk')
        exact hno ((hs.usable _).2 hus)
      · have hus₀ := (hs.usable (.text t)).1 hus
        have hopen : ctx.opening c s₀ r = some (.text t, i) :=
          opening_eq_some_iff.2 ⟨ha.symm, hk, hus₀⟩
        refine (h.syncGroup_installs hgo hs hus₀ hi hown hwf₁ ht₁ hfind₁ hmem₁).mono ?_ ?_
        · rintro _ s₂ ⟨hlost, h₂⟩
          refine ⟨fun hl => ?_, by rw [visited_single ho, hopen]; exact h₂⟩
          rcases (lost_single ho).1 hl with ⟨f, hf⟩ | ⟨p, hp, hl⟩
          · exact hok f hf
          · obtain rfl := Option.some.inj (hopen.symm.trans hp)
            exact hlost hl
        · rintro f _ ⟨hf, hlost⟩
          exact ⟨hf, (lost_single ho).2 (.inr ⟨_, hopen, hlost⟩)⟩
  · have hforeign (r : Ref) (hr : ref = some r) : ctx.policy.owns r = false :=
      Bool.eq_false_iff.2 fun howns => ho ⟨r, hr, howns⟩
    unfold ensureGroup
    cases ref with
    | none => exact Sync.Ends.pure (hs.skipped hforeign)
    | some r =>
      unfold externalGroup
      simp only [hforeign r rfl, Bool.not_false, if_true]
      exact Sync.Ends.pure (hs.skipped hforeign)

/-- One hop more than what is done at the groups of the groups. -/
theorem installs_forM {goOn : List (Option Ref) → Sync Unit} (hgo : ctx.Installs c s₀ goOn d) :
    ctx.Installs c s₀ (fun refs => refs.forM (ctx.ensureGroup log goOn)) (d + 1) := by
  intro refs vs s hr hs
  have hnil : ¬ ctx.Lost c s₀ (d + 1) [] := by
    rintro ⟨q, f, ⟨r, hr, -⟩, -⟩
    cases hr
  refine Sync.Ends.forM (I := fun done s' => ¬ ctx.Lost c s₀ (d + 1) done ∧
    ctx.Installed c s₀ (vs ++ ctx.visited c s₀ (d + 1) done) s') ⟨hnil, by simpa [visited, own]⟩ ?_
  rintro done ref rest s' he ⟨hlost, hs'⟩
  refine (h.ensureGroup_installs hgo (fun r hq => hr r (by rw [he, hq]; simp)) hs').mono ?_ ?_
  · rintro _ s'' ⟨hlost', hs''⟩
    rw [lost_append, visited_append, ← List.append_assoc]
    exact ⟨not_or.2 ⟨hlost, hlost'⟩, hs''⟩
  · rintro f _ ⟨hf, hlost'⟩
    rw [he, List.append_cons, lost_append, lost_append]
    exact ⟨hf, .inl (.inr hlost')⟩

/-- The walk installs the placeholders of what it comes by. -/
theorem ensureGroups_installs (d : Nat) : ctx.Installs c s₀ (ctx.ensureGroups log d) (d + 1) := by
  induction d with
  | zero =>
    have hstop : ctx.Installs c s₀ (fun _ => return) 0 := by
      intro refs vs s _ hs
      refine Sync.Ends.pure ⟨?_, ?_⟩
      · rintro ⟨q, f, hq, -⟩
        exact hq
      · simpa [visited] using hs
    exact h.installs_forM hstop
  | succ d ih => exact h.installs_forM ih

end Installing

/-! ## Runs -/

/-- What comes by has a placeholder afterwards. -/
theorem Installed.exists_of_mem (h : ctx.Installed c s vs s') (hs : s.WellFormed)
    (hdyn : ctx.dynamic = true) (hus : ctx.Usable s y) (hi : (y, i) ∈ vs) :
    ∃ b, s'.find? y = some b ∧ b.isGroup = true ∧ ctx.owns b.ref = true ∧
      (s.find? y = none → b.mode = some .dynamic ∧ ∀ x, ¬ s'.Member x y) := by
  have hne : underKey y vs ≠ [] := List.ne_nil_of_mem (mem_underKey.2 hi)
  obtain ⟨b, b', horigin, hb, hcarries⟩ :=
    h.installed y _ (List.getLast?_eq_some_getLast hne)
  obtain ⟨hgroup, hown⟩ := (h.usable y).2 hus b' hb
  refine ⟨b', hb, hgroup, hown, fun hnew => ⟨?_, fun x hx => ?_⟩⟩
  · rw [origin, hnew, Option.none_or, Option.map_eq_some_iff] at horigin
    obtain ⟨j, -, rfl⟩ := horigin
    rw [hcarries.same]
    simp [newRecord, recordMode, hdyn]
  · obtain ⟨-, q, hq, -⟩ := hs.exists_of_member ((h.member x y).1 hx)
    rw [hnew] at hq
    cases hq

theorem lost_iff_breaks {depth : Int} :
    ctx.Lost c s depth.toNat refs ↔ ctx.Breaks c s depth refs := by
  simp only [Lost, Breaks, meets_iff]
  constructor
  · rintro ⟨q, f, ⟨rs, hopen, hchain, hlen⟩, hf⟩
    exact ⟨rs, q, f, hopen, by omega, hchain, hf⟩
  · rintro ⟨rs, q, f, hopen, hlen, hchain, hf⟩
    exact ⟨q, f, ⟨rs, hopen, hchain, by omega⟩, hf⟩

theorem mem_visited_iff_comesBy {depth : Int} :
    (y, i) ∈ ctx.visited c s depth.toNat refs ↔ ctx.ComesBy c s depth refs y i := by
  simp only [mem_visited_iff, meets_iff, opening_eq_some_iff, ComesBy, List.length_append,
    List.length_singleton]
  constructor
  · rintro ⟨q, ⟨rs, hopen, hchain, hlen⟩, hi, hk, hus⟩
    refine ⟨rs, q, ⟨hchain, fun r hr => ?_⟩, by omega, hi, hk⟩
    rcases List.mem_append.1 hr with hr | hr
    · exact hopen.clear r hr
    · obtain rfl := List.mem_singleton.1 hr
      exact ⟨i, y, hi, hk, hus⟩
  · rintro ⟨rs, q, hopen, hlen, hi, hk⟩
    obtain ⟨j, y', hj, hy', hus⟩ := hopen.clear q (by simp)
    obtain rfl : i = j := Option.some.inj (hi.symm.trans hj)
    obtain rfl : y = y' := Except.ok.inj (hk.symm.trans hy')
    exact ⟨q, ⟨rs, ⟨hopen.toChain.of_append, fun r hr => hopen.clear r (by simp [hr])⟩,
      hopen.toChain, by omega⟩, hi, hk, hus⟩

/-- Making sure of placeholders for a number of hops, at least one, fails, and then as lookups do,
if and only if a lookup on the way fails. Otherwise the groups that open chains lead to have
placeholders, which carry the attributes of the last one to come by under their keys; new ones are
in dynamic mode and without members. No other record and no membership is touched. -/
theorem ensureGroups_exact {w : World} {depth : Int} (ctx : Context) (log : Channel)
    (hctx : ctx.Grounded) (hdyn : ctx.dynamic = true) (hp : ctx.policy.Typed)
    (hmapping : Fields.Distinct ctx.policy.group.propertyMapping) (hstore : w.scene.StoreWorks)
    (hcount : w.scene.Uncounted) (hclock : w.clock.IsTime) (hs : w.store.WellFormed)
    (ht : w.store.Typed) (hrefs : ∀ r, some r ∈ refs → r.Typed) (hdepth : 1 ≤ depth) :
    ((∃ f w', ctx.ensureGroups log (depth - 1).toNat refs w = (.error f, w') ∧
        f.isA .lookup = true) ↔ ctx.Breaks w.scene w.store depth refs) ∧
    (¬ ctx.Breaks w.scene w.store depth refs →
      ∃ w', ctx.ensureGroups log (depth - 1).toNat refs w = (.ok (), w') ∧
        ctx.Installed w.scene w.store (ctx.visited w.scene w.store depth.toNat refs) w'.store ∧
        (∀ y i, (y, i) ∈ ctx.visited w.scene w.store depth.toNat refs ↔
          ctx.ComesBy w.scene w.store depth refs y i) ∧
        ∀ y i, ctx.ComesBy w.scene w.store depth refs y i →
          ∃ b, w'.store.find? y = some b ∧ b.isGroup = true ∧ ctx.owns b.ref = true ∧
            (w.store.find? y = none → b.mode = some .dynamic ∧ ∀ x, ¬ w'.store.Member x y)) := by
  have hinstalling : ctx.Installing w.scene := ⟨hctx, hdyn, hp, hmapping, hstore, hcount, hclock⟩
  have hinstalls : ctx.Installs w.scene w.store (ctx.ensureGroups log (depth - 1).toNat)
      ((depth - 1).toNat + 1) := hinstalling.ensureGroups_installs _
  have hends := (hinstalls hrefs (.refl hs ht)).holds w rfl rfl
  rw [show (depth - 1).toNat + 1 = depth.toNat by omega, List.nil_append, lost_iff_breaks] at hends
  rcases hrun : ctx.ensureGroups log (depth - 1).toNat refs w with ⟨f | _, w'⟩ <;>
    rw [hrun] at hends
  · obtain ⟨-, hf, hbreaks⟩ := hends
    exact ⟨iff_of_true ⟨f, w', rfl, hf⟩ hbreaks, fun hno => absurd hbreaks hno⟩
  · obtain ⟨-, hno, hinstalled⟩ := hends
    refine ⟨iff_of_false ?_ hno, fun _ => ⟨w', rfl, hinstalled, fun y i => mem_visited_iff_comesBy,
      fun y i hi => ?_⟩⟩
    · rintro ⟨f, w'', hf, -⟩
      cases hf
    · have hmem := mem_visited_iff_comesBy.2 hi
      obtain ⟨rs, q, hopen, -, hq, hk⟩ := hi
      obtain ⟨j, y', hj, hy', hus⟩ := hopen.clear q (by simp)
      obtain rfl : i = j := Option.some.inj (hq.symm.trans hj)
      obtain rfl : y = y' := Except.ok.inj (hk.symm.trans hy')
      exact hinstalled.exists_of_mem hs hdyn hus hmem

/-- A provider in memory answers with its own identities only. -/
theorem grounded_ofMemory {p : Policy} {m : Memory} (hp : p.provider.IsText) (hm : m.Typed)
    (dynamic : Bool) : (ofMemory p m dynamic).Grounded where
  lookup := hm.definite.lookup
  identity := hm.definite.identity
  own := by
    intro r hr ho i hi
    rw [show (ofMemory p m dynamic).provider = m.provider from rfl, Memory.outcome_lookup] at hi
    obtain ⟨a, ha, hholds⟩ := hm.resolve hr
    obtain rfl : a = some i := Except.ok.inj (ha.symm.trans hi)
    rw [(hholds i rfl).ref]
    refine (owns_ref_iff hp hm.name _).2 ?_
    obtain ⟨name, hname⟩ := hm.name
    obtain ⟨t, ht⟩ := hp
    have hknown : (r.provider == m.name) = true := by
      by_contra hno
      rw [Memory.resolve, if_neg hno] at ha
      cases ha
    have howns : (r.provider == p.provider) = true := ho
    rw [hname, Value.beq_text_iff] at hknown
    rw [ht, Value.beq_text_iff] at howns
    exact (ht.trans (howns.symm.trans hknown)).trans hname.symm

/-- Two groups in a circle get their placeholders, unless one of them cannot be looked up. -/
theorem ensureGroups_exact_cyclicGroups :
    (∃ w' b, (ofMemory twoHops cyclicGroups true).ensureGroups ⟨"test", none⟩ 2
        [some ⟨.text "g", .text "P"⟩] {} = (.ok (), w') ∧
      w'.store.find? (.text "h") = some b ∧ b.isGroup = true ∧ b.mode = some .dynamic) ∧
    ∃ f w', (ofMemory twoHops cyclicGroups true).ensureGroups ⟨"test", none⟩ 2
        [some ⟨.text "g", .text "P"⟩] { faults := { resolve := [.text "h"] } } = (.error f, w') ∧
      f.isA .lookup = true := by
  have hctx : (ofMemory twoHops cyclicGroups true).Grounded :=
    grounded_ofMemory typed_twoHops.provider typed_cyclicGroups true
  have hrefs : ∀ r, some r ∈ [some (Ref.mk (.text "g") (.text "P"))] → r.Typed := by
    intro r hr
    obtain ⟨q, hq, ht⟩ := typedRefs_text "g" "P" _ hr
    exact Option.some.inj hq ▸ ht
  have hhops : (1 : Int) ≤ 3 := by decide
  have hclock : (Value.int 1000).IsTime := Value.isTime_int (by decide)
  -- the first group declares the second one, and nothing is in its way
  have hopen {c : Scene} (hc : c.hides ⟨.text "g", .text "P"⟩ = false) :
      (ofMemory twoHops cyclicGroups true).OpenChain c {} [some ⟨.text "g", .text "P"⟩]
        [⟨.text "g", .text "P"⟩] ∧
      (ofMemory twoHops cyclicGroups true).Chain c [some ⟨.text "g", .text "P"⟩]
        [⟨.text "g", .text "P"⟩, ⟨.text "h", .text "P"⟩] := by
    have hg : (ofMemory twoHops cyclicGroups true).provider.groupBehind c
        ⟨.text "g", .text "P"⟩ = some (cyclicGroups.entry .group "g"
          [some ⟨.text "h", .text "P"⟩]) := by
      rw [Provider.groupBehind, Provider.found, hc]
      rfl
    have hchain : (ofMemory twoHops cyclicGroups true).Chain c [some ⟨.text "g", .text "P"⟩]
        [⟨.text "g", .text "P"⟩, ⟨.text "h", .text "P"⟩] :=
      (chain_cons (by simp)).2 ⟨List.mem_cons_self, _, hg, chain_singleton.2 List.mem_cons_self⟩
    refine ⟨⟨chain_singleton.2 List.mem_cons_self, ?_⟩, hchain⟩
    rintro r hr
    obtain rfl := List.mem_singleton.1 hr
    exact ⟨_, _, hg, rfl, usable_of_none rfl⟩
  obtain ⟨hiff, hdone⟩ := ensureGroups_exact (w := {}) (ofMemory twoHops cyclicGroups true)
    ⟨"test", none⟩ hctx rfl typed_twoHops .nil (.of_faults rfl rfl) (.of_faults rfl rfl) hclock
    Store.wellFormed_empty Store.typed_empty hrefs hhops
  obtain ⟨hfails, -⟩ := ensureGroups_exact (w := { faults := { resolve := [.text "h"] } })
    (ofMemory twoHops cyclicGroups true) ⟨"test", none⟩ hctx rfl typed_twoHops .nil
    (.of_faults rfl rfl) (.of_faults rfl rfl) hclock Store.wellFormed_empty Store.typed_empty
    hrefs hhops
  obtain ⟨w', hrun, -, -, hplaced⟩ := hdone fun hbreaks => by
    obtain ⟨f, w', hf, -⟩ := hiff.2 hbreaks
    cases congrArg Prod.fst hf
  obtain ⟨hg, hgh⟩ := hopen (c := World.scene {}) rfl
  have hclear : ∀ r ∈ [Ref.mk (.text "g") (.text "P"), ⟨.text "h", .text "P"⟩], ∃ i k,
      (ofMemory twoHops cyclicGroups true).provider.groupBehind (World.scene {}) r = some i ∧
        i.id.toKey = .ok k ∧ (ofMemory twoHops cyclicGroups true).Usable {} k :=
    List.forall_mem_cons.2 ⟨hg.clear _ List.mem_cons_self,
      List.forall_mem_singleton.2 ⟨_, _, rfl, rfl, usable_of_none rfl⟩⟩
  obtain ⟨b, hb, hgroup, -, hmode⟩ := hplaced (.text "h") (cyclicGroups.entry .group "h"
    [some ⟨.text "g", .text "P"⟩]) ⟨[⟨.text "g", .text "P"⟩], ⟨.text "h", .text "P"⟩,
      ⟨hgh, hclear⟩, by decide, rfl, rfl⟩
  obtain ⟨hg', hgh'⟩ := hopen (c := World.scene { faults := { resolve := [.text "h"] } }) rfl
  exact ⟨⟨w', b, hrun, hb, hgroup, (hmode rfl).1⟩, hfails.2 ⟨_, ⟨.text "h", .text "P"⟩, _, hg',
    by decide, hgh', rfl⟩⟩

end Context

end Roster
