import Roster.Proofs.Making
import Roster.Sync

/-!
# What a synchronisation does to a store

Whatever data it meets and wherever it fails, every part of a synchronisation makes changes within
the remit of its context only (`Remit.Covers`). Each function has one lemma:

* `syncGroup_makes`, `materialize_makes`, `ensureGroups_makes`: attributes, member lists and
  placeholders let a store grow.
* `collect_leaves`: collecting names leaves it.
* `unwind_makes`: unwinding lets it shrink.
* `syncUser_turns`: synchronising a user lets it grow and then shrink.
-/

namespace Roster

open Sync (Leaves Makes TurnsOver)

/-! ## Remits -/

/-- Memberships begin in a standard context, and in a dynamic one that leaves records of the legacy
mode as they are and follows groups at all. -/
def Context.Admits (ctx : Context) : Prop :=
  ctx.dynamic = false ∨ ctx.policy.enforcesDynamic = false ∧ 0 < ctx.policy.user.nestingDepth

namespace Remit

/-- A remit has what a context takes for its own: the groups of its provider, whatever its provider
finds, and its auto-membership groups. What the context makes of records and memberships is within
the remit. -/
structure Covers (rm : Remit) (ctx : Context) : Prop where
  owned : ∀ ref, ctx.owns ref = true → rm.near ref
  found : ∀ q i, (ctx.provider.lookup q).outcome = .ok (some i) → rm.near i.ref
  joined : ∀ isGroup k, k ∈ (ctx.policy.autoMembershipFor isGroup).keys → rm.auto k
  born : rm.born (some ctx.recordMode)
  converts : ctx.dynamic = true → ∀ r : Record, r.isGroup = false → rm.converts r
  fills : ctx.Admits → rm.fills

/-- The remit in which everything may be changed. -/
def anything : Remit where
  own _ := True
  near _ := True
  auto _ := True

theorem anything_covers (ctx : Context) : anything.Covers ctx where
  owned _ _ := trivial
  found _ _ _ := trivial
  joined _ _ _ := trivial
  born := trivial
  converts _ _ _ := trivial
  fills _ := trivial

/-- The record under a key may be changed. -/
def Touches (rm : Remit) (s : Store) (k : Key) : Prop :=
  rm.own k ∨ ∃ g, s.find? k = some g ∧ g.isGroup = true ∧ rm.near g.ref

variable {rm : Remit} {s s' : Store} {k : Key} {r : Record}

theorem Touches.allows (h : rm.Touches s k) (hk : s.find? k = some r) : rm.Allows k r := by
  refine h.imp id ?_
  rintro ⟨g, hg, h⟩
  obtain rfl : r = g := Option.some.inj (hk.symm.trans hg)
  exact h

theorem Touches.later (h : rm.Touches s k) (hs : rm.Changes .growing s s') : rm.Touches s' k := by
  refine h.imp id ?_
  rintro ⟨g, hg, hgroup, hn⟩
  obtain ⟨g', hg', hb⟩ := hs.kept hg
  exact ⟨g', hg', hb.isGroup.trans hgroup, hb.ref.symm ▸ hn⟩

end Remit

namespace Store

/-- What a record is a member of are groups of the store. -/
theorem WellFormed.mem_memberOf {s : Store} (h : s.WellFormed) {id : Value} {gs : List Record}
    {g : Record} (hgs : s.memberOf id = .ok gs) (hg : g ∈ gs) :
    ∃ k, s.find? k = some g ∧ g.isGroup = true := by
  cases hid : id.toScalar with
  | ok a =>
    obtain ⟨gs', hgs', hmem⟩ := s.memberOf_ok (Value.toKey_eq_ok_iff.2 ⟨a, hid, rfl⟩)
    obtain rfl : gs' = gs := Except.ok.inj (hgs'.symm.trans hgs)
    obtain ⟨k, hk, hm⟩ := (hmem g).1 hg
    obtain ⟨-, g', hg', hgroup⟩ := h.exists_of_member hm
    obtain rfl : g = g' := Option.some.inj (hk.symm.trans hg')
    exact ⟨k, hk, hgroup⟩
  | error f =>
    unfold memberOf at hgs
    split at hgs
    · obtain rfl := Except.ok.inj hgs
      cases hg
    · simp [hid, bind, Except.bind] at hgs

end Store

namespace Context

variable {ctx : Context} {rm : Remit} {p : Phase} {c : Scene} {s : Store} {k : Key} {r g : Record}
  {i : Identity} {log : Channel}

/-! ## Attributes -/

theorem syncProperties_makes (hs : s.WellFormed) (ht : rm.Touches s k) (mapping : Value) :
    Makes rm .growing c s (syncProperties i (.stored k) mapping) fun _ _ => True := by
  have hname (r : Record) : r.Becomes { r with principalName := i.principalName } :=
    ⟨rfl, rfl, rfl, fun h => ⟨h, rfl⟩⟩
  have hprops (v : Value) (r : Record) : r.Becomes { r with properties := v } :=
    ⟨rfl, rfl, rfl, fun h => ⟨h, rfl⟩⟩
  unfold syncProperties
  refine Makes.after Leaves.requireKnown fun _ _ => ?_
  refine Makes.bind hs (Makes.update hs fun r hr => ⟨ht.allows hr, hname r, .inl rfl⟩) ?_
  rintro _ s₁ hs₁ h₁ -
  have ht := ht.later h₁
  split
  · refine Makes.after (Leaves.result fun _ _ => trivial) fun properties _ => ?_
    refine Makes.mono (Makes.modify (f := fun r => { r with properties := .mapping properties }) hs₁
      (fun _ => rfl) (fun _ => rfl) fun r hr => ⟨ht.allows hr, hprops _ r, .inl rfl⟩)
      fun _ _ _ => trivial
  · refine Makes.after (Leaves.record k) fun r _ => ?_
    split
    · next names external own _ _ _ =>
      refine Makes.bind hs₁ (Makes.modify (f := fun r => { r with
        properties := .mapping (copyProperties external own names).1 }) hs₁ (fun _ => rfl)
        (fun _ => rfl) fun r hr => ⟨ht.allows hr, hprops _ r, .inl rfl⟩) ?_
      rintro _ s₂ _ _ -
      split
      · exact Makes.throw
      · exact Makes.pure trivial
    · exact Makes.throw

theorem stamp_makes (hs : s.WellFormed) (ht : rm.Touches s k) :
    Makes rm p c s (stamp (.stored k)) fun _ s' =>
      s' = s.modify k fun r => { r with lastSynced := c.clock } := by
  unfold stamp
  refine Sync.Ends.get (fun _ w w' hc _ hc' _ => ?_) fun w hc _ => ?_
  · have hclock : w.clock = w'.clock := congrArg Scene.clock (hc.trans hc'.symm)
    simp only [hclock]
  subst hc
  exact Makes.update hs fun r hr =>
    ⟨ht.allows hr, ⟨rfl, rfl, rfl, fun h => ⟨h, rfl⟩⟩, .inl rfl⟩

theorem joinGroup_makes (hs : s.WellFormed) (hfills : rm.fills) {id : Value}
    (hid : ∀ k, id.toKey = .ok k → rm.auto k) :
    Makes rm .growing c s (joinGroup r log id) fun _ _ => True := by
  have hmissing : Makes rm .growing c s (joinGroup.missing log id) fun _ _ => True :=
    Leaves.log.makes fun _ _ => trivial
  unfold joinGroup
  refine Makes.after (Leaves.lookUp id) ?_
  rintro _ ⟨k, hk, rfl⟩
  cases hf : s.find? k with
  | none => exact hmissing
  | some g =>
    simp only [Option.map_some]
    split
    · refine Makes.bind hs (Makes.addMember hfills (hs.toKey_of_find? hf) (.inr (hid k hk))) ?_
      exact fun _ _ _ _ _ => Makes.pure trivial
    · exact hmissing

theorem mem_keys_of_inOrder {names : NameSet} {ids : List Value} (h : inOrder names = .ok ids)
    {id : Value} (hid : id ∈ ids) (hk : id.toKey = .ok k) : k ∈ names.keys := by
  unfold inOrder Store.orderedNames at h
  cases ho : names.inOrder? with
  | none => simp [ho, bind, Except.bind] at h
  | some ns =>
    have hns : ns = names.members := by
      unfold NameSet.inOrder? at ho
      split at ho
      · exact (Option.some.inj ho).symm
      · cases ho
    simp only [ho, bind, Except.bind, pure, Except.pure, Except.ok.injEq] at h
    subst h hns
    obtain ⟨a, ha, rfl⟩ := List.mem_map.1 hid
    obtain rfl : a.key = k := Except.ok.inj hk
    exact List.mem_map_of_mem ha

/-- A standard context adds a record to auto-membership groups, a dynamic one leaves the store. -/
theorem applyMembership_makes (h : rm.Covers ctx) (hs : s.WellFormed) (isGroup : Bool)
    (log : Option Channel) :
    Makes rm .growing c s (ctx.applyMembership (.stored k)
      (inOrder (ctx.policy.autoMembershipFor isGroup)) log) fun _ _ => True := by
  unfold applyMembership
  refine Makes.after (Leaves.record k) fun r _ => ?_
  split
  · exact Leaves.log.makes fun _ _ => trivial
  · next hd =>
    have hfills := h.fills (.inl (by simpa using hd))
    refine Makes.after (Leaves.result fun _ => id) fun ids hids => ?_
    refine Makes.forM (I := fun _ => True) hs trivial fun id hid s' hs' _ _ => ?_
    exact joinGroup_makes hs' hfills fun k hk =>
      h.joined isGroup k (mem_keys_of_inOrder hids hid hk)

theorem applyMembership_leaves (hd : ctx.dynamic = true) {groups : Except Failure (List Value)}
    {log : Option Channel} :
    Leaves c s (ctx.applyMembership (.stored k) groups log) fun _ => True := by
  unfold applyMembership
  refine Leaves.bind (Leaves.record k) fun r _ => ?_
  rw [if_pos hd]
  exact Leaves.log

/-- The record as it stands after it was marked as synchronised. -/
def Stamped (c : Scene) (k : Key) (s : Store) : Prop :=
  ∃ t : Store, s = t.modify k fun r => { r with lastSynced := c.clock }

theorem syncGroup_makes (h : rm.Covers ctx) (hs : s.WellFormed) (ht : rm.Touches s k)
    (log : Option Channel) :
    Makes rm .growing c s (ctx.syncGroup i (.stored k) log) fun _ s' => Stamped c k s' := by
  unfold syncGroup
  refine Makes.bind hs (syncProperties_makes hs ht _) ?_
  rintro _ s₁ hs₁ h₁ -
  refine Makes.bind hs₁ (applyMembership_makes h hs₁ true log) ?_
  rintro _ s₂ hs₂ h₂ -
  exact (stamp_makes hs₂ ((ht.later h₁).later h₂)).mono fun _ s₃ h₃ => ⟨s₂, h₃⟩

/-! ## Lookups -/

/-- A lookup leaves the store; its answer is the provider's. -/
theorem resolve_leaves (q : Ref) :
    Leaves c s (ctx.resolve q) fun a => (ctx.provider.lookup q).outcome = .ok a := by
  unfold resolve Provider.fetch
  refine Leaves.bind (Leaves.shown _) fun _ _ => ?_
  refine Leaves.bind (P := fun _ => True) (Sync.Ends.call ⟨rfl, trivial⟩) fun _ _ => ?_
  refine Leaves.bind Leaves.takeTurn fun _ _ => ?_
  refine Leaves.bind (P := fun _ => True)
    (Sync.Ends.modify (fun _ => rfl) (fun _ hs => hs) ⟨rfl, trivial⟩) fun _ _ => ?_
  refine Sync.Ends.get ?_ fun w _ _ => ?_
  · intro hu w w' hc _ hc' _
    have hf (w : World) (hc : w.scene = c) : w.faults = c.faults := congrArg Scene.faults hc
    simp only [hf w hc, hf w' hc', hu.1, Option.any_none]
  split
  · exact Leaves.throw
  · exact Sync.Ends.reply (fun a ha => ⟨rfl, ha⟩) fun _ _ => rfl

theorem directName_leaves (q : Ref) : Leaves c s (ctx.directName q) fun _ => True := by
  have hno : Leaves c s (Provider.principalName.notAGroup q) fun _ => True :=
    Leaves.bind (Leaves.shown _) fun _ _ => Leaves.throw
  unfold directName Provider.principalName
  refine Leaves.bind (Leaves.shown _) fun _ _ => ?_
  refine Leaves.bind (P := fun _ => True) (Sync.Ends.call ⟨rfl, trivial⟩) fun _ _ => ?_
  refine Leaves.bind Leaves.takeTurn fun _ _ => ?_
  refine Sync.Ends.get ?_ fun w _ _ => ?_
  · intro _ w w' hc _ hc' _
    have hf : w.faults = w'.faults := congrArg Scene.faults (hc.trans hc'.symm)
    simp only [hf]
  have hthrow {β : Type} {f : Failure} {g : PUnit → Sync β} :
      Leaves c s (throw f >>= g) fun _ => True :=
    Leaves.bind (P := fun _ => False) Leaves.throw fun _ => False.elim
  dsimp only
  split
  · exact hthrow
  · split
    · exact hthrow
    · refine Leaves.bind (P := fun _ => True)
        (Sync.Ends.reply (fun _ _ => ⟨rfl, trivial⟩) fun _ _ => rfl) fun a _ => ?_
      split
      · exact Leaves.pure trivial
      · refine Leaves.bind (resolve_leaves q) fun b _ => ?_
        split
        · split
          · exact Leaves.pure trivial
          · exact hno
        · exact hno

/-- What is found behind a reference is a group that the provider knows. -/
theorem externalGroup_leaves (ref : Option Ref) (log : Option Channel) :
    Leaves c s (ctx.externalGroup ref log) fun a =>
      ∀ i, a = some i → i.isGroup = true ∧ ∃ q, (ctx.provider.lookup q).outcome = .ok (some i) := by
  have hno (q : Ref) : Leaves c s (externalGroup.notAGroup log q) fun a => ∀ i, a = some i →
      i.isGroup = true ∧ ∃ q, (ctx.provider.lookup q).outcome = .ok (some i) :=
    Leaves.bind (Leaves.shown _) fun _ _ => Leaves.bind Leaves.log fun _ _ => Leaves.pure nofun
  unfold externalGroup
  split
  · exact Leaves.pure nofun
  · next q =>
    split
    · exact Leaves.pure nofun
    · refine Leaves.bind (resolve_leaves q) fun a ha => ?_
      split
      · next i =>
        split
        · next hg =>
          refine Leaves.pure ?_
          rintro _ ⟨rfl⟩
          exact ⟨hg, q, ha⟩
        · exact hno q
      · exact hno q

/-! ## Member lists -/

/-- The record of a new group of the provider is made within the remit. -/
theorem allows_newGroup (hn : rm.near i.ref) (k : Key) : rm.Allows k (ctx.newRecord i true) :=
  .inr ⟨rfl, hn⟩

theorem localGroup_makes (h : rm.Covers ctx) (hs : s.WellFormed) (hn : rm.near i.ref) :
    Makes rm .growing c s (ctx.localGroup i log) fun a s' => ∀ x g, a = some (x, g) →
      ∃ k, x = .stored k ∧ s'.find? k = some g ∧ g.isGroup = true ∧ rm.near g.ref := by
  unfold localGroup
  refine Makes.after (Leaves.lookUp i.id) ?_
  rintro _ ⟨k, hk, rfl⟩
  cases hf : s.find? k with
  | none =>
    simp only [Option.map_none]
    refine Makes.bind hs (Makes.create rfl h.born fun k _ => allows_newGroup hn k) ?_
    rintro _ s₁ hs₁ h₁ ⟨k, rfl, -, -, hk₁⟩
    have ht : rm.Touches s₁ k := .inr ⟨_, hk₁, rfl, hn⟩
    refine Makes.bind hs₁ (syncGroup_makes h hs₁ ht _) ?_
    rintro _ s₂ hs₂ h₂ -
    refine Makes.after (Leaves.record k) fun g hg => Makes.pure ?_
    rintro _ _ ⟨rfl, rfl⟩
    obtain ⟨g', hg', hb⟩ := h₂.kept hk₁
    obtain rfl : g' = g := Option.some.inj (hg'.symm.trans hg)
    exact ⟨k, rfl, hg, hb.isGroup.trans rfl, hb.ref.symm ▸ hn⟩
  | some g =>
    simp only [Option.map_some]
    split
    · next hg =>
      obtain ⟨hgroup, hown⟩ := Bool.and_eq_true_iff.1 hg
      refine Makes.pure ?_
      rintro _ _ ⟨rfl, rfl⟩
      exact ⟨k, rfl, hf, hgroup, h.owned _ hown⟩
    · exact Makes.after Leaves.log fun _ _ => Makes.pure nofun

/-- What going on at a group promises. -/
def GrowsUp (rm : Remit) (c : Scene) (goOn : Identity → Subject → Sync Unit) : Prop :=
  ∀ {i : Identity} {s : Store} {k : Key}, s.WellFormed →
    Makes rm .growing c s (goOn i (.stored k)) fun _ _ => True

theorem declareGroup_makes {goOn : Identity → Subject → Sync Unit} (h : rm.Covers ctx)
    (hfills : rm.fills) (hgo : GrowsUp rm c goOn) (hs : s.WellFormed) (declared : List Key)
    (ref : Option Ref) :
    Makes rm .growing c s (ctx.declareGroup log r goOn declared ref) fun _ _ => True := by
  unfold declareGroup
  split
  · refine Makes.after (Leaves.shown _) fun _ _ => ?_
    exact Makes.after Leaves.log fun _ _ => Makes.pure trivial
  · refine Makes.after (externalGroup_leaves ref _) fun a ha => ?_
    cases a with
    | none => exact Makes.pure trivial
    | some i =>
      obtain ⟨-, q, hq⟩ := ha i rfl
      refine Makes.bind hs (localGroup_makes h hs (h.found q i hq)) ?_
      rintro a s₁ hs₁ - hg
      match a with
      | none => exact Makes.pure trivial
      | some (x, g) =>
        obtain ⟨k, rfl, hk, -, hn⟩ := hg x g rfl
        refine Makes.bind hs₁
          (Makes.addMember hfills (hs₁.toKey_of_find? hk) (.inl ⟨g, hk, hn⟩)) ?_
        rintro _ s₂ hs₂ - -
        refine Makes.after (Leaves.result fun _ _ => trivial) fun _ _ => ?_
        exact Makes.bind hs₂ (hgo hs₂) fun _ _ _ _ _ => Makes.pure trivial

theorem pruneGroup_makes (h : rm.Covers ctx) (hs : s.WellFormed) (hk : s.find? k = some g)
    (declared : List Key) :
    Makes rm p c s (ctx.pruneGroup log r declared g) fun _ s' => s'.records = s.records := by
  unfold pruneGroup
  refine Makes.after (Leaves.result fun _ _ => trivial) fun key _ => ?_
  split
  · next hg =>
    have hn := h.owned _ (Bool.and_eq_true_iff.1 hg).2
    refine Makes.bind hs (Makes.removeMember hs (hs.toKey_of_find? hk) (.inl ⟨g, hk, hn⟩)) ?_
    exact fun _ s' _ _ hr => Makes.after Leaves.log fun _ _ => Makes.pure hr
  · exact Makes.pure rfl

/-- Where no group is followed, no membership begins. -/
theorem materialize_makes (h : rm.Covers ctx) (d : Nat) (hfills : d ≠ 0 → rm.fills) :
    GrowsUp rm c (ctx.materialize log d) := by
  induction d with
  | zero => exact fun _ => Makes.pure trivial
  | succ d ih =>
    intro i s k hs
    have hfills : rm.fills := hfills (Nat.succ_ne_zero d)
    have ih : GrowsUp rm c (ctx.materialize log d) := ih fun _ => hfills
    unfold materialize
    refine Makes.after Leaves.requireKnown fun _ _ => ?_
    refine Makes.after (Leaves.record k) fun r _ => ?_
    refine Makes.bind hs (Makes.foldlM (Q := fun _ _ => True) hs trivial
      fun ref _ declared s₁ hs₁ _ _ => declareGroup_makes h hfills ih hs₁ declared ref) ?_
    rintro declared s₁ hs₁ - -
    refine Sync.Ends.get (fun _ _ _ _ hs _ hs' => by rw [hs, hs']) fun w _ hw => ?_
    rw [hw]
    refine Makes.after (Leaves.result fun _ => id) fun gs hgs => ?_
    refine Makes.mono (Makes.forM (I := fun s' => s'.records = s₁.records) hs₁ rfl ?_)
      fun _ _ _ => trivial
    intro g hg s₂ hs₂ _ hr
    obtain ⟨j, hj, -⟩ := hs₁.mem_memberOf hgs hg
    have hj₂ : s₂.find? j = some g := by rw [Store.find?, hr]; exact hj
    exact (pruneGroup_makes h hs₂ hj₂ declared).mono fun _ _ hr' => hr'.trans hr

/-! ## Placeholders -/

theorem placeholder_makes (h : rm.Covers ctx) (hs : s.WellFormed) (hn : rm.near i.ref) (q : Ref) :
    Makes rm .growing c s (ctx.placeholder log q i) fun a s' => ∀ x, a = some x →
      ∃ k, x = .stored k ∧ rm.Touches s' k := by
  unfold placeholder
  refine Makes.after (Leaves.lookUp i.id) ?_
  rintro _ ⟨k, hk, rfl⟩
  cases hf : s.find? k with
  | none =>
    simp only [Option.map_none]
    refine Makes.bind hs (Makes.create rfl h.born fun k _ => allows_newGroup hn k) ?_
    rintro _ s₁ _ _ ⟨k, rfl, -, -, hk₁⟩
    refine Makes.after (Leaves.shown _) fun _ _ => ?_
    refine Makes.after Leaves.audit fun _ _ => ?_
    refine Makes.after Leaves.log fun _ _ => Makes.pure ?_
    rintro _ ⟨rfl⟩
    exact ⟨k, rfl, .inr ⟨_, hk₁, rfl, hn⟩⟩
  | some g =>
    simp only [Option.map_some]
    split
    · next hg =>
      obtain ⟨hgroup, hown⟩ := Bool.and_eq_true_iff.1 hg
      refine Makes.pure ?_
      rintro _ ⟨rfl⟩
      exact ⟨k, rfl, .inr ⟨g, hf, hgroup, h.owned _ hown⟩⟩
    · exact Makes.after Leaves.log fun _ _ => Makes.pure nofun

/-- What going on at the groups of a group promises. -/
def GrowsWide (rm : Remit) (c : Scene) (goOn : List (Option Ref) → Sync Unit) : Prop :=
  ∀ {refs : List (Option Ref)} {s : Store}, s.WellFormed →
    Makes rm .growing c s (goOn refs) fun _ _ => True

theorem ensureGroup_makes {goOn : List (Option Ref) → Sync Unit} (h : rm.Covers ctx)
    (hgo : GrowsWide rm c goOn) (hs : s.WellFormed) (ref : Option Ref) :
    Makes rm .growing c s (ctx.ensureGroup log goOn ref) fun _ _ => True := by
  unfold ensureGroup
  split
  · next q =>
    refine Makes.after (externalGroup_leaves (some q) _) fun a ha => ?_
    split
    · next i =>
      obtain ⟨-, q', hq'⟩ := ha i rfl
      refine Makes.bind hs (placeholder_makes h hs (h.found q' i hq') q) ?_
      rintro a s₁ hs₁ - hx
      split
      · next x =>
        obtain ⟨k, rfl, ht⟩ := hx x rfl
        refine Makes.bind hs₁ (syncGroup_makes h hs₁ ht _) ?_
        exact fun _ s₂ hs₂ _ _ => hgo hs₂
      · exact Makes.pure trivial
    · exact Makes.pure trivial
  · exact Makes.pure trivial

theorem ensureGroups_makes (h : rm.Covers ctx) (more : Nat) :
    GrowsWide rm c (ctx.ensureGroups log more) := by
  have hall {goOn : List (Option Ref) → Sync Unit} (hgo : GrowsWide rm c goOn)
      {refs : List (Option Ref)} {s : Store} (hs : s.WellFormed) :
      Makes rm .growing c s (refs.forM (ctx.ensureGroup log goOn)) fun _ _ => True :=
    Makes.forM (I := fun _ => True) hs trivial
      fun ref _ s₁ hs₁ _ _ => ensureGroup_makes h hgo hs₁ ref
  induction more with
  | zero => exact fun hs => hall (fun _ => Makes.pure trivial) hs
  | succ more ih => exact fun hs => hall ih hs

theorem ensurePlaceholders_makes (h : rm.Covers ctx) (hs : s.WellFormed) (depth : Int) :
    Makes rm .growing c s (ctx.ensurePlaceholders log i depth) fun _ _ => True := by
  unfold ensurePlaceholders
  split
  · exact ensureGroups_makes h _ hs
  · exact Makes.pure trivial

/-! ## Names -/

theorem addName_leaves (names : NameSet) (v : Value) :
    Leaves c s (addName names v) fun _ => True :=
  Leaves.bind (Leaves.result fun _ _ => trivial) fun _ _ => Leaves.pure trivial

theorem collectDirect_leaves (names : NameSet) (q : Ref) :
    Leaves c s (ctx.collectDirect log names q) fun _ => True := by
  unfold collectDirect
  refine Leaves.tryCatch ?_ fun f => ?_
  · exact Leaves.bind (directName_leaves q) fun v _ => addName_leaves names v
  · split
    · refine Leaves.bind (Leaves.shown _) fun _ _ => ?_
      exact Leaves.bind Leaves.log fun _ _ => Leaves.pure trivial
    · exact Leaves.throw

theorem lookUpGroup_leaves (q : Ref) :
    Leaves c s (ctx.lookUpGroup log q) fun _ => True := by
  have hno : Leaves c s (lookUpGroup.notAGroup log q) fun _ => True :=
    Leaves.bind (Leaves.shown _) fun _ _ => Leaves.bind Leaves.log fun _ _ => Leaves.pure trivial
  unfold lookUpGroup
  refine Leaves.tryCatch (Leaves.bind (resolve_leaves q) fun a _ => ?_) fun f => ?_
  · split
    · split
      · exact Leaves.pure trivial
      · exact hno
    · exact hno
  · split
    · refine Leaves.bind (Leaves.shown _) fun _ _ => ?_
      exact Leaves.bind Leaves.log fun _ _ => Leaves.pure trivial
    · exact Leaves.throw

/-- Collecting names leaves the store. -/
theorem collect_leaves (d : Nat) (names : NameSet) (refs : List (Option Ref)) :
    Leaves c s (ctx.collect log d names refs) fun _ => True := by
  induction d generalizing names refs with
  | zero => exact Leaves.pure trivial
  | succ d ih =>
    rw [collect]
    split
    · exact Leaves.foldlM collectDirect_leaves _ _
    · refine Leaves.foldlM (fun names q => ?_) _ _
      unfold collectGroup
      refine Leaves.bind (lookUpGroup_leaves q) fun a _ => ?_
      split
      · exact Leaves.pure trivial
      · exact Leaves.bind (addName_leaves _ _) fun names' _ => ih names' _

theorem namesOf_leaves (depth : Int) : Leaves c s (ctx.namesOf log i depth) fun _ => True := by
  unfold namesOf
  split
  · exact Leaves.bind Leaves.requireKnown fun _ _ => collect_leaves _ _ _
  · exact collect_leaves _ _ _

theorem throw_makes {f : Failure} {g : PUnit → Sync Unit} :
    Makes rm p c s (throw f >>= g) fun _ _ => True :=
  Makes.after (P := fun _ => False) Leaves.throw fun _ => False.elim

theorem convert_makes (hs : s.WellFormed) (ho : rm.own k)
    (hconv : ∀ q, s.find? k = some q → rm.converts q) (names : Except Failure NameSet) :
    Makes rm p c s (Sync.convert (.stored k) names) fun _ _ => True := by
  unfold Sync.convert
  refine Makes.after (Leaves.record k) fun q hq => ?_
  refine Makes.after Leaves.allow fun _ _ => ?_
  refine Makes.after (Leaves.result fun _ _ => trivial) fun names _ => ?_
  dsimp only
  split
  · exact throw_makes
  · refine Makes.mono (Makes.update hs fun q' hq' =>
      ⟨.inl ho, ⟨rfl, rfl, rfl, ?_⟩, .inr ⟨hconv q' hq', rfl⟩⟩) fun _ _ _ => trivial
    exact fun hl => absurd hl (by simp [Record.isLegacy, Record.toDynamic])

theorem setNames_makes (hs : s.WellFormed) (ho : rm.own k) (names : Except Failure NameSet) :
    Makes rm p c s (Sync.setNames (.stored k) names) fun _ _ => True := by
  unfold Sync.setNames
  refine Makes.after (Leaves.record k) fun q hq => ?_
  refine Makes.after Leaves.allow fun _ _ => ?_
  dsimp only
  split
  · exact throw_makes
  · next hl =>
    refine Makes.after (Leaves.result fun _ _ => trivial) fun names _ => ?_
    refine Makes.mono (Makes.update hs fun q' hq' =>
      ⟨.inl ho, ⟨rfl, rfl, rfl, ?_⟩, .inl rfl⟩) fun _ _ _ => trivial
    obtain rfl : q = q' := Option.some.inj (hq.symm.trans hq')
    exact fun hl' => absurd hl' hl

theorem keepNames_makes (hs : s.WellFormed) (ho : rm.own k)
    (hconv : ∀ q, s.find? k = some q → rm.converts q) (names : NameSet) :
    Makes rm .growing c s (keepNames (.stored k) r names) fun _ _ => True := by
  unfold keepNames
  split
  · exact convert_makes hs ho hconv _
  · exact setNames_makes hs ho _

/-! ## Unwinding -/

/-- Groups found to be without members are groups near to the provider. -/
def Spares (rm : Remit) (s : Store) (found : Unwound) : Prop :=
  ∀ q ∈ found.orphans, ∃ k, s.find? k = some q.2 ∧ q.2.isGroup = true ∧ rm.near q.2.ref

theorem Spares.set {found : Unwound} {key : Key} (h : Spares rm s found)
    (hk : s.find? k = some g) (hgroup : g.isGroup = true) (hn : rm.near g.ref) :
    Spares rm s { found with orphans := found.orphans.set key g } := by
  intro q hq
  rcases Assoc.mem_of_mem_set hq with rfl | hq
  · exact ⟨k, hk, hgroup, hn⟩
  · exact h q hq

theorem endMembership_makes (hs : s.WellFormed) (hg : g.id.toKey = .ok k) (hm : rm.Managed s k) :
    Makes rm p c s (endMembership r g) fun _ s' => s'.records = s.records := by
  unfold endMembership
  refine Makes.bind hs (Makes.removeMember hs hg hm) ?_
  exact fun _ s' _ _ hr => Leaves.audit.makes fun _ _ => hr

theorem isOrphaned_leaves : Leaves c s (ctx.isOrphaned g) fun _ => True := by
  unfold isOrphaned
  split
  · exact Leaves.pure trivial
  · refine Sync.Ends.get (fun _ _ _ _ hs _ hs' => by rw [hs, hs']) fun w _ _ => ?_
    split
    · exact Leaves.pure trivial
    · exact Leaves.throw

/-- What going on at a group promises. -/
def Unwinds (rm : Remit) (c : Scene) (s : Store) (goOn : Record → Unwound → Sync Unwound) : Prop :=
  ∀ {r : Record} {found : Unwound} {s' : Store}, s'.WellFormed → s'.records = s.records →
    Spares rm s found →
    Makes rm .shrinking c s' (goOn r found) fun f s'' => s''.records = s.records ∧ Spares rm s f

theorem unwindGroup_makes {goOn : Record → Unwound → Sync Unwound} (h : rm.Covers ctx)
    (hgo : Unwinds rm c s goOn) {s₁ : Store} (hs : s₁.WellFormed) (hr : s₁.records = s.records)
    {found : Unwound} (hf : Spares rm s found) (hk : s.find? k = some g)
    (hgroup : g.isGroup = true) :
    Makes rm .shrinking c s₁ (ctx.unwindGroup log r goOn found g)
      fun f s' => s'.records = s.records ∧ Spares rm s f := by
  have hk₁ : s₁.find? k = some g := by rw [Store.find?, hr]; exact hk
  have hid := hs.toKey_of_find? hk₁
  unfold unwindGroup
  split
  · next hown =>
    have hn := h.owned _ hown
    refine Makes.after (Leaves.result fun _ _ => trivial) fun name _ => ?_
    refine Makes.bind hs (endMembership_makes hs hid (.inl ⟨g, hk₁, hn⟩)) ?_
    rintro _ s₂ hs₂ - hr₂
    refine Makes.bind hs₂ (hgo hs₂ (hr₂.trans hr) hf) ?_
    rintro f s₃ _ - ⟨hr₃, hf₃⟩
    refine Makes.after isOrphaned_leaves fun b _ => ?_
    split
    · refine Makes.after (Leaves.result fun _ _ => trivial) fun key _ => ?_
      exact Makes.pure ⟨hr₃, hf₃.set hk hgroup hn⟩
    · exact Makes.pure ⟨hr₃, hf₃⟩
  · refine Makes.after (Leaves.result fun _ => id) fun a ha => ?_
    split
    · next hauto =>
      have hj : a.key = k := Except.ok.inj ((Value.toKey_eq_ok_iff.2 ⟨a, ha, rfl⟩).symm.trans hid)
      have hm : rm.Managed s₁ k :=
        .inr (hj ▸ h.joined r.isGroup a.key (NameSet.mem_def.1 (NameSet.contains_iff.1 hauto)))
      refine Makes.bind hs (endMembership_makes hs hid hm) ?_
      exact fun _ s₂ hs₂ _ hr₂ => hgo hs₂ (hr₂.trans hr) hf
    · exact Makes.after Leaves.log fun _ _ => Makes.pure ⟨hr, hf⟩

theorem unwindFrom_makes (h : rm.Covers ctx) (bound : Nat) :
    Unwinds rm c s (ctx.unwindFrom log bound) := by
  induction bound with
  | zero => exact fun _ hr hf => Makes.pure ⟨hr, hf⟩
  | succ bound ih =>
    intro r found s₁ hs₁ hr hf
    unfold unwindFrom
    refine Sync.Ends.get (fun _ _ _ _ hs _ hs' => by rw [hs, hs']) fun w _ hw => ?_
    rw [hw]
    refine Makes.after (Leaves.result fun _ => id) fun gs hgs => ?_
    refine Makes.foldlM (Q := fun f s' => s'.records = s.records ∧ Spares rm s f) hs₁ ⟨hr, hf⟩ ?_
    rintro g hg f s₂ hs₂ - ⟨hr₂, hf₂⟩
    obtain ⟨k, hk, hgroup⟩ := hs₁.mem_memberOf hgs hg
    have hk : s.find? k = some g := by rw [Store.find?, ← hr]; exact hk
    exact unwindGroup_makes h ih hs₂ hr₂ hf₂ hk hgroup

/-- A group that was found is deleted, unless its record is gone. -/
theorem deleteOrphan_makes (hs : s.WellFormed) (hk : s.find? k = some g)
    (hgroup : g.isGroup = true) (hn : rm.near g.ref) {s₁ : Store} (hs₁ : s₁.WellFormed)
    (h₁ : rm.Changes .shrinking s s₁) :
    Makes rm .shrinking c s₁ (deleteOrphan log g) fun _ _ => True := by
  have hnear (j : Key) (q : Record) (hj : g.id.toKey = .ok j) (hq : s₁.find? j = some q) :
      rm.Allows j q ∧ rm.near q.ref := by
    obtain rfl : k = j := Except.ok.inj ((hs.toKey_of_find? hk).symm.trans hj)
    obtain ⟨g', hg', hb⟩ := h₁.known hq
    obtain rfl : g' = g := Option.some.inj (hg'.symm.trans hk)
    have hn' : rm.near q.ref := hb.ref.symm ▸ hn
    exact ⟨.inr ⟨hb.isGroup.trans hgroup, hn'⟩, hn'⟩
  unfold deleteOrphan
  refine Makes.tryCatch hs₁ ?_ fun f s₂ hs₂ _ => ?_
  · refine Makes.bind hs₁ (Makes.remove hnear) fun _ _ _ _ _ => ?_
    exact Makes.after Leaves.audit fun _ _ => Leaves.log.makes fun _ _ => trivial
  · split
    · exact Makes.after Leaves.audit fun _ _ => Leaves.log.makes fun _ _ => trivial
    · exact Makes.throw

/-- Unwinding lets a store shrink, whatever record it starts from. -/
theorem unwind_makes (h : rm.Covers ctx) (hs : s.WellFormed) (log : Option Channel) :
    Makes rm .shrinking c s (ctx.unwind r log) fun _ _ => True := by
  unfold unwind
  refine Sync.Ends.get (fun _ _ _ _ hs _ hs' => by rw [hs, hs']) fun w _ _ => ?_
  have hnone : Spares rm s {} := fun q hq => absurd hq List.not_mem_nil
  refine Makes.bind hs (unwindFrom_makes (s := s) h _ hs rfl hnone) ?_
  rintro f s₁ hs₁ - ⟨hr, hf⟩
  refine Makes.bind hs₁ (Makes.forM (I := fun _ => True) hs₁ trivial ?_)
    fun _ _ _ _ _ => Makes.pure trivial
  intro g hg s₂ hs₂ h₂ _
  obtain ⟨q, hq, rfl⟩ := List.mem_map.1 hg
  obtain ⟨k, hk, hgroup, hn⟩ := hf q hq
  have hk₁ : s₁.find? k = some q.2 := by rw [Store.find?, hr]; exact hk
  exact deleteOrphan_makes hs₁ hk₁ hgroup hn hs₂ h₂

/-! ## Synchronising one record -/

theorem syncNames_turns (h : rm.Covers ctx) (hs : s.WellFormed) (ho : rm.own k)
    (hd : ctx.dynamic = true) (depth : Int)
    (hfills : ctx.policy.enforcesDynamic = false → 0 < depth → rm.fills) (log : Option Channel) :
    TurnsOver rm c s (ctx.syncNames i (.stored k) depth log) fun _ _ => True := by
  unfold syncNames
  refine TurnsOver.after hs ((Leaves.record k).makes (Q := fun r s' => s'.find? k = some r)
    fun _ => id) ?_
  rintro r s hs - hr
  split
  · exact .of_growing (Makes.pure trivial)
  next hgroup =>
  split
  · next hlegacy =>
    have hpolicy := (Bool.and_eq_true_iff.1 hlegacy).2
    refine .of_growing (Makes.after Leaves.log fun _ _ => ?_)
    exact materialize_makes h _ (fun hn => hfills (by simpa using hpolicy) (by omega)) hs
  · refine TurnsOver.after hs ((namesOf_leaves depth).makes
      (Q := fun _ s' => s'.find? k = some r) fun _ _ => hr) ?_
    rintro names s hs - hr
    have hconv (q : Record) (hq : s.find? k = some q) : rm.converts q := by
      obtain rfl : r = q := Option.some.inj (hr.symm.trans hq)
      exact h.converts hd r (by simpa using hgroup)
    refine TurnsOver.after hs (keepNames_makes hs ho hconv names) ?_
    rintro _ s hs - -
    refine TurnsOver.after hs (Leaves.log.makes (Q := fun _ _ => True) fun _ _ => trivial) ?_
    rintro _ s hs - -
    refine TurnsOver.after hs (ensurePlaceholders_makes h hs depth) ?_
    rintro _ s hs - -
    split
    · refine .of_shrinking (Makes.bind hs (unwind_makes h hs _) ?_)
      exact fun _ _ _ _ _ => Makes.pure trivial
    · exact .of_growing (Makes.pure trivial)

/-- Synchronising a user lets the store grow and then shrink; last, the user is marked. -/
theorem syncUser_turns (h : rm.Covers ctx) (hs : s.WellFormed) (ho : rm.own k)
    (log : Option Channel) :
    TurnsOver rm c s (ctx.syncUser i (.stored k) log) fun _ s' => Stamped c k s' := by
  have hstamp {p : Phase} {s : Store} (hs : s.WellFormed) :
      Makes rm p c s (stamp (.stored k)) fun _ s' => Stamped c k s' :=
    (stamp_makes hs (.inl ho)).mono fun _ _ h => ⟨s, h⟩
  unfold syncUser
  refine TurnsOver.after hs (syncProperties_makes hs (.inl ho) _) ?_
  rintro _ s hs - -
  unfold syncMembership
  by_cases hd : ctx.dynamic = true
  · rw [if_pos hd]
    have hfills (he : ctx.policy.enforcesDynamic = false)
        (hn : 0 < ctx.policy.user.nestingDepth) : rm.fills := h.fills (.inr ⟨he, hn⟩)
    refine TurnsOver.andThen hs (syncNames_turns h hs ho hd _ hfills log) ?_
    rintro _ s hs - -
    exact Makes.after (applyMembership_leaves hd) fun _ _ => hstamp hs
  · rw [if_neg hd]
    have hfills : rm.fills := h.fills (.inl (by simpa using hd))
    refine TurnsOver.after hs (materialize_makes h _ (fun _ => hfills) hs) ?_
    rintro _ s hs - -
    refine TurnsOver.after hs (applyMembership_makes h hs false log) ?_
    rintro _ s hs - -
    exact .of_growing (hstamp hs)

theorem syncRecord_turns (h : rm.Covers ctx) (hs : s.WellFormed) (ho : rm.own k) (isGroup : Bool)
    (log : Option Channel) :
    TurnsOver rm c s (ctx.syncRecord i (.stored k) isGroup log) fun _ s' => Stamped c k s' := by
  unfold syncRecord
  split
  · exact .of_growing (syncGroup_makes h hs (.inl ho) log)
  · exact syncUser_turns h hs ho log

end Context

end Roster
