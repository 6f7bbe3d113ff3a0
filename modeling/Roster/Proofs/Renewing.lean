import Roster.Proofs.Settling
import Roster.Proofs.UserTurn

/-!
# Names kept twice

A user whose memberships are represented by names has no member lists to make: what a synchronisation
changes besides its record are placeholders of groups. A placeholder is *fresh* if refreshing it once
more changes nothing, and after a walk all placeholders in front of what it visits are (`Placed`).
Clearing for a user of the legacy mode deletes groups only where no placeholders are kept.

* `ensureGroups_rests`: where placeholders are fresh, refreshing them changes nothing.
* `syncNames_places`, `syncNames_rests`: keeping names the first time and after that.
-/

namespace Roster

namespace Context

/-- The placeholder under a key has the attributes of its identity and the time of the clock. -/
def Fresh (ctx : Context) (m : Memory) (c : Scene) (s : Store) (y : Key) : Prop :=
  ∃ i q, m.identities.lookup y = some i ∧ s.find? y = some q ∧ ctx.refreshed c i q = q

/-- The placeholders in front of what a walk visits are fresh. -/
def Placed (ctx : Context) (m : Memory) (c : Scene) (s : Store) (d : Nat) (k : Key) : Prop :=
  ∀ x y, ctx.Visits m s d k x → ctx.Joins m s x y → ctx.Fresh m c s y

variable {ctx : Context} {m : Memory} {c : Scene} {k j g x y : Key} {u i : Identity}
  {s s' : Store} {r r' q : Record} {ref : Option Ref} {d : Nat} {ns : NameSet} {log : Channel}
  {E : Failure → Store → Prop}

theorem Still.calm (h : ctx.Still m c) (hd : ctx.dynamic = true) : ctx.Calm m c Nobody where
  toBacked := h.toBacked
  dynamic := hd
  quiet := h.quiet
  time := h.time
  mapping := h.groupMapping
  users := nofun

theorem Placed.of_joins (h : ctx.Placed m c s (d + 1) k) (hj : ctx.Joins m s k g) :
    ctx.Fresh m c s g ∧ ctx.Placed m c s d g :=
  ⟨h k g (.inl rfl) hj, fun x y hv => h x y (.inr ⟨g, hj, hv⟩)⟩

theorem Joins.usable (h : ctx.Joins m s x g) : ctx.Usable s g := by
  obtain ⟨-, -, -, -, -, -, -, hu⟩ := h
  exact hu

/-- The placeholders stay if only the record of the user changes. -/
theorem Placed.of_own (h : ctx.Placed m c s d j) (hb : ctx.Backed m) (hs : s.Hosts k r)
    (hs' : s'.Hosts k r') (hr : ∀ x, x ≠ k → s'.find? x = s.find? x) :
    ctx.Placed m c s' d j := by
  have husable (g : Key) : ctx.Usable s' g ↔ ctx.Usable s g := by
    by_cases hg : g = k
    · subst hg
      exact ⟨fun hu => absurd rfl (hu.ne hs'), fun hu => absurd rfl (hu.ne hs)⟩
    · rw [Usable, Usable, hr g hg]
  have hjoins (x g : Key) : ctx.Joins m s' x g ↔ ctx.Joins m s x g :=
    hb.joins_congr fun g _ _ _ => husable g
  intro x y hv hj
  obtain ⟨i, q, hi, hq, hfresh⟩ := h x y ((visits_congr hjoins).1 hv) ((hjoins x y).1 hj)
  exact ⟨i, q, hi, (hr y (hj.usable.ne hs')).trans hq, hfresh⟩

/-! ## Placeholders -/

/-- What going on at the groups of an identity promises where placeholders are fresh. -/
def Stays (ctx : Context) (m : Memory) (c : Scene) (goOn : List (Option Ref) → Sync Unit)
    (d : Nat) : Prop :=
  ∀ ⦃k : Key⦄ ⦃i : Identity⦄ ⦃s : Store⦄, s.Ready Nobody → m.identities.lookup k = some i →
    ctx.Placed m c s d k → Sync.Ends c s (goOn i.groups) (fun _ s' => s' = s) (fun _ _ => False)

namespace Calm

variable (h : ctx.Calm m c Nobody)
include h

/-- What is refreshed is fresh. -/
theorem placed_of_clears (hs : s.Ready Nobody) (hc : ctx.Clears m c Nobody s
      (fun y => ∃ x, ctx.Visits m s d k x ∧ ctx.Joins m s x y) (fun _ => False) s') :
    ctx.Placed m c s' d k := by
  intro x y hv hj
  have hR : ∃ x, ctx.Visits m s d k x ∧ ctx.Joins m s x y :=
    ⟨x, (hc.visits_iff h hs).1 hv, (hc.joins_iff h hs).1 hj⟩
  obtain ⟨-, -, i, hi, -⟩ := hc.groups y hR
  have hfind := hc.records y id
  rw [if_neg not_orphaned_of_none, if_pos hR, renewed, hi, Option.map_some] at hfind
  exact ⟨i, _, hi, hfind, refreshed_refreshed h.mapping h.policy.groupMapping ..⟩

/-- A placeholder that is fresh is left as it is. -/
theorem ensureGroup_rests {goOn : List (Option Ref) → Sync Unit} (hgo : ctx.Stays m c goOn d)
    (hs : s.Ready Nobody) (hi : m.identities.lookup k = some i) (href : ref ∈ i.groups)
    (hplaced : ctx.Placed m c s (d + 1) k) :
    Sync.Ends c s (ctx.ensureGroup log goOn ref) (fun _ s' => s' = s) (fun _ _ => False) := by
  obtain ⟨p, rfl, hp⟩ := (h.memory.of_lookup hi).1.groups ref href
  have htyped : ∀ q, some p = some q → q.Typed := by
    rintro _ ⟨rfl⟩
    exact hp
  unfold ensureGroup
  refine Sync.Ends.bind (h.served.offered_ends (.of_quiet h.quiet) htyped) ?_
  rintro _ s ⟨rfl, ⟨rfl, -⟩ | ⟨j, g, rfl, hlook, -, hoffers⟩⟩
  · exact Sync.Ends.pure rfl
  · obtain ⟨hty, hid, -⟩ := h.memory.of_lookup hlook
    by_cases hus : ctx.Usable s g
    · obtain ⟨⟨j', q, hj', hq, hfresh⟩, hbeyond⟩ :=
        hplaced.of_joins ((joins_iff hi).2 ⟨_, href, (hoffers g).2 ⟨rfl, hus⟩⟩)
      obtain rfl : j = j' := Option.some.inj (hlook.symm.trans hj')
      refine Sync.Ends.bind (placeholder_found_ends hid hq) ?_
      rintro _ s ⟨rfl, rfl⟩
      rw [if_pos ((usable_iff hq).1 hus)]
      refine Sync.Ends.bind (h.syncGroup_ends hs hq hty) ?_
      rintro _ _ rfl
      rw [hfresh, Store.put_eq_self hs.wellFormed hq]
      exact hgo hs hlook hbeyond
    · refine Sync.Ends.bind (h.placeholder_ends hp hs hlook) ?_
      rintro a s' (⟨-, rfl, rfl⟩ | ⟨hus', -⟩)
      · exact Sync.Ends.pure rfl
      · exact absurd hus' hus

/-- One hop more than what is left as it is at the groups of the groups of an identity. -/
theorem stays_forM {goOn : List (Option Ref) → Sync Unit} (hgo : ctx.Stays m c goOn d) :
    ctx.Stays m c (fun refs => refs.forM (ctx.ensureGroup log goOn)) (d + 1) := by
  intro k i s hs hi hplaced
  refine Sync.Ends.forM (I := fun _ s' => s' = s) rfl ?_
  rintro done ref rest _ he rfl
  exact h.ensureGroup_rests hgo hs hi (by rw [he]; simp) hplaced

/-- Where placeholders are fresh, refreshing them changes nothing. -/
theorem ensureGroups_rests (d : Nat) : ctx.Stays m c (ctx.ensureGroups log d) (d + 1) := by
  induction d with
  | zero =>
    have hstop : ctx.Stays m c (fun _ => return) 0 := fun _ _ _ _ _ _ => Sync.Ends.pure rfl
    exact h.stays_forM hstop
  | succ d ih => exact h.stays_forM ih

/-- If groups are dynamic, the placeholders within a number of hops are fresh after they were made
sure of; otherwise nothing happens. The user stays. -/
theorem ensurePlaceholders_places (hs : s.Hosts k r) (hu : m.identities.lookup j = some u)
    (depth : Int) :
    Sync.Ends c s (ctx.ensurePlaceholders log u depth) (fun _ s' => s'.Hosts k r ∧
      (ctx.policy.hasDynamicGroups = true → ctx.Placed m c s' depth.toNat j))
      (fun _ _ => False) := by
  have hready : s.Ready Nobody := ⟨hs.wellFormed, hs.typed, nofun⟩
  unfold ensurePlaceholders
  split
  · next hd =>
    obtain ⟨hdyn, hdepth⟩ := Bool.and_eq_true_iff.1 hd
    obtain ⟨n, hn⟩ : ∃ n, depth.toNat = n + 1 :=
      ⟨depth.toNat - 1, by simp only [decide_eq_true_eq] at hdepth; omega⟩
    rw [hn, Nat.add_sub_cancel]
    refine (h.ensureGroups_clears hdyn n hready hu).mono ?_ fun _ _ => id
    intro _ s' h'
    refine ⟨⟨h'.wellFormed, h'.typed, ?_, hs.isUser⟩, fun _ => h.placed_of_clears hready h'⟩
    rw [h'.records k id, if_neg not_orphaned_of_none, if_neg, hs.own]
    intro hR
    obtain ⟨-, hus, -⟩ := h'.groups k hR
    exact hus.ne hs rfl
  · next hd =>
    refine Sync.Ends.pure ⟨hs, fun hdyn x y hv => ?_⟩
    rw [hdyn, Bool.true_and, decide_eq_true_eq] at hd
    rw [show depth.toNat = 0 by omega] at hv
    exact hv.elim

theorem ensurePlaceholders_rests (hs : s.Hosts k r) (hu : m.identities.lookup j = some u)
    {depth : Int}
    (hplaced : ctx.policy.hasDynamicGroups = true → ctx.Placed m c s depth.toNat j) :
    Sync.Ends c s (ctx.ensurePlaceholders log u depth) (fun _ s' => s' = s)
      (fun _ _ => False) := by
  unfold ensurePlaceholders
  split
  · next hd =>
    obtain ⟨hdyn, hdepth⟩ := Bool.and_eq_true_iff.1 hd
    obtain ⟨n, hn⟩ : ∃ n, depth.toNat = n + 1 :=
      ⟨depth.toNat - 1, by simp only [decide_eq_true_eq] at hdepth; omega⟩
    have hplaced := hplaced hdyn
    rw [hn] at hplaced ⊢
    rw [Nat.add_sub_cancel]
    exact h.ensureGroups_rests n ⟨hs.wellFormed, hs.typed, nofun⟩ hu hplaced
  · exact Sync.Ends.pure rfl

/-! ## Names -/

/-- Unwinding a user deletes groups only where no placeholders are kept. -/
theorem unwind_places (hs : s.Hosts k r) (hq : q.id = r.id ∧ q.group = r.group)
    (hplaced : ctx.policy.hasDynamicGroups = true → ctx.Placed m c s d j) {log : Option Channel} :
    Sync.Ends c s (ctx.unwind q log) (fun _ s' => s'.Hosts k r ∧
      (ctx.policy.hasDynamicGroups = true → ctx.Placed m c s' d j)) E := by
  rw [unwind_congr hq.1 hq.2]
  refine (Context.unwind_ends hs.wellFormed hs.typed hs.own).mono ?_
    fun _ _ hf => absurd hf.1 h.storeWorks.not_refuses
  rintro _ _ ⟨-, K, -, rfl⟩
  have hs' : (ctx.unwoundStore K s k).Hosts k r :=
    ⟨(hs.wellFormed.cut _).drop _, (hs.typed.cut _).drop _,
      find?_unwoundStore_user hs.wellFormed hs.own hs.isUser, hs.isUser⟩
  refine ⟨hs', fun hdyn => (hplaced hdyn).of_own h.toBacked hs hs' fun x _ => ?_⟩
  rw [find?_unwoundStore, if_neg]
  rw [orphaned_iff, hdyn]
  exact fun ho => Bool.noConfusion ho.1

/-- Keeping names on a user for the first time. -/
theorem syncNames_places (hs : s.Hosts k r) (hu : m.identities.lookup j = some u)
    (hn : ctx.HasNames c u ns) (hl : r.isLegacy = true → ctx.policy.enforcesDynamic = true)
    {log : Option Channel} :
    Sync.Ends c s (ctx.syncNames u (.stored k) ctx.policy.user.nestingDepth log)
      (fun _ s' => s'.Hosts k (ctx.represented ns r) ∧ (ctx.policy.hasDynamicGroups = true →
        ctx.Placed m c s' ctx.policy.user.nestingDepth.toNat j)) (fun _ _ => False) := by
  have hs₁ : (s.put k (ctx.represented ns r)).Hosts k (ctx.represented ns r) :=
    hs.put (typed_represented (hs.typed r (Store.mem_all_of_find? hs.own)) hn.1)
      (represented_same r)
  unfold syncNames
  refine Sync.Ends.step (Sync.Ends.record hs.own ?_)
  rw [if_neg (by simp [hs.isUser]), if_neg (by simpa using hl)]
  refine Sync.Ends.bind (hn.2 s _ _) ?_
  rintro _ s ⟨rfl, rfl⟩
  refine Sync.Ends.bind (keepNames_put_ends h.storeWorks.foresees hs.wellFormed hs.own hl) ?_
  rintro _ _ rfl
  refine Sync.Ends.step (Sync.Ends.log ?_)
  refine Sync.Ends.bind (h.ensurePlaceholders_places hs₁ hu _) ?_
  rintro _ s₂ ⟨hs₂, hplaced⟩
  split
  · refine Sync.Ends.bind (h.unwind_places hs₂
      ⟨(represented_same r).1.symm, (represented_same r).2.symm⟩ hplaced) ?_
    rintro _ s₃ h₃
    exact Sync.Ends.pure h₃
  · exact Sync.Ends.pure ⟨hs₂, hplaced⟩

/-- Keeping the same names again. -/
theorem syncNames_rests (hs : s.Hosts k r) (hu : m.identities.lookup j = some u)
    (hn : ctx.HasNames c u ns) (hl : r.isLegacy = false) (hr : ctx.represented ns r = r)
    (hplaced : ctx.policy.hasDynamicGroups = true →
      ctx.Placed m c s ctx.policy.user.nestingDepth.toNat j) {log : Option Channel} :
    Sync.Ends c s (ctx.syncNames u (.stored k) ctx.policy.user.nestingDepth log)
      (fun _ s' => s' = s) (fun _ _ => False) := by
  have hlegacy : r.isLegacy = true → ctx.policy.enforcesDynamic = true := by
    rw [hl]
    nofun
  unfold syncNames
  refine Sync.Ends.step (Sync.Ends.record hs.own ?_)
  rw [if_neg (by simp [hs.isUser]), if_neg (by simp [hl])]
  refine Sync.Ends.bind (hn.2 s _ _) ?_
  rintro _ s ⟨rfl, rfl⟩
  refine Sync.Ends.bind (keepNames_put_ends h.storeWorks.foresees hs.wellFormed hs.own hlegacy) ?_
  rintro _ _ rfl
  rw [hr, Store.put_eq_self hs.wellFormed hs.own]
  refine Sync.Ends.step (Sync.Ends.log ?_)
  refine Sync.Ends.bind (h.ensurePlaceholders_rests hs hu hplaced) ?_
  rintro _ s rfl
  rw [if_neg (by simp [hl])]
  exact Sync.Ends.pure rfl

end Calm

end Context

end Roster
