import Roster.Proofs.Enrolling
import Roster.Proofs.Unwinding

/-!
# Targets

The groups that an identity declares, as far as nothing in the store stands in their way, are the
*targets* of its record (`Context.Joins`), and a walk along targets visits what it expands within a
number of hops (`Context.Visits`). Which groups are targets depends on the groups of the provider
that are usable, so that stores with the same ones have the same targets (`Backed.joins_congr`).

* `Served.declareGroup_ends`: declaring a reference, up to what becomes of the local group and what
  is done there.
-/

namespace Roster

/-- All planned failures are foreseen, but for removals of records. -/
structure Scene.Expects (c : Scene) (E : Failure → Store → Prop) : Prop where
  store : c.Foresees E
  lookups : ∀ f s, c.LookupFails f → E f s

theorem Scene.Expects.of_quiet {c : Scene} {E : Failure → Store → Prop} (h : c.faults = {}) :
    c.Expects E where
  store := (StoreWorks.of_quiet h).foresees
  lookups := fun _ _ hf => absurd hf.2 (not_failsLookups h)

namespace Context

/-- Only a group of the provider stands under the key, if anything does. -/
def Usable (ctx : Context) (s : Store) (g : Key) : Prop :=
  ∀ r, s.find? g = some r → r.isGroup = true ∧ ctx.owns r.ref = true

/-- The reference leads to a group that can stand in the store under the key. -/
def Offers (ctx : Context) (m : Memory) (s : Store) (ref : Option Ref) (g : Key) : Prop :=
  ∃ j, ctx.leadsTo m ref = some j ∧ j.id.toKey = .ok g ∧ ctx.Usable s g

/-- The identity under a key declares a group that can stand in the store under another. -/
def Joins (ctx : Context) (m : Memory) (s : Store) (x g : Key) : Prop :=
  ∃ i, m.identities.lookup x = some i ∧ ∃ ref ∈ i.groups, ctx.Offers m s ref g

/-- What a walk of a number of hops expands. -/
def Visits (ctx : Context) (m : Memory) (s : Store) : Nat → Key → Key → Prop
  | 0, _, _ => False
  | d + 1, k, x => x = k ∨ ∃ g, ctx.Joins m s k g ∧ Visits ctx m s d g x

variable {ctx : Context} {m : Memory} {c : Scene} {k g x : Key} {s s' : Store} {r : Record}
  {i j : Identity} {ref : Option Ref} {d : Nat} {log : Channel} {E : Failure → Store → Prop}

theorem usable_iff (hg : s.find? g = some r) :
    ctx.Usable s g ↔ (r.isGroup && ctx.owns r.ref) = true := by
  rw [Bool.and_eq_true]
  refine ⟨fun h => h r hg, ?_⟩
  rintro h q hq
  obtain rfl : r = q := Option.some.inj (hg.symm.trans hq)
  exact h

theorem usable_of_none (hg : s.find? g = none) : ctx.Usable s g := by
  intro r hr
  rw [hg] at hr
  cases hr

/-- The placeholder of a group is there, new or as it was, if it is usable; else nothing is done. -/
theorem placeholder_usable_ends {q : Ref} (hc : c.Foresees E) (h : s.WellFormed) (ht : s.Typed)
    (hq : q.Typed) (hi : i.Typed) (hid : i.id.toKey = .ok k) :
    Sync.Ends c s (ctx.placeholder log q i) (fun a s' =>
      ¬ ctx.Usable s k ∧ a = none ∧ s' = s ∨
      ctx.Usable s k ∧ a = some (.stored k) ∧ s'.WellFormed ∧ s'.Typed ∧
        (∀ y, s'.find? y =
          if y = k then some ((s.find? k).getD (ctx.newRecord i true)) else s.find? y) ∧
        ∀ x y, s'.Member x y ↔ s.Member x y) E := by
  cases hf : s.find? k with
  | some g =>
    refine (placeholder_found_ends hid hf).mono ?_ fun _ _ => id
    rintro _ s ⟨rfl, rfl⟩
    by_cases hg : (g.isGroup && ctx.owns g.ref) = true
    · refine .inr ⟨(usable_iff hf).2 hg, if_pos hg, h, ht, fun y => ?_, fun _ _ => .rfl⟩
      split
      · next hy => rw [hy, hf, Option.getD_some]
      · rfl
    · exact .inl ⟨fun hus => hg ((usable_iff hf).1 hus), if_neg hg, rfl⟩
  | none =>
    refine (placeholder_new_ends hc h ht hq hi hid hf).mono ?_ fun _ _ => id
    rintro _ s₁ ⟨rfl, hwf, ht, hfind, hmem⟩
    exact .inr ⟨usable_of_none hf, rfl, hwf, ht, hfind, hmem⟩

theorem Backed.isGroup_of_offers (h : ctx.Backed m) (hr : ∀ q, ref = some q → q.Typed)
    (ho : ctx.Offers m s ref g) : ∃ j, m.identities.lookup g = some j ∧ j.isGroup = true := by
  obtain ⟨j, hj, hg, -⟩ := ho
  obtain ⟨-, hgroup, g', hg', hlook⟩ := h.served.group_of_leadsTo hr hj
  obtain rfl : g = g' := Except.ok.inj (hg.symm.trans hg')
  exact ⟨j, hlook, hgroup⟩

theorem typed_of_mem_groups (hi : i.Typed) (href : ref ∈ i.groups) :
    ∀ q, ref = some q → q.Typed := by
  rintro q rfl
  obtain ⟨q', hq', ht⟩ := hi.groups _ href
  obtain rfl := Option.some.inj hq'
  exact ht

/-- A reference offers the group that it leads to, if that is usable. -/
theorem offers_iff_of_leadsTo (hj : ctx.leadsTo m ref = some j) (hg : j.id.toKey = .ok g) :
    ctx.Offers m s ref x ↔ x = g ∧ ctx.Usable s g := by
  simp only [Offers, hj, Option.some.injEq, exists_eq_left', hg, Except.ok.injEq]
  constructor
  · rintro ⟨rfl, hus⟩
    exact ⟨rfl, hus⟩
  · rintro ⟨rfl, hus⟩
    exact ⟨rfl, hus⟩

/-- The group behind a reference with its key; where there is none, nothing is offered. -/
theorem Served.offered_ends (h : ctx.Served m) (hc : c.Expects E)
    (hr : ∀ q, ref = some q → q.Typed) {log : Option Channel} :
    Sync.Ends c s (ctx.externalGroup ref log) (fun a s' => s' = s ∧
      (a = none ∧ (∀ t, ¬ ctx.Offers m s ref t) ∨ ∃ j g, a = some j ∧
        m.identities.lookup g = some j ∧ j.isGroup = true ∧
        ∀ t, ctx.Offers m s ref t ↔ t = g ∧ ctx.Usable s g)) E := by
  refine (h.externalGroup_ends hr).mono ?_ fun _ _ hf => hc.lookups _ _ hf.2
  rintro a s ⟨rfl, ha⟩
  refine ⟨rfl, ?_⟩
  cases a with
  | none =>
    refine .inl ⟨rfl, ?_⟩
    rintro t ⟨j, hj, -⟩
    rw [← ha] at hj
    cases hj
  | some j =>
    obtain ⟨-, hgroup, g, hg, hlook⟩ := h.group_of_leadsTo hr ha.symm
    exact .inr ⟨j, g, rfl, hlook, hgroup, fun _ => offers_iff_of_leadsTo ha.symm hg⟩

/-- A local group that is there is left as it is. -/
theorem localGroup_found_ends (hid : i.id.toKey = .ok g) (hg : s.find? g = some r) :
    Sync.Ends c s (ctx.localGroup i log) (fun a s' => s' = s ∧
      (¬ ctx.Usable s g ∧ a = none ∨ ctx.Usable s g ∧ a = some (.stored g, r))) E := by
  unfold localGroup
  refine Sync.Ends.step (Sync.Ends.lookUp hid ?_)
  simp only [hg, Option.map_some]
  split
  · next hus => exact Sync.Ends.pure ⟨rfl, .inr ⟨(usable_iff hg).2 hus, rfl⟩⟩
  · next hus =>
    refine Sync.Ends.step (Sync.Ends.log ?_)
    exact Sync.Ends.pure ⟨rfl, .inl ⟨fun h => hus ((usable_iff hg).1 h), rfl⟩⟩

/-- Declaring a reference that offers nothing does nothing. Otherwise the local group of what it
offers, if that can stand, gets the record as a member, and the walk goes on there. -/
theorem Served.declareGroup_ends (h : ctx.Served m) (hc : c.Expects E)
    (hr : ∀ q, ref = some q → q.Typed) {goOn : Identity → Subject → Sync Unit}
    {declared : List Key} {Q : List Key → Store → Prop}
    {L : Identity → Key → Record → Store → Prop}
    (hnone : (∀ t, ¬ ctx.Offers m s ref t) → Q declared s)
    (hlocal : ∀ j g, m.identities.lookup g = some j →
      (ctx.Usable s g → ctx.Offers m s ref g) → Sync.Ends c s (ctx.localGroup j log)
        (fun a s' => ¬ ctx.Usable s g ∧ a = none ∧ s' = s ∨
          ctx.Usable s g ∧ ∃ q, a = some (.stored g, q) ∧ L j g q s') E)
    (hgo : ∀ j g q s', m.identities.lookup g = some j → ctx.Usable s g →
      (∀ t, ctx.Offers m s ref t ↔ t = g) → L j g q s' → Sync.Ends c s' (do
        let _ ← Sync.addMember q r.id
        let key ← Sync.result q.id.toKey
        goOn j (.stored g)
        return key :: declared) Q E) :
    Sync.Ends c s (ctx.declareGroup log r goOn declared ref) Q E := by
  unfold declareGroup
  by_cases ho : ctx.owns ref = true
  · rw [if_neg (by simp [ho])]
    refine Sync.Ends.bind (h.offered_ends hc hr) ?_
    rintro _ s ⟨rfl, ⟨rfl, hn⟩ | ⟨j, g, rfl, hlook, -, hoffers⟩⟩
    · exact Sync.Ends.pure (hnone hn)
    · refine Sync.Ends.bind (hlocal j g hlook fun hus => (hoffers g).2 ⟨rfl, hus⟩) ?_
      rintro _ s' (⟨hn, rfl, rfl⟩ | ⟨hus, q, rfl, hq⟩)
      · exact Sync.Ends.pure (hnone fun t ht => hn ((hoffers t).1 ht).2)
      · exact hgo j g q s' hlook hus (fun t => (hoffers t).trans (and_iff_left hus)) hq
  · rw [if_pos (by simp [ho])]
    refine Sync.Ends.step (Sync.Ends.shown hr fun _ => ?_)
    refine Sync.Ends.step (Sync.Ends.log ?_)
    refine Sync.Ends.pure (hnone ?_)
    rintro t ⟨j, hj, -⟩
    exact ho (owns_of_leadsTo hj)

/-- A target is held by the provider as a group. -/
theorem Backed.isGroup_of_joins (h : ctx.Backed m) (hj : ctx.Joins m s x g) :
    ∃ j, m.identities.lookup g = some j ∧ j.isGroup = true := by
  obtain ⟨i, hi, ref, href, ho⟩ := hj
  exact h.isGroup_of_offers (typed_of_mem_groups (h.memory.of_lookup hi).1 href) ho

theorem joins_iff (hi : m.identities.lookup x = some i) :
    ctx.Joins m s x g ↔ ∃ ref ∈ i.groups, ctx.Offers m s ref g := by
  constructor
  · rintro ⟨i', hi', h⟩
    obtain rfl : i = i' := Option.some.inj (hi.symm.trans hi')
    exact h
  · exact fun h => ⟨i, hi, h⟩

/-- What the references of an identity offer are its targets. -/
theorem exists_offers_iff (hi : m.identities.lookup k = some i) {p : Key → Prop} :
    (∃ ref ∈ i.groups, ∃ t, ctx.Offers m s ref t ∧ p t) ↔ ∃ t, ctx.Joins m s k t ∧ p t := by
  simp only [joins_iff hi]
  constructor
  · rintro ⟨ref, href, t, ho, hp⟩
    exact ⟨t, ⟨ref, href, ho⟩, hp⟩
  · rintro ⟨t, ⟨ref, href, ho⟩, hp⟩
    exact ⟨ref, href, t, ho, hp⟩

/-- What a reference offers is the same where its group is usable in both stores. -/
theorem Backed.offers_congr (h : ctx.Backed m) (hr : ∀ q, ref = some q → q.Typed)
    (hu : ∀ j, m.identities.lookup g = some j → j.isGroup = true →
      (ctx.Usable s' g ↔ ctx.Usable s g)) :
    ctx.Offers m s' ref g ↔ ctx.Offers m s ref g := by
  constructor
  · intro ho
    obtain ⟨j, hj, hgroup⟩ := h.isGroup_of_offers hr ho
    obtain ⟨i, hi, hg, hus⟩ := ho
    exact ⟨i, hi, hg, (hu j hj hgroup).1 hus⟩
  · intro ho
    obtain ⟨j, hj, hgroup⟩ := h.isGroup_of_offers hr ho
    obtain ⟨i, hi, hg, hus⟩ := ho
    exact ⟨i, hi, hg, (hu j hj hgroup).2 hus⟩

/-- The targets are the same where the same groups are usable. -/
theorem Backed.joins_congr (h : ctx.Backed m)
    (hu : ∀ g j, m.identities.lookup g = some j → j.isGroup = true →
      (ctx.Usable s' g ↔ ctx.Usable s g)) :
    ctx.Joins m s' x g ↔ ctx.Joins m s x g := by
  refine exists_congr fun i => and_congr_right fun hi => ?_
  refine exists_congr fun ref => and_congr_right fun href => ?_
  exact h.offers_congr (typed_of_mem_groups (h.memory.of_lookup hi).1 href) (hu g)

theorem visits_congr (h : ∀ x g, ctx.Joins m s' x g ↔ ctx.Joins m s x g) :
    ctx.Visits m s' d k x ↔ ctx.Visits m s d k x := by
  induction d generalizing k with
  | zero => rfl
  | succ d ih => simp only [Visits, h, ih]

theorem Usable.isGroup (h : ctx.Usable s g) (hg : s.find? g = some r) : r.isGroup = true :=
  (h r hg).1

end Context

end Roster
