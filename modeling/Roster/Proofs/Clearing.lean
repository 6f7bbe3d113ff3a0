import Roster.Proofs.Changes
import Roster.Proofs.Conversion
import Roster.Proofs.Declaring

/-!
# Users migrated in any store

Where a policy enforces names, a synchronisation refreshes the placeholders of groups and takes the
memberships of users of the legacy mode back. `Clears` is the closed form of refreshing some groups
and taking back what some records have in front of them; in which order this was done for which
users does not matter, since steps of this form put together are of this form (`Clears.trans`). A
group of the provider is left without members as soon as all its members are spent, so that the
last user deletes what the first one would have deleted, had it come last (`Clears.orphaned_or`).

* `ensureGroups_clears`: refreshing placeholders refreshes the targets of what a walk visits.
* `unwound_clears`: unwinding a record takes back what it reaches.
-/

namespace Roster

open Relation (ReflTransGen)

namespace Context

/-- All members of a group of the provider, of which there are some, are among the spent records,
and such groups do not stay. -/
def Orphaned (ctx : Context) (s : Store) (P : Key → Prop) (g : Key) : Prop :=
  ctx.policy.hasDynamicGroups = false ∧ ctx.Owned s g ∧ (∃ x, s.Member x g) ∧
    ∀ x, s.Member x g → P x

/-- The placeholder of a group with the attributes of its identity. -/
def renewed (ctx : Context) (m : Memory) (c : Scene) (s : Store) (y : Key) : Option Record :=
  (m.identities.lookup y).map fun i =>
    ctx.refreshed c i ((s.find? y).getD (ctx.newRecord i true))

open Classical in
/-- The closed form of refreshing the groups `R` and taking back the memberships of the records `P`.
Nothing is said of the records under the keys `K`. -/
structure Clears (ctx : Context) (m : Memory) (c : Scene) (K : Key → Prop) (s : Store)
    (R P : Key → Prop) (s' : Store) : Prop extends s'.Ready K where
  records : ∀ y, ¬ K y → s'.find? y =
    if ctx.Orphaned s P y then none else if R y then ctx.renewed m c s y else s.find? y
  member : ∀ x g, s'.Member x g ↔
    s.Member x g ∧ ¬ (ctx.Clearable s x g ∧ P x) ∧ ¬ ctx.Orphaned s P x
  groups : ∀ y, R y → ctx.policy.hasDynamicGroups = true ∧ ctx.Usable s y ∧
    ∃ i, m.identities.lookup y = some i ∧ i.isGroup = true
  closed : ∀ x g, P x → ctx.Clearable s x g → P g

variable {ctx : Context} {m : Memory} {c : Scene} {K : Key → Prop} {k g x y : Key}
  {s s' s'' : Store} {r q : Record} {i j : Identity} {ref : Option Ref} {d : Nat} {log : Channel}
  {R R' P P' : Key → Prop} {E : Failure → Store → Prop}

theorem becomes_refreshed (i : Identity) (r : Record) : r.Becomes (ctx.refreshed c i r) :=
  ⟨rfl, rfl, rfl, fun h => ⟨h, rfl⟩⟩

theorem Orphaned.mono (h : ctx.Orphaned s P g) (hp : ∀ x, P x → P' x) : ctx.Orphaned s P' g :=
  ⟨h.1, h.2.1, h.2.2.1, fun x hx => hp x (h.2.2.2 x hx)⟩

theorem not_orphaned_of_none : ¬ ctx.Orphaned s (fun _ => False) g := by
  rintro ⟨-, -, ⟨x, hx⟩, hall⟩
  exact hall x hx

theorem Orphaned.not_user (h : ctx.Orphaned s P g) (hs : s.Ready K) : ¬ K g := by
  obtain ⟨-, -, ⟨x, hx⟩, -⟩ := h
  exact hs.not_user hx

/-! ## Putting steps together -/

namespace Clears

/-- Only records under the given keys are changed. -/
theorem of_own (h : s'.Ready K) (hr : ∀ y, ¬ K y → s'.find? y = s.find? y)
    (hm : ∀ x g, s'.Member x g ↔ s.Member x g) :
    ctx.Clears m c K s (fun _ => False) (fun _ => False) s' where
  toReady := h
  records := fun y hy => by
    rw [hr y hy, if_neg not_orphaned_of_none, if_neg not_false]
  member := fun x g => by simp [hm, not_orphaned_of_none]
  groups := fun _ => False.elim
  closed := fun _ _ => False.elim

theorem congr (h : ctx.Clears m c K s R P s') (hr : ∀ x, R x ↔ R' x) (hp : ∀ x, P x ↔ P' x) :
    ctx.Clears m c K s R' P' s' := by
  obtain rfl : R = R' := funext fun x => propext (hr x)
  obtain rfl : P = P' := funext fun x => propext (hp x)
  exact h

/-- What is left without members is spent itself. -/
theorem spent_of_orphaned (h : ctx.Clears m c K s R P s') (hs : s.WellFormed)
    (ho : ctx.Orphaned s P g) : P g := by
  obtain ⟨-, hown, ⟨x, hx⟩, hall⟩ := ho
  exact h.closed x g (hall x hx) (clearable_of_owned hs hx hown)

/-- A record that is not deleted keeps its id, its type and its reference. -/
theorem kept (h : ctx.Clears m c K s R P s') (hk : ¬ K y) (hr : s.find? y = some r)
    (ho : ¬ ctx.Orphaned s P y) : ∃ q, s'.find? y = some q ∧ r.Becomes q := by
  have hq := h.records y hk
  rw [if_neg ho] at hq
  split at hq
  · next hR =>
    obtain ⟨-, -, i, hi, -⟩ := h.groups y hR
    refine ⟨ctx.refreshed c i r, ?_, becomes_refreshed i r⟩
    rw [hq, renewed, hi, hr]
    rfl
  · exact ⟨r, hq.trans hr, .refl r⟩

/-- A record that is there afterwards was there before with the same id, type and reference, or it
is a new group of the provider. -/
theorem origin (h : ctx.Clears m c K s R P s') (hc : ctx.Backed m) (hk : ¬ K y)
    (hq : s'.find? y = some q) : ¬ ctx.Orphaned s P y ∧ ((∃ r, s.find? y = some r ∧ r.Becomes q) ∨
      s.find? y = none ∧ q.isGroup = true ∧ ctx.owns q.ref = true) := by
  rw [h.records y hk] at hq
  split at hq
  · cases hq
  · next ho =>
    refine ⟨ho, ?_⟩
    split at hq
    · next hR =>
      obtain ⟨-, -, i, hi, -⟩ := h.groups y hR
      rw [renewed, hi, Option.map_some, Option.some.injEq] at hq
      subst hq
      cases hr : s.find? y with
      | some r => exact .inl ⟨r, rfl, becomes_refreshed i r⟩
      | none =>
        refine .inr ⟨rfl, rfl, ?_⟩
        show ctx.owns i.ref = true
        rw [(hc.memory.of_lookup hi).2.2]
        exact hc.owns_ref _
    · exact .inl ⟨q, hq, .refl q⟩

/-- A member keeps its type, and so do users. -/
theorem type_eq (h : ctx.Clears m c K s R P s') (hc : ctx.Backed m) (hs : s.Ready K)
    (hr : s.find? x = some r) (hq : s'.find? x = some q) : q.isGroup = r.isGroup := by
  by_cases hk : K x
  · rw [hs.users x r hk hr, h.users x q hk hq]
  · rcases (h.origin hc hk hq).2 with ⟨r', hr', hsame⟩ | ⟨hn, -⟩
    · obtain rfl : r = r' := Option.some.inj (hr.symm.trans hr')
      exact hsame.isGroup
    · rw [hr] at hn
      cases hn

/-- What can be taken back afterwards is what could be before and was not. -/
theorem clearable_iff (h : ctx.Clears m c K s R P s') (hc : ctx.Backed m) (hs : s.Ready K) :
    ctx.Clearable s' x g ↔ ctx.Clearable s x g ∧ ¬ P x := by
  constructor
  · rintro ⟨hm', r', q', hr', hq', hclear⟩
    obtain ⟨hm, hnot, -⟩ := (h.member x g).1 hm'
    obtain ⟨⟨r, hr⟩, q, hq, -⟩ := hs.wellFormed.exists_of_member hm
    have hcl : ctx.Clearable s x g := by
      refine ⟨hm, r, q, hr, hq, ?_⟩
      rcases (h.origin hc (hs.not_user hm) hq').2 with ⟨q₀, hq₀, hsame⟩ | ⟨hn, -⟩
      · obtain rfl : q = q₀ := Option.some.inj (hq.symm.trans hq₀)
        rwa [hsame.id, hsame.ref, h.type_eq hc hs hr hr'] at hclear
      · rw [hq] at hn
        cases hn
    exact ⟨hcl, fun hp => hnot ⟨hcl, hp⟩⟩
  · rintro ⟨hcl, hp⟩
    have hcl' := hcl
    obtain ⟨hm, r, q, hr, hq, hclear⟩ := hcl
    have hm' : s'.Member x g := (h.member x g).2
      ⟨hm, fun hn => hp hn.2, fun ho => hp (h.spent_of_orphaned hs.wellFormed ho)⟩
    have hog : ¬ ctx.Orphaned s P g := fun ho => hp (ho.2.2.2 x hm)
    obtain ⟨q', hq', hsame⟩ := h.kept (hs.not_user hm) hq hog
    obtain ⟨⟨r', hr'⟩, -⟩ := h.wellFormed.exists_of_member hm'
    refine ⟨hm', r', q', hr', hq', ?_⟩
    rwa [hsame.id, hsame.ref, h.type_eq hc hs hr hr']

/-- What was reached before is spent, or is reached afterwards. -/
theorem reaches_iff (h : ctx.Clears m c K s R P s') (hc : ctx.Backed m) (hs : s.Ready K) :
    P x ∨ ctx.Reaches s' k x ↔ P x ∨ ctx.Reaches s k x := by
  constructor
  · refine Or.imp_right fun hr => ?_
    exact ReflTransGen.mono (fun a b hab => ((h.clearable_iff hc hs).1 hab).1) k x hr
  · rintro (hp | hr)
    · exact .inl hp
    · induction hr with
      | refl => exact .inr .refl
      | @tail a b _ hab ih =>
        rcases ih with hp | hr
        · exact .inl (h.closed _ _ hp hab)
        · by_cases hp : P a
          · exact .inl (h.closed _ _ hp hab)
          · exact .inr (hr.tail ((h.clearable_iff hc hs).2 ⟨hab, hp⟩))

theorem usable_iff (h : ctx.Clears m c K s R P s') (hc : ctx.Calm m c K) (hs : s.Ready K)
    (hj : m.identities.lookup g = some j) (hg : j.isGroup = true) :
    ctx.Usable s' g ↔ ctx.Usable s g := by
  have hk := hc.not_user hj hg
  constructor
  · intro hu r hr
    by_cases ho : ctx.Orphaned s P g
    · obtain ⟨-, ⟨r', hr', hown⟩, ⟨x, hx⟩, -⟩ := ho
      obtain ⟨-, r'', hr'', hgroup⟩ := hs.wellFormed.exists_of_member hx
      obtain rfl : r = r' := Option.some.inj (hr.symm.trans hr')
      obtain rfl : r = r'' := Option.some.inj (hr.symm.trans hr'')
      exact ⟨hgroup, hown⟩
    · obtain ⟨q, hq, hsame⟩ := h.kept hk hr ho
      rw [← hsame.isGroup, ← hsame.ref]
      exact hu q hq
  · intro hu q hq
    rcases (h.origin hc.toBacked hk hq).2 with ⟨r, hr, hsame⟩ | ⟨-, hgroup, hown⟩
    · rw [hsame.isGroup, hsame.ref]
      exact hu r hr
    · exact ⟨hgroup, hown⟩

theorem joins_iff (h : ctx.Clears m c K s R P s') (hc : ctx.Calm m c K) (hs : s.Ready K) :
    ctx.Joins m s' x g ↔ ctx.Joins m s x g :=
  hc.joins_congr fun _ _ hj hg => h.usable_iff hc hs hj hg

theorem offers_iff (h : ctx.Clears m c K s R P s') (hc : ctx.Calm m c K) (hs : s.Ready K)
    (hr : ∀ q, ref = some q → q.Typed) : ctx.Offers m s' ref g ↔ ctx.Offers m s ref g :=
  hc.offers_congr hr fun _ hj hg => h.usable_iff hc hs hj hg

theorem visits_iff (h : ctx.Clears m c K s R P s') (hc : ctx.Calm m c K) (hs : s.Ready K) :
    ctx.Visits m s' d k x ↔ ctx.Visits m s d k x :=
  visits_congr fun _ _ => h.joins_iff hc hs

/-- What loses its last members in two steps would lose them in one. -/
theorem orphaned_or (h : ctx.Clears m c K s R P s') (hc : ctx.Backed m) (hs : s.Ready K) :
    ctx.Orphaned s (fun x => P x ∨ P' x) y ↔ ctx.Orphaned s P y ∨ ctx.Orphaned s' P' y := by
  constructor
  · rintro ⟨hdyn, ⟨q, hq, hown⟩, ⟨z, hz⟩, hall⟩
    by_cases hp : ∀ x, s.Member x y → P x
    · exact .inl ⟨hdyn, ⟨q, hq, hown⟩, ⟨z, hz⟩, hp⟩
    · obtain ⟨x, hp⟩ := not_forall.1 hp
      obtain ⟨hx, hp⟩ := Classical.not_imp.1 hp
      obtain ⟨q', hq', hsame⟩ :=
        h.kept (hs.not_user hx) hq fun ho => hp (ho.2.2.2 x hx)
      refine .inr ⟨hdyn, ⟨q', hq', by rw [hsame.ref]; exact hown⟩, ⟨x, ?_⟩, fun z hz => ?_⟩
      · exact (h.member x y).2
          ⟨hx, fun hn => hp hn.2, fun ho => hp (h.spent_of_orphaned hs.wellFormed ho)⟩
      · obtain ⟨hm, hnot, -⟩ := (h.member z y).1 hz
        have hcl := clearable_of_owned hs.wellFormed hm ⟨q, hq, hown⟩
        exact (hall z hm).resolve_left fun hz => hnot ⟨hcl, hz⟩
  · rintro (ho | ⟨hdyn, ⟨q', hq', hown⟩, ⟨x, hx⟩, hall⟩)
    · exact ho.mono fun _ => .inl
    · have hm := ((h.member x y).1 hx).1
      obtain ⟨-, q, hq, -⟩ := hs.wellFormed.exists_of_member hm
      refine ⟨hdyn, ⟨q, hq, ?_⟩, ⟨x, hm⟩, fun z hz => ?_⟩
      · rcases (h.origin hc (hs.not_user hm) hq').2 with ⟨q₀, hq₀, hsame⟩ | ⟨hn, -⟩
        · obtain rfl : q = q₀ := Option.some.inj (hq.symm.trans hq₀)
          rwa [← hsame.ref]
        · rw [hq] at hn
          cases hn
      · by_cases hp : P z
        · exact .inl hp
        · exact .inr (hall z ((h.member z y).2
            ⟨hz, fun hn => hp hn.2, fun ho => hp (h.spent_of_orphaned hs.wellFormed ho)⟩))

theorem renewed_eq (hc : ctx.Calm m c K) (h : s'.find? y = ctx.renewed m c s y) :
    ctx.renewed m c s' y = ctx.renewed m c s y := by
  unfold renewed at h ⊢
  cases hi : m.identities.lookup y with
  | none => rfl
  | some i =>
    rw [hi, Option.map_some] at h
    rw [h, Option.map_some, Option.map_some, Option.getD_some,
      refreshed_refreshed hc.mapping hc.policy.groupMapping]

theorem renewed_congr (h : s'.find? y = s.find? y) :
    ctx.renewed m c s' y = ctx.renewed m c s y := by
  unfold renewed
  rw [h]

/-- Clearing for some users and then for others is clearing for all of them. -/
theorem trans (hc : ctx.Calm m c K) (hs : s.Ready K) (h : ctx.Clears m c K s R P s')
    (h' : ctx.Clears m c K s' R' P' s'') :
    ctx.Clears m c K s (fun x => R x ∨ R' x) (fun x => P x ∨ P' x) s'' where
  toReady := h'.toReady
  records := by
    intro y hy
    have hor : ctx.Orphaned s (fun x => P x ∨ P' x) y ↔ ctx.Orphaned s P y ∨ ctx.Orphaned s' P' y :=
      h.orphaned_or hc.toBacked hs
    have hr := h.records y hy
    have hr' := h'.records y hy
    by_cases ho : ctx.Orphaned s P y
    · -- while groups are deleted, none is refreshed
      have hR' : ¬ R' y := fun hR' => by
        have hdyn := ho.1
        rw [(h'.groups y hR').1] at hdyn
        cases hdyn
      rw [if_pos ho] at hr
      rw [if_pos (hor.2 (.inl ho)), hr', if_neg hR', hr]
      split <;> rfl
    · rw [if_neg ho] at hr
      by_cases ho' : ctx.Orphaned s' P' y
      · rw [if_pos (hor.2 (.inr ho')), hr', if_pos ho']
      · rw [if_neg fun hn => (hor.1 hn).elim ho ho', hr', if_neg ho']
        by_cases hR : R y
        · rw [if_pos hR] at hr
          rw [if_pos (Or.inl hR : R y ∨ R' y), renewed_eq hc hr, hr, ite_self]
        · rw [if_neg hR] at hr
          rw [renewed_congr hr, hr]
          by_cases hR' : R' y
          · rw [if_pos hR', if_pos (Or.inr hR')]
          · rw [if_neg hR', if_neg (not_or.2 ⟨hR, hR'⟩)]
  member := by
    intro x g
    have hor : ctx.Orphaned s (fun x => P x ∨ P' x) x ↔ ctx.Orphaned s P x ∨ ctx.Orphaned s' P' x :=
      h.orphaned_or hc.toBacked hs
    rw [h'.member, h.member, h.clearable_iff hc.toBacked hs, hor]
    tauto
  groups := by
    rintro y (hR | hR)
    · exact h.groups y hR
    · obtain ⟨hdyn, hu, i, hi, hg⟩ := h'.groups y hR
      exact ⟨hdyn, (h.usable_iff hc hs hi hg).1 hu, i, hi, hg⟩
  closed := by
    rintro x g hx hcl
    by_cases hp : P x
    · exact .inl (h.closed x g hp hcl)
    · exact .inr (h'.closed x g (hx.resolve_left hp)
        ((h.clearable_iff hc.toBacked hs).2 ⟨hcl, hp⟩))

end Clears

/-! ## Unwinding -/

/-- Unwinding a record takes back what it reaches. -/
theorem unwound_clears (hc : c.StoreWorks) (hs : s.Ready K) (k : Key) {F : Key → Bool}
    (hF : c.Spares s F) :
    ctx.Clears m c K s (fun _ => False) (ctx.Reaches s k) (ctx.unwoundStore F s k) := by
  have horphaned (y : Key) : ctx.orphaned F s k y = true ↔ ctx.Orphaned s (ctx.Reaches s k) y := by
    rw [orphaned_iff]
    refine and_congr_right fun _ => and_congr_right fun ho => and_congr_right fun _ => ?_
    obtain ⟨q, hq, -⟩ := ho
    exact and_iff_left (hF.eq_false hc hq)
  have hfind (y : Key) : (ctx.unwoundStore F s k).find? y
      = if ctx.orphaned F s k y then none else s.find? y := find?_unwoundStore
  refine ⟨⟨(hs.wellFormed.cut _).drop _, (hs.typed.cut _).drop _, fun y r hy hr => ?_⟩,
    fun y hy => ?_, fun x g => ?_, fun _ => False.elim, fun x g hx hcl => hx.tail hcl⟩
  · rw [hfind] at hr
    split at hr
    · cases hr
    · exact hs.users y r hy hr
  · rw [hfind]
    by_cases ho : ctx.Orphaned s (ctx.Reaches s k) y
    · rw [if_pos ho, if_pos ((horphaned y).2 ho)]
    · rw [if_neg ho, if_neg fun hn => ho ((horphaned y).1 hn), if_neg not_false]
  · rw [unwoundStore, Store.member_drop, Store.member_cut, ← Bool.not_eq_true, ← Bool.not_eq_true,
      ← Bool.not_eq_true, cleared_iff, horphaned, horphaned, and_assoc]
    refine and_congr_right fun hm => and_congr_right fun hn => and_iff_left fun ho => ?_
    exact hn ⟨clearable_of_owned hs.wellFormed hm ho.2.1, ho.2.2.2 x hm⟩

/-! ## Placeholders -/

/-- What going on at the groups of an identity promises. -/
def Refreshes (ctx : Context) (m : Memory) (c : Scene) (goOn : List (Option Ref) → Sync Unit)
    (d : Nat) : Prop :=
  ∀ ⦃k : Key⦄ ⦃i : Identity⦄ ⦃s : Store⦄, s.Ready Nobody → m.identities.lookup k = some i →
    Sync.Ends c s (goOn i.groups) (fun _ s' => ctx.Clears m c Nobody s
      (fun y => ∃ x, ctx.Visits m s d k x ∧ ctx.Joins m s x y) (fun _ => False) s')
      (fun _ _ => False)

open Classical in
/-- A usable group is refreshed, and created if need be. -/
theorem Clears.refresh (hdyn : ctx.policy.hasDynamicGroups = true) (hu : ctx.Usable s g)
    (hi : m.identities.lookup g = some i) (hg : i.isGroup = true) (hs' : s'.Ready Nobody)
    (hr : ∀ y, s'.find? y = if y = g then ctx.renewed m c s g else s.find? y)
    (hm : ∀ x y, s'.Member x y ↔ s.Member x y) :
    ctx.Clears m c Nobody s (· = g) (fun _ => False) s' where
  toReady := hs'
  records := fun y _ => by
    rw [hr, if_neg not_orphaned_of_none]
    by_cases hy : y = g
    · rw [if_pos hy, if_pos hy, hy]
    · rw [if_neg hy, if_neg hy]
  member := fun x y => by simp [hm, not_orphaned_of_none]
  groups := by
    rintro y rfl
    exact ⟨hdyn, hu, i, hi, hg⟩
  closed := fun _ _ => False.elim

namespace Calm

variable (h : ctx.Calm m c Nobody)
include h

/-- The placeholder of a usable group is there, new or as it was. -/
theorem placeholder_ends {p : Ref} (hp : p.Typed) (hs : s.Ready Nobody)
    (hi : m.identities.lookup k = some i) :
    Sync.Ends c s (ctx.placeholder log p i) (fun a s' =>
      ¬ ctx.Usable s k ∧ a = none ∧ s' = s ∨
      ctx.Usable s k ∧ a = some (.stored k) ∧ s'.Ready Nobody ∧
        (∀ y, s'.find? y =
          if y = k then some ((s.find? k).getD (ctx.newRecord i true)) else s.find? y) ∧
        ∀ x y, s'.Member x y ↔ s.Member x y) E := by
  obtain ⟨hty, hid, -⟩ := h.memory.of_lookup hi
  refine (placeholder_usable_ends h.storeWorks.foresees hs.wellFormed hs.typed hp hty hid).mono
    ?_ fun _ _ => id
  rintro a s₁ (hno | ⟨hus, ha, hwf, ht, hrest⟩)
  · exact .inl hno
  · exact .inr ⟨hus, ha, ⟨hwf, ht, nofun⟩, hrest⟩

/-- The placeholder of one reference is refreshed, and those beyond it. -/
theorem ensureGroup_ends (hdyn : ctx.policy.hasDynamicGroups = true)
    {goOn : List (Option Ref) → Sync Unit} (hgo : ctx.Refreshes m c goOn d) (hs : s.Ready Nobody)
    (hr : ∃ p, ref = some p ∧ p.Typed) :
    Sync.Ends c s (ctx.ensureGroup log goOn ref) (fun _ s' => ctx.Clears m c Nobody s
      (fun y => ∃ t, ctx.Offers m s ref t ∧
        (y = t ∨ ∃ x, ctx.Visits m s d t x ∧ ctx.Joins m s x y)) (fun _ => False) s')
      (fun _ _ => False) := by
  obtain ⟨p, rfl, hp⟩ := hr
  have htyped : ∀ q, some p = some q → q.Typed := by
    rintro _ ⟨rfl⟩
    exact hp
  -- without an offer nothing is done
  have hnone (hn : ∀ t, ¬ ctx.Offers m s (some p) t) : ctx.Clears m c Nobody s
      (fun y => ∃ t, ctx.Offers m s (some p) t ∧
        (y = t ∨ ∃ x, ctx.Visits m s d t x ∧ ctx.Joins m s x y)) (fun _ => False) s :=
    (Clears.of_own hs (fun _ _ => rfl) fun _ _ => .rfl).congr (by simp [hn]) fun _ => .rfl
  unfold ensureGroup
  refine Sync.Ends.bind (h.served.offered_ends (.of_quiet h.quiet) htyped) ?_
  rintro _ s ⟨rfl, ⟨rfl, hn⟩ | ⟨j, g, rfl, hlook, hjg, hoffers⟩⟩
  · exact Sync.Ends.pure (hnone hn)
  · have hty := (h.memory.of_lookup hlook).1
    refine Sync.Ends.bind (h.placeholder_ends hp hs hlook) ?_
    rintro a s₁ (⟨hn, rfl, rfl⟩ | ⟨hus, rfl, hs₁, hfind₁, hmem₁⟩)
    · exact Sync.Ends.pure (hnone fun t ht => hn ((hoffers t).1 ht).2)
    · have hg₁ := (hfind₁ g).trans (if_pos rfl)
      refine Sync.Ends.bind (h.syncGroup_ends hs₁ hg₁ hty) ?_
      rintro _ _ rfl
      have h₂ : ctx.Clears m c Nobody s (· = g) (fun _ => False) _ :=
        .refresh hdyn hus hlook hjg (h.ready_put hs₁ hg₁ hty) (fun y => by
          rw [Store.find?_put hg₁, hfind₁, renewed, hlook, Option.map_some]
          split <;> rfl) hmem₁
      refine (hgo h₂.toReady hlook).mono ?_ fun _ _ => id
      intro _ s₃ h₃
      refine (h₂.trans h hs h₃).congr (fun y => ?_) fun _ => or_self_iff
      simp [hoffers, hus, h₂.visits_iff h hs, h₂.joins_iff h hs]

/-- One hop more than what is done at the groups of the groups of an identity. -/
theorem refreshes_forM (hdyn : ctx.policy.hasDynamicGroups = true)
    {goOn : List (Option Ref) → Sync Unit} (hgo : ctx.Refreshes m c goOn d) :
    ctx.Refreshes m c (fun refs => refs.forM (ctx.ensureGroup log goOn)) (d + 1) := by
  intro k i s hs hi
  have hty := (h.memory.of_lookup hi).1
  refine (Sync.Ends.forM (I := fun done s' => ctx.Clears m c Nobody s
    (fun y => ∃ ref ∈ done, ∃ t, ctx.Offers m s ref t ∧
      (y = t ∨ ∃ x, ctx.Visits m s d t x ∧ ctx.Joins m s x y)) (fun _ => False) s')
    ((Clears.of_own hs (fun _ _ => rfl) fun _ _ => .rfl).congr (by simp) fun _ => .rfl)
    ?_).mono ?_ fun _ _ => id
  · intro done ref rest s₁ he h₁
    have href : ref ∈ i.groups := by rw [he]; simp
    refine (h.ensureGroup_ends hdyn hgo h₁.toReady (hty.groups ref href)).mono ?_ fun _ _ => id
    intro _ s₂ h₂
    simp only [h₁.offers_iff h hs (typed_of_mem_groups hty href), h₁.visits_iff h hs,
      h₁.joins_iff h hs] at h₂
    refine (h₁.trans h hs h₂).congr (fun y => ?_) fun _ => or_self_iff
    simp [or_and_right, exists_or]
  · intro _ s' h'
    refine h'.congr (fun y => ?_) fun _ => .rfl
    simp only [exists_offers_iff hi, Visits]
    constructor
    · rintro ⟨t, ht, rfl | ⟨x, hv, hj⟩⟩
      · exact ⟨k, .inl rfl, ht⟩
      · exact ⟨x, .inr ⟨t, ht, hv⟩, hj⟩
    · rintro ⟨x, rfl | ⟨t, ht, hv⟩, hj⟩
      · exact ⟨y, hj, .inl rfl⟩
      · exact ⟨t, ht, .inr ⟨x, hv, hj⟩⟩

/-- Refreshing placeholders refreshes the targets of what is visited. -/
theorem ensureGroups_clears (hdyn : ctx.policy.hasDynamicGroups = true) (d : Nat) :
    ctx.Refreshes m c (ctx.ensureGroups log d) (d + 1) := by
  induction d with
  | zero =>
    have hstop : ctx.Refreshes m c (fun _ => return) 0 := by
      intro k i s hs _
      refine Sync.Ends.pure ?_
      exact (Clears.of_own hs (fun _ _ => rfl) fun _ _ => .rfl).congr (by simp [Visits])
        fun _ => .rfl
    exact h.refreshes_forM hdyn hstop
  | succ d ih => exact h.refreshes_forM hdyn ih

end Calm

end Context

end Roster
