import Roster.Proofs.Listing

/-!
# Member lists made in any store

`Declares` is the closed form of what expanding some records does in a dynamic context, where no
groups are joined automatically: what is expanded has exactly its targets among the groups of the
provider, groups that are not there yet are created, and everything else stays. The records under
some keys are left out of account. Which records were expanded in which order does not matter, since
steps of this form put together are of this form (`Declares.trans`).

* `Calm`: the context of a dynamic synchronisation in which nothing fails.
* `materialize_declares`: materializing the memberships of a record expands what it visits.
-/

namespace Roster

/-- A well-formed store of typed records in which the records under some keys are no groups. -/
structure Store.Ready (K : Key → Prop) (s : Store) : Prop where
  wellFormed : s.WellFormed
  typed : s.Typed
  users : ∀ k r, K k → s.find? k = some r → r.isGroup = false

/-- What has members is no user. -/
theorem Store.Ready.not_user {K : Key → Prop} {s : Store} {x g : Key} (h : s.Ready K)
    (hm : s.Member x g) : ¬ K g := by
  intro hk
  obtain ⟨-, r, hr, hg⟩ := h.wellFormed.exists_of_member hm
  rw [h.users g r hk hr] at hg
  cases hg

namespace Context

/-- A dynamic context with typed data in which nothing fails. The keys are those of users. -/
structure Calm (ctx : Context) (m : Memory) (c : Scene) (K : Key → Prop) : Prop
    extends ctx.Backed m where
  dynamic : ctx.dynamic = true
  quiet : c.faults = {}
  time : c.clock.IsTime
  mapping : Fields.Distinct ctx.policy.group.propertyMapping
  users : ∀ k i, K k → m.identities.lookup k = some i → i.isGroup = false

/-- The closed form of adding memberships `A` and expanding the records `X`. Nothing is said of the
records under the keys `K`. -/
structure Declares (ctx : Context) (m : Memory) (c : Scene) (K : Key → Prop) (s : Store)
    (A : Key → Key → Prop) (X : Key → Prop) (s' : Store) : Prop extends s'.Ready K where
  records : ∀ y r, ¬ K y → (s'.find? y = some r ↔ s.find? y = some r ∨ s.find? y = none ∧
    (∃ x, A x y) ∧ ∃ i, m.identities.lookup y = some i ∧
      r = ctx.refreshed c i (ctx.newRecord i true))
  member : ∀ x g, s'.Member x g ↔ A x g ∨ s.Member x g ∧ ¬ (X x ∧ ctx.Owned s g)
  declared : ∀ x g, A x g → ctx.Joins m s x g
  complete : ∀ x g, X x → ctx.Joins m s x g → A x g

variable {ctx : Context} {m : Memory} {c : Scene} {K : Key → Prop} {k g x y : Key}
  {s s' s'' : Store} {r : Record} {i j : Identity} {d : Nat} {log : Channel}
  {A B : Key → Key → Prop} {X Y : Key → Prop} {E : Failure → Store → Prop}

theorem Calm.storeWorks (h : ctx.Calm m c K) : c.StoreWorks := .of_quiet h.quiet

/-! ## Putting steps together -/

theorem Calm.not_user (h : ctx.Calm m c K) (hj : m.identities.lookup g = some j)
    (hg : j.isGroup = true) : ¬ K g := by
  intro hk
  rw [h.users g j hk hj] at hg
  cases hg

namespace Declares

/-- Only records under the given keys are changed. -/
theorem of_own (h : s'.Ready K) (hr : ∀ y, ¬ K y → s'.find? y = s.find? y)
    (hm : ∀ x g, s'.Member x g ↔ s.Member x g) :
    ctx.Declares m c K s (fun _ _ => False) (fun _ => False) s' where
  toReady := h
  records := fun y r hy => by simp [hr y hy]
  member := fun x g => by simp [hm]
  declared := fun _ _ => False.elim
  complete := fun _ _ h => h.elim

theorem congr (h : ctx.Declares m c K s A X s') (ha : ∀ x g, A x g ↔ B x g)
    (hx : ∀ x, X x ↔ Y x) : ctx.Declares m c K s B Y s' := by
  obtain rfl : A = B := funext fun x => funext fun g => propext (ha x g)
  obtain rfl : X = Y := funext fun x => propext (hx x)
  exact h

/-- Groups of the provider that have members stay, and no group with members becomes one. -/
theorem owned_iff (h : ctx.Declares m c K s A X s') (hs : s.Ready K) (hm : s.Member x g) :
    ctx.Owned s' g ↔ ctx.Owned s g := by
  have hk := hs.not_user hm
  obtain ⟨-, q, hq, -⟩ := hs.wellFormed.exists_of_member hm
  have hq' := (h.records g q hk).2 (.inl hq)
  rw [Context.owned_iff hq, Context.owned_iff hq']

variable (hc : ctx.Calm m c K)
include hc

theorem usable_iff (h : ctx.Declares m c K s A X s') (hj : m.identities.lookup g = some j)
    (hg : j.isGroup = true) : ctx.Usable s' g ↔ ctx.Usable s g := by
  have hk := hc.not_user hj hg
  constructor
  · exact fun hu r hr => hu r ((h.records g r hk).2 (.inl hr))
  · intro hu r hr
    rcases (h.records g r hk).1 hr with hr | ⟨-, -, i, hi, rfl⟩
    · exact hu r hr
    · refine ⟨rfl, ?_⟩
      show ctx.owns i.ref = true
      rw [(hc.memory.of_lookup hi).2.2]
      exact hc.owns_ref _

theorem joins_iff (h : ctx.Declares m c K s A X s') :
    ctx.Joins m s' x g ↔ ctx.Joins m s x g :=
  hc.joins_congr fun _ _ hj hg => h.usable_iff hc hj hg

/-- Expanding some records and then others is expanding all of them. -/
theorem trans (hs : s.Ready K) (h : ctx.Declares m c K s A X s')
    (h' : ctx.Declares m c K s' B Y s'') :
    ctx.Declares m c K s (fun x g => A x g ∨ B x g) (fun x => X x ∨ Y x) s'' where
  toReady := h'.toReady
  records := by
    intro y r hy
    rw [h'.records y r hy]
    constructor
    · rintro (hr | ⟨hn, ⟨x, hx⟩, hi⟩)
      · rcases (h.records y r hy).1 hr with hr | ⟨hn, ⟨x, hx⟩, hi⟩
        · exact .inl hr
        · exact .inr ⟨hn, ⟨x, .inl hx⟩, hi⟩
      · refine .inr ⟨?_, ⟨x, .inr hx⟩, hi⟩
        rw [Option.eq_none_iff_forall_ne_some] at hn ⊢
        exact fun q hq => hn q ((h.records y q hy).2 (.inl hq))
    · rintro (hr | ⟨hn, ⟨x, hx | hx⟩, hi⟩)
      · exact .inl ((h.records y r hy).2 (.inl hr))
      · exact .inl ((h.records y r hy).2 (.inr ⟨hn, ⟨x, hx⟩, hi⟩))
      · by_cases ha : ∃ x, A x y
        · exact .inl ((h.records y r hy).2 (.inr ⟨hn, ha, hi⟩))
        · refine .inr ⟨?_, ⟨x, hx⟩, hi⟩
          rw [Option.eq_none_iff_forall_ne_some]
          intro q hq
          rcases (h.records y q hy).1 hq with hq | ⟨-, ha', -⟩
          · rw [hn] at hq
            cases hq
          · exact ha ha'
  member := by
    intro x g
    rw [h'.member, h.member]
    constructor
    · rintro (hb | ⟨ha | ⟨hm, hx⟩, hy⟩)
      · exact .inl (.inr hb)
      · exact .inl (.inl ha)
      · refine .inr ⟨hm, ?_⟩
        rintro ⟨hxy | hxy, ho⟩
        · exact hx ⟨hxy, ho⟩
        · exact hy ⟨hxy, (h.owned_iff hs hm).2 ho⟩
    · rintro ((ha | hb) | ⟨hm, hn⟩)
      · by_cases hb : B x g
        · exact .inl hb
        · refine .inr ⟨.inl ha, fun hy => hb (h'.complete x g hy.1 ?_)⟩
          exact (h.joins_iff hc).2 (h.declared x g ha)
      · exact .inl hb
      · refine .inr ⟨.inr ⟨hm, fun hx => hn ⟨.inl hx.1, hx.2⟩⟩, fun hy => hn ⟨.inr hy.1, ?_⟩⟩
        exact (h.owned_iff hs hm).1 hy.2
  declared := by
    rintro x g (ha | hb)
    · exact h.declared x g ha
    · exact (h.joins_iff hc).1 (h'.declared x g hb)
  complete := by
    rintro x g (hx | hy) hj
    · exact .inl (h.complete x g hx hj)
    · exact .inr (h'.complete x g hy ((h.joins_iff hc).2 hj))

end Declares

/-! ## The walk -/

/-- No key. -/
def Nobody : Key → Prop := fun _ => False

theorem Calm.alone (h : ctx.Calm m c K) : ctx.Calm m c Nobody := { h with users := nofun }

/-- What expanding the groups of an identity promises. -/
def Expands (ctx : Context) (m : Memory) (c : Scene) (goOn : Identity → Subject → Sync Unit)
    (d : Nat) : Prop :=
  ∀ {k : Key} {i : Identity} {s : Store}, s.Ready Nobody → m.identities.lookup k = some i →
    (∃ r, s.find? k = some r) → Sync.Ends c s (goOn i (.stored k))
      (fun _ s' => ctx.Declares m c Nobody s (fun x g => ctx.Visits m s d k x ∧ ctx.Joins m s x g)
        (ctx.Visits m s d k) s') (fun _ _ => False)

/-- Where no groups are joined automatically, expanding records is all there is. -/
theorem Enlists.declares (h : ctx.Enlists m c s A X s') (hd : ctx.dynamic = true) :
    ctx.Declares m c Nobody s A X s' where
  toReady := ⟨h.wellFormed, h.typed, nofun⟩
  records := fun y r _ => by rw [h.records, Born, and_assoc]
  member := by
    intro x g
    rw [h.member x g (by simp [autos_of_dynamic hd])]
    simp [autos_of_dynamic hd]
  declared := h.declared
  complete := h.complete

/-- An identity without a record gets a new one. -/
theorem Calm.create_ends (h : ctx.Calm m c K) (hs : s.Ready K)
    (hi : m.identities.lookup k = some i) (hnew : s.find? k = none) {isGroup : Bool}
    (hg : K k → isGroup = false) :
    Sync.Ends c s (Sync.create (ctx.newRecord i isGroup)) (fun x s' => x = .stored k ∧
      s'.Ready K ∧
      (∀ y, s'.find? y = if y = k then some (ctx.newRecord i isGroup) else s.find? y) ∧
      ∀ x y, s'.Member x y ↔ s.Member x y) E := by
  obtain ⟨hty, hid, -⟩ := h.memory.of_lookup hi
  refine (newRecord_ends h.storeWorks.foresees hs.wellFormed hs.typed hty hid hnew isGroup).mono ?_
    fun _ _ => id
  rintro _ s₁ ⟨rfl, hwf, ht, hfind, hmember⟩
  refine ⟨rfl, ⟨hwf, ht, ?_⟩, hfind, hmember⟩
  intro j q hj hq
  rw [hfind] at hq
  split at hq
  · next he =>
    subst he
    obtain rfl := Option.some.inj hq
    rw [hg hj]
    rfl
  · exact hs.users j q hj hq

namespace Calm

variable (h : ctx.Calm m c Nobody)
include h

theorem applyMembership_ends (hk : s.find? k = some r) {groups : Except Failure (List Value)}
    {log : Option Channel} :
    Sync.Ends c s (ctx.applyMembership (.stored k) groups log) (fun _ s' => s' = s) E := by
  unfold applyMembership
  refine Sync.Ends.step (Sync.Ends.record hk ?_)
  rw [if_pos h.dynamic]
  exact Sync.Ends.log rfl

theorem syncGroup_ends (hs : s.Ready Nobody) (hk : s.find? k = some r) (hi : i.Typed)
    {log : Option Channel} :
    Sync.Ends c s (ctx.syncGroup i (.stored k) log)
      (fun _ s' => s' = s.put k (ctx.refreshed c i r)) E :=
  syncGroup_unjoined_ends h.storeWorks.foresees hs.wellFormed hk
    (hs.typed r (Store.mem_all_of_find? hk)) hi h.policy (autos_of_dynamic h.dynamic)

/-- A refreshed record takes the place of a group. -/
theorem ready_put (hs : s.Ready Nobody) (hk : s.find? k = some r) (hi : i.Typed) :
    (s.put k (ctx.refreshed c i r)).Ready Nobody where
  wellFormed := hs.wellFormed.put hk _ ⟨rfl, rfl⟩
  typed := hs.typed.put { (hs.typed r (Store.mem_all_of_find? hk)).takingOver hi _ with
    lastSynced := .inr h.time }
  users := nofun

/-- Materializing the memberships of a record expands what it visits. -/
theorem materialize_declares (d : Nat) : ctx.Expands m c (ctx.materialize log d) d := by
  intro k i s hs hi hk
  have henlists : ctx.GoesOut m c (fun _ _ => False) (ctx.materialize log d) d :=
    h.materialize_enlists (.of_quiet h.quiet) h.time d
  exact (henlists hs.wellFormed hs.typed hi hk).mono (fun _ _ he => he.declares h.dynamic)
    fun _ _ => id

end Calm

end Context

end Roster
