import Mathlib.Logic.Function.Basic
import Roster.Proofs.Declaring

/-!
# Member lists made twice

The identity of a record *aims* at the groups that it declares and that can stand in the store. A
record is *settled* to a number of hops if it is in all groups it aims at, in no other groups of the
provider, and these groups are settled to one hop less (`Context.Settled`): then there is nothing to
make. Materializing leaves what it visits settled, and never ends a membership that is aimed at nor
makes another one for a group that was there (`Context.Fills`), so that what it has settled stays so
whatever it visits next.

The identity of the user need not be the one that the provider holds under the key of the record
(`Memory.behind`); for groups it is.

* `materialize_settles`: what is materialized is settled.
* `materialize_cuts`: where all groups are joined, only the memberships in other groups end.
* `materialize_again`: when a user that was materialized has joined groups automatically, it is taken
  out of them again, and joining them once more gives the same store.
-/

namespace Roster

/-- A well-formed store of typed records in which a user stands under a key. -/
structure Store.Hosts (k : Key) (r : Record) (s : Store) : Prop where
  wellFormed : s.WellFormed
  typed : s.Typed
  own : s.find? k = some r
  isUser : r.isGroup = false

namespace Store.Hosts

variable {k g x : Key} {r q : Record} {s : Store} (h : s.Hosts k r)
include h

theorem ne_of_group (hg : s.find? g = some q) (hgroup : q.isGroup = true) : g ≠ k := by
  rintro rfl
  obtain rfl : r = q := Option.some.inj (h.own.symm.trans hg)
  rw [h.isUser] at hgroup
  cases hgroup

theorem ne_of_member (hm : s.Member x g) : g ≠ k := by
  obtain ⟨-, q, hq, hgroup⟩ := h.wellFormed.exists_of_member hm
  exact h.ne_of_group hq hgroup

/-- Hosting the user depends on its record; the record may be replaced. -/
theorem put (ht : q.Typed) (hq : q.id = r.id ∧ q.group = r.group) : (s.put k q).Hosts k q where
  wellFormed := h.wellFormed.put h.own q hq
  typed := h.typed.put ht
  own := by rw [find?_put h.own, if_pos rfl]
  isUser := by
    rw [Record.isGroup, hq.2]
    exact h.isUser

end Store.Hosts

/-- The identities behind the records: that of one user, and those of the provider under their own
keys. -/
def Memory.behind (m : Memory) (k : Key) (u : Identity) : Key → Option Identity :=
  Function.update (fun x => m.identities.lookup x) k (some u)

namespace Context

/-- A context with typed data in which nothing fails; mappings name every property once. -/
structure Still (ctx : Context) (m : Memory) (c : Scene) : Prop extends ctx.Backed m where
  quiet : c.faults = {}
  time : c.clock.IsTime
  userMapping : Fields.Distinct ctx.policy.user.propertyMapping
  groupMapping : Fields.Distinct ctx.policy.group.propertyMapping

/-- The identity behind a record declares a group that can stand in the store under a key. -/
def Aims (ctx : Context) (m : Memory) (k : Key) (u : Identity) (s : Store) (x g : Key) : Prop :=
  ∃ i, m.behind k u x = some i ∧ ∃ ref ∈ i.groups, ctx.Offers m s ref g

/-- What making member lists comes to: existing records stay, new ones are groups of the provider,
and existing groups keep and gain only memberships that are aimed at. -/
structure Fills (ctx : Context) (m : Memory) (k : Key) (u : Identity) (r : Record) (s s' : Store) :
    Prop extends s'.Hosts k r where
  kept : ∀ x q, x ≠ k → s.find? x = some q → s'.find? x = some q
  new : ∀ x q, s.find? x = none → s'.find? x = some q → q.isGroup = true ∧ ctx.owns q.ref = true
  held : ∀ x g, s.Member x g → ctx.Aims m k u s x g → s'.Member x g
  gained : ∀ x g, x ≠ k → (∃ q, s.find? x = some q) → s'.Member x g →
    s.Member x g ∨ ctx.Aims m k u s x g

/-- The record is in the groups it aims at and in no others of the provider, and so are these groups
within a number of hops. -/
def Settled (ctx : Context) (m : Memory) (k : Key) (u : Identity) (s : Store) : Nat → Key → Prop
  | 0, _ => True
  | d + 1, x => (∀ g, ctx.Aims m k u s x g → s.Member x g ∧ Settled ctx m k u s d g) ∧
    ∀ g, s.Member x g → ctx.Owned s g → ctx.Aims m k u s x g

variable {ctx : Context} {m : Memory} {c : Scene} {k g x y : Key} {u i j : Identity}
  {s s' s'' : Store} {r r' q : Record} {ref : Option Ref} {d : Nat} {a : Scalar} {log : Channel}
  {D : Key → Key → Bool} {E : Failure → Store → Prop}

theorem aims_iff (hi : m.behind k u x = some i) :
    ctx.Aims m k u s x g ↔ ∃ ref ∈ i.groups, ctx.Offers m s ref g := by
  simp only [Aims, hi, Option.some.injEq, exists_eq_left']

/-- No group stands where the user does. -/
theorem Usable.ne (hu : ctx.Usable s g) (hs : s.Hosts k r) : g ≠ k := by
  rintro rfl
  have hgroup := hu.isGroup hs.own
  rw [hs.isUser] at hgroup
  cases hgroup

/-- The identity behind a group is the one that the provider holds. -/
theorem Usable.behind (hu : ctx.Usable s g) (hs : s.Hosts k r)
    (hi : m.identities.lookup g = some i) : m.behind k u g = some i := by
  rw [Memory.behind, Function.update_of_ne (hu.ne hs), hi]

theorem Aims.ne (ha : ctx.Aims m k u s x g) (hs : s.Hosts k r) : g ≠ k := by
  obtain ⟨-, -, -, -, -, -, -, hus⟩ := ha
  exact hus.ne hs

theorem Backed.typed_behind (h : ctx.Backed m) (hu : u.Typed) (hi : m.behind k u x = some i) :
    i.Typed := by
  unfold Memory.behind at hi
  by_cases hx : x = k
  · subst hx
    rw [Function.update_self] at hi
    exact Option.some.inj hi ▸ hu
  · rw [Function.update_of_ne hx] at hi
    exact (h.memory.of_lookup hi).1

/-! ## Filling -/

namespace Fills

theorem refl (hs : s.Hosts k r) : ctx.Fills m k u r s s where
  toHosts := hs
  kept := fun _ _ _ hq => hq
  new := fun x q hn hq => by rw [hn] at hq; cases hq
  held := fun _ _ hm _ => hm
  gained := fun _ _ _ _ hm => .inl hm

/-- Only the record of the user and its memberships change. -/
theorem of_own (hs' : s'.Hosts k r') (hr : ∀ x, x ≠ k → s'.find? x = s.find? x)
    (hk : s.find? k = some r) (hm : ∀ x g, s.Member x g → s'.Member x g)
    (hm' : ∀ x g, x ≠ k → s'.Member x g → s.Member x g) : ctx.Fills m k u r' s s' where
  toHosts := hs'
  kept := fun x q hx hq => (hr x hx).trans hq
  new := by
    intro x q hn hq
    by_cases hx : x = k
    · subst hx
      rw [hk] at hn
      cases hn
    · rw [hr x hx, hn] at hq
      cases hq
  held := fun x g hx _ => hm x g hx
  gained := fun x g hx _ h => .inl (hm' x g hx h)

/-- Memberships end that are not aimed at. -/
theorem cut (hs : s.Hosts k r) (hD : ∀ x g, D x g = true → ¬ ctx.Aims m k u s x g) :
    ctx.Fills m k u r s (s.cut D) where
  toHosts := ⟨hs.wellFormed.cut D, hs.typed.cut D, hs.own, hs.isUser⟩
  kept := fun _ _ _ hq => hq
  new := fun x q hn hq => by rw [Store.find?_cut, hn] at hq; cases hq
  held := by
    intro x g hm ha
    refine Store.member_cut.2 ⟨hm, ?_⟩
    cases hd : D x g with
    | false => rfl
    | true => exact absurd ha (hD x g hd)
  gained := fun _ _ _ _ hm => .inl (Store.member_cut.1 hm).1

/-- A record joins a group that it aims at. -/
theorem join (hs : s.Hosts k r) (hwf : s'.WellFormed) (hrecs : s'.records = s.records)
    (ha : ctx.Aims m k u s x g) (hm : ∀ y t, s'.Member y t ↔ s.Member y t ∨ y = x ∧ t = g) :
    ctx.Fills m k u r s s' := by
  have hfind (y : Key) : s'.find? y = s.find? y := by rw [Store.find?, Store.find?, hrecs]
  refine ⟨⟨hwf, fun q hq => hs.typed q (by rwa [Store.all, hrecs] at hq), ?_, hs.isUser⟩, ?_, ?_, ?_,
    ?_⟩
  · rw [hfind, hs.own]
  · intro y q _ hq
    rw [hfind, hq]
  · intro y q hn hq
    rw [hfind, hn] at hq
    cases hq
  · exact fun y t hy _ => (hm y t).2 (.inl hy)
  · intro y t _ _ hy
    rcases (hm y t).1 hy with hy | ⟨rfl, rfl⟩
    · exact .inl hy
    · exact .inr ha

/-- A group of the provider is added. -/
theorem add (hs : s.Hosts k r) (hwf : s'.WellFormed) (ht : s'.Typed)
    (hfind : ∀ y, s'.find? y = if y = g then some q else s.find? y) (hnew : s.find? g = none)
    (hq : q.isGroup = true ∧ ctx.owns q.ref = true) (hm : ∀ y t, s.Member y t → s'.Member y t)
    (hm' : ∀ y t, y ≠ g → s'.Member y t → s.Member y t) : ctx.Fills m k u r s s' := by
  have hold {y : Key} {p : Record} (hp : s.find? y = some p) : y ≠ g := by
    rintro rfl
    rw [hnew] at hp
    cases hp
  refine ⟨⟨hwf, ht, by rw [hfind, if_neg (hold hs.own), hs.own], hs.isUser⟩, ?_, ?_,
    fun y t hy _ => hm y t hy, ?_⟩
  · intro y p _ hp
    rw [hfind, if_neg (hold hp), hp]
  · intro y p hn hp
    rw [hfind] at hp
    split at hp
    · exact Option.some.inj hp ▸ hq
    · rw [hn] at hp
      cases hp
  · rintro y t _ ⟨p, hp⟩ hy
    exact .inl (hm' y t (hold hp) hy)

/-- Where the user's record stays, all do. -/
theorem find? (h : ctx.Fills m k u r s s') (hs : s.Hosts k r) (hx : s.find? x = some q) :
    s'.find? x = some q := by
  by_cases hxk : x = k
  · subst hxk
    rw [h.own, ← hs.own, hx]
  · exact h.kept x q hxk hx

variable (h : ctx.Fills m k u r' s s') (hs : s.Hosts k r)
include h hs

theorem usable_iff : ctx.Usable s' g ↔ ctx.Usable s g := by
  by_cases hg : g = k
  · subst hg
    exact ⟨fun hu => absurd rfl (hu.ne h.toHosts), fun hu => absurd rfl (hu.ne hs)⟩
  · cases hq : s.find? g with
    | some q =>
      rw [Context.usable_iff hq, Context.usable_iff (h.kept g q hg hq)]
    | none => exact ⟨fun _ => usable_of_none hq, fun _ q hq' => h.new g q hq hq'⟩

theorem offers_iff : ctx.Offers m s' ref g ↔ ctx.Offers m s ref g := by
  simp only [Offers, h.usable_iff hs]

theorem aims_iff : ctx.Aims m k u s' x g ↔ ctx.Aims m k u s x g := by
  simp only [Aims, h.offers_iff hs]

theorem owned_iff (hm : s.Member x g) : ctx.Owned s' g ↔ ctx.Owned s g := by
  obtain ⟨-, q, hq, -⟩ := hs.wellFormed.exists_of_member hm
  rw [Context.owned_iff hq, Context.owned_iff (h.kept g q (hs.ne_of_member hm) hq)]

theorem trans {r'' : Record} (h' : ctx.Fills m k u r'' s' s'') : ctx.Fills m k u r'' s s'' where
  toHosts := h'.toHosts
  kept := fun x q hx hq => h'.kept x q hx (h.kept x q hx hq)
  new := by
    intro x q hn hq
    cases hx : s'.find? x with
    | none => exact h'.new x q hx hq
    | some p =>
      have hxk : x ≠ k := by
        rintro rfl
        rw [hs.own] at hn
        cases hn
      obtain rfl : p = q := Option.some.inj ((h'.kept x p hxk hx).symm.trans hq)
      exact h.new x p hn hx
  held := fun x g hm ha => h'.held x g (h.held x g hm ha) ((h.aims_iff hs).2 ha)
  gained := by
    rintro x g hx ⟨q, hq⟩ hm
    rcases h'.gained x g hx ⟨q, h.kept x q hx hq⟩ hm with hm | ha
    · exact h.gained x g hx ⟨q, hq⟩ hm
    · exact .inr ((h.aims_iff hs).1 ha)

/-- A group that is settled stays so. -/
theorem settled (hx : x ≠ k) (hq : ∃ q, s.find? x = some q) (hset : ctx.Settled m k u s d x) :
    ctx.Settled m k u s' d x := by
  induction d generalizing x with
  | zero => trivial
  | succ d ih =>
    obtain ⟨hin, hout⟩ := hset
    refine ⟨fun g ha => ?_, fun g hm ho => (h.aims_iff hs).2 ?_⟩
    · have ha' := (h.aims_iff hs).1 ha
      obtain ⟨hm, hset⟩ := hin g ha'
      obtain ⟨-, p, hp, -⟩ := hs.wellFormed.exists_of_member hm
      exact ⟨h.held x g hm ha', ih (ha'.ne hs) ⟨p, hp⟩ hset⟩
    · rcases h.gained x g hx hq hm with hm | ha
      · exact hout g hm ((h.owned_iff hs hm).1 ho)
      · exact ha

end Fills

/-! ## Making member lists -/

/-- What going on at a group promises the first time. -/
def Settles (ctx : Context) (m : Memory) (c : Scene) (k : Key) (u : Identity) (r : Record)
    (goOn : Identity → Subject → Sync Unit) (d : Nat) : Prop :=
  ∀ ⦃x : Key⦄ ⦃i : Identity⦄ ⦃s : Store⦄, s.Hosts k r → m.behind k u x = some i →
    (∃ q, s.find? x = some q) → Sync.Ends c s (goOn i (.stored x))
      (fun _ s' => ctx.Fills m k u r s s' ∧ ctx.Settled m k u s' d x) (fun _ _ => False)

/-- What going on at a settled group promises. -/
def Rests (ctx : Context) (m : Memory) (c : Scene) (k : Key) (u : Identity) (r : Record)
    (goOn : Identity → Subject → Sync Unit) (d : Nat) : Prop :=
  ∀ ⦃x : Key⦄ ⦃i : Identity⦄ ⦃s : Store⦄, s.Hosts k r → m.behind k u x = some i →
    (∃ q, s.find? x = some q) → ctx.Settled m k u s d x →
    Sync.Ends c s (goOn i (.stored x)) (fun _ s' => s' = s) (fun _ _ => False)

namespace Still

variable (h : ctx.Still m c)
include h

theorem storeWorks : c.StoreWorks := .of_quiet h.quiet

/-- A usable group that is not there is created, and joins groups that were there; one that is there
is left as it is. -/
theorem localGroup_fills (u : Identity) (hs : s.Hosts k r) (hi : m.identities.lookup g = some i) :
    Sync.Ends c s (ctx.localGroup i log) (fun a s' =>
      ¬ ctx.Usable s g ∧ a = none ∧ s' = s ∨
      ctx.Usable s g ∧ ∃ q, a = some (.stored g, q) ∧ s'.find? g = some q ∧ q.isGroup = true ∧
        ctx.Fills m k u r s s') E := by
  obtain ⟨hty, hid, href⟩ := h.memory.of_lookup hi
  cases hf : s.find? g with
  | some q =>
    refine (localGroup_found_ends hid hf).mono ?_ fun _ _ => id
    rintro _ s ⟨rfl, hn | ⟨hus, rfl⟩⟩
    · exact .inl ⟨hn.1, hn.2, rfl⟩
    · exact .inr ⟨hus, q, rfl, hf, hus.isGroup hf, .refl hs⟩
  | none =>
    refine (localGroup_new_ends h.storeWorks.foresees hs.wellFormed hs.typed hty hid hf h.policy
      h.time).mono ?_ fun _ _ => id
    rintro _ s' ⟨rfl, hwf, hty', hfind, hmem⟩
    have hown : ctx.owns i.ref = true := by
      rw [href]
      exact h.owns_ref _
    refine .inr ⟨usable_of_none hf, _, rfl, (hfind g).trans (if_pos rfl), rfl, ?_⟩
    refine .add hs hwf hty' hfind hf ⟨rfl, hown⟩ (fun y t hm => (hmem y t).2 (.inl hm))
      fun y t hy hm => ?_
    exact ((hmem y t).1 hm).resolve_right fun hx => hy hx.1

/-- Declaring one group of a record makes that membership, and leaves the group settled. -/
theorem declareGroup_settles {goOn : Identity → Subject → Sync Unit}
    (hgo : ctx.Settles m c k u r goOn d) (hu : u.Typed) (hs : s.Hosts k r)
    (hi : m.behind k u x = some i) (hx : s.find? x = some q) (href : ref ∈ i.groups)
    (declared : List Key) :
    Sync.Ends c s (ctx.declareGroup log q goOn declared ref) (fun declared' s' =>
      ctx.Fills m k u r s s' ∧ (∀ g, g ∈ declared' ↔ g ∈ declared ∨ ctx.Offers m s ref g) ∧
      ∀ g, ctx.Offers m s ref g → s'.Member x g ∧ ctx.Settled m k u s' d g)
      (fun _ _ => False) := by
  have htyped := typed_of_mem_groups (h.typed_behind hu hi) href
  refine h.served.declareGroup_ends (.of_quiet h.quiet) htyped
    (fun hn => ⟨.refl hs, by simp [hn], fun g hg => absurd hg (hn g)⟩)
    (fun _ _ hlook _ => h.localGroup_fills u hs hlook) ?_
  rintro j g q' s₁ hlook hus hoffers ⟨hq', hgroup, h₁⟩
  have haim : ctx.Aims m k u s x g := ⟨i, hi, ref, href, (hoffers g).2 rfl⟩
  refine Sync.Ends.bind (addMember_ends h.storeWorks.foresees h₁.wellFormed hq' hgroup
    (hs.wellFormed.toKey_of_find? hx) (h₁.find? hs hx)) ?_
  rintro _ s₂ ⟨hwf₂, hrecs₂, hmem₂⟩
  have h₁₂ : ctx.Fills m k u r s₁ s₂ :=
    .join h₁.toHosts hwf₂ hrecs₂ ((h₁.aims_iff hs).2 haim) hmem₂
  have h₂ := h₁.trans hs h₁₂
  refine Sync.Ends.step (Sync.Ends.result_ok (h₁.wellFormed.toKey_of_find? hq') ?_)
  refine Sync.Ends.bind (hgo h₂.toHosts (hus.behind hs hlook)
    ⟨q', h₁₂.find? h₁.toHosts hq'⟩) ?_
  rintro _ s₃ ⟨h₃, hset⟩
  refine Sync.Ends.pure ⟨h₂.trans hs h₃, fun y => ?_, fun y hy => ?_⟩
  · rw [List.mem_cons, hoffers, or_comm]
  · obtain rfl := (hoffers y).1 hy
    refine ⟨h₃.held x y ((hmem₂ x y).2 (.inr ⟨rfl, rfl⟩)) ?_, hset⟩
    exact (h₂.aims_iff hs).2 haim

/-- What is materialized is settled. -/
theorem materialize_settles (hu : u.Typed) (d : Nat) :
    ctx.Settles m c k u r (ctx.materialize log d) d := by
  induction d with
  | zero => exact fun _ _ _ hs _ _ => Sync.Ends.pure ⟨.refl hs, trivial⟩
  | succ d ih =>
    rintro x i s hs hi ⟨q, hx⟩
    have hty := h.typed_behind hu hi
    unfold materialize
    refine Sync.Ends.step (requireKnown_ends hty.known ?_)
    refine Sync.Ends.step (Sync.Ends.record hx ?_)
    refine Sync.Ends.bind (Sync.Ends.foldlM (I := fun done declared s' =>
      ctx.Fills m k u r s s' ∧ (∀ g, g ∈ declared ↔ ∃ ref ∈ done, ctx.Offers m s ref g) ∧
      ∀ g ∈ declared, s'.Member x g ∧ ctx.Settled m k u s' d g)
      ⟨.refl hs, by simp, by simp⟩ ?_) ?_
    · rintro done ref rest declared s₁ he ⟨h₁, hdecl, hset⟩
      refine (h.declareGroup_settles ih hu h₁.toHosts hi (h₁.find? hs hx) (by rw [he]; simp)
        declared).mono ?_ fun _ _ => id
      rintro declared' s₂ ⟨h₂, hdecl', hset'⟩
      simp only [h₁.offers_iff hs] at hdecl' hset'
      refine ⟨h₁.trans hs h₂, fun g => ?_, fun g hg => ?_⟩
      · simp [hdecl', hdecl, or_and_right, exists_or]
      · rcases (hdecl' g).1 hg with hg | hg
        · -- what was settled stays so
          obtain ⟨hm, hs₁⟩ := hset g hg
          obtain ⟨ref', href', hoff⟩ := (hdecl g).1 hg
          have haim : ctx.Aims m k u s x g := ⟨i, hi, ref', by rw [he]; simp [href'], hoff⟩
          obtain ⟨-, p, hp, -⟩ := h₁.wellFormed.exists_of_member hm
          exact ⟨h₂.held x g hm ((h₁.aims_iff hs).2 haim),
            h₂.settled h₁.toHosts (haim.ne hs) ⟨p, hp⟩ hs₁⟩
        · exact hset' g hg
    · rintro declared s₁ ⟨h₁, hdecl, hset⟩
      have haims (g : Key) : g ∈ declared ↔ ctx.Aims m k u s₁ x g := by
        rw [h₁.aims_iff hs, aims_iff hi, hdecl]
      refine (prune_ends h.storeWorks.foresees h₁.wellFormed
        (hs.wellFormed.toKey_of_find? hx) declared).mono ?_ fun _ _ => id
      rintro _ _ ⟨D, rfl, hD⟩
      have h₂ : ctx.Fills m k u r s₁ (s₁.cut D) := by
        refine .cut h₁.toHosts fun y g hd ha => ?_
        obtain ⟨rfl, -, -, hn⟩ := (hD y g).1 hd
        exact hn ((haims g).2 ha)
      refine ⟨h₁.trans hs h₂, fun g ha => ?_, fun g hm ho => ?_⟩
      · have ha' := (h₂.aims_iff h₁.toHosts).1 ha
        obtain ⟨hm, hset⟩ := hset g ((haims g).2 ha')
        obtain ⟨-, p, hp, -⟩ := h₁.wellFormed.exists_of_member hm
        exact ⟨h₂.held x g hm ha', h₂.settled h₁.toHosts (ha'.ne h₁.toHosts) ⟨p, hp⟩ hset⟩
      · obtain ⟨hm, hd⟩ := Store.member_cut.1 hm
        rw [h₂.aims_iff h₁.toHosts]
        by_contra hn
        have hdt := (hD x g).2 ⟨rfl, hm, ho, fun hg => hn ((haims g).1 hg)⟩
        rw [hd] at hdt
        cases hdt

/-! ## Making them again -/

/-- Declaring a group that is joined and settled changes nothing. -/
theorem declareGroup_rests {goOn : Identity → Subject → Sync Unit}
    (hgo : ctx.Rests m c k u r goOn d) (hu : u.Typed) (hs : s.Hosts k r)
    (hi : m.behind k u x = some i) (hx : s.find? x = some q) (href : ref ∈ i.groups)
    (hset : ∀ g, ctx.Aims m k u s x g → s.Member x g ∧ ctx.Settled m k u s d g)
    (declared : List Key) :
    Sync.Ends c s (ctx.declareGroup log q goOn declared ref) (fun declared' s' =>
      s' = s ∧ ∀ g, g ∈ declared' ↔ g ∈ declared ∨ ctx.Offers m s ref g) (fun _ _ => False) := by
  have htyped := typed_of_mem_groups (h.typed_behind hu hi) href
  refine h.served.declareGroup_ends (.of_quiet h.quiet) htyped (fun hn => ⟨rfl, by simp [hn]⟩)
    (L := fun _ g p s' => s.find? g = some p ∧ s' = s) (fun j g hlook hoffer => ?_) ?_
  · cases hg : s.find? g with
    | some p =>
      refine (localGroup_found_ends (h.memory.of_lookup hlook).2.1 hg).mono ?_ fun _ _ => id
      rintro _ s ⟨rfl, hn | ⟨hus, rfl⟩⟩
      · exact .inl ⟨hn.1, hn.2, rfl⟩
      · exact .inr ⟨hus, p, rfl, rfl, rfl⟩
    | none =>
      -- a group that is offered is joined, so that it is there
      obtain ⟨hm, -⟩ := hset g ⟨i, hi, ref, href, hoffer (usable_of_none hg)⟩
      obtain ⟨-, p, hp, -⟩ := hs.wellFormed.exists_of_member hm
      rw [hg] at hp
      cases hp
  · rintro j g p _ hlook hus hoffers ⟨hp, rfl⟩
    obtain ⟨hm, hrest⟩ := hset g ⟨i, hi, ref, href, (hoffers g).2 rfl⟩
    have hgroup := hus.isGroup hp
    obtain ⟨b, hb, rfl⟩ := Value.toKey_eq_ok_iff.1 (hs.wellFormed.toKey_of_find? hx)
    refine Sync.Ends.bind (addMember_joined_ends h.storeWorks.foresees hs.wellFormed hp hgroup
      hb (Store.has_iff.2 ⟨q, hx⟩)) ?_
    rintro _ _ rfl
    rw [hs.wellFormed.joined_of_member hm]
    refine Sync.Ends.step (Sync.Ends.result_ok (hs.wellFormed.toKey_of_find? hp) ?_)
    refine Sync.Ends.bind (hgo hs (hus.behind hs hlook) ⟨p, hp⟩ hrest) ?_
    rintro _ s rfl
    refine Sync.Ends.pure ⟨rfl, fun y => ?_⟩
    rw [List.mem_cons, hoffers, or_comm]

/-- Where all groups are joined and settled, only the memberships in other groups of the provider
end. -/
theorem materialize_cuts (hgo : ctx.Rests m c k u r (ctx.materialize log d) d) (hu : u.Typed)
    (hs : s.Hosts k r) (hi : m.behind k u x = some i) (hx : s.find? x = some q)
    (hset : ∀ g, ctx.Aims m k u s x g → s.Member x g ∧ ctx.Settled m k u s d g) :
    Sync.Ends c s (ctx.materialize log (d + 1) i (.stored x)) (fun _ s' => ∃ D, s' = s.cut D ∧
      ∀ y g, D y g = true ↔ y = x ∧ s.Member x g ∧ ctx.Owned s g ∧ ¬ ctx.Aims m k u s x g)
      (fun _ _ => False) := by
  unfold materialize
  refine Sync.Ends.step (requireKnown_ends (h.typed_behind hu hi).known ?_)
  refine Sync.Ends.step (Sync.Ends.record hx ?_)
  refine Sync.Ends.bind (Sync.Ends.foldlM (I := fun done declared s' => s' = s ∧
    ∀ g, g ∈ declared ↔ ∃ ref ∈ done, ctx.Offers m s ref g) ⟨rfl, by simp⟩ ?_) ?_
  · rintro done ref rest declared _ he ⟨rfl, hdecl⟩
    refine (h.declareGroup_rests hgo hu hs hi hx (by rw [he]; simp) hset declared).mono ?_
      fun _ _ => id
    rintro declared' _ ⟨rfl, hdecl'⟩
    refine ⟨rfl, fun g => ?_⟩
    simp [hdecl', hdecl, or_and_right, exists_or]
  · rintro declared _ ⟨rfl, hdecl⟩
    refine (prune_ends h.storeWorks.foresees hs.wellFormed (hs.wellFormed.toKey_of_find? hx)
      declared).mono ?_ fun _ _ => id
    rintro _ _ ⟨D, rfl, hD⟩
    refine ⟨D, rfl, fun y g => ?_⟩
    rw [hD, aims_iff hi, hdecl]

/-- Materializing what is settled changes nothing. -/
theorem materialize_rests (hu : u.Typed) (d : Nat) :
    ctx.Rests m c k u r (ctx.materialize log d) d := by
  induction d with
  | zero => exact fun _ _ _ _ _ _ _ => Sync.Ends.pure rfl
  | succ d ih =>
    rintro x i s hs hi ⟨q, hx⟩ ⟨hin, hout⟩
    refine (h.materialize_cuts ih hu hs hi hx hin).mono ?_ fun _ _ => id
    rintro _ _ ⟨D, rfl, hD⟩
    refine Store.cut_eq_self fun y g hm => ?_
    rw [← Bool.not_eq_true, hD]
    rintro ⟨rfl, -, ho, hn⟩
    exact hn (hout g hm ho)

/-- A user that is settled joins groups and is stamped. When its memberships are materialized again,
it is taken out of groups that it only joined, and joins them again as before. -/
theorem materialize_again (hu : u.Typed) (hs : s.Hosts k r) (hset : ctx.Settled m k u s d k)
    (ha : a.key = k) {A : Key → Bool} (hs' : ((s.joined A a).put k r').Hosts k r') :
    Sync.Ends c ((s.joined A a).put k r') (ctx.materialize log d u (.stored k))
      (fun _ s' => s'.Hosts k r' ∧ s'.joined A a = (s.joined A a).put k r')
      (fun _ _ => False) := by
  have hbehind : m.behind k u k = some u := Function.update_self ..
  cases d with
  | zero =>
    refine Sync.Ends.pure ⟨hs', ?_⟩
    rw [Store.joined_put, Store.joined_self]
  | succ d =>
    obtain ⟨hin, hout⟩ := hset
    have hfills : ctx.Fills m k u r' s ((s.joined A a).put k r') := by
      refine .of_own hs' (fun x hx => ?_) hs.own ?_ ?_
      · rw [Store.find?_put (s := s.joined A a) hs.own, if_neg hx, Store.find?_joined]
      · intro x g hm
        exact hs.wellFormed.member_joined.2 (.inl hm)
      · intro x g hx hm
        rcases hs.wellFormed.member_joined.1 hm with hm | ⟨rfl, -⟩
        · exact hm
        · exact absurd ha hx
    refine (h.materialize_cuts (h.materialize_rests hu d) hu hs' hbehind hs'.own ?_).mono ?_
      fun _ _ => id
    · intro g haim
      have haim' := (hfills.aims_iff hs).1 haim
      obtain ⟨hm, hset⟩ := hin g haim'
      obtain ⟨-, p, hp, -⟩ := hs.wellFormed.exists_of_member hm
      exact ⟨hfills.held k g hm haim', hfills.settled hs (haim'.ne hs) ⟨p, hp⟩ hset⟩
    · rintro _ _ ⟨D, rfl, hD⟩
      refine ⟨⟨hs'.wellFormed.cut D, hs'.typed.cut D, hs'.own, hs'.isUser⟩, ?_⟩
      show (((s.joined A a).cut D).put k r').joined A a = _
      rw [Store.joined_put, Store.joined_cut_joined]
      intro x g hd
      obtain ⟨rfl, -, ho, hn⟩ := (hD x g).1 hd
      refine ⟨ha.symm, fun hm => hn ?_⟩
      rw [ha] at hm
      exact (hfills.aims_iff hs).2 (hout g hm ((hfills.owned_iff hs hm).1 ho))

end Still

end Context

end Roster
