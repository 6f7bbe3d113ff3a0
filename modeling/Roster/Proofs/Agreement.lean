import Roster.Proofs.Migration
import Roster.Proofs.UserTurn

/-!
# Names and placeholders agree

With dynamic groups, two walks follow the references of a user. The one that collects names goes on
where a lookup fails; the one that makes sure of placeholders ends there. Both follow the same
references for the same number of hops, however these run in circles or meet again. So a user is
synchronised only if no lookup fails on the way, and then its names are the names of exactly those
groups whose placeholders stand, refreshed just now (`names_and_placeholders_agree`).

* `Tidy`: in the store the keys of the provider's groups are taken by groups of the provider.
* `Renews`: placeholders were made or refreshed and no other record was touched.
* `Covered`: what is true once placeholders were made sure of: nothing failed, all of them stand.
* `ensureGroups_covers`: by induction on the hops, the walk covers what it follows.
-/

namespace Roster

namespace Context

/-- A dynamic context with dynamic groups and typed data, whose provider answers from memory and
maps no reference to a name. Failures of the store, and of lookups by the ids, may be planned. -/
structure Keeping (ctx : Context) (m : Memory) (c : Scene) : Prop extends ctx.Backed m where
  dynamic : ctx.dynamic = true
  groups : ctx.policy.hasDynamicGroups = true
  indirect : m.directMapping = false
  uncounted : c.Uncounted
  time : c.clock.IsTime

/-- A store of typed records in which no key of a group of the provider is taken by anything but a
group of the provider. -/
structure Tidy (ctx : Context) (m : Memory) (s : Store) : Prop where
  wellFormed : s.WellFormed
  typed : s.Typed
  usable : ∀ y j, m.identities.lookup y = some j → j.isGroup = true → ctx.Usable s y

/-- Under the key stands a group of the provider with the name of the identity, synchronised just
now. -/
def Stands (ctx : Context) (c : Scene) (s : Store) (y : Key) (j : Identity) : Prop :=
  ∃ q, s.find? y = some q ∧ q.isGroup = true ∧ ctx.owns q.ref = true ∧
    q.principalName = j.principalName ∧ q.lastSynced = c.clock

/-- Placeholders were made or refreshed, and no other record was touched. -/
structure Renews (ctx : Context) (m : Memory) (c : Scene) (s s' : Store) : Prop
    extends ctx.Tidy m s' where
  records : ∀ y, s'.find? y = s.find? y ∨
    ∃ j, m.identities.lookup y = some j ∧ j.isGroup = true ∧ ctx.Stands c s' y j

/-- No lookup of a reference within a number of hops is planned to fail, and all groups within them
have their placeholders. -/
structure Covered (ctx : Context) (m : Memory) (c : Scene) (d : Nat) (refs : List (Option Ref))
    (s : Store) : Prop where
  answered : ∀ q, ctx.Asked m d refs q → c.hides q = false
  stands : ∀ j y, ctx.Within m d refs j → m.identities.lookup y = some j → ctx.Stands c s y j

variable {ctx : Context} {m : Memory} {c : Scene} {k y : Key} {u i j : Identity}
  {s s' s'' : Store} {r q : Record} {refs refs' : List (Option Ref)} {ref : Option Ref} {d : Nat}
  {log : Channel} {E : Failure → Store → Prop}

theorem Stands.congr (h : ctx.Stands c s y j) (hf : s'.find? y = s.find? y) :
    ctx.Stands c s' y j := by
  obtain ⟨q, hq, h⟩ := h
  exact ⟨q, hf.trans hq, h⟩

theorem Stands.usable (h : ctx.Stands c s y j) : ctx.Usable s y := by
  obtain ⟨q, hq, hgroup, howns, -⟩ := h
  intro r hr
  obtain rfl : q = r := Option.some.inj (hq.symm.trans hr)
  exact ⟨hgroup, howns⟩

/-- The record of a user of the provider is changed. -/
theorem Tidy.put (h : ctx.Tidy m s) (hu : m.identities.lookup k = some u) (hg : u.isGroup = false)
    (hk : s.find? k = some r) (hq : q.Typed) (hr : q.id = r.id ∧ q.group = r.group) :
    ctx.Tidy m (s.put k q) where
  wellFormed := h.wellFormed.put hk q hr
  typed := h.typed.put hq
  usable := by
    intro y j hj hjg p hp
    rw [Store.find?_put hk, if_neg] at hp
    · exact h.usable y j hj hjg p hp
    · rintro rfl
      obtain rfl : u = j := Option.some.inj (hu.symm.trans hj)
      rw [hg] at hjg
      cases hjg

namespace Renews

theorem refl (h : ctx.Tidy m s) : ctx.Renews m c s s := ⟨h, fun _ => .inl rfl⟩

theorem trans (h : ctx.Renews m c s s') (h' : ctx.Renews m c s' s'') : ctx.Renews m c s s'' where
  toTidy := h'.toTidy
  records := by
    intro y
    rcases h'.records y with hy | hy
    · rcases h.records y with hy' | ⟨j, hj, hg, hs⟩
      · exact .inl (hy.trans hy')
      · exact .inr ⟨j, hj, hg, hs.congr hy⟩
    · exact .inr hy

/-- A placeholder that stands keeps standing. -/
theorem stands (h : ctx.Renews m c s s') (hj : m.identities.lookup y = some j)
    (hs : ctx.Stands c s y j) : ctx.Stands c s' y j := by
  rcases h.records y with hy | ⟨j', hj', -, hs'⟩
  · exact hs.congr hy
  · obtain rfl : j = j' := Option.some.inj (hj.symm.trans hj')
    exact hs'

theorem covered (h : ctx.Renews m c s s') (hc : ctx.Covered m c d refs s) :
    ctx.Covered m c d refs s' :=
  ⟨hc.answered, fun j y hj hy => h.stands hy (hc.stands j y hj hy)⟩

/-- The record of a user of the provider is not touched. -/
theorem find?_user (h : ctx.Renews m c s s') (hu : m.identities.lookup k = some u)
    (hg : u.isGroup = false) : s'.find? k = s.find? k := by
  rcases h.records k with hk | ⟨j, hj, hjg, -⟩
  · exact hk
  · obtain rfl : u = j := Option.some.inj (hu.symm.trans hj)
    rw [hg] at hjg
    cases hjg

end Renews

namespace Covered

theorem zero : ctx.Covered m c 0 refs s := ⟨fun _ => False.elim, fun _ _ => False.elim⟩

theorem nil : ctx.Covered m c (d + 1) [] s where
  answered := by
    rintro q ⟨r, hr, -⟩
    cases hr
  stands := by
    rintro j y ⟨ref, hr, -⟩
    cases hr

theorem append (h : ctx.Covered m c (d + 1) refs s) (h' : ctx.Covered m c (d + 1) refs' s) :
    ctx.Covered m c (d + 1) (refs ++ refs') s where
  answered := by
    rintro q ⟨r, hr, hq⟩
    rcases List.mem_append.1 hr with hr | hr
    · exact h.answered q ⟨r, hr, hq⟩
    · exact h'.answered q ⟨r, hr, hq⟩
  stands := by
    rintro j y ⟨ref, hr, hj⟩
    rcases List.mem_append.1 hr with hr | hr
    · exact h.stands j y ⟨ref, hr, hj⟩
    · exact h'.stands j y ⟨ref, hr, hj⟩

/-- One reference is covered if its lookup does not fail, and with a group behind it, if this and
what lies beyond it is. -/
theorem single {p : Ref} (hh : ctx.policy.owns p = true → c.hides p = false)
    (hi : ∀ i, ctx.leadsTo m (some p) = some i →
      (∀ y, m.identities.lookup y = some i → ctx.Stands c s y i) ∧ ctx.Covered m c d i.groups s) :
    ctx.Covered m c (d + 1) [some p] s where
  answered := by
    rintro q ⟨r, hr, ho, hq⟩
    obtain rfl : r = p := by simpa using hr
    rcases hq with rfl | ⟨i, hl, hq⟩
    · exact hh ho
    · exact (hi i hl).2.answered q hq
  stands := by
    rintro j y ⟨ref, hr, i, hl, hj⟩ hy
    obtain rfl : ref = some p := by simpa using hr
    rcases hj with rfl | hj
    · exact (hi j hl).1 y hy
    · exact (hi i hl).2.stands j y hj hy

end Covered

/-! ## Placeholders -/

/-- What going on at the groups of a group promises. -/
def Covers (ctx : Context) (m : Memory) (c : Scene) (goOn : List (Option Ref) → Sync Unit)
    (d : Nat) : Prop :=
  ∀ ⦃refs : List (Option Ref)⦄ ⦃s : Store⦄, ctx.Tidy m s → TypedRefs refs →
    Sync.Ends c s (goOn refs) (fun _ s' => ctx.Renews m c s s' ∧ ctx.Covered m c d refs s')
      fun _ _ => True

/-- The failures say nothing. -/
theorem foresees_anything : c.Foresees fun _ _ => True := fun _ _ _ _ _ => trivial

namespace Keeping

variable (h : ctx.Keeping m c)
include h

/-- A group of the provider under the key, new or old, is refreshed. -/
theorem renews_put (hs : ctx.Tidy m s) (hi : m.identities.lookup y = some i)
    (hg : i.isGroup = true) (hwf : s'.WellFormed) (ht : s'.Typed) (hq : s'.find? y = some q)
    (hgroup : q.isGroup = true) (howns : ctx.owns q.ref = true)
    (hothers : ∀ x, x ≠ y → s'.find? x = s.find? x) :
    ctx.Renews m c s (s'.put y (ctx.refreshed c i q)) ∧
      ctx.Stands c (s'.put y (ctx.refreshed c i q)) y i := by
  have hty := (h.memory.of_lookup hi).1
  have hfind (x : Key) := Store.find?_put hq (ctx.refreshed c i q) x
  have hstands : ctx.Stands c (s'.put y (ctx.refreshed c i q)) y i :=
    ⟨_, (hfind y).trans (if_pos rfl), hgroup, howns, rfl, rfl⟩
  have hne {x : Key} (hx : x ≠ y) : (s'.put y (ctx.refreshed c i q)).find? x = s.find? x := by
    rw [hfind, if_neg hx, hothers x hx]
  refine ⟨⟨⟨hwf.put hq _ ⟨rfl, rfl⟩, ht.put ?_, fun x j hj hjg => ?_⟩, fun x => ?_⟩, hstands⟩
  · exact { (ht q (Store.mem_all_of_find? hq)).takingOver hty _ with lastSynced := .inr h.time }
  · by_cases hx : x = y
    · rw [hx]
      exact hstands.usable
    · rw [Usable, hne hx]
      exact hs.usable x j hj hjg
  · by_cases hx : x = y
    · rw [hx]
      exact .inr ⟨i, hi, hg, hstands⟩
    · exact .inl (hne hx)

/-- The placeholder of a group is there, new or as it was. -/
theorem placeholder_ends {p : Ref} (hp : p.Typed) (hs : ctx.Tidy m s)
    (hi : m.identities.lookup y = some i) (hg : i.isGroup = true) :
    Sync.Ends c s (ctx.placeholder log p i) (fun a s' => a = some (.stored y) ∧
      s'.WellFormed ∧ s'.Typed ∧ (∀ x, x ≠ y → s'.find? x = s.find? x) ∧
      ∃ q, s'.find? y = some q ∧ q.isGroup = true ∧ ctx.owns q.ref = true)
      fun _ _ => True := by
  obtain ⟨hty, hid, href⟩ := h.memory.of_lookup hi
  cases hf : s.find? y with
  | some q =>
    have hq := hs.usable y i hi hg q hf
    refine (placeholder_found_ends hid hf).mono ?_ fun _ _ => id
    rintro _ s ⟨rfl, rfl⟩
    exact ⟨if_pos (by simp [hq]), hs.wellFormed, hs.typed, fun _ _ => rfl, q, hf, hq⟩
  | none =>
    refine (placeholder_new_ends foresees_anything hs.wellFormed hs.typed hp hty hid hf).mono ?_
      fun _ _ => id
    rintro _ s₁ ⟨rfl, hwf, ht, hfind, -⟩
    refine ⟨rfl, hwf, ht, fun x hx => by rw [hfind, if_neg hx], _, (hfind y).trans (if_pos rfl),
      rfl, ?_⟩
    rw [newRecord, href]
    exact h.owns_ref _

/-- One reference is covered after its placeholder and those beyond it were made sure of. -/
theorem ensureGroup_covers {goOn : List (Option Ref) → Sync Unit} (hgo : ctx.Covers m c goOn d)
    (hs : ctx.Tidy m s) (hr : ∃ p, ref = some p ∧ p.Typed) :
    Sync.Ends c s (ctx.ensureGroup log goOn ref) (fun _ s' => ctx.Renews m c s s' ∧
      ctx.Covered m c (d + 1) [ref] s') fun _ _ => True := by
  obtain ⟨p, rfl, hp⟩ := hr
  have htyped : ∀ q, some p = some q → q.Typed := by
    rintro _ ⟨rfl⟩
    exact hp
  unfold ensureGroup
  refine Sync.Ends.bind ((h.served.externalGroup_planned_ends htyped).mono (fun _ _ ha => ha)
    fun _ _ _ => trivial) ?_
  rintro a s ⟨rfl, ha, hh⟩
  cases a with
  | none => exact Sync.Ends.pure ⟨.refl hs, .single (hh p rfl) fun i hi => nomatch ha.trans hi⟩
  | some i =>
    obtain ⟨hty, hg, y, -, hi⟩ := h.served.group_of_leadsTo htyped ha.symm
    refine Sync.Ends.bind (h.placeholder_ends hp hs hi hg) ?_
    rintro _ s₁ ⟨rfl, hwf, ht, hothers, q, hq, hgroup, howns⟩
    refine Sync.Ends.bind (syncGroup_unjoined_ends foresees_anything hwf hq
      (ht q (Store.mem_all_of_find? hq)) hty h.policy (autos_of_dynamic h.dynamic)) ?_
    rintro _ _ rfl
    obtain ⟨h₂, hstands⟩ := h.renews_put hs hi hg hwf ht hq hgroup howns hothers
    refine (hgo h₂.toTidy hty.groups).mono ?_ fun _ _ => id
    rintro _ s₃ ⟨h₃, hcovered⟩
    refine ⟨h₂.trans h₃, .single (hh p rfl) fun i' hi' => ?_⟩
    obtain rfl : i = i' := Option.some.inj (ha.trans hi')
    refine ⟨fun x hx => ?_, hcovered⟩
    obtain rfl : y = x :=
      Except.ok.inj ((h.memory.of_lookup hi).2.1.symm.trans (h.memory.of_lookup hx).2.1)
    exact h₃.stands hi hstands

/-- One reference after the other is covered. -/
theorem covers_forM {goOn : List (Option Ref) → Sync Unit} (hgo : ctx.Covers m c goOn d) :
    ctx.Covers m c (fun refs => refs.forM (ctx.ensureGroup log goOn)) (d + 1) := by
  intro refs s hs hrefs
  refine Sync.Ends.forM (I := fun done s' => ctx.Renews m c s s' ∧ ctx.Covered m c (d + 1) done s')
    ⟨.refl hs, .nil⟩ ?_
  rintro done ref rest s₁ he ⟨h₁, hdone⟩
  refine (h.ensureGroup_covers hgo h₁.toTidy (hrefs ref (by rw [he]; simp))).mono ?_ fun _ _ => id
  rintro _ s₂ ⟨h₂, hone⟩
  exact ⟨h₁.trans h₂, (h₂.covered hdone).append hone⟩

/-- Making sure of placeholders covers what it follows. -/
theorem ensureGroups_covers (d : Nat) : ctx.Covers m c (ctx.ensureGroups log d) (d + 1) := by
  induction d with
  | zero =>
    have hstop : ctx.Covers m c (fun _ => return) 0 :=
      fun _ _ hs _ => Sync.Ends.pure ⟨.refl hs, .zero⟩
    exact h.covers_forM hstop
  | succ d ih => exact h.covers_forM ih

theorem ensurePlaceholders_covers (hs : ctx.Tidy m s) (hu : u.Typed) (depth : Int) :
    Sync.Ends c s (ctx.ensurePlaceholders log u depth) (fun _ s' => ctx.Renews m c s s' ∧
      ctx.Covered m c depth.toNat u.groups s') fun _ _ => True := by
  unfold ensurePlaceholders
  rw [h.groups, Bool.true_and]
  split
  · next hd =>
    obtain ⟨n, hn⟩ : ∃ n, depth.toNat = n + 1 :=
      ⟨depth.toNat - 1, by simp only [decide_eq_true_eq] at hd; omega⟩
    rw [hn, Nat.add_sub_cancel]
    exact h.ensureGroups_covers n hs hu.groups
  · next hd =>
    rw [decide_eq_true_eq] at hd
    rw [show depth.toNat = 0 by omega]
    exact Sync.Ends.pure ⟨.refl hs, .zero⟩

end Keeping

/-! ## The user -/

/-- The user under the key has the names of the groups within a number of hops, and these have their
placeholders. -/
structure Agrees (ctx : Context) (m : Memory) (c : Scene) (d : Nat) (k : Key) (u : Identity)
    (s : Store) : Prop extends ctx.Covered m c d u.groups s where
  wellFormed : s.WellFormed
  names : ∃ r ns, s.find? k = some r ∧ r.isGroup = false ∧ r.names = some (.set ns) ∧
    ∀ n, n ∈ ns.keys ↔ ctx.NameWithin m d u.groups n

/-- What a synchronisation of a user comes to: it is reported as done and names and placeholders
agree, or nothing was due and nothing happened. -/
def Reported (ctx : Context) (m : Memory) (c : Scene) (k : Key) (u : Identity) (s : Store)
    (a : SyncResult) (s' : Store) : Prop :=
  (a.status = .add ∨ a.status = .update) ∧
      ctx.Agrees m c ctx.policy.user.nestingDepth.toNat k u s' ∨
    (a.status = .nop ∨ a.status = .foreign) ∧ s' = s ∧ ctx.due c (s.find? k) = false

/-- With dynamic groups unwinding deletes no record. -/
theorem find?_unwoundStore_of_dynamicGroups (hd : ctx.policy.hasDynamicGroups = true)
    (K : Key → Bool) (x : Key) : (ctx.unwoundStore K s k).find? x = s.find? x := by
  rw [find?_unwoundStore, if_neg]
  rw [orphaned_iff, hd]
  exact fun ho => Bool.noConfusion ho.1

namespace Agrees

/-- Other fields of the user may change, and other records that are no placeholders. -/
theorem congr (h : ctx.Agrees m c d k u s) (hwf : s'.WellFormed)
    (hr : ∀ r, s.find? k = some r →
      ∃ r', s'.find? k = some r' ∧ r'.group = r.group ∧ r'.names = r.names)
    (hothers : ∀ x, x ≠ k → s'.find? x = s.find? x) : ctx.Agrees m c d k u s' where
  answered := h.answered
  wellFormed := hwf
  stands := by
    intro j y hj hy
    have hs := h.stands j y hj hy
    refine hs.congr (hothers y ?_)
    rintro rfl
    obtain ⟨r, ns, hr, hg, -⟩ := h.names
    rw [(hs.usable r hr).1] at hg
    cases hg
  names := by
    obtain ⟨r, ns, hk, hg, hn, hiff⟩ := h.names
    obtain ⟨r', hr', hgroup, hnames⟩ := hr r hk
    exact ⟨r', ns, hr', by rw [Record.isGroup, hgroup]; exact hg, hnames.trans hn, hiff⟩

end Agrees

namespace Keeping

variable (h : ctx.Keeping m c)
include h

/-- The memberships of a user are represented by names, and by placeholders of the same groups. -/
theorem syncNames_agrees (hs : ctx.Tidy m s) (hu : m.identities.lookup k = some u)
    (hg : u.isGroup = false) (hk : s.find? k = some r) (hr : r.isGroup = false) (depth : Int)
    {log : Option Channel} :
    Sync.Ends c s (ctx.syncNames u (.stored k) depth log)
      (fun _ s' => ctx.Agrees m c depth.toNat k u s') fun _ _ => True := by
  have hty := (h.memory.of_lookup hu).1
  have henforced : r.isLegacy = true → ctx.policy.enforcesDynamic = true :=
    fun _ => enforces_of_dynamicGroups h.groups
  unfold syncNames
  refine Sync.Ends.step (Sync.Ends.record hk ?_)
  rw [if_neg (by simp [hr]), if_neg (by simp [enforces_of_dynamicGroups h.groups])]
  refine Sync.Ends.bind (h.served.namesOf_ends hty _ depth) ?_
  rintro ns s ⟨rfl, hn, hiff⟩
  refine Sync.Ends.bind (keepNames_put_ends foresees_anything hs.wellFormed hk henforced) ?_
  rintro _ _ rfl
  have hsame : (ctx.represented ns r).id = r.id ∧ (ctx.represented ns r).group = r.group :=
    represented_same r
  have hs₁ : ctx.Tidy m (s.put k (ctx.represented ns r)) := hs.put hu hg hk
    (typed_represented (hs.typed r (Store.mem_all_of_find? hk)) hn) hsame
  refine Sync.Ends.step (Sync.Ends.log ?_)
  refine Sync.Ends.bind (h.ensurePlaceholders_covers hs₁ hty depth) ?_
  rintro _ s₂ ⟨h₂, hcovered⟩
  have hk₂ : s₂.find? k = some (ctx.represented ns r) := by
    rw [h₂.find?_user hu hg, Store.find?_put hk, if_pos rfl]
  -- both walks met the same references, so no name is missing
  have hclear : ctx.Clear m c depth.toNat u.groups := by
    refine ⟨h.indirect, fun q hq hmay => hmay.elim (fun hh => ?_) fun hn => hn h.uncounted⟩
    rw [hcovered.answered q hq] at hh
    cases hh
  have hnames : (ctx.represented ns r).names = some (.set ns) := by
    unfold represented
    split
    · next hl => rw [if_pos (henforced hl)]; rfl
    · rfl
  have hagrees : ctx.Agrees m c depth.toNat k u s₂ :=
    ⟨hcovered, h₂.wellFormed, _, ns, hk₂, by rw [Record.isGroup, hsame.2]; exact hr, hnames,
      hiff hclear⟩
  split
  · rw [unwind_congr hsame.1.symm hsame.2.symm]
    refine Sync.Ends.bind ((unwind_ends h₂.wellFormed h₂.typed hk₂).mono (fun _ _ ha => ha)
      fun _ _ _ => trivial) ?_
    rintro _ _ ⟨-, K, -, rfl⟩
    have hfind := find?_unwoundStore_of_dynamicGroups (s := s₂) (k := k) h.groups K
    refine Sync.Ends.pure (hagrees.congr ((h₂.wellFormed.cut _).drop _) (fun q hq => ?_)
      fun x _ => hfind x)
    exact ⟨q, (hfind k).trans hq, rfl, rfl⟩
  · exact Sync.Ends.pure hagrees

/-- Synchronising a user. -/
theorem syncUser_agrees (hs : ctx.Tidy m s) (hu : m.identities.lookup k = some u)
    (hg : u.isGroup = false) (hk : s.find? k = some r) (hr : r.isGroup = false)
    {log : Option Channel} :
    Sync.Ends c s (ctx.syncUser u (.stored k) log)
      (fun _ s' => ctx.Agrees m c ctx.policy.user.nestingDepth.toNat k u s') fun _ _ => True := by
  have hty := (h.memory.of_lookup hu).1
  have ht := hs.typed r (Store.mem_all_of_find? hk)
  have hk₁ : (s.put k (r.takingOver ctx.policy.user.propertyMapping u)).find? k
      = some (r.takingOver ctx.policy.user.propertyMapping u) := by
    rw [Store.find?_put hk, if_pos rfl]
  unfold syncUser
  refine Sync.Ends.bind (syncProperties_ends hs.wellFormed hk ht hty h.policy.userMapping) ?_
  rintro _ _ rfl
  refine Sync.Ends.bind (Q := fun _ s' =>
    ctx.Agrees m c ctx.policy.user.nestingDepth.toNat k u s') ?_ ?_
  · unfold syncMembership
    rw [if_pos h.dynamic]
    exact h.syncNames_agrees (hs.put hu hg hk (ht.takingOver hty _) ⟨rfl, rfl⟩) hu hg hk₁ hr _
  · intro _ s₂ h₂
    obtain ⟨r₂, -, hk₂, -⟩ := h₂.names
    unfold applyMembership
    rw [bind_assoc]
    refine Sync.Ends.step (Sync.Ends.record hk₂ ?_)
    rw [if_pos h.dynamic]
    refine Sync.Ends.step (Sync.Ends.log ?_)
    refine (stamp_ends h₂.wellFormed hk₂).mono ?_ fun _ _ => id
    rintro _ _ rfl
    refine h₂.congr (h₂.wellFormed.put hk₂ _ ⟨rfl, rfl⟩) (fun q hq => ?_) fun x hx => ?_
    · obtain rfl : r₂ = q := Option.some.inj (hk₂.symm.trans hq)
      exact ⟨{ r₂ with lastSynced := c.clock }, by rw [Store.find?_put hk₂, if_pos rfl], rfl, rfl⟩
    · rw [Store.find?_put hk₂, if_neg hx]

/-! ## Entry points -/

theorem addIdentity_agrees (hs : ctx.Tidy m s) (hu : m.identities.lookup k = some u)
    (hg : u.isGroup = false) (hk : s.find? k = none) :
    Sync.Ends c s (ctx.addIdentity u log) (ctx.Reported m c k u s) fun _ _ => True := by
  obtain ⟨hty, hid, -⟩ := h.memory.of_lookup hu
  unfold addIdentity
  rw [hg]
  refine Sync.Ends.bind
    (newRecord_ends foresees_anything hs.wellFormed hs.typed hty hid hk false) ?_
  rintro _ s₁ ⟨rfl, hwf, ht, hfind, -⟩
  have htidy : ctx.Tidy m s₁ := by
    refine ⟨hwf, ht, fun y j hj hjg q hq => ?_⟩
    rw [hfind, if_neg] at hq
    · exact hs.usable y j hj hjg q hq
    · rintro rfl
      obtain rfl : u = j := Option.some.inj (hu.symm.trans hj)
      rw [hg] at hjg
      cases hjg
  refine Sync.Ends.bind (h.syncUser_agrees htidy hu hg ((hfind k).trans (if_pos rfl)) rfl) ?_
  intro _ s₂ h₂
  obtain ⟨r₂, -, hk₂, -⟩ := h₂.names
  refine Sync.Ends.step (Sync.Ends.log ?_)
  refine resultOf_ends hk₂ fun a ha => ?_
  exact .inl ⟨.inl ha, h₂⟩

theorem updateIdentity_agrees (hs : ctx.Tidy m s) (hu : m.identities.lookup k = some u)
    (hg : u.isGroup = false) (hk : s.find? k = some r) {log : Option Channel} :
    Sync.Ends c s (ctx.updateIdentity u (.stored k) log) (ctx.Reported m c k u s)
      fun _ _ => True := by
  have hty := (h.memory.of_lookup hu).1
  have ht := hs.typed r (Store.mem_all_of_find? hk)
  unfold updateIdentity
  refine Sync.Ends.step (Sync.Ends.record hk ?_)
  refine Sync.Ends.step (requireKnown_ends hty.known ?_)
  dsimp only
  by_cases hsame : sameType r u = true
  · have hr : r.isGroup = false := ((sameType_iff ht u).1 hsame).trans hg
    rw [if_neg (by simp [hsame])]
    split
    · next ho =>
      have ho' : ctx.owns r.ref = false := by simpa using ho
      refine Sync.Ends.step (Sync.Ends.log ?_)
      exact Sync.Ends.pure (.inr ⟨.inr rfl, rfl, by rw [hk, due, ho', Bool.false_and]⟩)
    · next ho =>
      have ho' : ctx.owns r.ref = true := by simpa using ho
      simp only [hr, Bool.false_eq_true, if_false]
      refine Sync.Ends.bind (isExpired_ends h.time ht h.policy.userExpiration) ?_
      rintro b s ⟨rfl, rfl⟩
      split
      · refine Sync.Ends.bind (h.syncUser_agrees hs hu hg hk hr) ?_
        intro _ s₁ h₁
        obtain ⟨r₁, -, hk₁, -⟩ := h₁.names
        exact resultOf_ends hk₁ fun a ha => .inl ⟨.inr ha, h₁⟩
      · next hd =>
        refine Sync.Ends.step (Sync.Ends.log ?_)
        refine resultOf_ends hk fun a ha => .inr ⟨.inl ha, rfl, ?_⟩
        rw [hk, due, ho', Bool.true_and]
        simpa using hd
  · rw [if_pos (by simp [hsame])]
    exact Sync.Ends.throw_bind trivial

theorem sync_agrees (hs : ctx.Tidy m s) (hu : m.identities.lookup k = some u)
    (hkind : u.kind = .user) :
    Sync.Ends c s (ctx.sync u) (ctx.Reported m c k u s) fun _ _ => True := by
  have hg : u.isGroup = false := by simp [Identity.isGroup, hkind]
  exact h.sync_user_ends (F := fun _ _ => True) hu hkind (fun _ _ _ _ => trivial)
    (fun hk _ => h.addIdentity_agrees hs hu hg hk) fun r hk _ => h.updateIdentity_agrees hs hu hg hk

end Keeping

/-- Names and placeholders agree: a synchronised user has exactly the names of the groups within the
number of hops, and each of these groups has its placeholder. A lookup that fails on the way ends
the synchronisation; only where there is nothing to do it is not met. -/
theorem names_and_placeholders_agree {p : Policy} {m : Memory} {u : Identity} {k : Key} {w : World}
    (hp : p.Typed) (hm : m.Typed) (hgroups : p.hasDynamicGroups = true)
    (hdirect : m.directMapping = false) (hcount : w.scene.Uncounted)
    (hs : w.store.WellFormed) (ht : w.store.Typed) (hclock : w.clock.IsTime)
    (husable : ∀ y j r, m.identities.lookup y = some j → j.isGroup = true →
      w.store.find? y = some r → r.isGroup = true ∧ p.ownsOption r.ref = true)
    (hu : m.identities.lookup k = some u) (hkind : u.kind = .user) :
    (∀ a w', (Context.mk p m.provider true).sync u w = (.ok a, w') →
      a.status = .add ∨ a.status = .update →
      (∃ r ns, w'.store.find? k = some r ∧ r.names = some (.set ns) ∧ ∀ n, n ∈ ns.keys ↔
        (Context.mk p m.provider true).NameWithin m p.user.nestingDepth.toNat u.groups n) ∧
      ∀ j, (Context.mk p m.provider true).Within m p.user.nestingDepth.toNat u.groups j →
        ∃ y q, j.id.toKey = .ok y ∧ w'.store.find? y = some q ∧ q.isGroup = true ∧
          p.ownsOption q.ref = true ∧ q.principalName = j.principalName ∧
          q.lastSynced = w.clock) ∧
    ((∃ q, (Context.mk p m.provider true).Asked m p.user.nestingDepth.toNat u.groups q ∧
        w.faults.resolve.contains q.id = true) →
      (∃ f w', (Context.mk p m.provider true).sync u w = (.error f, w')) ∨
      ∃ a w', (Context.mk p m.provider true).sync u w = (.ok a, w') ∧
        (a.status = .nop ∨ a.status = .foreign) ∧ w'.store = w.store ∧
        (p.ownsOption u.ref &&
          (Context.mk p m.provider true).due w.scene (w.store.find? k)) = false) := by
  obtain ⟨hty, -, href⟩ := hm.of_lookup hu
  by_cases hname : p.provider = m.name
  · have hkeep : (Context.mk p m.provider true).Keeping m w.scene :=
      ⟨⟨rfl, hname, hm, hp⟩, rfl, hgroups, hdirect, hcount, hclock⟩
    have htidy : (Context.mk p m.provider true).Tidy m w.store :=
      ⟨hs, ht, fun y j hj hg r hr => husable y j r hj hg hr⟩
    have hends := (hkeep.sync_agrees htidy hu hkind).holds w rfl rfl
    refine ⟨fun a w' hw hstatus => ?_, fun hidden => ?_⟩
    · rw [hw] at hends
      rcases hends.2 with ⟨-, hagrees⟩ | ⟨hno, -⟩
      · obtain ⟨r, ns, hk, -, hn⟩ := hagrees.names
        refine ⟨⟨r, ns, hk, hn⟩, fun j hj => ?_⟩
        obtain ⟨y, hy⟩ := hkeep.toBacked.lookup_of_within hty.groups hj
        obtain ⟨q, hq⟩ := hagrees.stands j y hj hy
        exact ⟨y, q, (hm.of_lookup hy).2.1, hq⟩
      · rcases hstatus with he | he <;> rcases hno with hn | hn <;> exact nomatch he.symm.trans hn
    · rcases hw : (Context.mk p m.provider true).sync u w with ⟨f | a, w'⟩
      · exact .inl ⟨f, w', rfl⟩
      · rw [hw] at hends
        rcases hends.2 with ⟨-, hagrees⟩ | ⟨hno, hsame, hdue⟩
        · obtain ⟨q, hq, hh⟩ := hidden
          exact nomatch hh.symm.trans (hagrees.answered q hq)
        · exact .inr ⟨a, w', rfl, hno, hsame, by rw [hdue, Bool.and_false]⟩
  · -- the policy is about another provider
    have hown : (Context.mk p m.provider true).owns u.ref = false := by
      rw [href, ← Bool.not_eq_true, owns_ref_iff hp.provider hm.name]
      exact hname
    have hw : (Context.mk p m.provider true).sync u w = (.ok (foreignResult u), w) := by
      rw [sync_foreign_user hkind hown]
      rfl
    refine ⟨fun a w' hw' hstatus => ?_, fun _ => .inr ⟨_, w, hw, .inr rfl, rfl, ?_⟩⟩
    · obtain rfl := Except.ok.inj (congrArg Prod.fst (hw.symm.trans hw'))
      rcases hstatus with he | he <;> exact nomatch he
    · rw [show p.ownsOption u.ref = false from hown, Bool.false_and]

/-- Two groups in a circle get their placeholders, unless one of them cannot be looked up. -/
theorem names_and_placeholders_agree_cyclicGroups :
    placing.Typed ∧ cyclicGroups.Typed ∧ ∃ u a w' f v',
      cyclicGroups.identities.lookup (.text "u") = some u ∧
      sync ⟨placing, cyclicGroups.provider, true⟩ u {} = (.ok a, w') ∧ a.status = .add ∧
      (∃ q, w'.store.find? (.text "h") = some q ∧ q.principalName = .text "h") ∧
      sync ⟨placing, cyclicGroups.provider, true⟩ u { faults := { resolve := [.text "h"] } }
        = (.error f, v') := by
  have hclock : (Value.int 1000).IsTime := Value.isTime_int (by decide)
  obtain ⟨hdone, -⟩ := names_and_placeholders_agree (w := {}) (k := .text "u") typed_placing
    typed_cyclicGroups rfl rfl (.of_faults rfl rfl) Store.wellFormed_empty Store.typed_empty hclock
    (fun _ _ _ _ _ h => nomatch h) rfl rfl
  obtain ⟨-, hfails⟩ := names_and_placeholders_agree
    (w := { faults := { resolve := [.text "h"] } }) (k := .text "u") typed_placing
    typed_cyclicGroups rfl rfl (.of_faults rfl rfl) Store.wellFormed_empty Store.typed_empty hclock
    (fun _ _ _ _ _ h => nomatch h) rfl rfl
  rcases hw : sync ⟨placing, cyclicGroups.provider, true⟩
    (cyclicGroups.entry .user "u" [some ⟨.text "g", .text "P"⟩]) {} with ⟨f | a, w'⟩
  · exact absurd (congrArg Prod.fst hw) nofun
  have hadd : a.status = .add := by
    have := congrArg (fun o => o.1.map SyncResult.status) hw
    exact (Except.ok.inj this).symm
  obtain ⟨-, hplaced⟩ := hdone a w' hw (.inl hadd)
  obtain ⟨y, q, hy, hq, -, -, hname, -⟩ := hplaced
    (cyclicGroups.entry .group "h" [some ⟨.text "g", .text "P"⟩])
    ⟨_, List.mem_cons_self, cyclicGroups.entry .group "g" [some ⟨.text "h", .text "P"⟩], rfl,
      .inr ⟨_, List.mem_cons_self, _, rfl, .inl rfl⟩⟩
  obtain rfl := Except.ok.inj hy
  rcases hfails ⟨⟨.text "h", .text "P"⟩, ⟨⟨.text "g", .text "P"⟩, List.mem_cons_self, rfl,
    .inr ⟨cyclicGroups.entry .group "g" [some ⟨.text "h", .text "P"⟩], rfl,
      ⟨.text "h", .text "P"⟩, List.mem_cons_self, rfl, .inl rfl⟩⟩, rfl⟩
    with ⟨f, v', hv⟩ | ⟨a', v', hv, -, -, hdue⟩
  · exact ⟨typed_placing, typed_cyclicGroups, _, a, w', f, v', rfl, hw, hadd, ⟨q, hq, hname⟩, hv⟩
  · exact absurd hdue nofun

end Context

end Roster
