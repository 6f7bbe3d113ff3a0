import Roster.Job
import Roster.Proofs.Conversion
import Roster.Proofs.Enrolling

/-!
# What a synchronisation keeps

Whatever a synchronisation meets, it leaves a sound store with its own record in it, and from typed
data the only failures that end it are those that are planned for a lookup or for an operation of
the store (`Scene.Interrupts`). An entry point reports them as its own (`sync_ends`).

`Store.Follows`: the store is sound and still has all records of an earlier one. This holds of all
steps but unwinding, which deletes groups.

Names are collected in spite of lookups that fail. So a failed lookup ends the synchronisation of a
user only where groups are looked up for their own sake (`Context.LooksUp`), and of a group never.
-/

namespace Roster

/-- A sound store with all records of another one, with the same ids and types. -/
structure Store.Follows (P : Ref → Prop) (s s' : Store) : Prop where
  sound : s'.Sound P
  kept : ∀ k r, s.find? k = some r →
    ∃ r', s'.find? k = some r' ∧ r'.id = r.id ∧ r'.group = r.group

namespace Store

variable {P : Ref → Prop} {s s' s'' : Store} {k : Key} {r r' : Record}

namespace Follows

theorem refl (h : s.Sound P) : s.Follows P s := ⟨h, fun _ r hr => ⟨r, hr, rfl, rfl⟩⟩

theorem trans (h : s.Follows P s') (h' : s'.Follows P s'') : s.Follows P s'' := by
  refine ⟨h'.sound, fun k r hr => ?_⟩
  obtain ⟨r', hr', hid, hgroup⟩ := h.kept k r hr
  obtain ⟨r'', hr'', hid', hgroup'⟩ := h'.kept k r' hr'
  exact ⟨r'', hr'', hid'.trans hid, hgroup'.trans hgroup⟩

theorem exists_record (h : s.Follows P s') (hk : ∃ r, s.find? k = some r) :
    ∃ r, s'.find? k = some r := by
  obtain ⟨r, hr⟩ := hk
  obtain ⟨r', hr', -⟩ := h.kept k r hr
  exact ⟨r', hr'⟩

/-- Member lists are changed. -/
theorem of_records (h : s.Sound P) (hwf : s'.WellFormed) (hs : s'.records = s.records) :
    s.Follows P s' := by
  have hall : s'.all = s.all := by rw [all, all, hs]
  refine ⟨⟨hwf, fun q hq => h.typed q (hall ▸ hq), fun q hq => h.refs q (hall ▸ hq)⟩, ?_⟩
  intro k r hr
  exact ⟨r, by rw [find?, hs]; exact hr, rfl, rfl⟩

/-- A record is changed. -/
theorem put (h : s.Sound P) (hk : s.find? k = some r) (ht : r'.Typed)
    (hr : r'.id = r.id ∧ r'.group = r.group) (hp : ∀ q, r'.ref = some q → P q) :
    s.Follows P (s.put k r') where
  sound := by
    refine ⟨h.wellFormed.put hk r' hr, h.typed.put ht, fun q hq => ?_⟩
    obtain ⟨⟨j, q⟩, hjq, rfl⟩ := List.mem_map.1 hq
    obtain ⟨⟨j', q'⟩, hp', he⟩ := List.mem_map.1 hjq
    dsimp only at he
    split at he
    · obtain ⟨-, rfl⟩ := Prod.mk.inj he
      exact hp
    · obtain ⟨-, rfl⟩ := Prod.mk.inj he
      exact h.refs _ (List.mem_map_of_mem (f := (·.2)) hp')
  kept := by
    intro j q hq
    rw [find?_put hk]
    split
    · next hj =>
      subst hj
      obtain rfl : r = q := Option.some.inj (hk.symm.trans hq)
      exact ⟨r', rfl, hr⟩
    · exact ⟨q, hq, rfl, rfl⟩

/-- A record is added. -/
theorem create (h : s.Sound P) (ht : r.Typed) (hid : r.id.toKey = .ok k) (hk : s.find? k = none)
    (hp : ∀ q, r.ref = some q → P q) (hs : s.create r = .ok s') :
    s.Follows P s' ∧ s'.find? k = some r := by
  obtain ⟨s₁, hs₁, hwf, hrecs, -⟩ := h.wellFormed.create_ok hid hk
  obtain rfl : s' = s₁ := Except.ok.inj (hs.symm.trans hs₁)
  have hfind (j : Key) := find?_create hid hs j
  refine ⟨⟨⟨hwf, h.typed.of_append ht hrecs, fun q hq => ?_⟩, fun j q hq => ⟨q, ?_, rfl, rfl⟩⟩, ?_⟩
  · rw [all, hrecs, List.map_append, List.mem_append] at hq
    rcases hq with hq | hq
    · exact h.refs q hq
    · obtain rfl : q = r := by simpa using hq
      exact hp
  · rw [hfind, if_neg, hq]
    rintro rfl
    rw [hk] at hq
    cases hq
  · rw [hfind, if_pos rfl]

theorem cut (h : s.Sound P) (D : Key → Key → Bool) : s.Follows P (s.cut D) :=
  .of_records h (h.wellFormed.cut D) rfl

end Follows

end Store

/-- A failure that is planned for a lookup, where lookups count, or for an operation of the store
other than a removal. -/
inductive Scene.Interrupts (c : Scene) (L : Prop) : Failure → Prop where
  | lookup {f : Failure} (hl : L) (hf : c.LookupFails f) : Interrupts c L f
  | store {op : StoreOperation} {id : Value} (hop : op ≠ .removeRecord)
    (hp : c.MayRefuse op id) : Interrupts c L (.refused op id)

namespace Scene

variable {c : Scene} {L : Prop} {f : Failure}

theorem foresees_interrupts : c.Foresees fun f _ => c.Interrupts L f :=
  fun _ _ _ hop hp => .store hop hp

/-- What interrupts is a failure of the store or of a lookup. -/
theorem Interrupts.isA (h : c.Interrupts L f) : (f.isA .store || f.isA .lookup) = true := by
  cases h with
  | lookup _ hf => rw [hf.1, Bool.or_true]
  | store _ _ => rfl

end Scene

namespace Context

/-- A context that runs: its data is typed, its provider answers from memory, and the references into
the provider satisfy a predicate. -/
structure Running (ctx : Context) (m : Memory) (c : Scene) (P : Ref → Prop) : Prop
    extends ctx.Served m where
  time : c.clock.IsTime
  refs : ∀ id, P (m.ref id)

/-- Groups are looked up on behalf of the user under a key besides those whose names are
collected. -/
def LooksUp (ctx : Context) (s : Store) (k : Key) : Prop :=
  ctx.dynamic = false ∨ ctx.policy.hasDynamicGroups = true ∨
    ctx.policy.enforcesDynamic = false ∧ ∃ r, s.find? k = some r ∧ r.isLegacy = true

variable {ctx : Context} {m : Memory} {c : Scene} {P : Ref → Prop} {k : Key} {r r' g : Record}
  {i : Identity} {s s' : Store} {log : Channel} {E : Failure → Store → Prop} {L : Prop}

/-! ## Groups to join -/

/-- Joining the auto-membership groups changes member lists only. -/
theorem applyMembership_ends (hc : c.Foresees E) (h : s.Sound P) (hk : ∃ r, s.find? k = some r)
    (isGroup : Bool) (hn : (ctx.policy.autoMembershipFor isGroup).Texts) {log : Option Channel} :
    Sync.Ends c s (ctx.applyMembership (.stored k)
      (inOrder (ctx.policy.autoMembershipFor isGroup)) log) (fun _ s' => s.Follows P s') E := by
  obtain ⟨r, hr⟩ := hk
  obtain ⟨a, ha, rfl⟩ := Value.toKey_eq_ok_iff.1 (h.wellFormed.toKey_of_find? hr)
  refine (applyMembership_joined_ends hc h.wellFormed hr ha isGroup hn).mono ?_ fun _ _ => id
  rintro _ _ rfl
  exact .of_records h (h.wellFormed.joined hr) rfl

/-! ## Synchronising one record -/

theorem LooksUp.of_mode (h : ctx.LooksUp s' k)
    (hmode : ∀ r', s'.find? k = some r' → ∃ r, s.find? k = some r ∧ r'.mode = r.mode) :
    ctx.LooksUp s k := by
  rcases h with h | h | ⟨h, r', hr', hl⟩
  · exact .inl h
  · exact .inr (.inl h)
  · obtain ⟨r, hr, hm⟩ := hmode r' hr'
    exact .inr (.inr ⟨h, r, hr, by rwa [Record.isLegacy, ← hm]⟩)

/-- The record of a new identity is of the legacy mode in a standard context only. -/
theorem LooksUp.of_new {isGroup : Bool} (h : ctx.LooksUp s' k)
    (hk : s'.find? k = some (ctx.newRecord i isGroup)) : ctx.LooksUp s k := by
  rcases h with hd | hd | ⟨-, r, hr, hlegacy⟩
  · exact .inl hd
  · exact .inr (.inl hd)
  · obtain rfl := Option.some.inj (hk.symm.trans hr)
    cases hdyn : ctx.dynamic with
    | false => exact .inl hdyn
    | true => simp [Record.isLegacy, newRecord, recordMode, hdyn] at hlegacy

/-- The name and the properties of a record are changed, not its mode. -/
theorem syncProperties_follows (hs : s.Sound P) (hk : ∃ r, s.find? k = some r) (hi : i.Typed)
    {mapping : Fields} (hm : Fields.MapNames mapping) :
    Sync.Ends c s (syncProperties i (.stored k) (.mapping mapping)) (fun _ s' => s.Follows P s' ∧
      ∀ r', s'.find? k = some r' → ∃ r, s.find? k = some r ∧ r'.mode = r.mode) E := by
  obtain ⟨r, hk⟩ := hk
  have hr := hs.typed r (Store.mem_all_of_find? hk)
  refine (syncProperties_ends hs.wellFormed hk hr hi hm).mono ?_ fun _ _ => id
  rintro _ _ rfl
  refine ⟨.put hs hk (hr.takingOver hi mapping) ⟨rfl, rfl⟩
    (hs.refs r (Store.mem_all_of_find? hk)), fun r' hr' => ⟨r, hk, ?_⟩⟩
  rw [Store.find?_put hk, if_pos rfl] at hr'
  obtain rfl := Option.some.inj hr'
  rfl

/-- Unwinding needs to know the id and the type of a record only. -/
theorem unwind_congr (hid : r.id = r'.id) (hgroup : r.group = r'.group) (log : Option Channel) :
    ctx.unwind r log = ctx.unwind r' log := by
  have hgo (log : Channel) (goOn : Record → Unwound → Sync Unwound) (found : Unwound) (g : Record) :
      ctx.unwindGroup log r goOn found g = ctx.unwindGroup log r' goOn found g := by
    unfold unwindGroup endMembership Record.isGroup
    rw [hid, hgroup]
  have hfrom (log : Channel) (bound : Nat) (found : Unwound) :
      ctx.unwindFrom log bound r found = ctx.unwindFrom log bound r' found := by
    cases bound with
    | zero => rfl
    | succ bound =>
      unfold unwindFrom
      rw [hid]
      simp only [funext fun found => funext fun g => hgo log (ctx.unwindFrom log bound) found g]
  simp only [unwind, hfrom]

namespace Running

variable (h : ctx.Running m c P)
include h

omit h in
/-- The record of an identity is created. -/
theorem create_ends (hs : s.Sound P) (hi : i.Typed) (hid : i.id.toKey = .ok k)
    (href : ∀ q, i.ref = some q → P q) (isGroup : Bool) (hk : s.find? k = none) :
    Sync.Ends c s (Sync.create (ctx.newRecord i isGroup)) (fun x s' => x = .stored k ∧
      s.Follows P s' ∧ s'.find? k = some (ctx.newRecord i isGroup))
      (fun f _ => c.Interrupts L f) := by
  refine (Context.create_ends Scene.foresees_interrupts hs.wellFormed hi.id hid hk).mono ?_
    fun _ _ => id
  rintro x s' ⟨hx, hs'⟩
  exact ⟨hx, Store.Follows.create hs (typed_newRecord hi isGroup) hid hk href hs'⟩

/-- What the provider knows has references that satisfy the predicate. -/
theorem refs_of_lookup (hi : m.identities.lookup k = some i) : ∀ q, i.ref = some q → P q := by
  intro q hq
  obtain rfl := Option.some.inj ((h.memory.of_lookup hi).2.2.symm.trans hq)
  exact h.refs _

theorem stamp_ends (hs : s.Sound P) (hk : ∃ r, s.find? k = some r) :
    Sync.Ends c s (stamp (.stored k)) (fun _ s' => s.Follows P s') E := by
  obtain ⟨r, hk⟩ := hk
  have hr := hs.typed r (Store.mem_all_of_find? hk)
  refine (Context.stamp_ends hs.wellFormed hk).mono ?_ fun _ _ => id
  rintro _ _ rfl
  exact .put hs hk { hr with lastSynced := .inr h.time } ⟨rfl, rfl⟩
    (hs.refs r (Store.mem_all_of_find? hk))

/-- A group is synchronised without a lookup. -/
theorem syncGroup_ends (hs : s.Sound P) (hk : ∃ r, s.find? k = some r) (hi : i.Typed)
    {log : Option Channel} :
    Sync.Ends c s (ctx.syncGroup i (.stored k) log) (fun _ s' => s.Follows P s')
      (fun f _ => c.Interrupts L f) := by
  unfold syncGroup
  refine Sync.Ends.bind (syncProperties_follows hs hk hi h.policy.groupMapping) ?_
  rintro _ s₁ ⟨h₁, -⟩
  refine Sync.Ends.bind (Context.applyMembership_ends Scene.foresees_interrupts h₁.sound
    (h₁.exists_record hk) true h.policy.groupGroups) ?_
  rintro _ s₂ h₂
  refine (h.stamp_ends h₂.sound (h₂.exists_record (h₁.exists_record hk))).mono ?_ fun _ _ => id
  exact fun _ s₃ h₃ => h₁.trans (h₂.trans h₃)

/-- The local group of an external one is there and is a group. -/
theorem localGroup_ends (hs : s.Sound P) (hi : m.identities.lookup k = some i) :
    Sync.Ends c s (ctx.localGroup i log) (fun a s' => s.Follows P s' ∧ ∀ x g, a = some (x, g) →
      x = .stored k ∧ s'.find? k = some g ∧ g.isGroup = true) (fun f _ => c.Interrupts L f) := by
  obtain ⟨hty, hid, -⟩ := h.memory.of_lookup hi
  unfold localGroup
  refine Sync.Ends.step (Sync.Ends.lookUp hid ?_)
  cases hk : s.find? k with
  | none =>
    simp only [Option.map_none]
    refine Sync.Ends.bind (create_ends hs hty hid (h.refs_of_lookup hi) true hk) ?_
    rintro _ s₁ ⟨rfl, h₁, hk₁⟩
    refine Sync.Ends.bind (h.syncGroup_ends h₁.sound ⟨_, hk₁⟩ hty) ?_
    rintro _ s₂ h₂
    obtain ⟨g, hg, -, hgroup⟩ := h₂.kept k _ hk₁
    refine Sync.Ends.step (Sync.Ends.record hg ?_)
    refine Sync.Ends.pure ⟨h₁.trans h₂, ?_⟩
    rintro _ _ ⟨rfl, rfl⟩
    exact ⟨rfl, hg, by rw [Record.isGroup, hgroup]; rfl⟩
  | some g =>
    simp only [Option.map_some]
    split
    · next hg =>
      refine Sync.Ends.pure ⟨.refl hs, ?_⟩
      rintro _ _ ⟨rfl, rfl⟩
      exact ⟨rfl, hk, (Bool.and_eq_true_iff.1 hg).1⟩
    · refine Sync.Ends.step (Sync.Ends.log ?_)
      exact Sync.Ends.pure ⟨.refl hs, by rintro _ _ ⟨⟩⟩

/-! ## Member lists -/

/-- What going on at a group promises. -/
def GoesUp (c : Scene) (L : Prop) (P : Ref → Prop) (goOn : Identity → Subject → Sync Unit) :
    Prop :=
  ∀ {k : Key} {i : Identity} {s : Store}, s.Sound P → i.Typed → (∃ r, s.find? k = some r) →
    Sync.Ends c s (goOn i (.stored k)) (fun _ s' => s.Follows P s') (fun f _ => c.Interrupts L f)

/-- The group behind a reference is held under its key. -/
theorem externalGroup_held_ends (hl : L) {ref : Option Ref} (hr : ∀ q, ref = some q → q.Typed)
    {log : Option Channel} :
    Sync.Ends c s (ctx.externalGroup ref log)
      (fun a s' => s' = s ∧ ∀ i, a = some i → ∃ k, m.identities.lookup k = some i)
      (fun f _ => c.Interrupts L f) := by
  refine (h.externalGroup_ends hr).mono ?_ fun f _ hf => .lookup hl hf.2
  rintro a s ⟨rfl, ha⟩
  refine ⟨rfl, fun i hi => ?_⟩
  obtain ⟨-, -, k, -, hk⟩ := h.group_of_leadsTo hr (ha.symm.trans hi)
  exact ⟨k, hk⟩

theorem declareGroup_ends (hl : L) {goOn : Identity → Subject → Sync Unit}
    (hgo : GoesUp c L P goOn) (hs : s.Sound P) (hid : r.id.toKey = .ok k)
    (hk : ∃ q, s.find? k = some q) {ref : Option Ref} (href : ∃ q, ref = some q ∧ q.Typed)
    (declared : List Key) :
    Sync.Ends c s (ctx.declareGroup log r goOn declared ref) (fun _ s' => s.Follows P s')
      (fun f _ => c.Interrupts L f) := by
  have href' : ∀ q, ref = some q → q.Typed := by
    rintro q rfl
    obtain ⟨q', hq', ht⟩ := href
    obtain rfl := Option.some.inj hq'
    exact ht
  unfold declareGroup
  split
  · refine Sync.Ends.step (Sync.Ends.shown href' fun _ => ?_)
    refine Sync.Ends.step (Sync.Ends.log ?_)
    exact Sync.Ends.pure (.refl hs)
  · refine Sync.Ends.bind (h.externalGroup_held_ends hl href') ?_
    rintro a s ⟨rfl, ha⟩
    cases a with
    | none => exact Sync.Ends.pure (.refl hs)
    | some i =>
      obtain ⟨kg, hkg⟩ := ha i rfl
      refine Sync.Ends.bind (h.localGroup_ends hs hkg) ?_
      rintro a s₁ ⟨h₁, ha⟩
      match a with
      | none => exact Sync.Ends.pure h₁
      | some (x, g) =>
        obtain ⟨rfl, hg, hgroup⟩ := ha x g rfl
        obtain ⟨q, hq⟩ := h₁.exists_record hk
        refine Sync.Ends.bind (addMember_ends Scene.foresees_interrupts h₁.sound.wellFormed hg
          hgroup hid hq) ?_
        rintro _ s₂ ⟨hwf, hrecs, -⟩
        have h₂ : s₁.Follows P s₂ := .of_records h₁.sound hwf hrecs
        refine Sync.Ends.step (Sync.Ends.result_ok (h₁.sound.wellFormed.toKey_of_find? hg) ?_)
        refine Sync.Ends.bind (hgo h₂.sound (h.memory.of_lookup hkg).1
          (h₂.exists_record ⟨g, hg⟩)) ?_
        intro _ s₃ h₃
        exact Sync.Ends.pure (h₁.trans (h₂.trans h₃))

theorem materialize_ends (hl : L) (d : Nat) : GoesUp c L P (ctx.materialize log d) := by
  induction d with
  | zero => exact fun hs _ _ => Sync.Ends.pure (.refl hs)
  | succ d ih =>
    rintro k i s hs hty ⟨r, hk⟩
    have hid := hs.wellFormed.toKey_of_find? hk
    unfold materialize
    refine Sync.Ends.step (requireKnown_ends hty.known ?_)
    refine Sync.Ends.step (Sync.Ends.record hk ?_)
    refine Sync.Ends.bind (Sync.Ends.foldlM (I := fun _ _ s' => s.Follows P s') (.refl hs) ?_) ?_
    · intro done ref rest declared s₁ he h₁
      refine (h.declareGroup_ends hl ih h₁.sound hid (h₁.exists_record ⟨r, hk⟩)
        (hty.groups ref (by rw [he]; simp)) declared).mono ?_ fun _ _ => id
      exact fun _ s₂ h₂ => h₁.trans h₂
    · intro declared s₁ h₁
      refine (prune_ends Scene.foresees_interrupts h₁.sound.wellFormed hid declared).mono ?_
        fun _ _ => id
      rintro _ _ ⟨D, rfl, -⟩
      exact h₁.trans (.cut h₁.sound D)

/-! ## Names and placeholders -/

theorem placeholder_ends {q : Ref} (hq : q.Typed) (hs : s.Sound P)
    (hi : m.identities.lookup k = some i) :
    Sync.Ends c s (ctx.placeholder log q i) (fun a s' => s.Follows P s' ∧ ∀ x, a = some x →
      x = .stored k ∧ ∃ g, s'.find? k = some g) (fun f _ => c.Interrupts L f) := by
  obtain ⟨hty, hid, -⟩ := h.memory.of_lookup hi
  cases hk : s.find? k with
  | none =>
    unfold placeholder
    refine Sync.Ends.step (Sync.Ends.lookUp hid ?_)
    simp only [hk, Option.map_none]
    refine Sync.Ends.bind (create_ends hs hty hid (h.refs_of_lookup hi) true hk) ?_
    rintro _ s₁ ⟨rfl, h₁, hk₁⟩
    refine Sync.Ends.step (Sync.Ends.shown (by rintro _ ⟨rfl⟩; exact hq) fun _ => ?_)
    refine Sync.Ends.step (Sync.Ends.audit ?_)
    refine Sync.Ends.step (Sync.Ends.log ?_)
    refine Sync.Ends.pure ⟨h₁, ?_⟩
    rintro _ ⟨rfl⟩
    exact ⟨rfl, _, hk₁⟩
  | some g =>
    refine (placeholder_found_ends hid hk).mono ?_ fun _ _ => id
    rintro _ s ⟨rfl, rfl⟩
    refine ⟨.refl hs, fun x hx => ?_⟩
    split at hx
    · obtain rfl := Option.some.inj hx
      exact ⟨rfl, g, hk⟩
    · cases hx

/-- What going on at the groups of a group promises. -/
def GoesWide (c : Scene) (L : Prop) (P : Ref → Prop) (goOn : List (Option Ref) → Sync Unit) :
    Prop :=
  ∀ {refs : List (Option Ref)} {s : Store}, s.Sound P → TypedRefs refs →
    Sync.Ends c s (goOn refs) (fun _ s' => s.Follows P s') (fun f _ => c.Interrupts L f)

theorem ensureGroup_ends (hl : L) {goOn : List (Option Ref) → Sync Unit}
    (hgo : GoesWide c L P goOn) (hs : s.Sound P) {ref : Option Ref}
    (href : ∃ q, ref = some q ∧ q.Typed) :
    Sync.Ends c s (ctx.ensureGroup log goOn ref) (fun _ s' => s.Follows P s')
      (fun f _ => c.Interrupts L f) := by
  obtain ⟨q, rfl, hq⟩ := href
  unfold ensureGroup
  refine Sync.Ends.bind (h.externalGroup_held_ends hl (by rintro _ ⟨rfl⟩; exact hq)) ?_
  rintro a s ⟨rfl, ha⟩
  cases a with
  | none => exact Sync.Ends.pure (.refl hs)
  | some i =>
    obtain ⟨k, hi⟩ := ha i rfl
    have hty := (h.memory.of_lookup hi).1
    refine Sync.Ends.bind (h.placeholder_ends hq hs hi) ?_
    rintro a s₁ ⟨h₁, ha⟩
    cases a with
    | none => exact Sync.Ends.pure h₁
    | some x =>
      obtain ⟨rfl, hk⟩ := ha x rfl
      refine Sync.Ends.bind (h.syncGroup_ends h₁.sound hk hty) ?_
      rintro _ s₂ h₂
      refine (hgo h₂.sound hty.groups).mono ?_ fun _ _ => id
      exact fun _ s₃ h₃ => h₁.trans (h₂.trans h₃)

theorem ensureGroups_ends (hl : L) (more : Nat) :
    GoesWide c L P (ctx.ensureGroups log more) := by
  have hall {goOn : List (Option Ref) → Sync Unit} (hgo : GoesWide c L P goOn)
      {refs : List (Option Ref)} {s : Store} (hs : s.Sound P) (hrefs : TypedRefs refs) :
      Sync.Ends c s (refs.forM (ctx.ensureGroup log goOn)) (fun _ s' => s.Follows P s')
        (fun f _ => c.Interrupts L f) := by
    refine Sync.Ends.forM (I := fun _ s' => s.Follows P s') (.refl hs) ?_
    intro done ref rest s₁ he h₁
    refine (h.ensureGroup_ends hl hgo h₁.sound (hrefs ref (by rw [he]; simp))).mono ?_ fun _ _ => id
    exact fun _ s₂ h₂ => h₁.trans h₂
  induction more with
  | zero => exact fun hs hrefs => hall (fun hs _ => Sync.Ends.pure (.refl hs)) hs hrefs
  | succ more ih => exact fun hs hrefs => hall ih hs hrefs

theorem ensurePlaceholders_ends (hl : ctx.policy.hasDynamicGroups = true → L) (hs : s.Sound P)
    (hi : i.Typed) (depth : Int) :
    Sync.Ends c s (ctx.ensurePlaceholders log i depth) (fun _ s' => s.Follows P s')
      (fun f _ => c.Interrupts L f) := by
  unfold ensurePlaceholders
  split
  · next hd => exact h.ensureGroups_ends (hl (Bool.and_eq_true_iff.1 hd).1) _ hs hi.groups
  · exact Sync.Ends.pure (.refl hs)

omit h in
theorem keepNames_ends (hs : s.Sound P) (hk : s.find? k = some r) {names : NameSet}
    (hn : names.Texts) :
    Sync.Ends c s (keepNames (.stored k) r names) (fun _ s' => s.Follows P s')
      (fun f _ => c.Interrupts L f) := by
  have hr := hs.typed r (Store.mem_all_of_find? hk)
  have hp := hs.refs r (Store.mem_all_of_find? hk)
  unfold keepNames
  split
  · next hl =>
    refine (convert_ends hk hl names).mono ?_ fun _ s' hf =>
      Scene.foresees_interrupts.of_refuses hf.1 s'
    rintro _ _ rfl
    rw [Store.modify_eq_put hs.wellFormed hk]
    exact .put hs hk (hr.toDynamic hn) ⟨rfl, rfl⟩ hp
  · next hl =>
    refine (setNames_ends Scene.foresees_interrupts hs.wellFormed hk (by simpa using hl)
      names).mono ?_ fun _ _ => id
    rintro _ _ rfl
    have ht : Record.Typed { r with names := some (.set names) } :=
      { hr with names := by rintro _ ⟨rfl⟩; exact ⟨names, rfl, hn⟩ }
    exact .put hs hk ht ⟨rfl, rfl⟩ hp

/-! ## Synchronising a record -/

omit h in
/-- Of users, unwinding one of them deletes none. A deletion that fails does not end it. -/
theorem unwind_user_ends (hs : s.Sound P) (hk : s.find? k = some r) (hr : r.isGroup = false)
    (log : Option Channel) :
    Sync.Ends c s (ctx.unwind r log)
      (fun _ s' => s'.Sound P ∧ ∃ r', s'.find? k = some r') (fun f _ => c.Interrupts L f) := by
  refine (unwind_ends hs.wellFormed hs.typed hk).mono ?_ fun _ s' hf =>
    Scene.foresees_interrupts.of_refuses hf.1 s'
  rintro names _ ⟨-, K, -, rfl⟩
  exact ⟨(hs.cut _).drop _, r, find?_unwoundStore_user hs.wellFormed hk hr⟩

theorem syncNames_ends (hl : ctx.LooksUp s k → L) (hs : s.Sound P) (hi : i.Typed)
    (hk : ∃ r, s.find? k = some r) (depth : Int) {log : Option Channel} :
    Sync.Ends c s (ctx.syncNames i (.stored k) depth log)
      (fun _ s' => s'.Sound P ∧ ∃ r, s'.find? k = some r) (fun f _ => c.Interrupts L f) := by
  obtain ⟨r, hk⟩ := hk
  unfold syncNames
  refine Sync.Ends.step (Sync.Ends.record hk ?_)
  split
  · exact Sync.Ends.pure ⟨hs, r, hk⟩
  · next hr =>
    split
    · next hlegacy =>
      obtain ⟨hlegacy, henforce⟩ := Bool.and_eq_true_iff.1 hlegacy
      have hl : L := hl (.inr (.inr ⟨by simpa using henforce, r, hk, hlegacy⟩))
      refine Sync.Ends.step (Sync.Ends.log ?_)
      refine (h.materialize_ends hl _ hs hi ⟨r, hk⟩).mono ?_ fun _ _ => id
      exact fun _ s' h' => ⟨h'.sound, h'.exists_record ⟨r, hk⟩⟩
    · refine Sync.Ends.bind (h.namesOf_ends hi _ depth) ?_
      rintro names s ⟨rfl, hn, -⟩
      refine Sync.Ends.bind (keepNames_ends hs hk hn) ?_
      rintro _ s₁ h₁
      refine Sync.Ends.step (Sync.Ends.log ?_)
      refine Sync.Ends.bind (h.ensurePlaceholders_ends (fun hd => hl (.inr (.inl hd))) h₁.sound hi
        depth) ?_
      rintro _ s₂ h₂
      obtain ⟨r', hr', hid, hgroup⟩ := (h₁.trans h₂).kept k r hk
      split
      · rw [unwind_congr hid.symm hgroup.symm]
        refine Sync.Ends.bind (unwind_user_ends h₂.sound hr' ?_ _) fun _ _ h' => Sync.Ends.pure h'
        rw [Record.isGroup, hgroup]
        simpa [Record.isGroup] using hr
      · exact Sync.Ends.pure ⟨h₂.sound, r', hr'⟩

/-- Synchronising a user keeps the store sound and the user in it. -/
theorem syncUser_ends (hl : ctx.LooksUp s k → L) (hs : s.Sound P) (hi : i.Typed)
    (hk : ∃ r, s.find? k = some r) {log : Option Channel} :
    Sync.Ends c s (ctx.syncUser i (.stored k) log)
      (fun _ s' => s'.Sound P ∧ ∃ r, s'.find? k = some r) (fun f _ => c.Interrupts L f) := by
  unfold syncUser
  refine Sync.Ends.bind (syncProperties_follows hs hk hi h.policy.userMapping) ?_
  rintro _ s₁ ⟨h₁, hmode⟩
  refine Sync.Ends.bind (Q := fun _ s' => s'.Sound P ∧ ∃ r, s'.find? k = some r) ?_ ?_
  · unfold syncMembership
    split
    · exact h.syncNames_ends (fun h' => hl (h'.of_mode hmode)) h₁.sound hi (h₁.exists_record hk) _
    · next hdyn =>
      refine (h.materialize_ends (hl (.inl (by simpa using hdyn))) _ h₁.sound hi
        (h₁.exists_record hk)).mono ?_ fun _ _ => id
      exact fun _ s₂ h₂ => ⟨h₂.sound, h₂.exists_record (h₁.exists_record hk)⟩
  · rintro _ s₂ ⟨hs₂, hk₂⟩
    refine Sync.Ends.bind (applyMembership_ends Scene.foresees_interrupts hs₂ hk₂ false
      h.policy.userGroups) ?_
    rintro _ s₃ h₃
    refine (h.stamp_ends h₃.sound (h₃.exists_record hk₂)).mono ?_ fun _ _ => id
    exact fun _ s₄ h₄ => ⟨h₄.sound, h₄.exists_record (h₃.exists_record hk₂)⟩

/-- A user or a group is synchronised; only for users something may be looked up. -/
theorem syncRecord_ends {isGroup : Bool} (hl : isGroup = false → ctx.LooksUp s k → L)
    (hs : s.Sound P) (hi : i.Typed) (hk : ∃ r, s.find? k = some r) {log : Option Channel} :
    Sync.Ends c s (ctx.syncRecord i (.stored k) isGroup log)
      (fun _ s' => s'.Sound P ∧ ∃ r, s'.find? k = some r) (fun f _ => c.Interrupts L f) := by
  unfold syncRecord
  cases isGroup with
  | true =>
    refine (h.syncGroup_ends hs hk hi).mono ?_ fun _ _ => id
    exact fun _ s' h' => ⟨h'.sound, h'.exists_record hk⟩
  | false => exact h.syncUser_ends (hl rfl) hs hi hk

/-! ## Entry points -/

theorem isExpired_ends (hr : r.Typed) {expiration : Value} (he : expiration.IsTime)
    {Q : Bool → Store → Prop} (hq : ∀ b, Q b s) : Sync.Ends c s (isExpired r expiration) Q E := by
  refine (Context.isExpired_ends h.time hr he).mono ?_ fun _ _ => id
  rintro b _ ⟨-, rfl⟩
  exact hq b

/-- A record of the type of an identity is synchronised if it is one of the provider and due. -/
theorem updateIdentity_ends (hl : i.isGroup = false → ctx.LooksUp s k → L) (hs : s.Sound P)
    (hi : i.Typed) (hk : s.find? k = some r) {log : Option Channel} :
    Sync.Ends c s (ctx.updateIdentity i (.stored k) log) (fun _ s' => s'.Sound P)
      (fun f _ => c.Interrupts L f ∨ f.IsMismatch) := by
  have hr := hs.typed r (Store.mem_all_of_find? hk)
  have he : (if r.isGroup then ctx.policy.group.expirationTime
      else ctx.policy.user.expirationTime).IsTime := by
    split
    · exact h.policy.groupExpiration
    · exact h.policy.userExpiration
  unfold updateIdentity
  refine Sync.Ends.step (Sync.Ends.record hk ?_)
  refine Sync.Ends.step (requireKnown_ends hi.known ?_)
  dsimp only
  by_cases hsame : sameType r i = true
  · have hgroup : r.isGroup = i.isGroup := (sameType_iff hr i).1 hsame
    rw [if_neg (by simp [hsame])]
    split
    · refine Sync.Ends.step (Sync.Ends.log ?_)
      exact Sync.Ends.pure hs
    · refine Sync.Ends.step (h.isExpired_ends hr he fun b => ?_)
      split
      · refine Sync.Ends.bind ((h.syncRecord_ends (by rwa [hgroup]) hs hi ⟨r, hk⟩).mono
          (fun _ _ => id) fun _ _ => .inl) ?_
        rintro _ s' ⟨hs', q, hq⟩
        exact resultOf_ends hq fun _ _ => hs'
      · refine Sync.Ends.step (Sync.Ends.log ?_)
        exact resultOf_ends hk fun _ _ => hs
  · rw [if_pos (by simp [hsame])]
    exact Sync.Ends.throw_bind (.inr trivial)

theorem addIdentity_ends (hl : i.isGroup = false → ctx.LooksUp s k → L) (hs : s.Sound P)
    (hi : i.Typed) (href : ∀ q, i.ref = some q → P q) (hid : i.id.toKey = .ok k)
    (hk : s.find? k = none) {log : Channel} :
    Sync.Ends c s (ctx.addIdentity i log) (fun _ s' => s'.Sound P)
      (fun f _ => c.Interrupts L f) := by
  unfold addIdentity
  refine Sync.Ends.bind (create_ends hs hi hid href _ hk) ?_
  rintro _ s₁ ⟨rfl, h₁, hk₁⟩
  have hl₁ : i.isGroup = false → ctx.LooksUp s₁ k → L := fun hg h' => hl hg (h'.of_new hk₁)
  refine Sync.Ends.bind (h.syncRecord_ends hl₁ h₁.sound hi ⟨_, hk₁⟩) ?_
  rintro _ s₂ ⟨hs₂, r, hr⟩
  refine Sync.Ends.step (Sync.Ends.log ?_)
  exact resultOf_ends hr fun _ _ => hs₂

theorem syncExternalGroup_ends (hs : s.Sound P) (hi : i.Typed) (hgroup : i.isGroup = true)
    (href : ∀ q, i.ref = some q → P q) (hid : i.id.toKey = .ok k) {log : Option Channel} :
    Sync.Ends c s (ctx.syncExternalGroup i log) (fun _ s' => s'.Sound P)
      (fun f _ => c.Interrupts L f ∨ f.IsMismatch) := by
  have hno : i.isGroup = false → ctx.LooksUp s k → L := by
    intro hg
    rw [hgroup] at hg
    cases hg
  have hshown : ∀ q, i.ref = some q → q.Typed := by
    intro q hq
    obtain ⟨q', hq', ht⟩ := hi.ref
    obtain rfl := Option.some.inj (hq'.symm.trans hq)
    exact ht
  unfold syncExternalGroup
  refine Sync.Ends.step (Sync.Ends.lookUp hid ?_)
  cases hk : s.find? k with
  | some r => exact h.updateIdentity_ends hno hs hi hk
  | none =>
    simp only [Option.map_none]
    refine Sync.Ends.step (Sync.Ends.shown hshown fun _ => ?_)
    split
    · refine Sync.Ends.step (Sync.Ends.log ?_)
      refine Sync.Ends.step (requireKnown_ends hi.known ?_)
      refine Sync.Ends.bind ((create_ends hs hi hid href true hk).mono (fun _ _ => id)
        fun _ _ => .inl) ?_
      rintro _ s₁ ⟨rfl, h₁, hk₁⟩
      refine Sync.Ends.step (Sync.Ends.audit ?_)
      refine Sync.Ends.bind ((h.syncGroup_ends h₁.sound ⟨_, hk₁⟩ hi).mono (fun _ _ => id)
        fun _ _ => .inl) ?_
      rintro _ s₂ h₂
      obtain ⟨r, hr, -⟩ := h₂.kept k _ hk₁
      exact resultOf_ends hr fun _ _ => h₂.sound
    · refine Sync.Ends.step (Sync.Ends.log ?_)
      exact Sync.Ends.pure hs

/-- Synchronising an identity keeps the store sound, and reports what interrupts it. -/
theorem sync_ends (hl : i.isGroup = false → ctx.LooksUp s k → L) (hs : s.Sound P) (hi : i.Typed)
    (href : ∀ q, i.ref = some q → P q) (hid : i.id.toKey = .ok k) :
    Sync.Ends c s (ctx.sync i) (fun _ s' => s'.Sound P)
      (fun f _ => f.Reports (c.Interrupts L)) := by
  have hstandard : Sync.Ends c s (ctx.syncStandard i) (fun _ s' => s'.Sound P)
      (fun f _ => f.Reports (c.Interrupts L)) := by
    unfold syncStandard
    dsimp only
    split
    · next hkind =>
      have hknown := hi.known
      simp [Identity.isKnown, hkind] at hknown
    · rw [if_neg Bool.false_ne_true]
      split
      · exact Sync.Ends.pure hs
      · refine Sync.Ends.step (channelFor_ends fun log => ?_)
        refine guarded_reports_ends (fun _ _ => Scene.Interrupts.isA) ?_
        refine Sync.Ends.step (Sync.Ends.lookUp hid ?_)
        cases hk : s.find? k with
        | none =>
          exact (h.addIdentity_ends hl hs hi href hid hk).mono (fun _ _ => id) fun _ _ => .inl
        | some r => exact h.updateIdentity_ends hl hs hi hk
  unfold sync
  split
  · unfold syncDynamic
    cases hkind : i.kind with
    | user =>
      have hclassify : ctx.classify i = .ok .user := by simp [classify, hkind]
      rw [hclassify]
      exact hstandard
    | group =>
      have hgroup : i.isGroup = true := by simp [Identity.isGroup, hkind]
      by_cases hown : ctx.owns i.ref = true
      · have hclassify : ctx.classify i = .ok .group := by simp [classify, hkind, hown]
        rw [hclassify]
        refine Sync.Ends.step (channelFor_ends fun log => ?_)
        exact guarded_reports_ends (fun _ _ => Scene.Interrupts.isA)
          (h.syncExternalGroup_ends hs hi hgroup href hid)
      · have hclassify : ctx.classify i = .ok .foreignGroup := by simp [classify, hkind, hown]
        rw [hclassify]
        exact Sync.Ends.pure hs
    | unknown _ =>
      have hknown := hi.known
      simp [Identity.isKnown, hkind] at hknown
  · exact hstandard

end Running

/-! ## Users by their ids -/

/-- A context that works: its data is typed, its provider answers from memory, and no failure of the
store is planned. -/
structure Working (ctx : Context) (m : Memory) (c : Scene) (P : Ref → Prop) : Prop
    extends ctx.Backed m where
  works : c.StoreWorks
  time : c.clock.IsTime
  refs : ∀ id, P (m.ref id)

/-- A failure that concerns one identity only. -/
def Concerns (f : Failure) (_ : Store) : Prop := Job.isOfIdentity f = true

/-- A user that the provider does not know is not synchronised. -/
theorem Backed.unknown_user_ends (h : ctx.Backed m) {t : String}
    (ht : m.identities.lookup (.text t) = none) :
    Sync.Ends c s (Job.syncUser ctx (.text t)) (fun _ _ => False) Concerns := by
  unfold Job.syncUser
  refine Sync.Ends.bind (h.served.user_ends t) ?_
  rintro _ s ⟨rfl, rfl⟩
  rw [ht]
  exact Sync.Ends.throw (show Concerns (.userNotFound (.text t)) s from rfl)

/-- Synchronising a user by its id, which may be unknown, keeps the store sound, and a failure of it
concerns that user only. -/
theorem Working.syncUser_by_id_ends (h : ctx.Working m c P) (hs : s.Sound P) {id : Value}
    (hid : id.IsText) :
    Sync.Ends c s (Job.syncUser ctx id) (fun _ s' => s'.Sound P) Concerns := by
  have hrun : ctx.Running m c P := { h.served with time := h.time, refs := h.refs }
  obtain ⟨t, rfl⟩ := hid
  unfold Job.syncUser
  refine Sync.Ends.bind (h.served.user_ends t) ?_
  rintro _ s ⟨rfl, rfl⟩
  cases hi : (m.identities.lookup (.text t)).filter fun i => i.kind = .user with
  | none => exact Sync.Ends.throw (show Concerns (.userNotFound (.text t)) s from rfl)
  | some i =>
    obtain ⟨hi, -⟩ := Option.filter_eq_some_iff.1 hi
    obtain ⟨hty, hid, -⟩ := h.memory.of_lookup hi
    refine (hrun.sync_ends (L := True) (fun _ _ => trivial) hs hty (hrun.refs_of_lookup hi)
      hid).mono (fun _ _ => id) fun f _ hf => ?_
    simp [Concerns, Job.isOfIdentity, Failure.isA, hf.kind, FailureKind.isA]

end Context

end Roster
