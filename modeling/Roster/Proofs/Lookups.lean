import Roster.Proofs.Logic
import Roster.Sync

/-!
# Lookups

A lookup leaves the store alone. It has the answer of the provider, unless a failure is planned for
it. Of a provider in memory this is what the memory holds, and the groups that references lead to
are therefore a function of memory and policy (`Context.leadsTo`).

* `Provider.fetch_ends`, `Provider.principalName_ends`: the two kinds of lookups.
* `Provider.Names`, `Provider.Nameless`: what a reference is mapped to, or why to nothing.
* `Context.Served`: a context of typed data whose provider answers from memory; `Context.Backed`:
  one that is made for this provider.
-/

namespace Roster

/-- A failure is planned that a lookup may meet. -/
def Scene.FailsLookups (c : Scene) : Prop :=
  c.faults.resolve ≠ [] ∨ c.faults.direct ≠ [] ∨ ¬ c.Uncounted

/-- The lookup of a reference is planned to fail on account of its id. -/
def Scene.hides (c : Scene) (r : Ref) : Bool := c.faults.resolve.contains r.id

/-- The lookup of a reference may fail, on account of its id or of the calls before it. -/
def Scene.MayHide (c : Scene) (r : Ref) : Prop := c.hides r = true ∨ ¬ c.Uncounted

/-- The failure of a lookup. -/
def Scene.LookupFails (c : Scene) (f : Failure) : Prop := f.isA .lookup = true ∧ c.FailsLookups

/-- Without planned failures all lookups succeed. -/
theorem Scene.not_failsLookups {c : Scene} (h : c.faults = {}) : ¬ c.FailsLookups := by
  simp [FailsLookups, Uncounted, Strikes, h]

theorem Scene.MayHide.failsLookups {c : Scene} {r : Ref} (h : c.MayHide r) : c.FailsLookups := by
  rcases h with h | h
  · exact .inl fun hn => by simp [hides, hn] at h
  · exact .inr (.inr h)

namespace Memory

variable {m : Memory} {r : Ref} {i : Identity}

/-- What is known about an identity that a reference leads to. -/
structure Holds (m : Memory) (r : Ref) (i : Identity) : Prop where
  typed : i.Typed
  id : i.id = r.id
  ref : i.ref = some (m.ref i.id)
  key : ∃ k, i.id.toKey = .ok k ∧ m.identities.lookup k = some i

/-- An identity that a memory makes of typed data is typed. -/
theorem typed_identity (hm : m.name.IsText) {kind : Kind} (hk : kind = .user ∨ kind = .group)
    {id name : Value} (hid : id.IsText) (hn : (name.orElse id).IsText) {groups : List (Option Ref)}
    (hg : ∀ g ∈ groups, ∃ q, g = some q ∧ q.Typed) (properties : Fields) :
    (m.identity kind id groups name properties).Typed where
  id := hid
  principalName := hn
  ref := ⟨_, rfl, hid, .inr hm⟩
  known := by rcases hk with rfl | rfl <;> rfl
  groups := hg
  properties := ⟨_, rfl⟩

theorem Typed.of_lookup (h : m.Typed) {k : Key} (hi : m.identities.lookup k = some i) :
    i.Typed ∧ i.id.toKey = .ok k ∧ i.ref = some (m.ref i.id) := by
  obtain ⟨l₁, l₂, he, -⟩ := List.lookup_eq_some_iff.1 hi
  exact h.identities k i (by rw [he]; simp)

/-- A lookup of a typed reference has an answer. -/
theorem Typed.resolve (h : m.Typed) (hr : r.Typed) :
    ∃ a, m.resolve r = .ok a ∧ ∀ i, a = some i → m.Holds r i := by
  obtain ⟨t, ht⟩ := hr.id
  unfold Memory.resolve
  split
  · refine ⟨m.identities.lookup (.text t),
      by simp [find?, ht, bind, Except.bind, pure, Except.pure], fun i hi => ?_⟩
    obtain ⟨hty, hk, href⟩ := h.of_lookup hi
    obtain ⟨u, hu⟩ := hty.id
    rw [hu, Value.toKey_text, Except.ok.injEq, Key.text.injEq] at hk
    subst hk
    exact ⟨hty, by rw [hu, ht], href, _, by rw [hu]; rfl, hi⟩
  · exact ⟨none, rfl, by simp⟩

/-- A typed reference tells a name. -/
theorem Typed.directName (h : m.Typed) (hr : r.Typed) : ∃ a, m.directName r = .ok a ∧ a.IsText := by
  obtain ⟨t, ht⟩ := hr.id
  unfold Memory.directName
  rw [ht]
  cases hi : m.identities.lookup (.text t) with
  | none =>
    exact ⟨.text t, by simp [Memory.find?, hi, bind, Except.bind, pure, Except.pure], t, rfl⟩
  | some i =>
    exact ⟨i.principalName, by simp [Memory.find?, hi, bind, Except.bind, pure, Except.pure],
      (h.of_lookup hi).1.principalName⟩

end Memory

namespace Provider

variable {p : Provider} {c : Scene} {s : Store} {r : Ref} {a b : Value} {w : World}

/-- The reference itself tells the name, or leads to a group with this name; the provider maps
references to names. -/
def Names (p : Provider) (r : Ref) (a : Value) : Prop :=
  p.direct = true ∧ ((p.nameOf r).outcome = .ok (some a) ∨ (p.nameOf r).outcome = .ok none ∧
    ∃ i, (p.lookup r).outcome = .ok (some i) ∧ i.isGroup = true ∧ i.principalName = a)

theorem Names.unique (ha : p.Names r a) (hb : p.Names r b) : a = b := by
  obtain ⟨-, ha | ⟨ha, i, hi, -, rfl⟩⟩ := ha <;> obtain ⟨-, hb | ⟨hb, j, hj, -, rfl⟩⟩ := hb
  · exact Option.some.inj (Except.ok.inj (ha.symm.trans hb))
  · cases ha.symm.trans hb
  · cases ha.symm.trans hb
  · obtain rfl := Option.some.inj (Except.ok.inj (hi.symm.trans hj))
    rfl

/-- The provider answers a lookup, unless a failure is planned for it. -/
theorem fetch_ends (hr : r.Typed) :
    Sync.Ends c s (p.fetch r)
      (fun a s' => s' = s ∧ (p.lookup r).outcome = .ok a ∧ c.hides r = false)
      (fun f s' => s' = s ∧
        ((p.lookup r).outcome = .error f ∨ f.isA .lookup = true ∧ c.MayHide r)) := by
  unfold fetch
  refine Sync.Ends.step (Sync.Ends.shown (by rintro q ⟨rfl⟩; exact hr) fun _ => ?_)
  refine Sync.Ends.step (Sync.Ends.call ?_)
  refine Sync.Ends.bind Sync.Ends.takeTurn ?_
  rintro struck s ⟨rfl, hstruck⟩
  refine Sync.Ends.step (Sync.Ends.modify (fun _ => rfl) (fun _ => id) ?_)
  refine Sync.Ends.get ?_ fun w hc _ => ?_
  · intro hu w w' hc _ hc' _
    have hf (w : World) (hc : w.scene = c) : w.faults = c.faults := congrArg Scene.faults hc
    simp only [hf w hc, hf w' hc', hu.1, Option.any_none]
  subst hc
  split
  · next hp =>
    refine Sync.Ends.throw ⟨rfl, .inr ⟨rfl, ?_⟩⟩
    rcases Bool.or_eq_true_iff.1 hp with hp | hp
    · rcases Bool.or_eq_true_iff.1 hp with hp | hp
      · exact .inr fun hn => hn.2 (hstruck hp)
      · exact .inl hp
    · refine .inr fun hn => ?_
      have hnone : w.faults.resolveAfter = none := hn.1
      simp [hnone] at hp
  · next hp =>
    refine Sync.Ends.reply (fun b hb => ⟨rfl, hb, ?_⟩) fun f hf => ⟨rfl, .inl hf⟩
    simp only [Bool.or_eq_true, not_or, Bool.not_eq_true] at hp
    exact hp.1.2

/-- The provider gives no name for a reference: it maps no references to names, fails on this one,
or is led to no group by it. -/
inductive Nameless (p : Provider) (r : Ref) (f : Failure) : Prop
  | indirect (hdirect : p.direct = false)
  | unread (hname : (p.nameOf r).outcome = .error f)
  | unreached (hname : (p.nameOf r).outcome = .ok none) (hlookup : (p.lookup r).outcome = .error f)
  | noGroup (hname : (p.nameOf r).outcome = .ok none) (hf : f.isA .lookup = true)
      (hno : ∀ i, (p.lookup r).outcome = .ok (some i) → ¬ i.isGroup = true)

theorem Nameless.not_names {f : Failure} (h : p.Nameless r f) : ¬ p.Names r a := by
  rintro ⟨hdirect, ha | ⟨ha, i, hi, hg, -⟩⟩
  · rcases h with h | h | ⟨h, -⟩ | ⟨h, -⟩
    · cases h.symm.trans hdirect
    all_goals cases h.symm.trans ha
  · rcases h with h | h | ⟨-, h⟩ | ⟨-, -, hno⟩
    · cases h.symm.trans hdirect
    · cases h.symm.trans ha
    · cases h.symm.trans hi
    · exact hno i hi hg

/-- The provider names the group behind a reference, unless a failure is planned. -/
theorem principalName_ends (hr : r.Typed) :
    Sync.Ends c s (p.principalName r) (fun a s' => s' = s ∧ p.Names r a)
      (fun f s' => s' = s ∧ (c.LookupFails f ∨ p.Nameless r f)) := by
  unfold principalName
  refine Sync.Ends.step (Sync.Ends.shown (by rintro q ⟨rfl⟩; exact hr) fun _ => ?_)
  refine Sync.Ends.step (Sync.Ends.call ?_)
  refine Sync.Ends.bind Sync.Ends.takeTurn ?_
  rintro struck s ⟨rfl, hstruck⟩
  refine Sync.Ends.get (fun _ w w' hc _ hc' _ => ?_) fun w hc _ => ?_
  · have hf : w.faults = w'.faults := congrArg Scene.faults (hc.trans hc'.symm)
    simp only [hf]
  dsimp only
  split
  · next hp =>
    refine Sync.Ends.throw_bind ⟨rfl, .inl ⟨rfl, .inr ?_⟩⟩
    subst hc
    rcases Bool.or_eq_true_iff.1 hp with hp | hp
    · exact .inr fun hn => hn.2 (hstruck hp)
    · refine .inl fun hn => ?_
      have hnone : w.faults.direct = [] := hn
      simp [hnone] at hp
  split
  · next hd => exact Sync.Ends.throw_bind ⟨rfl, .inr (.indirect (by simpa using hd))⟩
  next hd =>
  have hdirect : p.direct = true := by simpa using hd
  refine Sync.Ends.bind (Q := fun a s' => s' = s ∧ (p.nameOf r).outcome = .ok a)
    (Sync.Ends.reply (fun a ha => ⟨rfl, ha⟩) fun f hf => ⟨rfl, .inr (.unread hf)⟩) ?_
  rintro found s ⟨rfl, hfound⟩
  cases found with
  | some a => exact Sync.Ends.pure ⟨rfl, hdirect, .inl hfound⟩
  | none =>
    have hno (hnot : ∀ i, (p.lookup r).outcome = .ok (some i) → ¬ i.isGroup = true) :
        Sync.Ends c s (principalName.notAGroup r) (fun a s' => s' = s ∧ p.Names r a)
          (fun f s' => s' = s ∧ (c.LookupFails f ∨ p.Nameless r f)) :=
      Sync.Ends.step (Sync.Ends.shown (by rintro q ⟨rfl⟩; exact hr) fun _ =>
        Sync.Ends.throw ⟨rfl, .inr (.noGroup hfound rfl hnot)⟩)
    refine Sync.Ends.bind ((fetch_ends hr).mono (fun _ _ => id) ?_) ?_
    · rintro f s' ⟨rfl, hf | ⟨hf, hmay⟩⟩
      · exact ⟨rfl, .inr (.unreached hfound hf)⟩
      · exact ⟨rfl, .inl ⟨hf, hmay.failsLookups⟩⟩
    · rintro led s ⟨rfl, hi, -⟩
      cases led with
      | none => exact hno fun i hj => by cases hi.symm.trans hj
      | some i =>
        dsimp only
        split
        · next hg => exact Sync.Ends.pure ⟨rfl, hdirect, .inr ⟨hfound, i, hi, hg, rfl⟩⟩
        · next hg => exact hno fun j hj => by cases hi.symm.trans hj; exact hg

/-- Where no failure is planned a lookup gives the answer of the provider. -/
theorem fetch_outcome (hr : r.Typed) (hw : ¬ w.scene.FailsLookups) :
    (p.fetch r w).1 = (p.lookup r).outcome := by
  have hends := (fetch_ends (p := p) hr).holds w rfl rfl
  rcases hrun : p.fetch r w with ⟨f | a, w'⟩ <;> rw [hrun] at hends
  · obtain ⟨-, -, hf | ⟨-, hmay⟩⟩ := hends
    · exact hf.symm
    · exact absurd hmay.failsLookups hw
  · exact hends.2.2.1.symm

/-- Where no failure is planned the group behind a reference is named. -/
theorem principalName_eq_ok_iff (hr : r.Typed) (hw : ¬ w.scene.FailsLookups) :
    (p.principalName r w).1 = .ok a ↔ p.Names r a := by
  have hends := (principalName_ends (p := p) hr).holds w rfl rfl
  rcases hrun : p.principalName r w with ⟨f | b, w'⟩ <;> rw [hrun] at hends
  · obtain ⟨-, -, hf | hno⟩ := hends
    · exact absurd hf.2 hw
    · exact iff_of_false nofun hno.not_names
  · refine ⟨fun hb => ?_, fun ha => ?_⟩
    · obtain rfl := Except.ok.inj hb
      exact hends.2.2
    · rw [hends.2.2.unique ha]

end Provider

/-- A context whose provider answers from memory, all data being typed. -/
structure Context.Served (ctx : Context) (m : Memory) : Prop where
  provider : ctx.provider = m.provider
  memory : m.Typed
  policy : ctx.policy.Typed

/-- A context whose provider answers from memory and is the one of its policy, all data being
typed. -/
structure Context.Backed (ctx : Context) (m : Memory) : Prop where
  provider : ctx.provider = m.provider
  name : ctx.policy.provider = m.name
  memory : m.Typed
  policy : ctx.policy.Typed

namespace Context

theorem Backed.served {ctx : Context} {m : Memory} (h : ctx.Backed m) : ctx.Served m :=
  ⟨h.provider, h.memory, h.policy⟩

variable {ctx : Context} {m : Memory} {c : Scene} {s : Store} {r : Ref}

/-- The group behind a reference of the provider. -/
def leadsTo (ctx : Context) (m : Memory) (ref : Option Ref) : Option Identity :=
  ref.bind fun r =>
    if ctx.policy.owns r then (m.resolve r).toOption.join.filter (·.isGroup) else none

theorem leadsTo_eq_some_iff {ref : Option Ref} {i : Identity} :
    ctx.leadsTo m ref = some i ↔ ∃ r, ref = some r ∧ ctx.policy.owns r = true ∧
      m.resolve r = .ok (some i) ∧ i.isGroup = true := by
  cases ref with
  | none => simp [leadsTo]
  | some r =>
    by_cases ho : ctx.policy.owns r = true
    · cases hr : m.resolve r with
      | error e => simp [leadsTo, ho, hr, Except.toOption]
      | ok a =>
        cases a with
        | none => simp [leadsTo, ho, hr, Except.toOption]
        | some j =>
          simp only [leadsTo, ho, hr, Except.toOption, Option.bind_some, if_true, Option.join_some,
            Option.filter_eq_some_iff, Option.some.injEq, Except.ok.injEq, exists_eq_left',
            true_and]
    · simp [leadsTo, ho]

theorem owns_of_leadsTo {ref : Option Ref} (hi : ctx.leadsTo m ref = some i) :
    ctx.owns ref = true := by
  obtain ⟨r, rfl, hown, -⟩ := leadsTo_eq_some_iff.1 hi
  exact hown

theorem leadsTo_eq_none {a : Option Identity} (ha : m.resolve r = .ok a)
    (hg : ∀ i, a = some i → ¬ i.isGroup = true) : ctx.leadsTo m (some r) = none := by
  rw [Option.eq_none_iff_forall_ne_some]
  intro i hi
  obtain ⟨q, hq, -, hres, hgroup⟩ := leadsTo_eq_some_iff.1 hi
  obtain rfl : r = q := Option.some.inj hq
  exact hg i (Except.ok.inj (ha.symm.trans hres)) hgroup

namespace Served

variable (h : ctx.Served m)
include h

/-- A lookup is answered from memory, unless a failure is planned for it. -/
theorem fetch_planned_ends (hr : r.Typed) :
    Sync.Ends c s (ctx.resolve r)
      (fun a s' => s' = s ∧ m.resolve r = .ok a ∧ c.hides r = false)
      (fun f s' => s' = s ∧ f.isA .lookup = true ∧ c.MayHide r) := by
  obtain ⟨a, ha, -⟩ := h.memory.resolve hr
  have hlookup : (ctx.provider.lookup r).outcome = m.resolve r := by
    rw [h.provider]
    exact Reply.outcome_ofResult _
  refine (Provider.fetch_ends hr).mono ?_ ?_
  · rintro b s' ⟨hs, hb, hh⟩
    exact ⟨hs, hlookup.symm.trans hb, hh⟩
  · rintro f s' ⟨hs, hf | hf⟩
    · cases ha.symm.trans (hlookup.symm.trans hf)
    · exact ⟨hs, hf⟩

/-- A lookup is answered from memory. -/
theorem fetch_ends (hr : r.Typed) :
    Sync.Ends c s (ctx.resolve r) (fun a s' => s' = s ∧ m.resolve r = .ok a)
      (fun f s' => s' = s ∧ c.LookupFails f) :=
  (h.fetch_planned_ends hr).mono (fun _ _ ha => ⟨ha.1, ha.2.1⟩)
    fun _ _ hf => ⟨hf.1, hf.2.1, hf.2.2.failsLookups⟩

/-- The group behind a reference, unless its lookup fails. -/
theorem externalGroup_planned_ends {ref : Option Ref} {log : Option Channel}
    (hr : ∀ r, ref = some r → r.Typed) :
    Sync.Ends c s (ctx.externalGroup ref log) (fun a s' => s' = s ∧ a = ctx.leadsTo m ref ∧
        ∀ r, ref = some r → ctx.policy.owns r = true → c.hides r = false)
      (fun f s' => s' = s ∧ c.LookupFails f) := by
  unfold externalGroup
  cases ref with
  | none => exact Sync.Ends.pure ⟨rfl, rfl, nofun⟩
  | some r =>
    have hno (hn : ctx.leadsTo m (some r) = none) (hh : c.hides r = false) :
        Sync.Ends c s (externalGroup.notAGroup log r)
          (fun a s' => s' = s ∧ a = ctx.leadsTo m (some r) ∧
            ∀ q, some r = some q → ctx.policy.owns q = true → c.hides q = false)
          (fun f s' => s' = s ∧ c.LookupFails f) := by
      refine Sync.Ends.step (Sync.Ends.shown hr fun _ => ?_)
      refine Sync.Ends.step (Sync.Ends.log ?_)
      refine Sync.Ends.pure ⟨rfl, hn.symm, ?_⟩
      rintro _ ⟨rfl⟩ -
      exact hh
    dsimp only
    by_cases ho : ctx.policy.owns r = true
    · rw [if_neg (by simp [ho])]
      refine Sync.Ends.bind ((h.fetch_planned_ends (hr r rfl)).mono (fun _ _ ha => ha)
        fun _ _ hf => ⟨hf.1, hf.2.1, hf.2.2.failsLookups⟩) ?_
      rintro a s ⟨rfl, ha, hh⟩
      cases a with
      | none => exact hno (leadsTo_eq_none ha nofun) hh
      | some i =>
        dsimp only
        split
        · next hg =>
          refine Sync.Ends.pure ⟨rfl, (leadsTo_eq_some_iff.2 ⟨r, rfl, ho, ha, hg⟩).symm, ?_⟩
          rintro _ ⟨rfl⟩ -
          exact hh
        · next hg =>
          refine hno (leadsTo_eq_none ha ?_) hh
          rintro _ ⟨rfl⟩
          exact hg
    · rw [if_pos (by simp [ho])]
      refine Sync.Ends.pure ⟨rfl, by simp [leadsTo, ho], ?_⟩
      rintro _ ⟨rfl⟩ hown
      exact absurd hown ho

/-- The group behind a reference, unless its lookup fails. -/
theorem externalGroup_ends {ref : Option Ref} {log : Option Channel}
    (hr : ∀ r, ref = some r → r.Typed) :
    Sync.Ends c s (ctx.externalGroup ref log) (fun a s' => s' = s ∧ a = ctx.leadsTo m ref)
      (fun f s' => s' = s ∧ c.LookupFails f) :=
  (h.externalGroup_planned_ends hr).mono (fun _ _ ha => ⟨ha.1, ha.2.1⟩) fun _ _ => id

/-- The name that a group reference tells, with direct mapping. -/
theorem principalName_ends (hdirect : m.directMapping = true) (hr : r.Typed) :
    Sync.Ends c s (ctx.directName r)
      (fun a s' => s' = s ∧ m.directName r = .ok a ∧ a.IsText)
      (fun f s' => s' = s ∧ c.LookupFails f) := by
  obtain ⟨a, ha, htext⟩ := h.memory.directName hr
  have hnames : ctx.provider.Names r a := by
    rw [h.provider]
    refine ⟨hdirect, .inl ?_⟩
    show (Reply.ofResult ((m.directName r).map some)).outcome = _
    rw [Reply.outcome_ofResult, ha]
    rfl
  refine (Provider.principalName_ends hr).mono ?_ ?_
  · rintro b s' ⟨hs, hb⟩
    obtain rfl := hnames.unique hb
    exact ⟨hs, ha, htext⟩
  · rintro f s' ⟨hs, hf | hf⟩
    · exact ⟨hs, hf⟩
    · exact absurd hnames hf.not_names

/-- A user is looked up by its id, whatever failures are planned. -/
theorem user_ends (t : String) {E : Failure → Store → Prop} :
    Sync.Ends c s (Sync.reply (ctx.provider.user (.text t))) (fun a s' =>
      a = (m.identities.lookup (.text t)).filter (fun i => i.kind = .user) ∧ s' = s) E := by
  have huser : (ctx.provider.user (.text t)).outcome
      = .ok ((m.identities.lookup (.text t)).filter fun i => i.kind = .user) := by
    rw [h.provider]
    rfl
  refine Sync.Ends.reply (fun a ha => ⟨Except.ok.inj (ha.symm.trans huser), rfl⟩) fun f hf => ?_
  cases huser.symm.trans hf

/-- The group behind a typed reference of the provider is typed and held under its own key. -/
theorem group_of_leadsTo {ref : Option Ref} {i : Identity} (hr : ∀ r, ref = some r → r.Typed)
    (hi : ctx.leadsTo m ref = some i) : i.Typed ∧ i.isGroup = true ∧
      ∃ k, i.id.toKey = .ok k ∧ m.identities.lookup k = some i := by
  obtain ⟨r, rfl, -, hres, hgroup⟩ := leadsTo_eq_some_iff.1 hi
  obtain ⟨a, ha, hholds⟩ := h.memory.resolve (hr r rfl)
  obtain rfl : a = some i := Except.ok.inj (ha.symm.trans hres)
  exact ⟨(hholds i rfl).typed, hgroup, (hholds i rfl).key⟩

end Served

end Context

end Roster
