import Roster.Proofs.Lookups
import Roster.Proofs.Snapshot

/-!
# Names collected

Collecting names never fails and leaves the store alone: a lookup that fails is logged and its
branch given up. If no lookup on the way fails, what it adds is told by a recursion of its own
(`collect_gains`). Without direct mapping these are exactly the names of the groups within the given
number of hops (`collect_ends`). Direct mapping or not, they do not depend on the store
(`collect_fixed`).

The steps for one reference are told for any provider: `lookUpGroup_ends`, `collectDirect_ends`.
-/

namespace Roster

/-- What a reference itself tells as a name. -/
def Memory.Tells (m : Memory) (r : Ref) (n : Key) : Prop :=
  ∃ v, m.directName r = .ok v ∧ v.toKey = .ok n

namespace Context

/-- The group is within a number of hops of references. -/
def Within (ctx : Context) (m : Memory) : Nat → List (Option Ref) → Identity → Prop
  | 0, _, _ => False
  | d + 1, refs, j =>
    ∃ ref ∈ refs, ∃ i, ctx.leadsTo m ref = some i ∧ (j = i ∨ Within ctx m d i.groups j)

/-- The reference is one of the provider and is met when references are followed for a number of
hops. -/
def Asked (ctx : Context) (m : Memory) : Nat → List (Option Ref) → Ref → Prop
  | 0, _, _ => False
  | d + 1, refs, q =>
    ∃ r, some r ∈ refs ∧ ctx.policy.owns r = true ∧
      (q = r ∨ ∃ i, ctx.leadsTo m (some r) = some i ∧ Asked ctx m d i.groups q)

/-- The name of a group within a number of hops of references. -/
def NameWithin (ctx : Context) (m : Memory) (d : Nat) (refs : List (Option Ref)) (n : Key) : Prop :=
  ∃ j, ctx.Within m d refs j ∧ j.principalName.toKey = .ok n

/-- The name of the group behind a reference, or of one within a number of hops of that group. -/
def NameBehind (ctx : Context) (m : Memory) (d : Nat) (r : Ref) (n : Key) : Prop :=
  ∃ i, ctx.leadsTo m (some r) = some i ∧
    (i.principalName.toKey = .ok n ∨ ctx.NameWithin m d i.groups n)

/-- Every reference is there and typed. -/
def TypedRefs (refs : List (Option Ref)) : Prop := ∀ ref ∈ refs, ∃ q, ref = some q ∧ q.Typed

/-- The name is collected when references are followed for a number of hops. With direct mapping,
those that are met at the last hop tell it themselves. -/
def Collected (ctx : Context) (m : Memory) : Nat → List (Option Ref) → Key → Prop
  | 0, _, _ => False
  | d + 1, refs, n =>
    if d = 0 ∧ m.directMapping = true then
      ∃ r ∈ (refs.filterMap id).filter ctx.policy.owns, m.Tells r n
    else
      ∃ r ∈ (refs.filterMap id).filter ctx.policy.owns, ∃ i, ctx.leadsTo m (some r) = some i ∧
        (i.principalName.toKey = .ok n ∨ Collected ctx m d i.groups n)

/-- No lookup is planned to fail, and all names are looked up. -/
def Plain (c : Scene) (m : Memory) : Prop := ¬ c.FailsLookups ∧ m.directMapping = false

/-- No lookup fails when references are followed for a number of hops, and all names are looked
up. -/
def Clear (ctx : Context) (m : Memory) (c : Scene) (d : Nat) (refs : List (Option Ref)) : Prop :=
  m.directMapping = false ∧ ∀ q, ctx.Asked m d refs q → ¬ c.MayHide q

/-- No lookup fails when names are collected for a number of hops. -/
def Unhindered (ctx : Context) (m : Memory) (c : Scene) (d : Nat) (refs : List (Option Ref)) :
    Prop :=
  (∀ q, ctx.Asked m d refs q → ¬ c.MayHide q) ∧ (m.directMapping = true → ¬ c.FailsLookups)

variable {ctx : Context} {m : Memory} {c : Scene} {s : Store} {r : Ref} {log : Channel}
  {names : NameSet} {E : Failure → Store → Prop}

theorem addName_ends {v : Value} (hv : v.IsText) (h : names.Texts) :
    Sync.Ends c s (addName names v) (fun ns s' => s' = s ∧ ns.Texts ∧
      ∀ n, n ∈ ns.keys ↔ v.toKey = .ok n ∨ n ∈ names.keys) E := by
  obtain ⟨t, rfl⟩ := hv
  refine Sync.Ends.step (Sync.Ends.result_ok rfl ?_)
  refine Sync.Ends.pure ⟨rfl, h.insert, fun n => ?_⟩
  rw [Value.toKey_text, Except.ok.injEq, eq_comm]
  exact mem_keysOf_insertName

/-- The references that are followed. -/
theorem mem_own {refs : List (Option Ref)} :
    r ∈ (refs.filterMap id).filter ctx.policy.owns ↔ some r ∈ refs ∧ ctx.policy.owns r = true := by
  simp [List.mem_filter, List.mem_filterMap]

theorem nameWithin_succ_iff {d : Nat} {refs : List (Option Ref)} {n : Key} :
    ctx.NameWithin m (d + 1) refs n ↔
      ∃ r ∈ (refs.filterMap id).filter ctx.policy.owns, ctx.NameBehind m d r n := by
  constructor
  · rintro ⟨j, ⟨ref, href, i, hi, hj⟩, hn⟩
    obtain ⟨r, rfl, ho, -⟩ := leadsTo_eq_some_iff.1 hi
    refine ⟨r, mem_own.2 ⟨href, ho⟩, i, hi, ?_⟩
    rcases hj with rfl | hj
    · exact .inl hn
    · exact .inr ⟨j, hj, hn⟩
  · rintro ⟨r, hr, i, hi, hn⟩
    have href := (mem_own.1 hr).1
    rcases hn with hn | ⟨j, hj, hn⟩
    · exact ⟨i, ⟨some r, href, i, hi, .inl rfl⟩, hn⟩
    · exact ⟨j, ⟨some r, href, i, hi, .inr hj⟩, hn⟩

theorem Plain.clear {d : Nat} {refs : List (Option Ref)} (h : Plain c m) : ctx.Clear m c d refs :=
  ⟨h.2, fun _ _ hq => h.1 hq.failsLookups⟩

theorem Clear.unhindered {d : Nat} {refs : List (Option Ref)} (h : ctx.Clear m c d refs) :
    ctx.Unhindered m c d refs :=
  ⟨h.2, fun hd => absurd (h.1.symm.trans hd) Bool.false_ne_true⟩

theorem Unhindered.of_not_failsLookups {d : Nat} {refs : List (Option Ref)}
    (h : ¬ c.FailsLookups) : ctx.Unhindered m c d refs :=
  ⟨fun _ _ hq => h hq.failsLookups, fun _ => h⟩

/-- Nothing fails on the way over one of the references. -/
theorem Unhindered.behind {d : Nat} {refs : List (Option Ref)}
    (h : ctx.Unhindered m c (d + 1) refs) (hr : some r ∈ refs) (ho : ctx.policy.owns r = true) :
    ¬ c.MayHide r ∧ ∀ i, ctx.leadsTo m (some r) = some i → ctx.Unhindered m c d i.groups :=
  ⟨h.1 r ⟨r, hr, ho, .inl rfl⟩, fun i hi =>
    ⟨fun q hq => h.1 q ⟨r, hr, ho, .inr ⟨i, hi, hq⟩⟩, h.2⟩⟩

/-- Without direct mapping, what is collected are the names of the groups within the hops. -/
theorem collected_iff_nameWithin (hdirect : m.directMapping = false) {d : Nat}
    {refs : List (Option Ref)} {n : Key} :
    ctx.Collected m d refs n ↔ ctx.NameWithin m d refs n := by
  induction d generalizing refs with
  | zero => simp [Collected, NameWithin, Within]
  | succ d ih =>
    rw [Collected, if_neg (by simp [hdirect]), nameWithin_succ_iff]
    simp only [NameBehind, ih]

/-- The step gives the same names in every store, and leaves the store. -/
def Fixed (c : Scene) (x : Channel → Sync NameSet) : Prop :=
  ∃ ns : NameSet, ns.Texts ∧ ∀ s log E, Sync.Ends c s (x log) (fun a s' => a = ns ∧ s' = s) E

/-- The step adds exactly the names of a kind, if a condition holds, and leaves the store. -/
def Gains (c : Scene) (s : Store) (E : Failure → Store → Prop) (P : Prop) (G : Key → Prop)
    (x : NameSet → Sync NameSet) : Prop :=
  ∀ {names : NameSet}, names.Texts → Sync.Ends c s (x names) (fun ns s' => s' = s ∧ ns.Texts ∧
    (P → ∀ n, n ∈ ns.keys ↔ n ∈ names.keys ∨ G n)) E

/-- Going over a list, a step for each item adds the names of all of them. -/
theorem Gains.foldlM {P : Prop} {G : Ref → Key → Prop} {f : NameSet → Ref → Sync NameSet}
    {rs : List Ref} (hf : ∀ r ∈ rs, Gains c s E P (G r) fun ns => f ns r) :
    Gains c s E P (fun n => ∃ r ∈ rs, G r n) fun ns => rs.foldlM f ns := by
  intro names hn
  refine (Sync.Ends.foldlM (I := fun done ns s' => s' = s ∧ ns.Texts ∧
    (P → ∀ n, n ∈ ns.keys ↔ n ∈ names.keys ∨ ∃ r ∈ done, G r n))
    ⟨rfl, hn, fun _ n => by simp⟩ ?_).mono (fun _ _ => id) fun _ _ => id
  rintro done r rest ns s' he ⟨rfl, hns, hiff⟩
  refine (hf r (by rw [he]; simp) hns).mono ?_ fun _ _ => id
  rintro ns' s' ⟨rfl, hns', hmore⟩
  refine ⟨rfl, hns', fun hp n => ?_⟩
  rw [hmore hp, hiff hp, or_assoc]
  simp [or_and_right, exists_or]

/-- A step that adds names of a kind gives the same names in every store. -/
theorem Gains.fixed {P : Prop} {G : Key → Prop} {x : Channel → NameSet → Sync NameSet}
    (hx : ∀ s log E, Gains c s E P G (x log)) (hp : P) (hn : names.Texts) :
    Fixed c fun log => x log names := by
  obtain ⟨w, hw⟩ : ∃ w : World, w.scene = c :=
    ⟨{ clock := c.clock, run := c.run, faults := c.faults, generation := c.generation,
        detached := c.detached }, rfl⟩
  obtain ⟨ns, -, -, -, -, hns, hiff⟩ := (hx w.store ⟨"", none⟩ (fun _ _ => False) hn).run hw rfl
  refine ⟨ns, hns, fun s log E => (hx s log E hn).mono ?_ fun _ _ => id⟩
  rintro ns' s' ⟨rfl, hns', hiff'⟩
  exact ⟨hns'.ext hns fun n => (hiff' hp n).trans (hiff hp n).symm, rfl⟩

/-- A group is what is looked up if it is one; a lookup that fails finds none. -/
theorem lookUpGroup_ends {P : Option Identity → Prop} {F : Prop} (hr : r.Typed)
    (hlookup : Sync.Ends c s (ctx.resolve r) (fun b s' => s' = s ∧ P b)
      (fun f s' => s' = s ∧ f.isA .lookup = true ∧ F)) :
    Sync.Ends c s (ctx.lookUpGroup log r) (fun a s' => s' = s ∧
      ((∃ b, P b ∧ a = b.filter (·.isGroup)) ∨ F ∧ a = none)) E := by
  have hshown : ∀ q, some r = some q → q.Typed := by
    rintro q ⟨rfl⟩
    exact hr
  have hno {b : Option Identity} (hb : P b) (hn : b.filter (·.isGroup) = none)
      {E : Failure → Store → Prop} :
      Sync.Ends c s (lookUpGroup.notAGroup log r) (fun a s' => s' = s ∧
        ((∃ b, P b ∧ a = b.filter (·.isGroup)) ∨ F ∧ a = none)) E := by
    refine Sync.Ends.step (Sync.Ends.shown hshown fun _ => ?_)
    exact Sync.Ends.step (Sync.Ends.log (Sync.Ends.pure ⟨rfl, .inl ⟨b, hb, hn.symm⟩⟩))
  unfold lookUpGroup
  refine Sync.Ends.tryCatch (Sync.Ends.bind hlookup ?_) ?_
  · rintro b s ⟨rfl, hb⟩
    cases b with
    | none => exact hno hb rfl
    | some i =>
      dsimp only
      split
      · next hg => exact Sync.Ends.pure ⟨rfl, .inl ⟨some i, hb, (Option.filter_some_pos hg).symm⟩⟩
      · next hg => exact hno hb (by simp [hg])
  · rintro f s ⟨rfl, hf, hfails⟩
    rw [if_pos hf]
    refine Sync.Ends.step (Sync.Ends.shown hshown fun _ => ?_)
    exact Sync.Ends.step (Sync.Ends.log (Sync.Ends.pure ⟨rfl, .inr ⟨hfails, rfl⟩⟩))

/-- The name that a reference is mapped to is added; a mapping that fails adds none. -/
theorem collectDirect_ends {P : Value → Prop} {F : Prop} (hr : r.Typed) (hn : names.Texts)
    (hname : Sync.Ends c s (ctx.directName r) (fun v s' => s' = s ∧ P v ∧ v.IsText)
      (fun f s' => s' = s ∧ f.isA .lookup = true ∧ F)) :
    Sync.Ends c s (ctx.collectDirect log names r) (fun ns s' => s' = s ∧ ns.Texts ∧
      ((∃ v, P v ∧ ∀ n, n ∈ ns.keys ↔ v.toKey = .ok n ∨ n ∈ names.keys) ∨ F ∧ ns = names)) E := by
  unfold collectDirect
  refine Sync.Ends.tryCatch (Sync.Ends.bind hname ?_) ?_
  · rintro v s ⟨rfl, hp, hv⟩
    refine (addName_ends hv hn).mono ?_ fun _ _ => id
    rintro ns s ⟨rfl, hns, hadd⟩
    exact ⟨rfl, hns, .inl ⟨v, hp, hadd⟩⟩
  · rintro f s ⟨rfl, hf, hfails⟩
    rw [if_pos hf]
    refine Sync.Ends.step (Sync.Ends.shown (by rintro q ⟨rfl⟩; exact hr) fun _ => ?_)
    exact Sync.Ends.step (Sync.Ends.log (Sync.Ends.pure ⟨rfl, hn, .inr ⟨hfails, rfl⟩⟩))

namespace Served

variable (h : ctx.Served m)
include h

/-- A lookup that fails finds no group. -/
theorem lookUpGroup_ends (ho : ctx.policy.owns r = true) (hr : r.Typed) :
    Sync.Ends c s (ctx.lookUpGroup log r)
      (fun a s' => s' = s ∧ (∀ i, a = some i → ctx.leadsTo m (some r) = some i) ∧
        (¬ c.MayHide r → a = ctx.leadsTo m (some r))) E := by
  have hfetch : Sync.Ends c s (ctx.resolve r) (fun b s' => s' = s ∧ m.resolve r = .ok b) _ :=
    (h.fetch_planned_ends hr).mono (fun _ _ ha => ⟨ha.1, ha.2.1⟩) fun _ _ => id
  refine (Context.lookUpGroup_ends hr hfetch).mono ?_ fun _ _ => id
  rintro _ s' ⟨hs, ⟨b, hb, rfl⟩ | ⟨hmay, rfl⟩⟩
  · have hleads : ctx.leadsTo m (some r) = b.filter (·.isGroup) := by
      simp [leadsTo, ho, hb, Except.toOption]
    rw [hleads]
    exact ⟨hs, fun _ => id, fun _ => rfl⟩
  · exact ⟨hs, nofun, fun hnot => absurd hmay hnot⟩

/-- A reference adds the name that it tells; one that is not mapped to a name adds none. -/
theorem collectDirect_gains (hdirect : m.directMapping = true) (hr : r.Typed) :
    Gains c s E (¬ c.FailsLookups) (m.Tells r) fun ns => ctx.collectDirect log ns r := by
  intro names hn
  refine (collectDirect_ends hr hn (h.principalName_ends hdirect hr)).mono ?_ fun _ _ => id
  rintro ns s' ⟨hs, hns, ⟨v, hname, hadd⟩ | ⟨hfails, rfl⟩⟩
  · refine ⟨hs, hns, fun _ n => ?_⟩
    have htells : m.Tells r n ↔ v.toKey = .ok n := by simp [Memory.Tells, hname]
    rw [hadd, htells, or_comm]
  · exact ⟨hs, hns, fun hnot => absurd hfails hnot⟩

/-- A reference adds the name of the group that it leads to and what is added for the references of
this group. -/
theorem collectGroup_gains {P : List (Option Ref) → Prop} {G : List (Option Ref) → Key → Prop}
    {goOn : NameSet → List (Option Ref) → Sync NameSet}
    (hgo : ∀ {refs : List (Option Ref)}, TypedRefs refs →
      Gains c s E (P refs) (G refs) fun ns => goOn ns refs)
    (ho : ctx.policy.owns r = true) (hr : r.Typed) :
    Gains c s E (¬ c.MayHide r ∧ ∀ i, ctx.leadsTo m (some r) = some i → P i.groups)
      (fun n => ∃ i, ctx.leadsTo m (some r) = some i ∧
        (i.principalName.toKey = .ok n ∨ G i.groups n))
      fun ns => ctx.collectGroup log goOn ns r := by
  intro names hn
  unfold collectGroup
  refine Sync.Ends.bind (h.lookUpGroup_ends ho hr) ?_
  rintro a s ⟨rfl, ha, hall⟩
  cases a with
  | none =>
    refine Sync.Ends.pure ⟨rfl, hn, fun hp n => ?_⟩
    simp [← hall hp.1]
  | some i =>
    have hl := ha i rfl
    obtain ⟨hi, -⟩ := h.group_of_leadsTo (by rintro q ⟨rfl⟩; exact hr) hl
    refine Sync.Ends.bind (addName_ends hi.principalName hn) ?_
    rintro ns s ⟨rfl, hns, hadd⟩
    refine (hgo hi.groups hns).mono ?_ fun _ _ => id
    rintro ns' s ⟨rfl, hns', hmore⟩
    refine ⟨rfl, hns', fun hp n => ?_⟩
    rw [hmore (hp.2 i hl), hadd, hl]
    simp only [Option.some.injEq, exists_eq_left', or_assoc, or_left_comm]

/-- Collecting never fails, and adds what is collected if no lookup on the way fails. -/
theorem collect_gains (d : Nat) {refs : List (Option Ref)} (hrefs : TypedRefs refs) :
    Gains c s E (ctx.Unhindered m c d refs) (ctx.Collected m d refs)
      fun ns => ctx.collect log d ns refs := by
  induction d generalizing refs with
  | zero =>
    intro names hn
    exact Sync.Ends.pure ⟨rfl, hn, fun _ n => by simp [Collected]⟩
  | succ d ih =>
    intro names hn
    have htyped {r : Ref} (hr : some r ∈ refs) : r.Typed := by
      obtain ⟨q, hq, ht⟩ := hrefs _ hr
      obtain rfl := Option.some.inj hq
      exact ht
    have hmode : (decide (d = 0) && ctx.provider.direct) = true ↔
        d = 0 ∧ m.directMapping = true := by
      rw [h.provider, Bool.and_eq_true, decide_eq_true_eq]
      exact Iff.rfl
    simp only [collect, hmode]
    split
    · next hlast =>
      refine (Gains.foldlM (fun r hr =>
        h.collectDirect_gains hlast.2 (htyped (mem_own.1 hr).1)) hn).mono ?_ fun _ _ => id
      rintro ns s ⟨rfl, hns, hiff⟩
      refine ⟨rfl, hns, fun hp n => ?_⟩
      rw [hiff (hp.2 hlast.2), Collected, if_pos hlast]
    · next hlast =>
      have hgroup : ∀ r ∈ (refs.filterMap id).filter ctx.policy.owns,
          Gains c s E (ctx.Unhindered m c (d + 1) refs)
            (fun n => ∃ i, ctx.leadsTo m (some r) = some i ∧
              (i.principalName.toKey = .ok n ∨ ctx.Collected m d i.groups n))
            fun ns => ctx.collectGroup log (ctx.collect log d) ns r := by
        intro r hr ns hns
        obtain ⟨hr, ho⟩ := mem_own.1 hr
        refine (h.collectGroup_gains ih ho (htyped hr) hns).mono ?_ fun _ _ => id
        rintro ns' s ⟨rfl, hns', hmore⟩
        exact ⟨rfl, hns', fun hp => hmore (hp.behind hr ho)⟩
      refine (Gains.foldlM hgroup hn).mono ?_ fun _ _ => id
      rintro ns s ⟨rfl, hns, hiff⟩
      exact ⟨rfl, hns, fun hp n => by rw [hiff hp, Collected, if_neg hlast]⟩

/-- Without direct mapping, collecting adds the names of the groups within a number of hops. -/
theorem collect_ends (d : Nat) {refs : List (Option Ref)} (hrefs : TypedRefs refs) :
    Gains c s E (ctx.Clear m c d refs) (ctx.NameWithin m d refs)
      fun ns => ctx.collect log d ns refs := by
  intro names hn
  refine (h.collect_gains d hrefs hn).mono ?_ fun _ _ => id
  rintro ns s ⟨rfl, hns, hiff⟩
  exact ⟨rfl, hns, fun hp n => by rw [hiff hp.unhindered, collected_iff_nameWithin hp.1]⟩

/-- Where no lookup fails, collecting gives the same names in every store. -/
theorem collect_fixed (hc : ¬ c.FailsLookups) (d : Nat) {refs : List (Option Ref)}
    {names : NameSet} (hrefs : TypedRefs refs) (hn : names.Texts) :
    Fixed c fun log => ctx.collect log d names refs :=
  Gains.fixed (fun _ _ _ => h.collect_gains d hrefs) (.of_not_failsLookups hc) hn

end Served

end Context

end Roster
