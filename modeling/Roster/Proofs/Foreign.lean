import Roster.Proofs.Changes
import Roster.Proofs.Lookups
import Roster.Proofs.Parallel

/-!
# References of other providers

An identity may declare groups that live in another provider, or references that lead nowhere. A
synchronisation looks past them: with all of them taken out, of the identity and of everything that
the provider holds in memory, it does the same. It answers or fails in the same way, leaves the same
world but for log lines, and asks the provider the same questions in the same order, all of them
about references of the provider itself.

The two runs are compared step by step (`Sync.InStep`); there is one lemma for each function. The
four walks over groups drop the foreign references each in its own way: `declareGroup_skips` and
`ensureGroup_skips` say that the step for such a reference does nothing, `own_narrowed` that the
names are collected over the same references.
-/

namespace Roster

open Sync (Abreast InStep)

/-- The identity without its references into other providers. -/
def Identity.narrowed (p : Policy) (i : Identity) : Identity :=
  { i with groups := i.groups.filter p.ownsOption }

/-- The provider without its references into other providers. -/
def Memory.narrowed (p : Policy) (m : Memory) : Memory :=
  { m with identities := m.identities.map fun q => (q.1, q.2.narrowed p) }

/-- There are words for every reference of the identity into another provider. -/
def Identity.Showable (p : Policy) (i : Identity) : Prop :=
  ∀ r, some r ∈ i.groups → p.owns r = false → ∃ t, r.shown? = some t

/-- There are words for every reference of the provider into another one. -/
def Memory.Showable (p : Policy) (m : Memory) : Prop :=
  ∀ k i, (k, i) ∈ m.identities → i.Showable p

theorem Identity.Typed.showable {i : Identity} (h : i.Typed) (p : Policy) : i.Showable p := by
  intro r hr _
  obtain ⟨q, hq, hty⟩ := h.groups _ hr
  obtain rfl : r = q := Option.some.inj hq
  exact hty.shown?

theorem Memory.Typed.showable {m : Memory} (h : m.Typed) (p : Policy) : m.Showable p :=
  fun k i hi => (h.identities k i hi).1.showable p

/-- The call asks the provider about a reference into the provider of the policy. -/
def Policy.Asks (p : Policy) : Call → Prop
  | .resolve r => p.ownsOption r = true
  | .direct r => p.ownsOption r = true
  | _ => False

namespace Memory

variable {p : Policy} {m : Memory} {r : Ref}

theorem lookup_narrowed (k : Key) :
    (m.narrowed p).identities.lookup k = (m.identities.lookup k).map (·.narrowed p) := by
  unfold narrowed
  induction m.identities with
  | nil => rfl
  | cons q rest ih =>
    rw [List.map_cons, Assoc.lookup_cons, ih]
    obtain ⟨j, i⟩ := q
    rw [Assoc.lookup_cons]
    split <;> rfl

theorem find?_narrowed (id : Value) :
    (m.narrowed p).find? id = (m.find? id).map (Option.map (·.narrowed p)) := by
  unfold find?
  cases id.toKey with
  | error e => rfl
  | ok k =>
    show Except.ok _ = Except.ok _
    rw [lookup_narrowed]

theorem directName_narrowed : (m.narrowed p).directName r = m.directName r := by
  unfold directName
  rw [find?_narrowed]
  cases m.find? r.id with
  | error e => rfl
  | ok a => cases a <;> rfl

theorem Showable.of_resolve (h : m.Showable p) {i : Identity} (hi : m.resolve r = .ok (some i)) :
    i.Showable p := by
  unfold resolve find? at hi
  split at hi
  · obtain ⟨k, -, hk⟩ := bind_eq_ok.1 hi
    obtain ⟨l₁, l₂, he, -⟩ := List.lookup_eq_some_iff.1 (Except.ok.inj hk)
    exact h k i (by rw [he]; simp)
  · cases hi

end Memory

/-- An identity beside the same without its references into other providers. -/
def Narrows (p : Policy) (a b : Option Identity) : Prop :=
  b = a.map (·.narrowed p) ∧ ∀ i, a = some i → i.Showable p

theorem Memory.resolve_narrowed {p : Policy} {m : Memory} (h : m.Showable p) (r : Ref) :
    Sync.Corresponds (Narrows p) (m.resolve r) ((m.narrowed p).resolve r) := by
  have hr : (m.narrowed p).resolve r = (m.resolve r).map (Option.map (·.narrowed p)) := by
    unfold resolve
    rw [find?_narrowed]
    show (if r.provider == m.name then _ else _) = _
    split <;> rfl
  rw [hr]
  cases ha : m.resolve r with
  | error f => exact .error f
  | ok a => exact .ok ⟨rfl, fun i hi => h.of_resolve (hi ▸ ha)⟩

namespace Context

variable {ctx : Context} {p : Policy} {m : Memory} {dynamic : Bool} {i : Identity} {x : Subject}
  {r : Ref} {log : Channel}

/-- The context of a policy and a provider in memory. -/
abbrev ofMemory (p : Policy) (m : Memory) (dynamic : Bool) : Context := ⟨p, m.provider, dynamic⟩

/-! ## Lookups -/

theorem resolve_narrowed (hm : m.Showable p) (hr : p.owns r = true) :
    InStep p.Asks (Narrows p) ((ofMemory p m dynamic).resolve r)
      ((ofMemory p (m.narrowed p) dynamic).resolve r) := by
  have hanswer : InStep p.Asks (Narrows p) (Sync.reply (m.provider.lookup r))
      (Sync.reply ((m.narrowed p).provider.lookup r)) := by
    simp only [Memory.provider]
    refine .reply (by simp only [Reply.journal_ofResult])
      (by rw [Reply.journal_ofResult]; exact nofun) ?_
    rw [Reply.outcome_ofResult, Reply.outcome_ofResult]
    exact Memory.resolve_narrowed hm r
  unfold resolve Provider.fetch
  refine (Abreast.shown _).next fun _ => (Abreast.call hr).next fun _ => ?_
  refine Abreast.takeTurn.next fun struck => ?_
  refine Abreast.next (InStep.modify ?_ ?_) fun _ => InStep.get fun v notes => ?_
  · exact fun _ _ => rfl
  · exact fun _ => rfl
  · exact .stopIf hanswer

theorem directName_narrowed (hm : m.Showable p) (hr : p.owns r = true) :
    InStep p.Asks Eq ((ofMemory p m dynamic).directName r)
      ((ofMemory p (m.narrowed p) dynamic).directName r) := by
  have hno : InStep p.Asks Eq (Provider.principalName.notAGroup r)
      (Provider.principalName.notAGroup r) := (Abreast.shown _).next fun _ => .throw _
  have hanswer : InStep p.Asks Eq (Sync.reply (m.provider.nameOf r))
      (Sync.reply ((m.narrowed p).provider.nameOf r)) := by
    simp only [Memory.provider, Memory.directName_narrowed]
    refine .reply (by simp only [Reply.journal_ofResult])
      (by rw [Reply.journal_ofResult]; exact nofun) ?_
    exact .of_eq (fun _ => rfl) _
  unfold directName Provider.principalName
  refine (Abreast.shown _).next fun _ => (Abreast.call hr).next fun _ => ?_
  refine Abreast.takeTurn.next fun struck => InStep.get fun v notes => ?_
  refine .stopIf (.stopIf (hanswer.next fun found => ?_))
  split
  · exact .pure rfl
  · refine (resolve_narrowed hm hr).bind fun a b h => ?_
    obtain ⟨rfl, -⟩ := h
    cases a with
    | none => exact hno
    | some i => exact .ite (fun _ => .pure rfl) fun _ => hno

theorem externalGroup_narrowed (hm : m.Showable p) (q : Option Ref) (log : Option Channel) :
    InStep p.Asks (Narrows p) ((ofMemory p m dynamic).externalGroup q log)
      ((ofMemory p (m.narrowed p) dynamic).externalGroup q log) := by
  have hnone : InStep p.Asks (Narrows p) (pure none) (pure none) := .pure ⟨rfl, by simp⟩
  have hno (r : Ref) : InStep p.Asks (Narrows p) (externalGroup.notAGroup log r)
      (externalGroup.notAGroup log r) :=
    (Abreast.shown _).next fun _ => Abreast.log.next fun _ => hnone
  unfold externalGroup
  cases q with
  | none => exact hnone
  | some r =>
    refine .ite (fun _ => hnone) fun ho => ?_
    refine (resolve_narrowed hm (by simpa using ho)).bind fun a b h => ?_
    obtain ⟨rfl, hi⟩ := h
    cases a with
    | none => exact hno r
    | some i => exact .ite (fun _ => .pure ⟨rfl, hi⟩) fun _ => hno r

/-! ## Collecting names -/

/-- The references that names are collected over are the same. -/
theorem own_narrowed (refs : List (Option Ref)) :
    ((refs.filter p.ownsOption).filterMap id).filter p.owns
      = (refs.filterMap id).filter p.owns := by
  induction refs with
  | nil => rfl
  | cons q refs ih =>
    cases q with
    | none => exact ih
    | some r =>
      cases ho : p.owns r with
      | false =>
        rw [List.filter_cons_of_neg (by simp [Policy.ownsOption, ho]), ih]
        simp [ho]
      | true =>
        rw [List.filter_cons_of_pos (by simp [Policy.ownsOption, ho])]
        simp only [List.filterMap_cons, id_eq, List.filter_cons_of_pos ho]
        exact congrArg (r :: ·) ih

theorem addName_inStep (names : NameSet) (name : Value) :
    InStep p.Asks Eq (addName names name) (addName names name) := by
  unfold addName
  exact Abreast.result.next fun _ => .pure rfl

theorem collectDirect_narrowed (hm : m.Showable p) (hr : p.owns r = true) (names : NameSet) :
    InStep p.Asks Eq ((ofMemory p m dynamic).collectDirect log names r)
      ((ofMemory p (m.narrowed p) dynamic).collectDirect log names r) := by
  unfold collectDirect
  refine .tryCatch ((directName_narrowed hm hr).next fun name => addName_inStep names name)
    fun f => .ite (fun _ => ?_) fun _ => .throw f
  exact (Abreast.shown _).next fun _ => Abreast.log.next fun _ => .pure rfl

theorem lookUpGroup_narrowed (hm : m.Showable p) (hr : p.owns r = true) :
    InStep p.Asks (Narrows p) ((ofMemory p m dynamic).lookUpGroup log r)
      ((ofMemory p (m.narrowed p) dynamic).lookUpGroup log r) := by
  have hnone : InStep p.Asks (Narrows p) (pure none) (pure none) := .pure ⟨rfl, by simp⟩
  have hno : InStep p.Asks (Narrows p) (lookUpGroup.notAGroup log r)
      (lookUpGroup.notAGroup log r) :=
    (Abreast.shown _).next fun _ => Abreast.log.next fun _ => hnone
  unfold lookUpGroup
  refine .tryCatch ((resolve_narrowed hm hr).bind fun a b h => ?_) fun f => .ite (fun _ => ?_)
    fun _ => .throw f
  · obtain ⟨rfl, hi⟩ := h
    cases a with
    | none => exact hno
    | some i => exact .ite (fun _ => .pure ⟨rfl, hi⟩) fun _ => hno
  · exact (Abreast.shown _).next fun _ => Abreast.log.next fun _ => hnone

theorem collectGroup_narrowed (hm : m.Showable p) (hr : p.owns r = true)
    {goOn goOn' : NameSet → List (Option Ref) → Sync NameSet}
    (hgoOn : ∀ names refs,
      InStep p.Asks Eq (goOn names refs) (goOn' names (refs.filter p.ownsOption)))
    (names : NameSet) :
    InStep p.Asks Eq ((ofMemory p m dynamic).collectGroup log goOn names r)
      ((ofMemory p (m.narrowed p) dynamic).collectGroup log goOn' names r) := by
  unfold collectGroup
  refine (lookUpGroup_narrowed hm hr).bind fun a b h => ?_
  obtain ⟨rfl, -⟩ := h
  cases a with
  | none => exact .pure rfl
  | some i => exact (addName_inStep names i.principalName).next fun names => hgoOn names i.groups

theorem collect_narrowed (hm : m.Showable p) (depth : Nat) (names : NameSet)
    (refs : List (Option Ref)) :
    InStep p.Asks Eq ((ofMemory p m dynamic).collect log depth names refs)
      ((ofMemory p (m.narrowed p) dynamic).collect log depth names (refs.filter p.ownsOption)) := by
  induction depth generalizing names refs with
  | zero => exact .pure rfl
  | succ depth ih =>
    have hown {r : Ref} (hr : r ∈ (refs.filterMap id).filter p.owns) : p.owns r = true :=
      (List.mem_filter.1 hr).2
    unfold collect
    dsimp only
    rw [own_narrowed]
    refine .ite (fun _ => ?_) fun _ => ?_
    · exact .foldlM rfl fun r hr names _ h => h ▸ collectDirect_narrowed hm (hown hr) names
    · exact .foldlM rfl fun r hr names _ h => h ▸ collectGroup_narrowed hm (hown hr) ih names

/-! ## Member lists -/

/-- The step for a reference into another provider does nothing. -/
theorem declareGroup_skips {q : Option Ref} (hq : p.ownsOption q = false)
    (hs : ∀ r, q = some r → ∃ t, r.shown? = some t) (r : Record)
    (goOn : Identity → Subject → Sync Unit) (declared : List Key) :
    InStep p.Asks Eq ((ofMemory p m dynamic).declareGroup log r goOn declared q)
      (pure declared) := by
  unfold declareGroup
  rw [if_pos (by simp [owns, hq])]
  have hshown : ∃ t, Sync.shown q = pure t := by
    cases q with
    | none => exact ⟨_, rfl⟩
    | some r =>
      obtain ⟨t, ht⟩ := hs r rfl
      exact ⟨t, by simp only [Sync.shown, ht]⟩
  obtain ⟨t, ht⟩ := hshown
  rw [ht, pure_bind, ← pure_bind () fun _ => (pure declared : Sync (List Key))]
  exact Abreast.log_pure.next fun _ => .pure rfl

theorem declareGroup_narrowed (hm : m.Showable p) {g : Record}
    {goOn goOn' : Identity → Subject → Sync Unit}
    (hgoOn : ∀ i x, i.Showable p → InStep p.Asks Eq (goOn i x) (goOn' (i.narrowed p) x))
    (declared : List Key) (q : Option Ref) :
    InStep p.Asks Eq ((ofMemory p m dynamic).declareGroup log g goOn declared q)
      ((ofMemory p (m.narrowed p) dynamic).declareGroup log g goOn' declared q) := by
  unfold declareGroup
  refine .ite (fun _ => (Abreast.shown _).next fun _ => Abreast.log.next fun _ => .pure rfl)
    fun _ => ?_
  refine (externalGroup_narrowed hm q _).bind fun a b h => ?_
  obtain ⟨rfl, hi⟩ := h
  cases a with
  | none => exact .pure rfl
  | some i =>
    refine localGroup_inStep.next fun found => ?_
    split
    · exact .pure rfl
    · refine (InStep.addMember _ _).next fun _ => Abreast.result.next fun key => ?_
      exact (hgoOn i _ (hi i rfl)).next fun _ => .pure rfl

theorem materialize_narrowed (hm : m.Showable p) (depth : Nat) (hi : i.Showable p) :
    InStep p.Asks Eq ((ofMemory p m dynamic).materialize log depth i x)
      ((ofMemory p (m.narrowed p) dynamic).materialize log depth (i.narrowed p) x) := by
  induction depth generalizing i x with
  | zero => exact .pure rfl
  | succ depth ih =>
    unfold materialize
    refine requireKnown_inStep.next fun _ => (InStep.record x).next fun r => ?_
    refine Abreast.next (.foldlM_filter rfl ?_ ?_) fun declared => InStep.get fun v notes => ?_
    · intro q _ _ declared _ h
      exact h ▸ declareGroup_narrowed hm (fun i x hi => ih hi) declared q
    · intro q hq ho declared _ h
      subst h
      have hs : ∀ r, q = some r → ∃ t, r.shown? = some t := fun r hr =>
        hi r (hr ▸ hq) (by simpa [hr, Policy.ownsOption] using ho)
      exact declareGroup_skips ho hs r _ declared
    · exact Abreast.result.next fun groups => .forM fun g _ => pruneGroup_inStep declared g

/-! ## Placeholders -/

/-- The step for a reference into another provider does nothing. -/
theorem ensureGroup_skips {q : Option Ref} (hq : p.ownsOption q = false)
    (goOn : List (Option Ref) → Sync Unit) :
    (ofMemory p m dynamic).ensureGroup log goOn q = pure () := by
  cases q with
  | none => rfl
  | some r =>
    have ho : p.owns r = false := by simpa [Policy.ownsOption] using hq
    simp [ensureGroup, externalGroup, ho]

theorem ensureGroup_narrowed (hm : m.Showable p) {goOn goOn' : List (Option Ref) → Sync Unit}
    (hgoOn : ∀ refs, InStep p.Asks Eq (goOn refs) (goOn' (refs.filter p.ownsOption)))
    (q : Option Ref) :
    InStep p.Asks Eq ((ofMemory p m dynamic).ensureGroup log goOn q)
      ((ofMemory p (m.narrowed p) dynamic).ensureGroup log goOn' q) := by
  unfold ensureGroup
  cases q with
  | none => exact .pure rfl
  | some r =>
    refine (externalGroup_narrowed hm _ _).bind fun a b h => ?_
    obtain ⟨rfl, -⟩ := h
    cases a with
    | none => exact .pure rfl
    | some i =>
      refine (placeholder_inStep r).next fun found => ?_
      split
      · exact (syncGroup_inStep _).next fun _ => hgoOn i.groups
      · exact .pure rfl

theorem ensureGroups_narrowed (hm : m.Showable p) (more : Nat) (refs : List (Option Ref)) :
    InStep p.Asks Eq ((ofMemory p m dynamic).ensureGroups log more refs)
      ((ofMemory p (m.narrowed p) dynamic).ensureGroups log more (refs.filter p.ownsOption)) := by
  induction more generalizing refs with
  | zero =>
    refine .forM_filter (fun q _ _ => ensureGroup_narrowed hm (fun _ => .pure rfl) q) ?_
    intro q _ ho
    rw [ensureGroup_skips ho]
    exact .pure rfl
  | succ more ih =>
    refine .forM_filter (fun q _ _ => ensureGroup_narrowed hm ih q) fun q _ ho => ?_
    rw [ensureGroup_skips ho]
    exact .pure rfl

theorem ensurePlaceholders_narrowed (hm : m.Showable p) (depth : Int) :
    InStep p.Asks Eq ((ofMemory p m dynamic).ensurePlaceholders log i depth)
      ((ofMemory p (m.narrowed p) dynamic).ensurePlaceholders log (i.narrowed p) depth) := by
  unfold ensurePlaceholders
  exact .ite (fun _ => ensureGroups_narrowed hm _ _) fun _ => .pure rfl

/-! ## Synchronising -/

theorem namesOf_narrowed (hm : m.Showable p) (depth : Int) :
    InStep p.Asks Eq ((ofMemory p m dynamic).namesOf log i depth)
      ((ofMemory p (m.narrowed p) dynamic).namesOf log (i.narrowed p) depth) := by
  have hcollect : InStep p.Asks Eq ((ofMemory p m dynamic).collect log depth.toNat ∅ i.groups)
      ((ofMemory p (m.narrowed p) dynamic).collect log depth.toNat ∅ (i.narrowed p).groups) :=
    collect_narrowed hm _ _ _
  unfold namesOf
  exact .ite (fun _ => requireKnown_inStep.next fun _ => hcollect) fun _ => hcollect

theorem syncNames_narrowed (hm : m.Showable p) (hi : i.Showable p) (depth : Int)
    (log : Option Channel) :
    InStep p.Asks Eq ((ofMemory p m dynamic).syncNames i x depth log)
      ((ofMemory p (m.narrowed p) dynamic).syncNames (i.narrowed p) x depth log) := by
  unfold syncNames
  refine (InStep.record x).next fun r => .ite (fun _ => .pure rfl) fun _ => .ite (fun _ => ?_)
    fun _ => ?_
  · exact Abreast.log.next fun _ => materialize_narrowed hm depth.toNat hi
  · refine (namesOf_narrowed hm depth).next fun names => (keepNames_inStep names).next fun _ => ?_
    refine Abreast.log.next fun _ => (ensurePlaceholders_narrowed hm depth).next fun _ => ?_
    exact .ite (fun _ => (unwind_inStep _).next fun _ => .pure rfl) fun _ => .pure rfl

theorem syncMembership_narrowed (hm : m.Showable p) (hi : i.Showable p) (depth : Int)
    (log : Option Channel) :
    InStep p.Asks Eq ((ofMemory p m dynamic).syncMembership i x depth log)
      ((ofMemory p (m.narrowed p) dynamic).syncMembership (i.narrowed p) x depth log) := by
  unfold syncMembership
  exact .ite (fun _ => syncNames_narrowed hm hi depth log)
    fun _ => materialize_narrowed hm depth.toNat hi

theorem syncUser_narrowed (hm : m.Showable p) (hi : i.Showable p) (log : Option Channel) :
    InStep p.Asks Eq ((ofMemory p m dynamic).syncUser i x log)
      ((ofMemory p (m.narrowed p) dynamic).syncUser (i.narrowed p) x log) := by
  unfold syncUser
  refine (syncProperties_inStep _).next fun _ => (syncMembership_narrowed hm hi _ log).next
    fun _ => (applyMembership_inStep _ log).next fun _ => stamp_inStep

theorem syncRecord_narrowed (hm : m.Showable p) (hi : i.Showable p) (isGroup : Bool)
    (log : Option Channel) :
    InStep p.Asks Eq ((ofMemory p m dynamic).syncRecord i x isGroup log)
      ((ofMemory p (m.narrowed p) dynamic).syncRecord (i.narrowed p) x isGroup log) := by
  unfold syncRecord
  exact .ite (fun _ => syncGroup_inStep log) fun _ => syncUser_narrowed hm hi log

theorem updateIdentity_narrowed (hm : m.Showable p) (hi : i.Showable p) (log : Option Channel) :
    InStep p.Asks Eq ((ofMemory p m dynamic).updateIdentity i x log)
      ((ofMemory p (m.narrowed p) dynamic).updateIdentity (i.narrowed p) x log) := by
  unfold updateIdentity
  refine (InStep.record x).next fun r => requireKnown_inStep.next fun _ => .stopIf ?_
  refine .ite (fun _ => Abreast.log.next fun _ => .pure rfl) fun _ => ?_
  refine (isExpired_inStep _).next fun expired => .ite (fun _ => ?_) fun _ => ?_
  · exact (syncRecord_narrowed hm hi _ _).next fun _ => resultOf_inStep _
  · exact Abreast.log.next fun _ => resultOf_inStep _

theorem addIdentity_narrowed (hm : m.Showable p) (hi : i.Showable p) :
    InStep p.Asks Eq ((ofMemory p m dynamic).addIdentity i log)
      ((ofMemory p (m.narrowed p) dynamic).addIdentity (i.narrowed p) log) := by
  unfold addIdentity
  refine (InStep.create _).next fun x => (syncRecord_narrowed hm hi _ _).next fun _ => ?_
  exact Abreast.log.next fun _ => resultOf_inStep _

theorem syncStandard_narrowed (hm : m.Showable p) (hi : i.Showable p) :
    InStep p.Asks Eq ((ofMemory p m dynamic).syncStandard i)
      ((ofMemory p (m.narrowed p) dynamic).syncStandard (i.narrowed p)) := by
  unfold syncStandard
  refine .stopIf (.ite (fun _ => .pure rfl) fun _ => ?_)
  refine (channelFor_inStep _ _).next fun log => guarded_inStep _ ?_
  refine (InStep.lookUp i.id).next fun found => ?_
  split
  · exact addIdentity_narrowed hm hi
  · exact updateIdentity_narrowed hm hi _

theorem syncExternalGroup_narrowed (hm : m.Showable p) (hi : i.Showable p)
    (log : Option Channel) :
    InStep p.Asks Eq ((ofMemory p m dynamic).syncExternalGroup i log)
      ((ofMemory p (m.narrowed p) dynamic).syncExternalGroup (i.narrowed p) log) := by
  unfold syncExternalGroup
  refine (InStep.lookUp i.id).next fun found => ?_
  split
  · exact updateIdentity_narrowed hm hi _
  · refine (Abreast.shown i.ref).next fun words => .ite (fun _ => ?_)
      fun _ => Abreast.log.next fun _ => .pure rfl
    refine Abreast.log.next fun _ => requireKnown_inStep.next fun _ => ?_
    refine (InStep.create _).next fun x => Abreast.audit.next fun _ => ?_
    exact (syncGroup_inStep _).next fun _ => resultOf_inStep _

theorem sync_narrowed (hm : m.Showable p) (hi : i.Showable p) :
    InStep p.Asks Eq ((ofMemory p m dynamic).sync i)
      ((ofMemory p (m.narrowed p) dynamic).sync (i.narrowed p)) := by
  have hclass : (ofMemory p (m.narrowed p) dynamic).classify (i.narrowed p)
      = (ofMemory p m dynamic).classify i := rfl
  unfold sync
  refine .ite (fun _ => ?_) fun _ => syncStandard_narrowed hm hi
  unfold syncDynamic
  rw [hclass]
  split
  · exact .throw _
  · exact syncStandard_narrowed hm hi
  · exact .pure rfl
  · exact (channelFor_inStep _ _).next fun log =>
      guarded_inStep _ (syncExternalGroup_narrowed hm hi _)

theorem refresh_narrowed (hm : m.Showable p) {q : Ref} (hq : p.owns q = true) (id : Value)
    (r : Record) :
    InStep p.Asks Eq ((ofMemory p m dynamic).refresh id x r q log)
      ((ofMemory p (m.narrowed p) dynamic).refresh id x r q log) := by
  unfold refresh
  refine (resolve_narrowed hm hq).bind fun a b h => ?_
  obtain ⟨rfl, hi⟩ := h
  cases a with
  | none =>
    refine (InStep.remove id).next fun _ => (Abreast.shown _).next fun words => ?_
    exact Abreast.log.next fun _ => .pure rfl
  | some i =>
    have hgo : InStep p.Asks Eq
        ((ofMemory p m dynamic).syncRecord i x r.isGroup (some log) >>= fun _ => resultOf x .update)
        ((ofMemory p (m.narrowed p) dynamic).syncRecord (i.narrowed p) x r.isGroup (some log)
          >>= fun _ => resultOf x .update) :=
      (syncRecord_narrowed hm (hi i rfl) _ _).next fun _ => resultOf_inStep _
    exact .ite (fun _ => (Abreast.shown _).next fun _ => (Abreast.throw _).next fun _ => hgo)
      fun _ => hgo

theorem syncId_narrowed (hm : m.Showable p) (id : Value) :
    InStep p.Asks Eq ((ofMemory p m dynamic).syncId id)
      ((ofMemory p (m.narrowed p) dynamic).syncId id) := by
  unfold syncId
  refine (InStep.lookUp id).next fun found => ?_
  split
  · exact Abreast.log.next fun _ => .pure rfl
  · next x r =>
    split
    · exact .pure rfl
    · next q hq =>
      refine .ite (fun _ => .pure rfl) fun ho => ?_
      refine (channelFor_inStep _ _).next fun log => guarded_inStep _ ?_
      exact refresh_narrowed hm (by simpa using ho) id r

/-- The runs answer or fail in the same way, leave the same store and the same world but for log
lines, and in both the provider is asked about the same references, all of which are its own. -/
structure SameRun {α : Type} (p : Policy) (w : World) (a b : Except Failure α × World) : Prop where
  outcome : a.1 = b.1
  store : a.2.store = b.2.store
  world : a.2.UpToNotes b.2
  calls : ∃ calls, (∀ k ∈ calls, p.Asks k) ∧ a.2.calls = w.calls ++ calls ∧
    b.2.calls = w.calls ++ calls

theorem sameRun_of_inStep {α : Type} {y z : Sync α} (h : InStep p.Asks Eq y z) (w : World) :
    SameRun p w (y w) (z w) := by
  obtain ⟨calls, hcalls, hy, hz, hworld, ho⟩ := h w w (.refl w)
  exact ⟨ho.eq, hworld.store.symm, hworld, calls, hcalls, hy, hz⟩

/-- References into other providers are invisible, wherever they stand: without them a
synchronisation of an identity or of a record by its id is the same. They have to have words,
because a walk that looks past one may say so in the log. -/
theorem foreign_unseen (hm : m.Showable p) (hi : i.Showable p) (id : Value) (w : World) :
    SameRun p w ((ofMemory p m dynamic).sync i w)
      ((ofMemory p (m.narrowed p) dynamic).sync (i.narrowed p) w) ∧
    SameRun p w ((ofMemory p m dynamic).syncId id w)
      ((ofMemory p (m.narrowed p) dynamic).syncId id w) :=
  ⟨sameRun_of_inStep (sync_narrowed hm hi) w, sameRun_of_inStep (syncId_narrowed hm id) w⟩

/-- A group whose parent is a group of another provider. -/
def alliance : Memory where
  name := .text "corp"
  identities := [(.text "team",
    { id := .text "team", principalName := .text "Team", ref := some ⟨.text "team", .text "corp"⟩,
      kind := .group, groups := [some ⟨.text "guild", .text "other"⟩] })]

/-- A user of this group and of two groups that are not of its provider. -/
def envoy : Identity where
  id := .text "ada"
  principalName := .text "Ada"
  ref := some ⟨.text "ada", .text "corp"⟩
  kind := .user
  groups := [some ⟨.text "guild", .text "other"⟩, some ⟨.text "team", .text "corp"⟩,
    some ⟨.text "choir", .null⟩]

theorem foreign_unseen_envoy :
    envoy.groups.length = 3 ∧ (envoy.narrowed ⟨.text "corp", {}, {}⟩).groups.length = 1 ∧
    alliance.Showable ⟨.text "corp", {}, {}⟩ ∧ envoy.Showable ⟨.text "corp", {}, {}⟩ ∧
    SameRun ⟨.text "corp", {}, {}⟩ {}
      ((ofMemory ⟨.text "corp", {}, {}⟩ alliance true).sync envoy {})
      ((ofMemory ⟨.text "corp", {}, {}⟩ (alliance.narrowed ⟨.text "corp", {}, {}⟩) true).sync
        (envoy.narrowed ⟨.text "corp", {}, {}⟩) {}) := by
  have hm : alliance.Showable ⟨.text "corp", {}, {}⟩ := by
    intro k i hi r hr _
    obtain ⟨-, rfl⟩ : k = .text "team" ∧ i = _ := by simpa [alliance] using hi
    obtain rfl : r = ⟨.text "guild", .text "other"⟩ := by simpa using hr
    exact ⟨"guild;other", rfl⟩
  have hi : envoy.Showable ⟨.text "corp", {}, {}⟩ := by
    intro r hr _
    simp only [envoy, List.mem_cons, Option.some.injEq, List.not_mem_nil, or_false] at hr
    obtain rfl | rfl | rfl := hr
    · exact ⟨"guild;other", rfl⟩
    · exact ⟨"team;corp", rfl⟩
    · exact ⟨"choir", rfl⟩
  exact ⟨rfl, rfl, hm, hi, (foreign_unseen hm hi (.text "ada") {}).1⟩

end Context

end Roster
