import Roster.Proofs.Lookups
import Roster.Proofs.Membership

/-!
# Attributes taken over

From typed data, the attributes of a record are what identity and policy say, and taking them over
never fails: `syncProperties_ends` gives the record that stands there afterwards, `stamp_ends` the
one after the time is set. A mapping names every property once; then taking over the attributes of
an identity twice comes to the same as once (`takenOver_takenOver`).
-/

namespace Roster

theorem copyProperties_snd {names : Fields} (h : Fields.MapNames names) (external own : Fields) :
    (copyProperties external own names).2 = none := by
  induction names generalizing own with
  | nil => rfl
  | cons p names ih =>
    obtain ⟨localName, name⟩ := p
    obtain ⟨t, ht⟩ := h _ List.mem_cons_self
    obtain rfl : name = .text t := ht
    exact ih (fun q hq => h q (List.mem_cons_of_mem _ hq)) _

/-! ## Copying twice -/

namespace Assoc

variable {κ α : Type} [BEq κ]

theorem set_eq_self {m : Assoc κ α} {k : κ} {v : α} [EquivBEq κ] (h : List.lookup k m = some v) :
    set k v m = m := by
  induction m with
  | nil => cases h
  | cons p m ih =>
    obtain ⟨k', v'⟩ := p
    rw [lookup_cons] at h
    rw [set]
    by_cases hk : (k' == k) = true
    · rw [if_pos (BEq.symm hk)] at h
      rw [if_pos hk, Option.some.inj h]
    · rw [if_neg fun he => hk (BEq.symm he)] at h
      rw [if_neg hk, ih h]

theorem erase_eq_self {m : Assoc κ α} {k : κ} [EquivBEq κ] (h : List.lookup k m = none) :
    erase k m = m := by
  refine List.filter_eq_self.2 fun p hp => ?_
  have := List.lookup_eq_none_iff.1 h p hp
  rwa [bne, BEq.comm] at this

end Assoc

/-- Every key is there once. -/
def Fields.Distinct (fs : Fields) : Prop := fs.Pairwise fun p q => (p.1 == q.1) = false

theorem lookup_copyProperty_of_ne {j localName : Scalar} (h : (j == localName) = false)
    (external own : Fields) (name : Scalar) :
    (copyProperty external own localName name).lookup j = own.lookup j := by
  unfold copyProperty
  split
  · rw [Assoc.lookup_erase, h, if_neg Bool.false_ne_true]
  · rw [Assoc.lookup_set, h, if_neg Bool.false_ne_true]

theorem lookup_copyProperties_of_ne {names : Fields} {j : Scalar}
    (h : ∀ p ∈ names, (p.1 == j) = false) (external own : Fields) :
    (copyProperties external own names).1.lookup j = own.lookup j := by
  induction names generalizing own with
  | nil => rfl
  | cons p names ih =>
    obtain ⟨localName, name⟩ := p
    have hj : (j == localName) = false := by
      rw [BEq.comm]
      exact h _ List.mem_cons_self
    cases name with
    | scalar name =>
      exact (ih (fun q hq => h q (List.mem_cons_of_mem _ hq)) _).trans
        (lookup_copyProperty_of_ne hj external own name)
    | list _ => rfl
    | mapping _ => rfl

/-- The property under a local name is the external one that the mapping names, unless that is
null. -/
theorem lookup_copyProperties {names : Fields} (hd : names.Distinct) (hn : names.MapNames)
    {localName name : Scalar} (h : (localName, .scalar name) ∈ names) (external own : Fields) :
    (copyProperties external own names).1.lookup localName
      = (external.lookup name).filter fun v => !(v matches .null) := by
  induction names generalizing own with
  | nil => cases h
  | cons p names ih =>
    obtain ⟨hp, hrest⟩ := List.pairwise_cons.1 hd
    obtain ⟨t, ht⟩ := hn p List.mem_cons_self
    obtain ⟨localName', _⟩ := p
    obtain rfl := ht
    rcases List.mem_cons.1 h with he | h
    · obtain ⟨rfl, hname⟩ := Prod.mk.inj he
      obtain rfl : name = .text t := Value.scalar.inj hname
      have hothers : ∀ q ∈ names, (q.1 == localName) = false := by
        intro q hq
        rw [BEq.comm]
        exact hp q hq
      rw [copyProperties, lookup_copyProperties_of_ne hothers]
      exact lookup_copyProperty external own localName (.text t)
    · exact ih hrest (fun q hq => hn q (List.mem_cons_of_mem _ hq)) h _

theorem copyProperty_eq_self {external own : Fields} {localName name : Scalar}
    (h : own.lookup localName = (external.lookup name).filter fun v => !(v matches .null)) :
    copyProperty external own localName name = own := by
  unfold copyProperty
  cases he : external.lookup name with
  | none =>
    rw [he] at h
    exact Assoc.erase_eq_self h
  | some v =>
    have hcases : v = .null ∧ own.lookup localName = none ∨
        v ≠ .null ∧ own.lookup localName = some v := by
      rw [he, Option.filter_some] at h
      split at h
      · exact .inl ⟨rfl, by simpa using h⟩
      · next hv => exact .inr ⟨hv, by simpa using h⟩
    rw [Option.getD_some]
    rcases hcases with ⟨rfl, hnone⟩ | ⟨hv, hsome⟩
    · exact Assoc.erase_eq_self hnone
    · split
      · contradiction
      · exact Assoc.set_eq_self hsome

theorem copyProperties_eq_self {external own names : Fields} (hn : names.MapNames)
    (h : ∀ localName name, (localName, .scalar name) ∈ names →
      own.lookup localName = (external.lookup name).filter fun v => !(v matches .null)) :
    (copyProperties external own names).1 = own := by
  induction names with
  | nil => rfl
  | cons p names ih =>
    obtain ⟨t, ht⟩ := hn p List.mem_cons_self
    obtain ⟨localName, _⟩ := p
    obtain rfl := ht
    show (copyProperties external (copyProperty external own localName (.text t)) names).1 = own
    rw [copyProperty_eq_self (h _ _ List.mem_cons_self)]
    exact ih (fun q hq => hn q (List.mem_cons_of_mem _ hq))
      fun l n hl => h l n (List.mem_cons_of_mem _ hl)

/-! ## Attributes -/

/-- The properties of a record after taking over those of an identity by a mapping. -/
def takenOver (mapping : Fields) : Value → Value → Value
  | .mapping external, .mapping own =>
    .mapping (if mapping.isEmpty then external else (copyProperties external own mapping).1)
  | _, own => own

/-- A record with the name and the properties of an identity. -/
def Record.takingOver (r : Record) (mapping : Fields) (i : Identity) : Record :=
  { r with
    principalName := i.principalName, properties := takenOver mapping i.properties r.properties }

theorem takenOver_takenOver {mapping : Fields} (hd : mapping.Distinct) (hm : mapping.MapNames)
    (external own : Value) :
    takenOver mapping external (takenOver mapping external own)
      = takenOver mapping external own := by
  cases external with
  | mapping external =>
    cases own with
    | mapping own =>
      simp only [takenOver]
      split
      · rfl
      · rw [copyProperties_eq_self hm fun _ _ hl => lookup_copyProperties hd hm hl _ _]
    | scalar _ => rfl
    | list _ => rfl
  | scalar _ => rfl
  | list _ => rfl

theorem Record.Typed.takingOver {r : Record} {i : Identity} (hr : r.Typed) (hi : i.Typed)
    (mapping : Fields) : (r.takingOver mapping i).Typed := by
  obtain ⟨external, he⟩ := hi.properties
  obtain ⟨own, ho⟩ := hr.properties
  exact { hr with
    principalName := hi.principalName
    properties := ⟨_, by
      show takenOver mapping i.properties r.properties = _
      rw [he, ho, takenOver]⟩ }

/-- No failure of the store is planned. -/
def Scene.StoreWorks (c : Scene) : Prop := ∀ op id, ¬ c.MayRefuse op id

theorem Scene.StoreWorks.of_faults {c : Scene} (hstore : c.faults.store = [])
    (hturns : c.faults.turns = fun _ => false) : c.StoreWorks := by
  intro op id
  simp [MayRefuse, plans, Strikes, hstore, hturns]

theorem Scene.StoreWorks.of_quiet {c : Scene} (h : c.faults = {}) : c.StoreWorks :=
  .of_faults (h ▸ rfl) (h ▸ rfl)

theorem Scene.StoreWorks.not_refuses {c : Scene} (hc : c.StoreWorks) {s : Store} {f : Failure} :
    ¬ c.Refuses s f := by
  rintro ⟨op, q, -, -, -, hp⟩
  exact hc op q.id hp

theorem Scene.StoreWorks.foresees {c : Scene} (hc : c.StoreWorks) {E : Failure → Store → Prop} :
    c.Foresees E :=
  fun op id _ _ hp => absurd hp (hc op id)

theorem Sync.Ends.allowed {c : Scene} {E : Failure → Store → Prop} (hc : c.Foresees E) {s : Store}
    {op : StoreOperation} (hop : op ≠ .removeRecord) {id : Value} {Q : Unit → Store → Prop}
    (h : Q () s) : Sync.Ends c s (Sync.allow op id) Q E :=
  Sync.Ends.allow (fun _ => h) fun hp => hc op id s hop hp

namespace Context

variable {c : Scene} {s : Store} {k : Key} {r : Record} {i : Identity} {E : Failure → Store → Prop}

theorem requireKnown_ends (hi : i.isKnown = true) {Q : Unit → Store → Prop} (h : Q () s) :
    Sync.Ends c s (requireKnown i) Q E := by
  unfold requireKnown
  rw [if_neg (by simp [hi])]
  exact Sync.Ends.pure h

/-- A change of a record that is known. -/
theorem update_ends (h : s.WellFormed) (hk : s.find? k = some r) (f : Record → Record) :
    Sync.Ends c s (Sync.update (.stored k) f) (fun _ s' => s' = s.put k (f r)) E :=
  Sync.Ends.update (Store.modify_eq_put h hk f)

theorem syncProperties_ends (h : s.WellFormed) (hk : s.find? k = some r) (hr : r.Typed)
    (hi : i.Typed) {mapping : Fields} (hm : Fields.MapNames mapping) :
    Sync.Ends c s (syncProperties i (.stored k) (.mapping mapping))
      (fun _ s' => s' = s.put k (r.takingOver mapping i)) E := by
  obtain ⟨external, he⟩ := hi.properties
  obtain ⟨own, ho⟩ := hr.properties
  have hk' : (s.put k { r with principalName := i.principalName }).find? k
      = some { r with principalName := i.principalName } := by
    rw [Store.find?_put hk, if_pos rfl]
  have hwf := h.put hk { r with principalName := i.principalName } ⟨rfl, rfl⟩
  have hset {w : World} {fs : Fields}
      (hs : w.store = s.put k { r with principalName := i.principalName })
      (hfs : fs = if mapping.isEmpty then external else (copyProperties external own mapping).1) :
      (w.update (fun r => { r with properties := .mapping fs }) (.stored k)).store
        = s.put k (r.takingOver mapping i) := by
    rw [World.store_update_stored, hs, Store.modify_eq_put hwf hk', Store.put_put, hfs]
    simp only [Record.takingOver, he, ho, takenOver]
  unfold syncProperties
  refine Sync.Ends.step (requireKnown_ends hi.known ?_)
  refine Sync.Ends.bind (update_ends h hk _) ?_
  rintro _ _ rfl
  have htruthy : (Value.mapping mapping).truthy = !mapping.isEmpty := rfl
  cases hempty : mapping.isEmpty with
  | true =>
    rw [hempty] at htruthy
    simp only [htruthy, Bool.not_true, Bool.not_false, if_true, he]
    refine Sync.Ends.step (Sync.Ends.result_ok (Value.toMapping_mapping external) ?_)
    exact Sync.Ends.modify (fun _ => rfl) (fun w hs => hset hs (by simp [hempty])) rfl
  | false =>
    rw [hempty] at htruthy
    simp only [htruthy, Bool.not_true, Bool.not_false, Bool.false_eq_true, if_false, he]
    refine Sync.Ends.bind (Sync.Ends.record (Q := fun a s' =>
      a = { r with principalName := i.principalName } ∧
        s' = s.put k { r with principalName := i.principalName }) hk' ⟨rfl, rfl⟩) ?_
    rintro q _ ⟨hq, rfl⟩
    have hown : q.properties = .mapping own := by rw [hq, ← ho]
    simp only [hown, copyProperties_snd hm]
    refine Sync.Ends.step (Sync.Ends.modify (fun _ => rfl)
      (fun w hs => hset hs (by simp [hempty])) ?_)
    exact Sync.Ends.pure rfl

theorem stamp_ends (h : s.WellFormed) (hk : s.find? k = some r) :
    Sync.Ends c s (stamp (.stored k))
      (fun _ s' => s' = s.put k { r with lastSynced := c.clock }) E := by
  unfold stamp
  refine Sync.Ends.get (fun _ w w' hc _ hc' _ => ?_) fun w hc _ => ?_
  · have hclock : w.clock = w'.clock := congrArg Scene.clock (hc.trans hc'.symm)
    simp only [hclock]
  subst hc
  exact update_ends h hk _

/-- The record of a group after its attributes were synchronised. -/
def refreshed (ctx : Context) (c : Scene) (i : Identity) (r : Record) : Record :=
  { r.takingOver ctx.policy.group.propertyMapping i with lastSynced := c.clock }

theorem refreshed_refreshed {ctx : Context}
    (hd : Fields.Distinct ctx.policy.group.propertyMapping)
    (hm : Fields.MapNames ctx.policy.group.propertyMapping) (i : Identity) (r : Record) :
    ctx.refreshed c i (ctx.refreshed c i r) = ctx.refreshed c i r := by
  simp only [refreshed, Record.takingOver, takenOver_takenOver hd hm]

/-! ## New records and memberships -/

theorem inOrder_eq {names : NameSet} (h : names.Texts) :
    inOrder names = .ok (names.members.map .scalar) := by
  have hall : names.members.all (·.text?.isSome) = true := by
    rw [List.all_eq_true]
    intro x hx
    obtain ⟨t, rfl⟩ := h x hx
    rfl
  simp only [inOrder, Store.orderedNames, NameSet.inOrder?, hall, Bool.or_true, Bool.true_or,
    if_true]
  rfl

theorem create_ends (hc : c.Foresees E) (h : s.WellFormed) (hid : r.id.IsText)
    (hk : r.id.toKey = .ok k) (hnew : s.find? k = none) :
    Sync.Ends c s (Sync.create r) (fun x s' => x = .stored k ∧ s.create r = .ok s') E := by
  obtain ⟨t, ht⟩ := hid
  obtain ⟨s', hs', -⟩ := h.create_ok hk hnew
  unfold Sync.create
  rw [ht]
  refine Sync.Ends.step (Sync.Ends.allowed hc (by split <;> nofun) ?_)
  refine Sync.Ends.step (Sync.Ends.onStore_ok (a := ()) (by rw [hs']; rfl) ?_)
  refine Sync.Ends.step (Sync.Ends.log ?_)
  refine Sync.Ends.step (Sync.Ends.result_ok (a := k) (by rw [← hk, ht]) ?_)
  exact Sync.Ends.pure ⟨rfl, hs'⟩

/-- A record is removed unless a planned failure strikes. -/
theorem remove_ends {id : Value} (hid : id.IsText) (hk : id.toKey = .ok k)
    (hr : s.find? k = some r) :
    Sync.Ends c s (Sync.remove id)
      (fun _ s' => s' = s.drop (· == k) ∧ c.plans .removeRecord id = false)
      (fun f s' => s' = s ∧ f = .refused .removeRecord id ∧ c.MayRefuse .removeRecord id) := by
  obtain ⟨t, rfl⟩ := hid
  have hremove : s.remove (.text t) = .ok (s.drop (· == k)) := Store.remove_ok hk hr
  unfold Sync.remove
  refine Sync.Ends.step (Sync.Ends.allowById (fun hp => ?_) fun hp => ⟨rfl, rfl, hp⟩)
  refine Sync.Ends.step (Sync.Ends.onStore_ok (a := ()) (by rw [hremove]; rfl) ?_)
  exact Sync.Ends.log ⟨rfl, hp⟩

theorem addMember_ends (hc : c.Foresees E) (h : s.WellFormed) {j : Key} {q : Record} {id : Value}
    (hk : s.find? k = some r) (hg : r.isGroup = true) (hid : id.toKey = .ok j)
    (hj : s.find? j = some q) :
    Sync.Ends c s (Sync.addMember r id) (fun _ s' => s'.WellFormed ∧ s'.records = s.records ∧
      ∀ x g, s'.Member x g ↔ s.Member x g ∨ x = j ∧ g = k) E := by
  obtain ⟨b, s', hs', hprop⟩ := h.addMember_ok hk hg hid hj
  unfold Sync.addMember
  refine Sync.Ends.step (Sync.Ends.allowed hc (by decide) ?_)
  exact Sync.Ends.onStore_ok hs' hprop

theorem setNames_ends (hc : c.Foresees E) (h : s.WellFormed) (hk : s.find? k = some r)
    (hl : r.isLegacy = false) (names : NameSet) :
    Sync.Ends c s (Sync.setNames (.stored k) (.ok names))
      (fun _ s' => s' = s.put k { r with names := some (.set names) }) E := by
  unfold Sync.setNames
  refine Sync.Ends.step (Sync.Ends.record hk ?_)
  refine Sync.Ends.step (Sync.Ends.allowed hc (by decide) ?_)
  rw [hl]
  refine Sync.Ends.step (Sync.Ends.result_ok rfl ?_)
  exact update_ends h hk _

end Context

end Roster
