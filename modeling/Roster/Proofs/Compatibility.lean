import Roster.Proofs.Parallel

/-!
# Users of the legacy mode in a dynamic context

A dynamic context that does not enforce names leaves users of the legacy mode to member lists. It
then does what a standard context does, except that the groups it creates on the way are of the
dynamic mode, and that it would not add them to groups automatically. So if groups are not joined by
groups automatically, the two contexts can be run side by side: the one store is the other one with
the new groups recast.

* `Store.recast`: what the modes of the new records come to.
* `World.Twins`: the worlds of the two runs, begun in the same one.
* `Context.syncMembership_legacy`: the two contexts compared.
-/

namespace Roster

/-- The records are equal but for the mode. -/
def Record.UpToMode (r r' : Record) : Prop := r' = { r with mode := r'.mode }

namespace Record.UpToMode

variable {r r' : Record}

theorem refl (r : Record) : r.UpToMode r := rfl

theorem id (h : r.UpToMode r') : r'.id = r.id := by rw [h]

theorem ref (h : r.UpToMode r') : r'.ref = r.ref := by rw [h]

theorem isGroup (h : r.UpToMode r') : r'.isGroup = r.isGroup := by rw [h]; rfl

theorem properties (h : r.UpToMode r') : r'.properties = r.properties := by rw [h]

end Record.UpToMode

namespace Assoc

variable {κ α β : Type} [BEq κ] [LawfulBEq κ] (f : κ → α → β)

theorem lookup_map_pair (k : κ) (m : Assoc κ α) :
    List.lookup k (m.map fun p => (p.1, f p.1 p.2)) = (m.lookup k).map (f k) := by
  induction m with
  | nil => rfl
  | cons p m ih =>
    obtain ⟨j, v⟩ := p
    rw [List.map_cons, lookup_cons, lookup_cons, ih]
    split
    · next h => rw [eq_of_beq h]; rfl
    · rfl

theorem map_set (k : κ) (v : α) (m : Assoc κ α) :
    (set k v m).map (fun p => (p.1, f p.1 p.2))
      = set k (f k v) (m.map fun p => (p.1, f p.1 p.2)) := by
  induction m with
  | nil => rfl
  | cons p m ih =>
    obtain ⟨j, w⟩ := p
    rw [set, List.map_cons, set]
    split
    · next h => rw [eq_of_beq h]; rfl
    · rw [List.map_cons, ih]

end Assoc

/-! ## Recast records -/

namespace Store

variable {s₀ s t : Store} {k : Key} {r g g' : Record}

/-- A record in the dynamic mode, unless the other store has one under its key. -/
def recastRecord (s₀ : Store) (k : Key) (r : Record) : Record :=
  if s₀.has k then r else { r with mode := some .dynamic }

/-- The store with the records that the other one does not have in the dynamic mode. -/
def recast (s₀ s : Store) : Store :=
  { s with records := s.records.map fun p => (p.1, s₀.recastRecord p.1 p.2) }

theorem upToMode_recastRecord (s₀ : Store) (k : Key) (r : Record) :
    r.UpToMode (s₀.recastRecord k r) := by
  unfold recastRecord
  split <;> rfl

theorem find?_recast (s₀ s : Store) (k : Key) :
    (s₀.recast s).find? k = (s.find? k).map (s₀.recastRecord k) :=
  Assoc.lookup_map_pair s₀.recastRecord k s.records

theorem has_recast (s₀ s : Store) (k : Key) : (s₀.recast s).has k = s.has k := by
  rw [has, has, find?_recast, Option.isSome_map]

/-- A store has no record that it does not have. -/
theorem recast_self (s : Store) : s.recast s = s := by
  have hrecords : s.records.map (fun p => (p.1, s.recastRecord p.1 p.2)) = s.records := by
    refine (List.map_congr_left fun p hp => ?_).trans (List.map_id _)
    have hhas : s.has p.1 = true := by
      rw [has, Option.isSome_iff_ne_none, find?]
      intro hnone
      have := List.lookup_eq_none_iff.1 hnone p hp
      simp at this
    rw [recastRecord, if_pos hhas]
    rfl
  rw [recast, hrecords]

/-- The new records of a store are groups of the legacy mode, and the others are as they were. -/
structure NewGroups (s₀ s : Store) : Prop where
  kept : ∀ k r, s₀.find? k = some r → s.find? k = some r
  made : ∀ k r, s₀.find? k = none → s.find? k = some r →
    r.isGroup = true ∧ r.mode = some .legacy

theorem NewGroups.refl (s : Store) : NewGroups s s :=
  ⟨fun _ _ h => h, fun _ _ hnone h => by rw [hnone] at h; cases h⟩

theorem NewGroups.of_records (h : NewGroups s₀ s) (ht : t.records = s.records) :
    NewGroups s₀ t := by
  have hfind (k : Key) : t.find? k = s.find? k := by rw [find?, find?, ht]
  exact ⟨fun k r hr => by rw [hfind]; exact h.kept k r hr,
    fun k r hnone hr => h.made k r hnone (by rwa [hfind] at hr)⟩

theorem NewGroups.of_create (h : NewGroups s₀ s) (hnew : s₀.find? k = none)
    (hk : r.id.toKey = .ok k) (hgroup : r.isGroup = true) (hmode : r.mode = some .legacy)
    (ht : s.create r = .ok t) : NewGroups s₀ t := by
  refine ⟨fun j q hq => ?_, fun j q hnone hq => ?_⟩
  · have hne : j ≠ k := by
      rintro rfl
      rw [hnew] at hq
      cases hq
    rw [find?_create hk ht, if_neg hne]
    exact h.kept j q hq
  · rw [find?_create hk ht] at hq
    split at hq
    · obtain rfl := Option.some.inj hq
      exact ⟨hgroup, hmode⟩
    · exact h.made j q hnone hq

theorem create_recast (hnew : s₀.find? k = none) (hk : r.id.toKey = .ok k) (s : Store) :
    (s₀.recast s).create { r with mode := some .dynamic } = (s.create r).map s₀.recast := by
  obtain ⟨id, hid, rfl⟩ := Value.toKey_eq_ok_iff.1 hk
  unfold create
  simp only [hid, bind, Except.bind, has_recast]
  split
  · rfl
  · have hcast : s₀.recastRecord id.key r = { r with mode := some .dynamic } := by
      rw [recastRecord, if_neg]
      simp [has, hnew]
    simp only [Except.map, pure, Except.pure, recast, Assoc.map_set, hcast]
    rfl

theorem modify_recast {f : Record → Record} (hnew : s₀.find? k = none)
    (hf : ∀ r, f { r with mode := some .dynamic } = { f r with mode := some .dynamic })
    (s : Store) : s₀.recast (s.modify k f) = (s₀.recast s).modify k f := by
  unfold recast modify
  simp only [List.map_map, Store.mk.injEq, and_true]
  refine List.map_congr_left fun p _ => ?_
  simp only [Function.comp_apply]
  by_cases hp : p.1 = k
  · have hhas : s₀.has p.1 = false := by simp [has, hp, hnew]
    simp only [hp, if_true, recastRecord]
    rw [← hp, hhas]
    simp [hf]
  · simp only [if_neg hp]

theorem groupMembers_recast (h : g.UpToMode g') (s : Store) :
    (s₀.recast s).groupMembers g' = s.groupMembers g := by
  unfold groupMembers
  rw [h.isGroup, h.id]
  rfl

theorem addMember_recast (h : g.UpToMode g') (s : Store) (id : Value) :
    (s₀.recast s).addMember g' id = (s.addMember g id).map fun p => (p.1, s₀.recast p.2) := by
  unfold addMember
  rw [groupMembers_recast h]
  simp only [bind, Except.bind, has_recast]
  cases s.groupMembers g with
  | error f => rfl
  | ok p =>
    cases id.toScalar with
    | error f => rfl
    | ok member =>
      dsimp only
      split
      · rfl
      · split <;> rfl

theorem removeMember_recast (h : g.UpToMode g') (s : Store) (id : Value) :
    (s₀.recast s).removeMember g' id
      = (s.removeMember g id).map fun p => (p.1, s₀.recast p.2) := by
  unfold removeMember
  rw [groupMembers_recast h]
  simp only [bind, Except.bind]
  cases s.groupMembers g with
  | error f => rfl
  | ok p =>
    cases id.toScalar with
    | error f => rfl
    | ok member =>
      dsimp only
      split <;> rfl

/-- The groups of a record are the same but for their modes. -/
theorem memberOf_recast (s₀ s : Store) (id : Value) :
    Sync.Corresponds (List.Forall₂ Record.UpToMode) (s.memberOf id)
      ((s₀.recast s).memberOf id) := by
  unfold memberOf
  show Sync.Corresponds _ (if s.members.isEmpty then _ else _) (if s.members.isEmpty then _ else _)
  split
  · exact .ok .nil
  · cases id.toScalar with
    | error f => exact .error f
    | ok member =>
      refine .ok ?_
      show List.Forall₂ _ (s.members.filterMap _) (s.members.filterMap _)
      refine List.rel_filterMap (R := Eq) ?_ (List.forall₂_refl s.members)
      rintro ⟨g, ms⟩ _ rfl
      dsimp only
      split
      · rw [find?_recast]
        cases s.find? g.key with
        | none => exact .none
        | some r => exact .some (upToMode_recastRecord s₀ g.key r)
      · exact .none

end Store

open Store (NewGroups)

/-! ## Worlds of the two runs -/

/-- The worlds of the two runs, both begun in the same one. -/
structure World.Twins (w₀ v w : World) : Prop where
  other : w = { v with store := w₀.store.recast v.store, notes := w.notes }
  groups : NewGroups w₀.store v.store
  detached : v.detached = w₀.detached

namespace World.Twins

variable {w₀ v w : World} {k : Key} {r : Record}

theorem refl (w₀ : World) : w₀.Twins w₀ w₀ where
  other := by rw [Store.recast_self]
  groups := .refl _
  detached := rfl

instance : Sync.Paired w₀.Twins where
  left h _ := ⟨by rw [h.other]; rfl, h.groups, h.detached⟩
  right h _ := ⟨by rw [h.other]; rfl, h.groups, h.detached⟩
  faults h := by rw [h.other]
  turn h := by rw [h.other]
  turned h _ := ⟨by rw [h.other], h.groups, h.detached⟩

theorem store (h : w₀.Twins v w) : w.store = w₀.store.recast v.store := by rw [h.other]

theorem with_store {s : Store} (h : w₀.Twins v w) (hs : NewGroups w₀.store s) :
    w₀.Twins { v with store := s } { w with store := w₀.store.recast s } :=
  ⟨by rw [h.other], hs, h.detached⟩

/-- A record is the same in both worlds but for its mode. -/
theorem record? (h : w₀.Twins v w) (x : Subject) :
    Option.Rel Record.UpToMode (v.record? x) (w.record? x) := by
  cases x with
  | stored k =>
    show Option.Rel _ (v.store.find? k) (w.store.find? k)
    rw [h.store, Store.find?_recast]
    cases v.store.find? k with
    | none => exact .none
    | some r => exact .some (Store.upToMode_recastRecord _ k r)
  | detached n =>
    have : w.detached = v.detached := by rw [h.other]
    show Option.Rel _ (v.detached.lookup n) (w.detached.lookup n)
    rw [this]
    cases v.detached.lookup n with
    | none => exact .none
    | some r => exact .some (.refl r)

/-- A record of the world that both began in is as it was, in both. -/
theorem record?_kept (h : w₀.Twins v w) {x : Subject} (hr : w₀.record? x = some r) :
    v.record? x = some r ∧ w.record? x = some r := by
  cases x with
  | stored k =>
    have hk : v.store.find? k = some r := h.groups.kept k r hr
    refine ⟨hk, ?_⟩
    have hhas : w₀.store.has k = true := Store.has_iff.2 ⟨r, hr⟩
    show w.store.find? k = some r
    rw [h.store, Store.find?_recast, hk, Option.map_some, Store.recastRecord, if_pos hhas]
  | detached n =>
    have hdetached : w.detached = v.detached := by rw [h.other]
    have hn : v.detached.lookup n = some r := by
      rw [h.detached]
      exact hr
    exact ⟨hn, by rw [← hn, ← hdetached]; rfl⟩

/-- A new group is changed in both, but not its mode and not that it is a group. -/
theorem update {f : Record → Record} (h : w₀.Twins v w) (hnew : w₀.store.find? k = none)
    (hf : ∀ r mode, f { r with mode } = { f r with mode }) (hg : ∀ r, (f r).group = r.group) :
    w₀.Twins (v.update f (.stored k)) (w.update f (.stored k)) := by
  have hs : NewGroups w₀.store (v.store.modify k f) := by
    refine ⟨fun j r hr => ?_, fun j r hnone hr => ?_⟩
    · have hne : j ≠ k := by
        rintro rfl
        rw [hnew] at hr
        cases hr
      rw [Store.find?_modify, if_neg hne]
      exact h.groups.kept j r hr
    · rw [Store.find?_modify] at hr
      split at hr
      · obtain ⟨r₀, hr₀, rfl⟩ := Option.map_eq_some_iff.1 hr
        obtain ⟨hgroup, hmode⟩ := h.groups.made j r₀ hnone hr₀
        have hsame := congrArg Record.mode (hf r₀ r₀.mode)
        exact ⟨by rw [Record.isGroup, hg]; exact hgroup, hsame.trans hmode⟩
      · exact h.groups.made j r hnone hr
  have := h.with_store hs
  rw [Store.modify_recast hnew fun r => hf r _, ← h.store] at this
  exact this

/-- What was shown is changed in both. -/
theorem with_shown (h : w₀.Twins v w) (f : List Showing → List Showing) :
    w₀.Twins { v with shown := f v.shown } { w with shown := f w.shown } :=
  ⟨by rw [h.other], h.groups, h.detached⟩

end World.Twins

/-! ## Steps of the two runs -/

namespace Sync

/-- The subject is a record that was created since. -/
def New (w₀ : World) (x : Subject) : Prop := ∃ k, x = .stored k ∧ w₀.store.find? k = none

/-- The two runs have the same subject, with records that are equal but for the mode. -/
def Alike (p q : Subject × Record) : Prop := p.1 = q.1 ∧ p.2.UpToMode q.2

variable {w₀ : World} {P : Call → Prop} {x : Subject} {r g g' : Record} {id : Value}

namespace Abreast

theorem record_twins (x : Subject) :
    Abreast w₀.Twins P Record.UpToMode (record x) (record x) := by
  unfold Sync.record
  refine get fun v w hvw => ?_
  have hr := hvw.record? x
  generalize v.record? x = o at hr
  generalize w.record? x = o' at hr
  cases hr with
  | none => exact throw _
  | some h => exact pure h

/-- The second run looks at a record that both began with. -/
theorem record_kept (hr : w₀.record? x = some r) :
    Abreast w₀.Twins P (fun _ r' => r' = r) (Pure.pure ()) (record x) := by
  unfold Sync.record
  show Abreast _ _ _ (MonadState.get >>= fun _ : World => (Pure.pure () : Sync Unit)) _
  refine get fun v w hvw => ?_
  rw [(hvw.record?_kept hr).2]
  exact pure rfl

/-- Where the runs find nothing there was nothing before. -/
theorem lookUp_twins (id : Value) :
    Abreast w₀.Twins P (fun found found' => Option.Rel Alike found found' ∧
      (found = none → ∀ k, id.toKey = .ok k → w₀.store.find? k = none))
      (lookUp id) (lookUp id) := by
  unfold Sync.lookUp
  cases hk : id.toKey with
  | error f => exact of_quiet fun v w hvw => ⟨rfl, rfl, hvw, .error f⟩
  | ok k =>
    rw [show Sync.result (.ok k) = Pure.pure k from rfl, pure_bind]
    refine get fun v w hvw => pure ?_
    have hr := hvw.record? (.stored k)
    change Option.Rel _ (v.store.find? k) (w.store.find? k) at hr
    have hkept := hvw.groups.kept k
    generalize v.store.find? k = o at hr hkept
    generalize w.store.find? k = o' at hr
    cases hr with
    | some h => exact ⟨.some ⟨rfl, h⟩, nofun⟩
    | none =>
      refine ⟨.none, fun _ j hj => ?_⟩
      obtain rfl := Except.ok.inj hj
      cases hnone : w₀.store.find? k with
      | none => rfl
      | some r => cases hkept r hnone

theorem update_twins {f : Record → Record} (hx : New w₀ x)
    (hf : ∀ r mode, f { r with mode } = { f r with mode }) (hg : ∀ r, (f r).group = r.group) :
    Abreast w₀.Twins P Eq (update x f) (update x f) := by
  obtain ⟨k, rfl, hnew⟩ := hx
  exact modify (fun v w hvw => hvw.update hnew hf hg) (fun _ => rfl) fun _ => rfl

theorem create_twins (hgroup : r.isGroup = true) (hmode : r.mode = some .legacy)
    (hnew : ∀ k, r.id.toKey = .ok k → w₀.store.find? k = none) :
    Abreast w₀.Twins P (fun x y => x = y ∧ New w₀ x) (create r)
      (create { r with mode := some .dynamic }) := by
  unfold Sync.create
  refine (Abreast.allowById _ _).next fun _ => ?_
  cases hk : r.id.toKey with
  | error f =>
    -- an id that is no scalar is refused by both stores
    have hrefused (s : Store) (mode : Option Mode) :
        s.create { r with mode } = .error .malformed := by
      unfold Store.create
      cases hid : r.id with
      | scalar _ => rw [hid] at hk; cases hk
      | list _ => rfl
      | mapping _ => rfl
    refine bind (R := fun _ _ => False) (onStore fun v w _ => ?_) fun _ _ => False.elim
    rw [hrefused v.store, hrefused w.store]
    exact .error .malformed
  | ok k =>
    refine next (onStore fun v w hvw => ?_) fun _ => log.next fun _ => ?_
    · rw [hvw.store, Store.create_recast (hnew k hk) hk]
      cases hs : v.store.create r with
      | error f => exact .error f
      | ok t =>
        exact .ok ⟨rfl, hvw.with_store (hvw.groups.of_create (hnew k hk) hk hgroup hmode hs)⟩
    · exact pure ⟨rfl, k, rfl, hnew k hk⟩

theorem addMember_twins (h : g.UpToMode g') :
    Abreast w₀.Twins P Eq (addMember g id) (addMember g' id) := by
  unfold Sync.addMember
  rw [h.id]
  refine (Abreast.allow _ _).next fun _ => onStore fun v w hvw => ?_
  rw [hvw.store, Store.addMember_recast h]
  cases hs : v.store.addMember g id with
  | error f => exact .error f
  | ok p => exact .ok ⟨rfl, hvw.with_store (hvw.groups.of_records (Store.records_addMember hs))⟩

theorem removeMember_twins (h : g.UpToMode g') :
    Abreast w₀.Twins P Eq (removeMember g id) (removeMember g' id) := by
  unfold Sync.removeMember
  rw [h.id]
  refine (Abreast.allow _ _).next fun _ => onStore fun v w hvw => ?_
  rw [hvw.store, Store.removeMember_recast h]
  cases hs : v.store.removeMember g id with
  | error f => exact .error f
  | ok p => exact .ok ⟨rfl, hvw.with_store (hvw.groups.of_records (Store.records_removeMember hs))⟩

end Abreast

end Sync

namespace Context

open Sync (Abreast Alike New)

variable {w₀ : World} {P : Call → Prop} {policy : Policy} {provider : Provider} {i : Identity}
  {x : Subject} {r r' : Record} {log log' : Channel}

theorem requireKnown_twins : Abreast w₀.Twins P Eq (requireKnown i) (requireKnown i) := by
  unfold requireKnown
  exact .ite (fun _ => .throw _) fun _ => .pure rfl

theorem replaceProperties_twins (hx : New w₀ x) (properties : Value) :
    Abreast w₀.Twins P Eq
      (modify fun w => w.replaceProperties x properties : Sync Unit)
      (modify fun w => w.replaceProperties x properties : Sync Unit) := by
  obtain ⟨k, rfl, hnew⟩ := hx
  refine .modify (fun v w hvw => ?_) (fun _ => rfl) fun _ => rfl
  have hupdate := hvw.update (f := fun r => { r with properties }) hnew (fun _ _ => rfl)
    fun _ => rfl
  exact hupdate.with_shown (List.map _)

theorem editProperties_twins (hx : New w₀ x) (properties : Fields) :
    Abreast w₀.Twins P Eq
      (modify fun w => w.editProperties x properties : Sync Unit)
      (modify fun w => w.editProperties x properties : Sync Unit) := by
  obtain ⟨k, rfl, hnew⟩ := hx
  refine .modify (fun v w hvw => ?_) (fun _ => rfl) fun _ => rfl
  have hupdate := hvw.update (f := fun r => { r with properties := .mapping properties }) hnew
    (fun _ _ => rfl) fun _ => rfl
  exact hupdate.with_shown (List.map _)

theorem syncProperties_twins (hx : New w₀ x) (mapping : Value) :
    Abreast w₀.Twins P Eq (syncProperties i x mapping) (syncProperties i x mapping) := by
  unfold syncProperties
  refine requireKnown_twins.next fun _ => Abreast.next (.update_twins hx ?_ ?_) fun _ => ?_
  · exact fun _ _ => rfl
  · exact fun _ => rfl
  refine .ite (fun _ => Abreast.result.next fun _ => replaceProperties_twins hx _) fun _ => ?_
  refine (Abreast.record_twins x).bind fun r r' h => ?_
  rw [h.properties]
  dsimp only
  split
  · refine (editProperties_twins hx _).next fun _ => ?_
    split
    · exact .throw _
    · exact .pure rfl
  · exact .throw _

/-- The groups to join automatically are none, so nothing is done about them. -/
theorem applyMembership_twins :
    Abreast w₀.Twins P Eq
      ((⟨policy, provider, false⟩ : Context).applyMembership x (.ok []) (some log))
      ((⟨policy, provider, true⟩ : Context).applyMembership x (.ok []) (some log')) := by
  unfold applyMembership
  refine (Abreast.record_twins x).bind fun r r' h => ?_
  exact .pure_log

theorem stamp_twins (hx : New w₀ x) : Abreast w₀.Twins P Eq (stamp x) (stamp x) := by
  unfold stamp
  refine .get fun v w hvw => ?_
  have hclock : w.clock = v.clock := by rw [hvw.other]
  rw [hclock]
  exact .update_twins hx (fun _ _ => rfl) fun _ => rfl

theorem syncGroup_twins (hx : New w₀ x) (hauto : policy.group.autoMembership = ∅) :
    Abreast w₀.Twins P Eq
      ((⟨policy, provider, false⟩ : Context).syncGroup i x (some log))
      ((⟨policy, provider, true⟩ : Context).syncGroup i x (some log')) := by
  unfold syncGroup
  dsimp only
  rw [hauto]
  exact (syncProperties_twins hx _).next fun _ => applyMembership_twins.next fun _ =>
    stamp_twins hx

theorem fetch_twins (hP : ∀ c, P c) (q : Ref) :
    Abreast w₀.Twins P Eq (provider.fetch q) (provider.fetch q) := by
  unfold Provider.fetch
  refine (Abreast.shown _).next fun _ => (Abreast.call (hP _)).next fun _ => ?_
  refine Abreast.takeTurn.next fun struck => ?_
  refine Abreast.next (.modify (fun v w hvw => ?_) (fun _ => rfl) fun _ => rfl) fun _ => ?_
  · exact ⟨by rw [hvw.other], hvw.groups, hvw.detached⟩
  · refine .get fun v w hvw => ?_
    have hcount : w.lookups = v.lookups := by rw [hvw.other]
    rw [Sync.Paired.faults hvw, hcount]
    exact .stopIf (.reply rfl (fun c _ => hP c) (.of_eq (fun _ => rfl) _))

theorem externalGroup_twins (hP : ∀ c, P c) (q : Option Ref) :
    Abreast w₀.Twins P Eq
      ((⟨policy, provider, false⟩ : Context).externalGroup q (some log))
      ((⟨policy, provider, true⟩ : Context).externalGroup q (some log')) := by
  have hno (q : Ref) : Abreast w₀.Twins P Eq (externalGroup.notAGroup (some log) q)
      (externalGroup.notAGroup (some log') q) :=
    (Abreast.shown _).next fun _ => Abreast.log.next fun _ => .pure rfl
  unfold externalGroup
  cases q with
  | none => exact .pure rfl
  | some q =>
    refine .ite (fun _ => .pure rfl) fun _ => (fetch_twins hP q).next fun found => ?_
    cases found with
    | none => exact hno q
    | some i => exact .ite (fun _ => .pure rfl) fun _ => hno q

theorem localGroup_twins (hauto : policy.group.autoMembership = ∅) :
    Abreast w₀.Twins P (Option.Rel Alike)
      ((⟨policy, provider, false⟩ : Context).localGroup i log)
      ((⟨policy, provider, true⟩ : Context).localGroup i log') := by
  unfold localGroup
  refine (Abreast.lookUp_twins i.id).bind ?_
  rintro found found' ⟨hfound, hnew⟩
  cases hfound with
  | none =>
    refine (Abreast.create_twins rfl rfl (hnew rfl)).bind fun x y hxy => ?_
    obtain ⟨rfl, hx⟩ := hxy
    refine (syncGroup_twins hx hauto).next fun _ => (Abreast.record_twins x).bind fun g g' hg => ?_
    exact .pure (.some ⟨rfl, hg⟩)
  | @some p q h =>
    obtain ⟨x, g⟩ := p
    obtain ⟨y, g'⟩ := q
    obtain ⟨rfl, hg⟩ := h
    dsimp only at hg ⊢
    rw [hg.isGroup, hg.ref]
    exact .ite (fun _ => .pure (.some ⟨rfl, hg⟩)) fun _ => Abreast.log.next fun _ => .pure .none

theorem declareGroup_twins (hP : ∀ c, P c) (hauto : policy.group.autoMembership = ∅)
    (hr : r.UpToMode r') {goOn goOn' : Identity → Subject → Sync Unit}
    (hgoOn : ∀ i x, Abreast w₀.Twins P Eq (goOn i x) (goOn' i x)) (declared : List Key)
    (q : Option Ref) :
    Abreast w₀.Twins P Eq
      ((⟨policy, provider, false⟩ : Context).declareGroup log r goOn declared q)
      ((⟨policy, provider, true⟩ : Context).declareGroup log' r' goOn' declared q) := by
  unfold declareGroup
  refine .ite (fun _ => (Abreast.shown _).next fun _ => Abreast.log.next fun _ => .pure rfl)
    fun _ => (externalGroup_twins hP q).next fun found => ?_
  cases found with
  | none => exact .pure rfl
  | some i =>
    refine (localGroup_twins hauto).bind fun found found' h => ?_
    cases h with
    | none => exact .pure rfl
    | @some p q h =>
      obtain ⟨x, g⟩ := p
      obtain ⟨y, g'⟩ := q
      obtain ⟨rfl, hg⟩ := h
      dsimp only at hg ⊢
      rw [hr.id, hg.id]
      exact (Abreast.addMember_twins hg).next fun _ => Abreast.result.next fun key =>
        (hgoOn i x).next fun _ => .pure rfl

theorem pruneGroup_twins {g g' : Record} (hr : r.UpToMode r') (hg : g.UpToMode g')
    (declared : List Key) :
    Abreast w₀.Twins P Eq
      ((⟨policy, provider, false⟩ : Context).pruneGroup log r declared g)
      ((⟨policy, provider, true⟩ : Context).pruneGroup log' r' declared g') := by
  unfold pruneGroup
  rw [hr.id, hg.id, hg.ref]
  refine Abreast.result.next fun key => .ite (fun _ => ?_) fun _ => .pure rfl
  exact (Abreast.removeMember_twins hg).next fun _ => .log

/-- The declared groups are represented in the same way, with the new ones recast. -/
theorem materialize_twins (hP : ∀ c, P c) (hauto : policy.group.autoMembership = ∅) (depth : Nat) :
    Abreast w₀.Twins P Eq
      ((⟨policy, provider, false⟩ : Context).materialize log depth i x)
      ((⟨policy, provider, true⟩ : Context).materialize log' depth i x) := by
  induction depth generalizing i x with
  | zero => exact .pure rfl
  | succ depth ih =>
    unfold materialize
    refine requireKnown_twins.next fun _ => (Abreast.record_twins x).bind fun r r' hr => ?_
    refine Abreast.next (.foldlM rfl ?_) fun declared => .get fun v w hvw => ?_
    · rintro q - declared _ rfl
      exact declareGroup_twins hP hauto hr (fun i x => ih) declared q
    · rw [hr.id, hvw.store]
      refine Abreast.bind (.results (Store.memberOf_recast _ _ _)) fun gs gs' hgs => ?_
      exact .forM_forall₂ hgs fun g g' hg => pruneGroup_twins hr hg declared

/-- A dynamic context leaves users of the legacy mode to member lists. -/
theorem syncMembership_twins (hr : w₀.record? x = some r) (hlegacy : r.isLegacy = true)
    (huser : r.isGroup = false) (hnames : policy.enforcesDynamic = false)
    (hauto : policy.group.autoMembership = ∅) (depth : Int) (log : Option Channel) :
    Abreast w₀.Twins (fun _ => True) Eq
      ((⟨policy, provider, false⟩ : Context).syncMembership i x depth log)
      ((⟨policy, provider, true⟩ : Context).syncMembership i x depth log) := by
  have hwalk (log log' : Channel) :
      Abreast w₀.Twins (fun _ => True) Eq
        ((⟨policy, provider, false⟩ : Context).materialize log depth.toNat i x)
        ((⟨policy, provider, true⟩ : Context).materialize log' depth.toNat i x) :=
    materialize_twins (fun _ => trivial) hauto depth.toNat
  show Abreast _ _ _ (Pure.pure () >>= fun _ =>
    (⟨policy, provider, false⟩ : Context).materialize _ depth.toNat i x) (syncNames _ i x depth log)
  unfold syncNames
  refine (Abreast.record_kept hr).bind fun _ r' h => ?_
  subst h
  rw [if_neg (by simp [huser]), if_pos (by simp [hlegacy, hnames])]
  exact Abreast.pure_log.next fun _ => hwalk _ _

/-- The second run ends as the first one does, with the same calls, and leaves the same world but
for log lines and for the new records: they are groups, of the legacy mode after the first run and
of the dynamic mode after the second. -/
structure Compatible {α : Type} (w : World) (a b : Except Failure α × World) : Prop where
  outcome : b.1 = a.1
  calls : ∃ calls, a.2.calls = w.calls ++ calls ∧ b.2.calls = w.calls ++ calls
  groups : NewGroups w.store a.2.store
  store : b.2.store = w.store.recast a.2.store
  world : b.2 = { a.2 with store := b.2.store, notes := b.2.notes }

/-- A dynamic context that enforces no names does with a user of the legacy mode what a standard
context does, and in both the record of the user stays as it is. -/
theorem syncMembership_legacy {w : World} (hr : w.record? x = some r) (hlegacy : r.isLegacy = true)
    (huser : r.isGroup = false) (hnames : policy.enforcesDynamic = false)
    (hauto : policy.group.autoMembership = ∅) (provider : Provider) (i : Identity) (depth : Int)
    (log : Option Channel) :
    Compatible w ((⟨policy, provider, false⟩ : Context).syncMembership i x depth log w)
      ((⟨policy, provider, true⟩ : Context).syncMembership i x depth log w) ∧
    ((⟨policy, provider, false⟩ : Context).syncMembership i x depth log w).2.record? x = some r ∧
    ((⟨policy, provider, true⟩ : Context).syncMembership i x depth log w).2.record? x = some r := by
  have hrun : Abreast w.Twins (fun _ => True) Eq
      ((⟨policy, provider, false⟩ : Context).syncMembership i x depth log)
      ((⟨policy, provider, true⟩ : Context).syncMembership i x depth log) :=
    syncMembership_twins hr hlegacy huser hnames hauto depth log
  obtain ⟨calls, -, hv, hw, htwins, ho⟩ := hrun w w (.refl w)
  refine ⟨⟨ho.eq.symm, ⟨calls, hv, hw⟩, htwins.groups, htwins.store, ?_⟩, htwins.record?_kept hr⟩
  rw [htwins.store]
  exact htwins.other

/-- A group in a group. -/
def guild : Memory where
  name := .text "corp"
  identities := [
    (.text "bakers",
      { id := .text "bakers", principalName := .text "Bakers", kind := .group,
        ref := some ⟨.text "bakers", .text "corp"⟩,
        groups := [some ⟨.text "crafts", .text "corp"⟩] }),
    (.text "crafts",
      { id := .text "crafts", principalName := .text "Crafts", kind := .group,
        ref := some ⟨.text "crafts", .text "corp"⟩ })]

/-- A user of the inner group. -/
def baker : Identity where
  id := .text "ada"
  principalName := .text "Ada"
  ref := some ⟨.text "ada", .text "corp"⟩
  kind := .user
  groups := [some ⟨.text "bakers", .text "corp"⟩]

/-- The record of the user. -/
def bakerRecord : Record where
  id := .text "ada"
  group := .bool false
  principalName := .text "Ada"
  ref := some ⟨.text "ada", .text "corp"⟩
  mode := some .legacy

/-- The world has the user and no group. -/
def bakery : World where
  store := { records := [(.text "ada", bakerRecord)] }

/-- Two groups are created, and their modes are what the stores differ in. -/
theorem syncMembership_legacy_baker :
    Compatible bakery
      ((⟨⟨.text "corp", {}, {}⟩, guild.provider, false⟩ : Context).syncMembership baker
        (.stored (.text "ada")) 2 none bakery)
      ((⟨⟨.text "corp", {}, {}⟩, guild.provider, true⟩ : Context).syncMembership baker
        (.stored (.text "ada")) 2 none bakery) ∧
    ((⟨⟨.text "corp", {}, {}⟩, guild.provider, true⟩ : Context).syncMembership baker
        (.stored (.text "ada")) 2 none bakery).2.store.records.map
          (fun p => (p.1, p.2.mode)) = [(.text "ada", some .legacy),
        (.text "bakers", some .dynamic), (.text "crafts", some .dynamic)] :=
  ⟨(syncMembership_legacy (r := bakerRecord) rfl rfl rfl rfl rfl guild.provider baker 2 none).1,
    by decide +kernel⟩

end Context

end Roster
