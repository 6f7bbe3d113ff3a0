import Roster.Proofs.Statuses

/-!
# What a record is bound to

An identity finds its record by the id, and a record that is synchronised again finds its identity
by the reference that it carries. A new record gets the reference of its identity; a record that
exists takes over the name and the properties, and keeps the reference it had. So the two ways meet
exactly if no record with another reference stood under the id (`bound_iff`); where one did, the
identity that comes next is the one of the old reference.

* `syncRecord_named`: whatever else a synchronisation does, its record ends with the name of the
  identity.
-/

namespace Roster

open Sync (Leaves Makes)

namespace Context

variable {ctx : Context} {rm : Remit} {p : Phase} {c : Scene} {s s' : Store} {k : Key}
  {r : Record} {i : Identity} {isGroup : Bool}

/-- The record under a key has the name of an identity. -/
def Renamed (k : Key) (i : Identity) (isGroup : Bool) (s : Store) : Prop :=
  ∃ r, s.find? k = some r ∧ r.isGroup = isGroup ∧ r.principalName = i.principalName

theorem Renamed.of_records (h : Renamed k i isGroup s) (hr : s'.records = s.records) :
    Renamed k i isGroup s' := by
  obtain ⟨r, hk, h⟩ := h
  exact ⟨r, by rw [Store.find?, hr]; exact hk, h⟩

/-- A change of other fields leaves the name. -/
theorem Renamed.modify (h : Renamed k i isGroup s) {f : Record → Record}
    (hf : ∀ r, (f r).group = r.group ∧ (f r).principalName = r.principalName) :
    Renamed k i isGroup (s.modify k f) := by
  obtain ⟨r, hk, hgroup, hname⟩ := h
  refine ⟨f r, by rw [Store.find?_modify, if_pos rfl, hk, Option.map_some], ?_, ?_⟩
  · rw [Record.isGroup, (hf r).1]
    exact hgroup
  · rw [(hf r).2, hname]

/-- The remit of all groups and no user. -/
def groupsOnly : Remit where
  own _ := False
  near _ := True
  auto _ := True

theorem groupsOnly_covers (ctx : Context) : groupsOnly.Covers ctx where
  owned _ _ := trivial
  found _ _ _ := trivial
  joined _ _ _ := trivial
  born := trivial
  converts _ _ _ := trivial
  fills _ := trivial

/-- What is done to groups leaves a user as it is. -/
theorem Renamed.of_changes (h : Renamed k i false s) (hc : groupsOnly.Changes p s s') :
    Renamed k i false s' := by
  obtain ⟨r, hk, hgroup, hname⟩ := h
  refine ⟨r, (hc.record_iff id ?_).2 hk, hgroup, hname⟩
  rintro ⟨hg, -⟩
  rw [hgroup] at hg
  cases hg

/-! ## Synchronising a record -/

theorem syncProperties_named (hk : s.find? k = some r) (hg : r.isGroup = isGroup)
    (mapping : Value) :
    Sync.Ends c s (syncProperties i (.stored k) mapping) (fun _ s' => Renamed k i isGroup s')
      fun _ _ => True := by
  have hfail {α : Type} {s : Store} {f : Failure} {Q : α → Store → Prop} :
      Sync.Ends c s (throw f) Q fun _ _ => True := Sync.Ends.throw trivial
  unfold syncProperties
  refine Leaves.requireKnown.before fun _ _ => ?_
  refine Sync.Ends.step (Sync.Ends.update ?_)
  have hnamed : Renamed k i isGroup
      (s.modify k fun r => { r with principalName := i.principalName }) :=
    ⟨{ r with principalName := i.principalName },
      by rw [Store.find?_modify, if_pos rfl, hk, Option.map_some], hg, rfl⟩
  refine ends_ite (fun _ => ?_) fun _ => ?_
  · refine Sync.Ends.step (Sync.Ends.result (fun properties _ => ?_) fun _ _ => trivial)
    refine Sync.Ends.modify (fun _ => rfl) (fun w hw => ?_)
      (hnamed.modify (f := fun r => { r with properties := .mapping properties })
        fun _ => ⟨rfl, rfl⟩)
    rw [World.store_replaceProperties, World.store_update_stored, hw]
  · refine Sync.Ends.step (Sync.Ends.record_any (fun q _ => ?_) fun _ => trivial)
    split
    · next names external own _ _ _ =>
      refine Sync.Ends.bind (Q := fun _ s' => Renamed k i isGroup s')
        (Sync.Ends.modify (fun _ => rfl) (fun w hw => ?_)
          (hnamed.modify (f := fun r => { r with
            properties := .mapping (copyProperties external own names).1 })
            fun _ => ⟨rfl, rfl⟩)) fun _ s₁ h₁ => ?_
      · rw [World.store_editProperties, World.store_update_stored, hw]
      · split
        · exact hfail
        · exact Sync.Ends.pure h₁
    · exact hfail

theorem stamp_named (h : Renamed k i isGroup s) :
    Sync.Ends c s (stamp (.stored k)) (fun _ s' => Renamed k i isGroup s') fun _ _ => True := by
  unfold stamp
  refine Sync.Ends.get (fun _ w w' hc _ hc' _ => ?_) fun w _ _ => ?_
  · have hclock : w.clock = w'.clock := congrArg Scene.clock (hc.trans hc'.symm)
    simp only [hclock]
  · exact Sync.Ends.update (h.modify fun _ => ⟨rfl, rfl⟩)

/-- Joining groups changes no record. -/
theorem applyMembership_records (groups : Except Failure (List Value)) (log : Option Channel) :
    Sync.Ends c s (ctx.applyMembership (.stored k) groups log)
      (fun _ s' => s'.records = s.records) fun _ _ => True := by
  have hlog {s' : Store} {ch : Channel} {t : String} (h : s'.records = s.records) :
      Sync.Ends c s' (Sync.log ch .warning t) (fun _ s' => s'.records = s.records)
        fun _ _ => True := Sync.Ends.log h
  unfold applyMembership
  refine Sync.Ends.step (Sync.Ends.record_any (fun r _ => ?_) fun _ => trivial)
  refine ends_ite (fun _ => Sync.Ends.log rfl) fun _ => ?_
  refine Sync.Ends.step (Sync.Ends.result (fun ids _ => ?_) fun _ _ => trivial)
  refine Sync.Ends.forM (I := fun _ s' => s'.records = s.records) rfl ?_
  intro _ id _ s₁ _ hs₁
  unfold joinGroup
  refine Sync.Ends.step (Sync.Ends.lookUp_any (fun j _ => ?_) fun _ => trivial)
  cases s₁.find? j with
  | none => exact hlog hs₁
  | some g =>
    simp only [Option.map_some]
    refine ends_ite (fun _ => ?_) fun _ => hlog hs₁
    exact Sync.Ends.bind (Q := fun _ s' => s'.records = s.records)
      (Sync.Ends.addMember_any (fun b s₂ h => (Store.records_addMember h).trans hs₁)
        fun _ => trivial) fun _ _ h => Sync.Ends.pure h

theorem keepNames_named (h : Renamed k i isGroup s) (names : NameSet) :
    Sync.Ends c s (keepNames (.stored k) r names) (fun _ s' => Renamed k i isGroup s')
      fun _ _ => True := by
  have hfail {α : Type} {f : Failure} {g : PUnit → Sync α} {Q : α → Store → Prop} :
      Sync.Ends c s (throw f >>= g) Q fun _ _ => True :=
    Sync.Ends.throw_bind trivial
  unfold keepNames
  refine ends_ite (fun _ => ?_) fun _ => ?_
  · unfold Sync.convert
    refine Sync.Ends.step (Sync.Ends.record_any (fun q _ => ?_) fun _ => trivial)
    refine Sync.Ends.step (Sync.Ends.allow (fun _ => ?_) fun _ => trivial)
    refine Sync.Ends.step (Sync.Ends.result_ok rfl ?_)
    dsimp only
    refine ends_ite (fun _ => hfail) fun _ => ?_
    exact Sync.Ends.update (h.modify fun _ => ⟨rfl, rfl⟩)
  · unfold Sync.setNames
    refine Sync.Ends.step (Sync.Ends.record_any (fun q _ => ?_) fun _ => trivial)
    refine Sync.Ends.step (Sync.Ends.allow (fun _ => ?_) fun _ => trivial)
    dsimp only
    refine ends_ite (fun _ => hfail) fun _ => ?_
    refine Sync.Ends.step (Sync.Ends.result_ok rfl ?_)
    exact Sync.Ends.update (h.modify fun _ => ⟨rfl, rfl⟩)

/-- Whatever becomes of its memberships, a user keeps its name. -/
theorem syncMembership_named (hs : s.WellFormed) (h : Renamed k i false s) (depth : Int)
    (log : Option Channel) :
    Sync.Ends c s (ctx.syncMembership i (.stored k) depth log) (fun _ s' => Renamed k i false s')
      fun _ _ => True := by
  have hcovers := groupsOnly_covers ctx
  have hmakes {α : Type} {p : Phase} {s : Store} {x : Sync α} {P : α → Store → Prop}
      (h : Renamed k i false s) (hx : Makes groupsOnly p c s x P) :
      Sync.Ends c s x (fun _ s' => Renamed k i false s') fun _ _ => True :=
    Sync.Ends.mono hx (fun _ _ hc => h.of_changes hc.1) fun _ _ _ => trivial
  unfold syncMembership
  refine ends_ite (fun _ => ?_) fun _ => hmakes h (materialize_makes hcovers _ (fun _ => trivial) hs)
  unfold syncNames
  refine (Leaves.record k).before fun r _ => ?_
  refine ends_ite (fun _ => Sync.Ends.pure h) fun _ => ?_
  refine ends_ite (fun _ => ?_) fun _ => ?_
  · refine Leaves.log.before fun _ _ => ?_
    exact hmakes h (materialize_makes hcovers _ (fun _ => trivial) hs)
  · refine (namesOf_leaves depth).before fun names _ => ?_
    have hkeep : Makes .anything .growing c s (keepNames (.stored k) r names) fun _ _ => True :=
      keepNames_makes hs trivial (fun _ _ => trivial) names
    refine Sync.Ends.bind (Sync.Ends.mono ((keepNames_named h names).and hkeep) (fun _ _ h => h)
      fun _ _ _ => trivial) ?_
    rintro _ s₁ ⟨h₁, hc₁, -⟩
    have hs₁ := Remit.Changes.wellFormed hc₁ hs
    refine Leaves.log.before fun _ _ => ?_
    refine Sync.Ends.bind (Sync.Ends.mono (ensurePlaceholders_makes hcovers hs₁ depth)
      (fun _ s' hc => And.intro (h₁.of_changes hc.1) (Remit.Changes.wellFormed hc.1 hs₁))
      fun _ _ _ => trivial) ?_
    rintro _ s₂ ⟨h₂, hs₂⟩
    refine ends_ite (fun _ => ?_) fun _ => Sync.Ends.pure h₂
    exact Sync.Ends.bind (hmakes h₂ (unwind_makes hcovers hs₂ _)) fun _ _ h => Sync.Ends.pure h

/-- A record that is synchronised ends with the name of the identity. -/
theorem syncRecord_named (hs : s.WellFormed) (hk : s.find? k = some r) (log : Option Channel) :
    Sync.Ends c s (ctx.syncRecord i (.stored k) r.isGroup log)
      (fun _ s' => Renamed k i r.isGroup s') fun _ _ => True := by
  unfold syncRecord
  cases hg : r.isGroup with
  | true =>
    rw [if_pos rfl]
    unfold syncGroup
    refine Sync.Ends.bind (syncProperties_named hk hg _) fun _ s₁ h₁ => ?_
    refine Sync.Ends.bind (applyMembership_records _ _) fun _ s₂ hr => ?_
    exact stamp_named (h₁.of_records hr)
  | false =>
    rw [if_neg Bool.false_ne_true]
    unfold syncUser
    have hmakes (mapping : Value) :
        Makes .anything .growing c s (syncProperties i (.stored k) mapping) fun _ _ => True :=
      syncProperties_makes hs (.inl trivial) mapping
    refine Sync.Ends.bind (Sync.Ends.mono ((syncProperties_named hk hg _).and (hmakes _))
      (fun _ _ h => h) fun _ _ _ => trivial) ?_
    rintro _ s₁ ⟨h₁, hc₁, -⟩
    refine Sync.Ends.bind (syncMembership_named (Remit.Changes.wellFormed hc₁ hs) h₁ _ _) ?_
    intro _ s₂ h₂
    refine Sync.Ends.bind (applyMembership_records _ _) fun _ s₃ hr => ?_
    exact stamp_named (h₂.of_records hr)

/-- A record that is synchronised again ends with the name of the identity that its reference leads
to. -/
theorem syncId_named (hs : s.WellFormed) {id : Value} (hid : id.toKey = .ok k)
    (hk : s.find? k = some r) {q : Ref} (hq : r.ref = some q)
    (hi : (ctx.provider.lookup q).outcome = .ok (some i)) :
    Sync.Ends c s (ctx.syncId id) (fun a s' => a.status = .update → Renamed k i r.isGroup s')
      fun _ _ => True := by
  unfold syncId
  refine Sync.Ends.step (Sync.Ends.lookUp hid ?_)
  simp only [hk, Option.map_some, hq]
  refine ends_ite (fun _ => Sync.Ends.pure nofun) fun _ => ?_
  refine (channelFor_leaves _ _).before fun log _ => ?_
  refine guarded_ends (F := fun _ _ => True) ?_ fun _ _ _ => trivial
  unfold refresh
  refine (resolve_leaves q).before fun a ha => ?_
  obtain rfl : a = some i := Except.ok.inj (ha.symm.trans hi)
  dsimp only
  refine ends_ite (fun _ => ?_) fun _ => ?_
  · refine (Leaves.shown _).before fun _ _ => ?_
    exact (Leaves.throw (P := fun _ => False)).before fun _ => False.elim
  · refine Sync.Ends.bind (syncRecord_named hs hk _) fun _ s₁ h₁ => ?_
    unfold resultOf
    exact (Leaves.record k).before fun _ _ => Sync.Ends.pure fun _ => h₁

/-! ## The two ways to an identity -/

variable {w w' : World} {a : SyncResult}

/-- What synchronising the record of an identity again at once comes to, given the record that
synchronising the identity left: the record goes exactly if its reference leads nowhere, and a
record with the reference of the identity takes its data over from it again. -/
structure SyncedAgain (ctx : Context) (i : Identity) (k : Key) (r : Record) (b : SyncResult)
    (s : Store) : Prop where
  deleted_iff : b.status = .delete ↔
    ∃ q, r.ref = some q ∧ ctx.policy.owns q = true ∧ (ctx.provider.lookup q).outcome = .ok none
  bound : r.ref = i.ref → b.status = .update ∧ ∃ r', s.find? k = some r' ∧ r'.ref = i.ref ∧
    r'.principalName = i.principalName

/-- A new record gets the reference of its identity, one that exists keeps its own. -/
theorem Outcome.bound {a : SyncResult} (h : Outcome rm ctx c i s a s')
    (ha : a.status = .add ∨ a.status = .update) :
    ∃ k r, i.id.toKey = .ok k ∧ s'.find? k = some r ∧
      (r.ref = i.ref ↔ ∀ r₀, s.find? k = some r₀ → r₀.ref = i.ref) := by
  cases h with
  | left hl => rcases ha with ha | ha <;> simp [ha] at hl
  | @added k s₁ _ _ hk hnew hr₁ _ ht hrep =>
    obtain ⟨r, hr, -⟩ := hrep
    refine ⟨k, r, hk, hr, iff_of_true (ht.becomes hr₁ hr).ref fun r₀ hr₀ => ?_⟩
    rw [hnew] at hr₀
    cases hr₀
  | @updated k r₀ _ _ hk hr₀ _ _ ht hrep =>
    obtain ⟨r, hr, -⟩ := hrep
    refine ⟨k, r, hk, hr, ?_⟩
    rw [(ht.becomes hr₀ hr).ref]
    refine ⟨fun href r₁ hr₁ => ?_, fun hall => hall r₀ hr₀⟩
    obtain rfl : r₀ = r₁ := Option.some.inj (hr₀.symm.trans hr₁)
    exact href

theorem Refreshed.syncedAgain {b : SyncResult} (h : Refreshed rm ctx c i.id s b s')
    (hk : i.id.toKey = .ok k) (hr : s.find? k = some r) {q : Ref} (hown : ctx.owns i.ref = true)
    (hq : i.ref = some q) (hi : (ctx.provider.lookup q).outcome = .ok (some i))
    (hnamed : r.ref = i.ref → b.status = .update → Renamed k i r.isGroup s') :
    SyncedAgain ctx i k r b s' := by
  cases h with
  | left hl hleft =>
    have hforeign := hleft k r hk hr
    refine ⟨iff_of_false ?_ ?_, fun href => ?_⟩
    · rcases hl with hl | hl <;> simp [hl]
    · rintro ⟨q', hq', hown', -⟩
      rw [hq'] at hforeign
      exact Bool.false_ne_true (hforeign.symm.trans hown')
    · rw [href, hown] at hforeign
      cases hforeign
  | @updated j r₁ q₁ i₁ _ hb hj hr₁ hq₁ _ hi₁ _ ht _ =>
    obtain rfl : k = j := Except.ok.inj (hk.symm.trans hj)
    obtain rfl : r = r₁ := Option.some.inj (hr.symm.trans hr₁)
    refine ⟨iff_of_false (by simp [hb]) ?_, fun href => ⟨hb, ?_⟩⟩
    · rintro ⟨q', hq', -, hnone⟩
      obtain rfl : q₁ = q' := Option.some.inj (hq₁.symm.trans hq')
      rw [hi₁] at hnone
      cases hnone
    · obtain ⟨r', hr', -, hname⟩ := hnamed href hb
      exact ⟨r', hr', (ht.becomes hr hr').ref.trans href, hname⟩
  | @deleted j r₁ q₁ hb hj hr₁ hq₁ hown₁ hnone =>
    obtain rfl : k = j := Except.ok.inj (hk.symm.trans hj)
    obtain rfl : r = r₁ := Option.some.inj (hr.symm.trans hr₁)
    refine ⟨iff_of_true hb ⟨q₁, hq₁, hown₁, hnone⟩, fun href => ?_⟩
    obtain rfl : q = q₁ := Option.some.inj ((href.trans hq).symm.trans hq₁)
    rw [hi] at hnone
    cases hnone

/-- A record that was synchronised from an identity of the provider is bound to it exactly if no
record with another reference stood under the id before. -/
theorem bound_iff {q : Ref} (hs : w.store.WellFormed) (hown : ctx.owns i.ref = true)
    (hq : i.ref = some q) (hi : (ctx.provider.lookup q).outcome = .ok (some i))
    (hw : ctx.sync i w = (.ok a, w')) (ha : a.status = .add ∨ a.status = .update) :
    ∃ k r, i.id.toKey = .ok k ∧ w'.store.find? k = some r ∧
      (r.ref = i.ref ↔ ∀ r₀, w.store.find? k = some r₀ → r₀.ref = i.ref) ∧
      ∀ b w'', ctx.syncId i.id w' = (.ok b, w'') → SyncedAgain ctx i k r b w''.store := by
  have hrm := Remit.anything_covers ctx
  have h := (sync_ends_in (c := w.scene) hrm hs fun _ _ => trivial).of_ok rfl rfl hw
  have hs' := h.turns.wellFormed hs
  obtain ⟨k, r, hk, hr, hiff⟩ := h.bound ha
  refine ⟨k, r, hk, hr, hiff, fun b w'' hb => ?_⟩
  have hagain := (syncId_ends_in (c := w'.scene) hrm hs' fun _ _ => trivial).of_ok rfl rfl hb
  refine hagain.syncedAgain hk hr hown hq hi fun href => ?_
  exact (syncId_named (c := w'.scene) hs' hk hr (href.trans hq) hi).of_ok rfl rfl hb

/-- The user has no record yet and is bound. -/
theorem bound_iff_lonelyUser :
    Store.WellFormed {} ∧ migrating.owns lonelyUser.ref = true ∧
    lonelyUser.ref = some ⟨.text "u", .text "P"⟩ ∧
    (migrating.provider.lookup ⟨.text "u", .text "P"⟩).outcome = .ok (some lonelyUser) ∧
    ∃ a w', migrating.sync lonelyUser { store := {} } = (.ok a, w') ∧ a.status = .add ∧
      ∃ k r, lonelyUser.id.toKey = .ok k ∧ w'.store.find? k = some r ∧
        (r.ref = lonelyUser.ref ↔
          ∀ r₀, (World.store { store := {} }).find? k = some r₀ → r₀.ref = lonelyUser.ref) ∧
        ∀ b w'', migrating.syncId lonelyUser.id w' = (.ok b, w'') →
          SyncedAgain migrating lonelyUser k r b w''.store := by
  have hwf : Store.WellFormed {} := Store.wellFormed_empty
  refine ⟨hwf, rfl, rfl, rfl, _, _, rfl, rfl, ?_⟩
  exact bound_iff (w := { store := {} }) hwf rfl rfl rfl rfl (.inl rfl)

/-- A user of the provider whose record was made for another identity of it. -/
def movedUser : Store where
  records := [
    (.text "u", {
      id := .text "u", group := .bool false, principalName := .text "User"
      ref := some ⟨.text "old", .text "P"⟩, mode := some .dynamic })]

/-- The user is updated and is not bound to its identity, which the provider knows: synchronised
again at once, it is deleted. -/
theorem sync_movedUser_not_bound :
    movedUser.WellFormed ∧ migrating.owns lonelyUser.ref = true ∧
    (migrating.provider.lookup ⟨.text "u", .text "P"⟩).outcome = .ok (some lonelyUser) ∧
    lonelyUser.ref = some ⟨.text "u", .text "P"⟩ ∧
    ∃ a w' r b w'', migrating.sync lonelyUser { store := movedUser } = (.ok a, w') ∧
      a.status = .update ∧ w'.store.find? (.text "u") = some r ∧ r.ref ≠ lonelyUser.ref ∧
      migrating.syncId lonelyUser.id w' = (.ok b, w'') ∧ b.status = .delete ∧
      w''.store.find? (.text "u") = none := by
  refine ⟨by decide, rfl, rfl, rfl, _, _, _, _, _, rfl, rfl, rfl, ?_, rfl, rfl, rfl⟩
  intro h
  have h : some (⟨.text "old", .text "P"⟩ : Ref) = some ⟨.text "u", .text "P"⟩ := h
  simp at h

end Context

end Roster
