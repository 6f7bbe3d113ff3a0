import Roster.Proofs.Frame

/-!
# What statuses say

The status of an answer agrees with the stores before and after the synchronisation, in both kinds
of contexts, for users and groups, whatever is migrated or deleted on the way. `Truthful` says so of
synchronising an identity and `TruthfulAgain` of synchronising a record again; `status_truthful`
proves both from the outcomes of the entry points, whose changes keep id, type and reference of
every record that remains.
-/

namespace Roster

namespace Context

variable {ctx : Context} {w w' : World} {a : SyncResult} {c : Scene} {s s' : Store} {k : Key}

/-- A record that was synchronised at a time, as an answer says. -/
structure SyncedAt (s : Store) (k : Key) (r : Record) (a : SyncResult) (t : Value) : Prop where
  found : s.find? k = some r
  synced : r.lastSynced = t
  told : a.lastSynced = t

/-- What the status after synchronising an identity says. -/
structure Truthful (ctx : Context) (i : Identity) (t : Value) (a : SyncResult) (s s' : Store) :
    Prop where
  same : a.status = .nop ∨ a.status = .foreign → s' = s
  added : a.status = .add → ∃ k r, i.id.toKey = .ok k ∧ s.find? k = none ∧ SyncedAt s' k r a t ∧
    r.id = i.id ∧ r.group = .bool i.isGroup ∧ r.ref = i.ref
  updated : a.status = .update → ∃ k r r', i.id.toKey = .ok k ∧ s.find? k = some r ∧
    sameType r i = true ∧ ctx.owns r.ref = true ∧ SyncedAt s' k r' a t ∧ r.Becomes r'
  not_deleted : a.status ≠ .delete
  not_added : ∀ k r, i.id.toKey = .ok k → s.find? k = some r → a.status ≠ .add

/-- What the status after synchronising a record again says. -/
structure TruthfulAgain (ctx : Context) (id : Value) (t : Value) (a : SyncResult) (s s' : Store) :
    Prop where
  same : a.status = .nop ∨ a.status = .foreign → s' = s
  updated : a.status = .update → ∃ k r r' ref i, id.toKey = .ok k ∧ s.find? k = some r ∧
    r.ref = some ref ∧ ctx.policy.owns ref = true ∧
    (ctx.provider.lookup ref).outcome = .ok (some i) ∧ sameType r i = true ∧
    SyncedAt s' k r' a t ∧ r.Becomes r'
  deleted_iff : a.status = .delete ↔ ∃ k r ref, id.toKey = .ok k ∧ s.find? k = some r ∧
    r.ref = some ref ∧ ctx.policy.owns ref = true ∧ (ctx.provider.lookup ref).outcome = .ok none
  deleted : ∀ k, id.toKey = .ok k → a.status = .delete → s' = s.without k
  not_added : a.status ≠ .add

theorem Reports.syncedAt (h : Reports c k s a) (hc : c.clock ≠ .null) :
    ∃ r, SyncedAt s k r a c.clock := by
  obtain ⟨r, hr, hsynced, -, -, -, htold⟩ := h
  exact ⟨r, hr, hsynced, htold hc⟩

theorem Outcome.truthful {rm : Remit} {i : Identity} (h : Outcome rm ctx c i s a s')
    (hc : c.clock ≠ .null) : Truthful ctx i c.clock a s s' := by
  cases h with
  | left ha =>
    have hne : a.status ≠ .add ∧ a.status ≠ .update ∧ a.status ≠ .delete := by
      rcases ha with ha | ha <;> simp [ha]
    exact {
      same := fun _ => rfl
      added := fun h => absurd h hne.1
      updated := fun h => absurd h hne.2.1
      not_deleted := hne.2.2
      not_added := fun _ _ _ _ => hne.1 }
  | @added k s₁ _ ha hk hnew hr hg ht hrep =>
    exact {
      same := by simp [ha]
      added := fun _ => by
        obtain ⟨r, hsynced⟩ := hrep.syncedAt hc
        have hb := ht.becomes hr hsynced.found
        exact ⟨k, r, hk, hnew, hsynced, hb.id, hb.group, hb.ref⟩
      updated := by simp [ha]
      not_deleted := by simp [ha]
      not_added := fun j r hj hf => by
        obtain rfl : k = j := Except.ok.inj (hk.symm.trans hj)
        rw [hnew] at hf
        cases hf }
  | @updated k r _ ha hk hr hown hsame ht hrep =>
    exact {
      same := by simp [ha]
      added := by simp [ha]
      updated := fun _ => by
        obtain ⟨r', hsynced⟩ := hrep.syncedAt hc
        exact ⟨k, r, r', hk, hr, hsame, hown, hsynced, ht.becomes hr hsynced.found⟩
      not_deleted := by simp [ha]
      not_added := fun _ _ _ _ => by simp [ha] }

theorem Refreshed.truthful {rm : Remit} {id : Value} (h : Refreshed rm ctx c id s a s')
    (hc : c.clock ≠ .null) : TruthfulAgain ctx id c.clock a s s' := by
  cases h with
  | left ha hleft =>
    have hne : a.status ≠ .add ∧ a.status ≠ .update ∧ a.status ≠ .delete := by
      rcases ha with ha | ha <;> simp [ha]
    refine {
      same := fun _ => rfl
      updated := fun h => absurd h hne.2.1
      deleted_iff := iff_of_false hne.2.2 ?_
      deleted := fun _ _ h => absurd h hne.2.2
      not_added := hne.1 }
    rintro ⟨k, r, ref, hk, hr, href, hown, -⟩
    have hforeign := hleft k r hk hr
    rw [href] at hforeign
    exact Bool.false_ne_true (hforeign.symm.trans hown)
  | @updated k r ref i _ ha hk hr href hown hi hsame ht hrep =>
    refine {
      same := by simp [ha]
      updated := fun _ => ?_
      deleted_iff := iff_of_false (by simp [ha]) ?_
      deleted := by simp [ha]
      not_added := by simp [ha] }
    · obtain ⟨r', hsynced⟩ := hrep.syncedAt hc
      have hb := ht.becomes hr hsynced.found
      exact ⟨k, r, r', ref, i, hk, hr, href, hown, hi, hsame, hsynced, hb⟩
    · rintro ⟨j, q, ref', hj, hq, href', -, hnone⟩
      obtain rfl : k = j := Except.ok.inj (hk.symm.trans hj)
      obtain rfl : r = q := Option.some.inj (hr.symm.trans hq)
      obtain rfl : ref = ref' := Option.some.inj (href.symm.trans href')
      rw [hi] at hnone
      cases hnone
  | @deleted k r ref ha hk hr href hown hi =>
    exact {
      same := by simp [ha]
      updated := by simp [ha]
      deleted_iff := iff_of_true ha ⟨k, r, ref, hk, hr, href, hown, hi⟩
      deleted := fun j hj _ => by
        obtain rfl : k = j := Except.ok.inj (hk.symm.trans hj)
        rfl
      not_added := by simp [ha] }

/-- Every answer has a status that agrees with the stores before and after. -/
theorem status_truthful (hs : w.store.WellFormed) (hc : w.clock ≠ .null) :
    (∀ i : Identity, ctx.sync i w = (.ok a, w') →
      Truthful ctx i w.clock a w.store w'.store) ∧
    ∀ id : Value, ctx.syncId id w = (.ok a, w') →
      TruthfulAgain ctx id w.clock a w.store w'.store := by
  have hrm := Remit.anything_covers ctx
  refine ⟨fun i hw => ?_, fun id hw => ?_⟩
  · exact ((sync_ends_in (c := w.scene) hrm hs fun _ _ => trivial).of_ok rfl rfl hw).truthful hc
  · exact ((syncId_ends_in (c := w.scene) hrm hs fun _ _ => trivial).of_ok rfl rfl hw).truthful hc

/-- A context whose provider knows nobody. -/
def abandoned : Context := { migrating with provider := Memory.provider ⟨.text "P", false, []⟩ }

/-- The migrated user is updated, and its record is deleted once the provider no longer knows it. -/
theorem status_truthful_userInTeam :
    userInTeam.WellFormed ∧
    (∃ a w', migrating.sync lonelyUser { store := userInTeam } = (.ok a, w') ∧
      a.status = .update ∧
      Truthful migrating lonelyUser (.int 1000) a userInTeam w'.store) ∧
    ∃ a w', abandoned.syncId (.text "u") { store := userInTeam } = (.ok a, w') ∧
      a.status = .delete ∧
      TruthfulAgain abandoned (.text "u") (.int 1000) a userInTeam w'.store := by
  have hwf : userInTeam.WellFormed := by decide
  refine ⟨hwf, ⟨_, _, rfl, rfl, ?_⟩, ⟨_, _, rfl, rfl, ?_⟩⟩
  · exact (status_truthful (w := { store := userInTeam }) hwf nofun).1
      lonelyUser rfl
  · exact (status_truthful (w := { store := userInTeam }) hwf nofun).2
      (.text "u") rfl

end Context

end Roster
