import Roster.Proofs.Conversion

/-!
# Conversion jobs that meet no failure

A conversion job goes through the records that there were when it began, while the conversion of
one user takes memberships back and deletes groups that the next ones may have been in. If no
failure of the store is met, its work is complete and final all the same
(`perform_convert_complete`): what a user was converted to stays, since no later turn gives it
anything back, and a second job finds nothing to do.

* `Context.Completed`: what such a job leaves.
* `Job.TurnedAll.kept`: what the turns of records leave of each record.
-/

namespace Roster

namespace Context

variable {ctx : Context} {c : Scene} {s₀ s s' : Store} {done : List Key} {k : Key}

/-- What a conversion job leaves of the records of a store when the turn of some has come. -/
structure Kept (ctx : Context) (s₀ : Store) (done : List Key) (s : Store) : Prop where
  users : ∀ k r, s₀.find? k = some r → r.isGroup = false → r.isLegacy = false →
    s.find? k = some r
  converted : ∀ k r, k ∈ done → s₀.find? k = some r → r.isGroup = false → r.isLegacy = true →
    ∃ names, s.find? k = some (r.toDynamic names)
  groups : ∀ k r, s₀.find? k = some r → r.isGroup = true → s.find? k = some r ∨
    s.find? k = none ∧ ctx.owns r.ref = true ∧ ctx.policy.hasDynamicGroups = false

/-- What a conversion job leaves of a store that meets no failure: no user of the legacy mode;
other users as they were; users of the legacy mode with names, and in no group that is managed for
them; groups as they were or, if they are the provider's and need not be kept, gone; and no other
record. -/
structure Completed (ctx : Context) (s s' : Store) : Prop where
  modern : ∀ k r, s'.find? k = some r → r.isGroup = false → r.isLegacy = false
  users : ∀ k r, s.find? k = some r → r.isGroup = false → r.isLegacy = false →
    s'.find? k = some r
  converted : ∀ k r, s.find? k = some r → r.isGroup = false → r.isLegacy = true →
    (∃ names, s'.find? k = some (r.toDynamic names)) ∧
    ∀ g q, s'.Member k g → s'.find? g = some q →
      ctx.owns q.ref = false ∧ g ∉ ctx.policy.user.autoMembership.keys
  groups : ∀ k r, s.find? k = some r → r.isGroup = true → s'.find? k = some r ∨
    s'.find? k = none ∧ ctx.owns r.ref = true ∧ ctx.policy.hasDynamicGroups = false
  known : ∀ k r', s'.find? k = some r' → ∃ r, s.find? k = some r

/-- The groups that are managed for a user are those of the provider and its auto-membership
groups. -/
theorem not_managed_of_not_clearable (h : s.WellFormed) {u q : Record} {g : Key}
    (hu : s.find? k = some u) (hgroup : u.isGroup = false) (hq : s.find? g = some q)
    (hm : s.Member k g) (hc : ¬ ctx.Clearable s k g) :
    ctx.owns q.ref = false ∧ g ∉ ctx.policy.user.autoMembership.keys := by
  rw [clearable_iff hu hq, not_and, not_or, not_exists] at hc
  obtain ⟨hown, hauto⟩ := hc hm
  obtain ⟨a, ha, rfl⟩ := Value.toKey_eq_ok_iff.1 (h.toKey_of_find? hq)
  refine ⟨by simpa using hown, fun hmem => hauto a ⟨ha, ?_⟩⟩
  rw [Policy.autoMembershipFor, hgroup]
  exact NameSet.contains_iff.2 (NameSet.mem_def.2 hmem)

end Context

namespace Job

variable {ctx : Context} {c : Scene} {s₀ s s' : Store} {done : List Key} {k : Key}

/-! ## The first job -/

theorem kept_of_turned (h : ctx.Kept s₀ done s) (hc : ctx.Converted s₀ done s) (hnew : k ∉ done)
    {b : Option Bool} (ht : Turned ctx s k b s') : ctx.Kept s₀ (done ++ [k]) s' := by
  cases ht with
  | passed _ hk =>
    refine ⟨h.users, fun j r hj hr hg hl => ?_, h.groups⟩
    rcases List.mem_append.1 hj with hj | hj
    · exact h.converted j r hj hr hg hl
    · obtain rfl := List.mem_singleton.1 hj
      exact absurd ((legacyUser_iff hc hnew).2 ⟨r, hr, hg, hl⟩) hk
  | @converted names K hk hn =>
    obtain ⟨u, hu, hgroup, hlegacy⟩ := hk
    have huser {j : Key} {r : Record} (hr : s.find? j = some r) (hg : r.isGroup = false)
        (hj : j ≠ k) : ((ctx.unwoundStore K s k).modify k fun r => r.toDynamic names).find? j
          = some r := by
      rw [Store.find?_modify, if_neg hj]
      exact Context.find?_unwoundStore_user hc.wellFormed hr hg
    refine ⟨fun j r hr hg hl => ?_, fun j r hj hr hg hl => ?_, fun j r hr hg => ?_⟩
    · refine huser (h.users j r hr hg hl) hg ?_
      rintro rfl
      obtain rfl := Option.some.inj (hu.symm.trans (h.users j r hr hg hl))
      rw [hlegacy] at hl
      cases hl
    · rcases List.mem_append.1 hj with hj | hj
      · obtain ⟨ns, hns⟩ := h.converted j r hj hr hg hl
        exact ⟨ns, huser hns hg fun he => hnew (he ▸ hj)⟩
      · obtain rfl := List.mem_singleton.1 hj
        have hjs := hc.users j r hr hg hnew
        refine ⟨names, ?_⟩
        rw [Store.find?_modify, if_pos rfl,
          Context.find?_unwoundStore_user hc.wellFormed hjs hg, Option.map_some]
    · have hj : j ≠ k := by
        rintro rfl
        obtain ⟨r₀, hr₀, -, htype, -⟩ := hc.records j u hu
        obtain rfl := Option.some.inj (hr.symm.trans hr₀)
        rw [Record.isGroup, htype] at hgroup
        exact Bool.false_ne_true (hgroup.symm.trans hg)
      rw [Store.find?_modify, if_neg hj, Context.find?_unwoundStore]
      rcases h.groups j r hr hg with hjs | ⟨hjs, hgone⟩
      · split
        · next horphaned =>
          obtain ⟨hdyn, ⟨q, hq, hown⟩, -⟩ := Context.orphaned_iff.1 horphaned
          obtain rfl := Option.some.inj (hjs.symm.trans hq)
          exact .inr ⟨rfl, hown, hdyn⟩
        · exact .inl hjs
      · rw [hjs, ite_self]
        exact .inr ⟨rfl, hgone⟩

/-- What the turns of records leave of each record. -/
theorem TurnedAll.kept (h : TurnedAll ctx s₀ done s) (hwf : s₀.WellFormed) (ht : s₀.Typed)
    (hd : done.Nodup) : ctx.Kept s₀ done s := by
  induction h with
  | nil => exact ⟨fun _ _ hr _ _ => hr, fun _ _ hj => absurd hj List.not_mem_nil,
      fun _ _ hr _ => .inl hr⟩
  | concat hall hk ih =>
    obtain ⟨hd, -, hnew⟩ := List.nodup_append.1 hd
    exact kept_of_turned (ih hd) (hall.converted hwf ht hd)
      (fun hmem => hnew _ hmem _ (by simp) rfl) hk

theorem TurnedAll.completed (h : TurnedAll ctx s₀ s₀.records.keys s) (hwf : s₀.WellFormed)
    (ht : s₀.Typed) : ctx.Completed s₀ s := by
  have hkept := h.kept hwf ht hwf.keys_nodup
  have hconv := h.converted hwf ht hwf.keys_nodup
  have hmem {j : Key} {r : Record} (hr : s₀.find? j = some r) : j ∈ s₀.records.keys :=
    List.mem_map_of_mem (hwf.find?_eq_some_iff.1 hr)
  refine ⟨fun j r hr hg => ?_, hkept.users, fun j r hr hg hl => ⟨?_, fun g q hm hq => ?_⟩,
    hkept.groups, fun j r hr => ?_⟩
  · obtain ⟨r₀, hr₀, -, htype, -⟩ := hconv.records j r hr
    have hg₀ : r₀.isGroup = false := by rw [Record.isGroup, ← htype]; exact hg
    cases hl : r₀.isLegacy with
    | false =>
      obtain rfl := Option.some.inj (hr.symm.trans (hkept.users j r₀ hr₀ hg₀ hl))
      exact hl
    | true =>
      obtain ⟨names, hns⟩ := hkept.converted j r₀ (hmem hr₀) hr₀ hg₀ hl
      obtain rfl := Option.some.inj (hr.symm.trans hns)
      rfl
  · exact hkept.converted j r (hmem hr) hr hg hl
  · -- what the user reached was taken back in its turn, if not in an earlier one
    obtain ⟨names, hj⟩ := hkept.converted j r (hmem hr) hr hg hl
    refine Context.not_managed_of_not_clearable hconv.wellFormed hj hg hq hm fun hc => ?_
    exact ((hconv.clearable j g).1 hc).2 ⟨j, hmem hr, ⟨r, hr, hg, hl⟩, .refl⟩
  · obtain ⟨r₀, hr₀, -⟩ := hconv.records j r hr
    exact ⟨r₀, hr₀⟩

/-! ## The second job -/

variable {w : World} {st : State} {id : Value}

/-- At the turn of a record that is no user of the legacy mode nothing happens. -/
theorem convertUser_of_not_legacy (ctx : Context) (hid : id.toKey = .ok k)
    (hk : ¬ Context.LegacyUser w.store k) :
    ∃ b, b ≠ some true ∧ convertUser ctx id w = (.ok b, w) := by
  unfold convertUser
  rw [Sync.bind_apply_ok (Sync.lookUp_run hid w)]
  cases hr : w.store.find? k with
  | none => exact ⟨none, by simp, rfl⟩
  | some r =>
    simp only [Option.map_some]
    cases hg : r.isGroup with
    | true => exact ⟨none, by simp, rfl⟩
    | false =>
      have hl : r.isLegacy = false := by
        cases hl : r.isLegacy with
        | false => rfl
        | true => exact absurd ⟨r, hr, hg, hl⟩ hk
      have hrecord : Sync.record (.stored k) w = (.ok r, w) := by
        have hw : w.record? (.stored k) = some r := hr
        simp only [Sync.record, Sync.bind_apply, Sync.get_apply, hw]
        rfl
      have hconvert : ctx.convertMembership (.stored k) w = (.ok false, w) := by
        unfold Context.convertMembership
        rw [Sync.bind_apply_ok hrecord, if_pos (by simp [hl])]
        rfl
      refine ⟨some false, by simp, ?_⟩
      rw [if_neg Bool.false_ne_true, Sync.bind_apply_ok hconvert]
      rfl

theorem convertRecord_of_not_legacy (ctx : Context) (h : st.world.store.WellFormed)
    (ht : st.world.store.Typed) (hid : id.toKey = .ok k)
    (hk : ¬ Context.LegacyUser st.world.store k) :
    ∃ st', execute (convertRecord ctx id) st = (.ok (), st') ∧ st'.world = st.world ∧
      st'.tally.converted = st.tally.converted ∧ st'.tally.failed = st.tally.failed := by
  obtain ⟨document, hd, -⟩ := Store.read_snapshot h ht
  obtain ⟨b, hb, hrun⟩ := convertUser_of_not_legacy ctx hid hk
  unfold convertRecord
  rw [execute_bind_ok (execute_attempt ..), Sync.transaction_ok hd hrun]
  match b with
  | none => exact ⟨_, rfl, rfl, rfl, rfl⟩
  | some true => exact absurd rfl hb
  | some false => exact ⟨_, rfl, rfl, rfl, rfl⟩

/-- A conversion job on a store without users of the legacy mode converts nothing. -/
theorem perform_convert_again (hctx : ctx.dynamic = true) (h : st.world.store.WellFormed)
    (ht : st.world.store.Typed) (hnone : ∀ k, ¬ Context.LegacyUser st.world.store k) :
    ∃ st', execute (perform ctx .convert) st = (.ok (), st') ∧ st'.world = st.world ∧
      st'.tally.converted = st.tally.converted ∧ st'.tally.failed = st.tally.failed := by
  rw [execute_perform_convert hctx]
  refine execute_forM (I := fun _ st' => st'.world = st.world ∧
    st'.tally.converted = st.tally.converted ∧ st'.tally.failed = st.tally.failed)
    ⟨rfl, rfl, rfl⟩ ?_
  rintro done ⟨k, r⟩ rest st₁ he ⟨hw, hconverted, hfailed⟩
  have hid : r.id.toKey = .ok k := h.own_keys k r (by rw [he]; simp)
  rw [← hw] at h ht hnone
  obtain ⟨st₂, hrun, hw₂, hconverted₂, hfailed₂⟩ :=
    convertRecord_of_not_legacy ctx h ht hid (hnone k)
  exact ⟨st₂, hrun, hw₂.trans hw, hconverted₂.trans hconverted, hfailed₂.trans hfailed⟩

/-! ## Both -/

/-- A conversion job goes through to the end. Failures of the store that it meets are counted, and
none is met if none may strike a record of the store (removals apart, which may fail). If none
is met, the job leaves the store completed, and another one on that store changes nothing and
converts nothing. -/
theorem perform_convert_complete (ctx : Context) (st : State) (hctx : ctx.dynamic = true)
    (h : st.world.store.WellFormed) (ht : st.world.store.Typed) :
    ∃ st', execute (perform ctx .convert) st = (.ok (), st') ∧
      st.tally.failed ≤ st'.tally.failed ∧
      ((∀ op, op ≠ .removeRecord → ∀ r ∈ st.world.store.all,
          ¬ st.world.scene.MayRefuse op r.id) → st'.tally.failed = st.tally.failed) ∧
      (st'.tally.failed = st.tally.failed →
        ctx.Completed st.world.store st'.world.store ∧
        ∀ st₁ : State, st₁.world.store = st'.world.store →
          ∃ st₂, execute (perform ctx .convert) st₁ = (.ok (), st₂) ∧ st₂.world = st₁.world ∧
            st₂.tally.converted = st₁.tally.converted ∧
            st₂.tally.failed = st₁.tally.failed) := by
  obtain ⟨st', hrun, hst'⟩ := perform_convert_run ctx st hctx h ht
  refine ⟨st', hrun, hst'.failed, fun hplan => hst'.safe ?_, fun hfailed => ?_⟩
  · rintro f ⟨op, r, hop, hr, -, hp⟩
    exact hplan op hop r hr hp
  · have hcompleted := (hst'.turned hfailed).completed h ht
    refine ⟨hcompleted, fun st₁ hst₁ => ?_⟩
    have hwf := hst'.wellFormed
    have htyped := hst'.typed
    rw [← hst₁] at hwf htyped hcompleted
    refine perform_convert_again hctx hwf htyped ?_
    rintro k ⟨r, hr, hg, hl⟩
    rw [hcompleted.modern k r hr hg] at hl
    cases hl

theorem perform_convert_complete_nestedGroups :
    nestedGroups.WellFormed ∧ nestedGroups.Typed ∧
    ∃ st', execute (perform converting .convert) { world := { store := nestedGroups }, files := {} }
        = (.ok (), st') ∧ st'.tally.failed = 0 ∧
      converting.Completed nestedGroups st'.world.store ∧
      ∃ st₂, execute (perform converting .convert) st' = (.ok (), st₂) ∧
        st₂.world = st'.world ∧ st₂.tally.converted = st'.tally.converted := by
  obtain ⟨st', hrun, -, hsafe, hend⟩ := perform_convert_complete converting
    { world := { store := nestedGroups }, files := {} } rfl wellFormed_nestedGroups
    typed_nestedGroups
  have hfailed := hsafe fun op _ r _ => Scene.StoreWorks.of_quiet rfl op r.id
  obtain ⟨hcompleted, hagain⟩ := hend hfailed
  obtain ⟨st₂, hrun₂, hworld, hconverted, -⟩ := hagain st' rfl
  exact ⟨wellFormed_nestedGroups, typed_nestedGroups, st', hrun, hfailed, hcompleted, st₂, hrun₂,
    hworld, hconverted⟩

end Job

end Roster
