import Roster.Proofs.Freshness
import Roster.Proofs.Jobs

/-!
# Synchronising all records again

A job that synchronises all records again goes through the records that there were when it began,
while each of them may let groups come or go. If no identity fails, all is fresh in the end
(`perform_resync_fresh`): old records because they had their turn, new ones because they came
synchronised, and those that are gone are not missed.

* `Context.UpToDate`: a record of the provider in the end.
* `Context.Resynced`: the turn of one record; `syncId_resynced`.
* `Job.Pending`: where the job stands, with the records whose turn is still to come.
-/

namespace Roster

open Sync (Leaves)

namespace Context

variable {ctx : Context} {c : Scene} {s s' : Store} {k : Key} {r r' : Record} {id : Value}

/-- A record has the time of the run, leads to an identity of its type and, if it is a user, is not
left in the legacy mode by a context that converts. -/
structure UpToDate (ctx : Context) (c : Scene) (r : Record) : Prop where
  time : r.lastSynced = c.clock
  leads : ctx.Leads r
  modern : ctx.dynamic = true → ctx.policy.enforcesDynamic = true → r.isGroup = false →
    r.isLegacy = false

theorem UpToDate.ages (h : ctx.UpToDate c r) (ha : r.Ages c.clock r') : ctx.UpToDate c r' where
  time := ha.time.elim (fun he => he.trans h.time) id
  leads := h.leads.becomes ha.becomes
  modern := fun hd he hg =>
    ha.becomes.not_legacy (h.modern hd he (ha.becomes.isGroup.symm.trans hg))

theorem Arrives.upToDate (h : ctx.Arrives c r) : ctx.UpToDate c r where
  time := h.time
  leads := h.leads
  modern := by
    intro _ _ hg
    rw [h.group] at hg
    cases hg

/-! ## The turn of a record -/

/-- What the turn of the record under a key does to a store. -/
structure Resynced (ctx : Context) (c : Scene) (k : Key) (s s' : Store) : Prop where
  wellFormed : s'.WellFormed
  foreign : ∀ j r, ctx.owns r.ref = false → (s'.find? j = some r ↔ s.find? j = some r)
  others : ∀ j, j ≠ k → ctx.Fares c (s.find? j) (s'.find? j)
  own : ∀ r, s'.find? k = some r → ctx.owns r.ref = true → ctx.UpToDate c r

/-- A record that is updated fares well, and others do on the way. -/
theorem syncId_freshens (hf : ctx.Faithful) (hid : id.toKey = .ok k) (hk : s.find? k = some r) :
    Sync.Ends c s (ctx.syncId id) (fun a s' => a.status = .update → ctx.Freshens c s s' ∧
      (ctx.dynamic = true → ctx.policy.enforcesDynamic = true → r.isGroup = false → Modern k s'))
      fun _ _ => True := by
  unfold syncId
  refine Sync.Ends.step (Sync.Ends.lookUp hid ?_)
  simp only [hk, Option.map_some]
  cases r.ref with
  | none => exact Sync.Ends.pure nofun
  | some q =>
    refine ends_ite (fun _ => Sync.Ends.pure nofun) fun _ => ?_
    refine (channelFor_leaves _ _).before fun log _ => ?_
    refine guarded_ends (F := fun _ _ => True) ?_ fun _ _ _ => trivial
    unfold refresh
    refine (resolve_leaves q).before fun a _ => ?_
    cases a with
    | none =>
      refine Sync.Ends.step (Sync.Ends.remove_any (fun _ _ _ _ => ?_) fun _ => trivial)
      refine (Leaves.shown _).before fun _ _ => ?_
      exact Leaves.log.before fun _ _ => Sync.Ends.pure nofun
    | some i =>
      refine ends_ite (fun _ => ?_) fun _ => ?_
      · refine (Leaves.shown _).before fun _ _ => ?_
        exact (Leaves.throw (P := fun _ => False)).before fun _ => False.elim
      · refine Sync.Ends.bind (syncRecord_freshens hf hk _) fun _ s₁ h₁ => ?_
        unfold resultOf
        exact (Leaves.record k).before fun _ _ => Sync.Ends.pure fun _ => h₁

/-- What the provider finds is of the provider. -/
def Loyal (ctx : Context) : Prop :=
  ∀ q i, (ctx.provider.lookup q).outcome = .ok (some i) → ctx.owns i.ref = true

theorem Refreshed.resynced {a : SyncResult} (hs : s.WellFormed) (hid : id.toKey = .ok k)
    (h : Refreshed (ctx.remit fun j => id.toKey = .ok j) ctx c id s a s')
    (hfresh : ∀ r, s.find? k = some r → a.status = .update → ctx.Freshens c s s' ∧
      (ctx.dynamic = true → ctx.policy.enforcesDynamic = true → r.isGroup = false →
        Modern k s')) : ctx.Resynced c k s s' := by
  have hother {j : Key} (hj : j ≠ k) : ¬ id.toKey = .ok j :=
    fun he => hj (Except.ok.inj (he.symm.trans hid))
  cases h with
  | left _ hleft =>
    refine ⟨hs, fun _ _ _ => Iff.rfl, fun _ _ => .refl _, fun r hr hown => ?_⟩
    rw [hleft k r hid hr] at hown
    cases hown
  | @updated j r q i _ ha hj hr href hown hi hsame ht hrep =>
    obtain rfl : k = j := Except.ok.inj (hid.symm.trans hj)
    obtain ⟨hfares, hmodern⟩ := hfresh r hr ha
    have hr_owned : ctx.owns r.ref = true := by rw [href]; exact hown
    refine ⟨ht.wellFormed hs, fun j r' hr' => ?_, fun j _ => hfares j, fun r' hr' _ => ?_⟩
    · by_cases hj : j = k
      · subst hj
        refine iff_of_false (fun hk' => ?_) fun hk' => ?_
        · rw [(ht.becomes hr hk').ref, hr_owned] at hr'
          cases hr'
        · obtain rfl := Option.some.inj (hr.symm.trans hk')
          rw [hr_owned] at hr'
          cases hr'
      · refine ht.record_iff (hother hj) ?_
        rintro ⟨-, hnear⟩
        exact Bool.false_ne_true (hr'.symm.trans hnear)
    · obtain ⟨r₁, hr₁, htime, -⟩ := hrep
      obtain rfl := Option.some.inj (hr₁.symm.trans hr')
      have hb := ht.becomes hr hr'
      refine ⟨htime, Leads.becomes ⟨q, i, href, hi, hsame⟩ hb, fun hd he hg => ?_⟩
      exact hmodern hd he (hb.isGroup.symm.trans hg) r₁ hr'
  | @deleted j r q _ hj hr href hown _ =>
    obtain rfl : k = j := Except.ok.inj (hid.symm.trans hj)
    have hr_owned : ctx.owns r.ref = true := by rw [href]; exact hown
    rw [Store.without_eq_drop]
    have hfind (j : Key) : (s.drop (· == k)).find? j = if j = k then none else s.find? j := by
      rw [Store.find?_drop]
      simp only [beq_iff_eq]
    refine ⟨hs.drop _, fun j r' hr' => ?_, fun j hj => ?_, fun r' hr' => ?_⟩
    · rw [hfind]
      split
      · next he =>
        subst he
        refine iff_of_false nofun fun hk' => ?_
        obtain rfl := Option.some.inj (hr.symm.trans hk')
        rw [hr_owned] at hr'
        cases hr'
      · exact Iff.rfl
    · rw [hfind, if_neg hj]
      exact .refl _
    · rw [hfind, if_pos rfl] at hr'
      cases hr'

theorem syncId_resynced (hf : ctx.Faithful) (hl : ctx.Loyal) (hs : s.WellFormed)
    (hid : id.toKey = .ok k) (hk : s.find? k = some r) :
    Sync.Ends c s (ctx.syncId id) (fun _ s' => ctx.Resynced c k s s') fun _ _ => True := by
  refine Sync.Ends.mono ((syncId_ends_in (remit_covers hl fun j => id.toKey = .ok j) hs
    fun _ h => h).and (syncId_freshens hf hid hk)) ?_ fun _ _ _ => trivial
  rintro a s' ⟨h, hfresh⟩
  refine h.resynced hs hid fun r' hr' => ?_
  obtain rfl := Option.some.inj (hk.symm.trans hr')
  exact hfresh

end Context

/-! ## Providers in memory -/

/-- The provider has a text for a name, and its identities stand under their own ids with references
into it. -/
structure Memory.Linked (m : Memory) : Prop where
  name : m.name.IsText
  identities : ∀ k i, (k, i) ∈ m.identities → i.id.toKey = .ok k ∧ i.ref = some (m.ref i.id)

namespace Memory

variable {m : Memory} {p : Policy} {d : Bool}

theorem Typed.linked (h : m.Typed) : m.Linked :=
  ⟨h.name, fun k i hi => (h.identities k i hi).2⟩

/-- What is found by a reference stands under the key of its id. -/
theorem lookup_of_outcome {q : Ref} {i : Identity}
    (h : (m.provider.lookup q).outcome = .ok (some i)) :
    ∃ k, m.identities.lookup k = some i ∧ (k, i) ∈ m.identities := by
  have hres : m.resolve q = .ok (some i) := by
    rw [← h]
    show _ = (Reply.ofResult (m.resolve q)).outcome
    rw [Reply.outcome_ofResult]
  unfold resolve find? at hres
  split at hres
  · obtain ⟨k, -, hk⟩ := bind_eq_ok.1 hres
    have hk : m.identities.lookup k = some i := Except.ok.inj hk
    obtain ⟨l₁, l₂, he, -⟩ := List.lookup_eq_some_iff.1 hk
    exact ⟨k, hk, by rw [he]; simp⟩
  · cases hres

theorem Linked.faithful (h : m.Linked) : Context.Faithful ⟨p, m.provider, d⟩ := by
  intro q i hi
  obtain ⟨k, hk, hmem⟩ := lookup_of_outcome hi
  obtain ⟨hid, href⟩ := h.identities k i hmem
  refine ⟨m.ref i.id, href, ?_⟩
  show (Reply.ofResult (m.resolve (m.ref i.id))).outcome = _
  obtain ⟨t, ht⟩ := h.name
  have hself : (m.name == m.name) = true := by rw [ht]; simp
  rw [Reply.outcome_ofResult, resolve, ref, if_pos hself, find?, hid]
  exact congrArg Except.ok hk

theorem Linked.loyal (h : m.Linked) (hp : p.provider = m.name) :
    Context.Loyal ⟨p, m.provider, d⟩ := by
  refine Context.owns_of_memory ?_
  rintro ⟨k, i⟩ hmem
  rw [(h.identities k i hmem).2]
  obtain ⟨t, ht⟩ := h.name
  show (m.name == p.provider) = true
  rw [hp, ht]
  simp

end Memory

namespace Job

variable {ctx : Context} {c : Scene} {s₀ s s' : Store} {k : Key} {r : Record} {id : Value}
  {st st' : State} {rs : Assoc Key Record}

/-! ## One record -/

/-- If the job goes on, an identity was synchronised and counted, or its failure was. -/
theorem recordOutcome_eq_ok {x : Sync SyncResult}
    (h : execute (recordOutcome id x) st = (.ok (), st')) :
    st'.tally.failed = st.tally.failed + 1 ∨
      st'.tally.failed = st.tally.failed ∧ st'.tally.processed = st.tally.processed + 1 ∧
        ∃ a w', x st.world = (.ok a, w') ∧ st'.world.store = w'.store ∧
          st'.world.scene = w'.scene := by
  unfold recordOutcome at h
  rw [execute_bind_ok (execute_attempt ..)] at h
  rcases hx : Sync.transaction x st.world with ⟨f | a, w'⟩
  · rw [hx] at h
    cases hf : isOfIdentity f with
    | false =>
      simp only [hf] at h
      cases h
    | true =>
      simp only [hf, if_true] at h
      unfold failIdentity at h
      rw [execute_bind_ok (execute_tally ..), execute_log] at h
      obtain rfl := (Prod.mk.inj h).2
      exact .inl rfl
  · rw [hx] at h
    dsimp only at h
    rw [execute_bind_ok (execute_tally ..), execute_log] at h
    obtain rfl := (Prod.mk.inj h).2
    exact .inr ⟨rfl, rfl, a, w', Sync.transaction_eq_ok hx, rfl, rfl⟩

/-- If the job goes on, a record is gone, or it was synchronised again. -/
theorem resyncRecord_eq_ok (hid : id.toKey = .ok k)
    (h : execute (resyncRecord ctx id) st = (.ok (), st')) :
    st.world.store.find? k = none ∧ st' = st ∨
      (∃ r, st.world.store.find? k = some r) ∧
        execute (recordOutcome id (ctx.syncId id)) st = (.ok (), st') := by
  unfold resyncRecord at h
  rw [execute_bind_ok (execute_sync_ok (Sync.lookUp_run hid st.world))] at h
  cases hk : st.world.store.find? k with
  | none =>
    rw [hk] at h
    exact .inl ⟨rfl, (Prod.mk.inj h).2.symm⟩
  | some r =>
    rw [hk] at h
    exact .inr ⟨⟨r, rfl⟩, h⟩

/-! ## One record after the other -/

/-- What stands under the key of each record when its turn comes, beside the record. -/
def atTurn (ctx : Context) : Assoc Key Record → State → List (Record × Option Record)
  | [], _ => []
  | (k, r) :: rs, st =>
    (r, st.world.store.find? k) :: atTurn ctx rs (execute (resyncRecord ctx r.id) st).2

/-- Where a job stands that has met no failure. The records whose turn is to come are there, if they
were not retired, and what is done is done. -/
structure Pending (ctx : Context) (c : Scene) (s₀ : Store) (rs : Assoc Key Record) (s : Store) :
    Prop where
  wellFormed : s.WellFormed
  foreign : ∀ k r, ctx.owns r.ref = false → (s.find? k = some r ↔ s₀.find? k = some r)
  waiting : ∀ k r, (k, r) ∈ rs →
    (∃ r', s.find? k = some r' ∧ r.Becomes r') ∨ s.find? k = none ∧ ctx.Retires
  done : ∀ k r, s.find? k = some r → k ∉ rs.keys → ctx.owns r.ref = true → ctx.UpToDate c r

namespace Pending

theorem refl (h : s.WellFormed) : Pending ctx c s s.records s where
  wellFormed := h
  foreign := fun _ _ _ => Iff.rfl
  waiting := fun _ r hr => .inl ⟨r, h.find?_eq_some_iff.2 hr, .refl r⟩
  done := fun _ _ hr hk => absurd (List.mem_map_of_mem (h.find?_eq_some_iff.1 hr)) hk

/-- The next record is gone. -/
theorem skip (h : Pending ctx c s₀ ((k, r) :: rs) s) (hk : s.find? k = none) :
    Pending ctx c s₀ rs s where
  wellFormed := h.wellFormed
  foreign := h.foreign
  waiting j q hq := h.waiting j q (List.mem_cons_of_mem _ hq)
  done := by
    intro j q hq hj
    refine h.done j q hq ?_
    rw [Assoc.keys_cons, List.mem_cons, not_or]
    refine ⟨?_, hj⟩
    rintro rfl
    rw [hk] at hq
    cases hq

/-- The next record has its turn. -/
theorem turn (h : Pending ctx c s₀ ((k, r) :: rs) s) (hnew : k ∉ rs.keys)
    (ht : ctx.Resynced c k s s') : Pending ctx c s₀ rs s' where
  wellFormed := ht.wellFormed
  foreign j q hq := (ht.foreign j q hq).trans (h.foreign j q hq)
  waiting := by
    intro j q hq
    have hj : j ≠ k := by
      rintro rfl
      exact hnew (List.mem_map_of_mem hq)
    have hfares := ht.others j hj
    rcases h.waiting j q (List.mem_cons_of_mem _ hq) with ⟨q', hq', hb⟩ | ⟨hnone, hret⟩
    · rw [hq'] at hfares
      cases hs' : s'.find? j with
      | none =>
        rw [hs'] at hfares
        cases hfares with
        | retired hret => exact .inr ⟨rfl, hret⟩
      | some q'' =>
        rw [hs'] at hfares
        cases hfares with
        | aged ha => exact .inl ⟨q'', rfl, hb.trans ha.becomes⟩
    · -- what was deleted on behalf of another record does not come back
      rw [hnone] at hfares
      cases hs' : s'.find? j with
      | none => exact .inr ⟨rfl, hret⟩
      | some q'' =>
        rw [hs'] at hfares
        cases hfares with
        | arrived ha => exact absurd hret ha.created
  done := by
    intro j q hq hj hown
    by_cases hjk : j = k
    · subst hjk
      exact ht.own q hq hown
    · have hfares := ht.others j hjk
      rw [hq] at hfares
      obtain ⟨q₀, hq₀, ha⟩ | ⟨-, ha⟩ := hfares.of_some
      · refine Context.UpToDate.ages (h.done j q₀ hq₀ ?_ (ha.becomes.ref ▸ hown)) ha
        rw [Assoc.keys_cons, List.mem_cons, not_or]
        exact ⟨hjk, hj⟩
      · exact ha.upToDate

end Pending

/-- A part of a job on the records that are still to come: a failure is counted, and unless there is
one, each record has its turn as what it was, if it is still there, and is counted then. -/
theorem resync_run (s₀ : Store) (hf : ctx.Faithful) (hl : ctx.Loyal)
    (hids : ∀ k r, (k, r) ∈ rs → r.id.toKey = .ok k) (hd : rs.keys.Nodup)
    (h : execute (rs.forM fun p => resyncRecord ctx p.2.id) st = (.ok (), st')) :
    st.tally.failed ≤ st'.tally.failed ∧ (st'.tally.failed = st.tally.failed →
      Pending ctx st.world.scene s₀ rs st.world.store →
      Pending ctx st.world.scene s₀ [] st'.world.store ∧
      st'.tally.processed = st.tally.processed +
        ((atTurn ctx rs st).filter (·.2.isSome)).length ∧
      ∀ p ∈ atTurn ctx rs st, ∀ r, p.2 = some r → p.1.Becomes r) := by
  induction rs generalizing st with
  | nil =>
    obtain rfl := (Prod.mk.inj h).2
    exact ⟨Nat.le_refl _, fun _ hpend => ⟨hpend, rfl, fun _ hp => absurd hp List.not_mem_nil⟩⟩
  | cons p rs ih =>
    obtain ⟨k, r⟩ := p
    obtain ⟨hnew, hd⟩ := List.nodup_cons.1 hd
    obtain ⟨u, st₁, hrun, hrest⟩ := execute_bind_eq_ok.1 h
    obtain ⟨hle, hend⟩ := ih (fun j q hq => hids j q (List.mem_cons_of_mem _ hq)) hd hrest
    have hid := hids k r List.mem_cons_self
    have hturn : atTurn ctx ((k, r) :: rs) st
        = (r, st.world.store.find? k) :: atTurn ctx rs st₁ := by rw [atTurn, hrun]
    rw [hturn]
    rcases resyncRecord_eq_ok hid hrun with ⟨hnone, rfl⟩ | ⟨⟨r', hr'⟩, hrun⟩
    · refine ⟨hle, fun hfailed hpend => ?_⟩
      obtain ⟨hdone, hcount, hsame⟩ := hend hfailed (hpend.skip hnone)
      refine ⟨hdone, by rw [hcount, hnone]; rfl, fun p hp => ?_⟩
      rcases List.mem_cons.1 hp with rfl | hp
      · intro q hq
        rw [hnone] at hq
        cases hq
      · exact hsame p hp
    · rcases recordOutcome_eq_ok hrun with hmore | ⟨hsame, hone, a, w, hsync, hstore, hscene⟩
      · exact ⟨by omega, fun hfailed => by omega⟩
      · refine ⟨by omega, fun hfailed hpend => ?_⟩
        have hends := (Context.syncId_resynced (c := st.world.scene) hf hl hpend.wellFormed hid
          hr').holds st.world rfl rfl
        rw [hsync] at hends
        obtain ⟨hc, hresynced⟩ : w.scene = st.world.scene ∧
          ctx.Resynced st.world.scene k st.world.store w.store := hends
        rw [← hscene] at hc
        rw [← hstore] at hresynced
        rw [hc] at hend
        obtain ⟨hdone, hcount, hbecomes⟩ :=
          hend (hfailed.trans hsame.symm) (hpend.turn hnew hresynced)
        refine ⟨hdone, ?_, fun p hp => ?_⟩
        · rw [hcount, hone, hr', List.filter_cons_of_pos (by rfl), List.length_cons]
          omega
        · rcases List.mem_cons.1 hp with rfl | hp
          · intro q hq
            rcases hpend.waiting k r List.mem_cons_self with ⟨q', hq', hb⟩ | ⟨hnone, -⟩
            · obtain rfl : q' = q := Option.some.inj (hq'.symm.trans hq)
              exact hb
            · rw [hr'] at hnone
              cases hnone
          · exact hbecomes p hp

/-- After a job on all records in which no identity failed, every record of the provider is up to
date, records of other providers are as they were, and the job has counted the records that were
still there, each as what it was, when their turn came. -/
theorem perform_resync_fresh {m : Memory} {p : Policy} {d : Bool} (hm : m.Linked)
    (hp : p.provider = m.name) (hs : st.world.store.WellFormed)
    (hrun : execute (perform ⟨p, m.provider, d⟩ .resync) st = (.ok (), st'))
    (hfailed : st'.tally.failed = st.tally.failed) :
    (∀ k r, st'.world.store.find? k = some r → p.ownsOption r.ref = true →
      Context.UpToDate ⟨p, m.provider, d⟩ st.world.scene r) ∧
    (∀ k r, p.ownsOption r.ref = false →
      (st'.world.store.find? k = some r ↔ st.world.store.find? k = some r)) ∧
    st'.tally.processed = st.tally.processed +
      ((atTurn ⟨p, m.provider, d⟩ st.world.store.records st).filter (·.2.isSome)).length ∧
    ∀ q ∈ atTurn ⟨p, m.provider, d⟩ st.world.store.records st, ∀ r, q.2 = some r →
      q.1.Becomes r := by
  have hloop : execute (st.world.store.records.forM fun q =>
      resyncRecord ⟨p, m.provider, d⟩ q.2.id) st = (.ok (), st') := by
    rw [← hrun]
    have hids : st.world.store.ids = st.world.store.records.map fun q => q.2.id := by
      rw [Store.ids, Store.all, List.map_map]
      rfl
    show _ = execute (st.world.store.ids.forM (resyncRecord ⟨p, m.provider, d⟩)) st
    rw [hids]
    exact congrArg (execute · st) List.forM_map.symm
  obtain ⟨-, hend⟩ := resync_run st.world.store hm.faithful (hm.loyal hp)
    hs.own_keys hs.keys_nodup hloop
  obtain ⟨hdone, hcount, hsame⟩ := hend hfailed (.refl hs)
  exact ⟨fun k r hr hown => hdone.done k r hr List.not_mem_nil hown, hdone.foreign, hcount, hsame⟩

/-- The provider of the user whose groups are gone. -/
def lonely : Memory := ⟨.text "P", false, [(.text "u", Context.lonelyUser)]⟩

theorem linked_lonely : lonely.Linked where
  name := ⟨_, rfl⟩
  identities := by
    intro k i hi
    obtain ⟨rfl, rfl⟩ := Prod.mk.inj (List.mem_singleton.1 hi)
    exact ⟨rfl, rfl⟩

/-- A job that has not begun, on the user and its groups. -/
def beforeResync : State where
  world := { store := Context.userInTeam }
  files := {}

/-- The user is converted, and its group is deleted before its turn comes. -/
theorem perform_resync_fresh_userInTeam :
    lonely.Linked ∧ Context.userInTeam.WellFormed ∧ ∃ st',
      execute (perform ⟨Context.migrating.policy, lonely.provider, true⟩ .resync) beforeResync
        = (.ok (), st') ∧
      st'.tally.failed = 0 ∧ st'.world.store.find? (.text "g") = none ∧
      (∀ k r, st'.world.store.find? k = some r →
        Context.migrating.policy.ownsOption r.ref = true →
        Context.UpToDate ⟨Context.migrating.policy, lonely.provider, true⟩
          beforeResync.world.scene r) ∧
      st'.tally.processed = 2 ∧
      ((atTurn ⟨Context.migrating.policy, lonely.provider, true⟩
        Context.userInTeam.records beforeResync).filter (·.2.isSome)).length = 2 := by
  have hwf : Context.userInTeam.WellFormed := by decide
  obtain ⟨st', hrun, hfailed, hgone, hprocessed⟩ : ∃ st', execute (perform
      ⟨Context.migrating.policy, lonely.provider, true⟩ .resync) beforeResync = (.ok (), st') ∧
      st'.tally.failed = 0 ∧ st'.world.store.find? (.text "g") = none ∧
      st'.tally.processed = 2 := ⟨_, rfl, rfl, rfl, rfl⟩
  obtain ⟨hfresh, -, hcount, -⟩ := perform_resync_fresh linked_lonely rfl hwf hrun hfailed
  refine ⟨linked_lonely, hwf, st', hrun, hfailed, hgone, hfresh, hprocessed, ?_⟩
  rw [hprocessed] at hcount
  exact (hcount.trans (Nat.zero_add _)).symm

end Job

end Roster
