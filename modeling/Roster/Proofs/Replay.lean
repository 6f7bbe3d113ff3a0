import Mathlib.Data.Fintype.EquivFin
import Roster.Proofs.Migration
import Roster.Proofs.Soundness

/-!
# Failed identities leave no trace

A job that synchronises users ends in the store that synchronising only those of them leads to that
did not fail, each with the result that the job saw: a failed one is rolled back, and what the
others do depends on store and scene only. This holds as far as a store survives going back; the one
reference that is written and read back well but is lost in a snapshot is that with the empty id and
no provider (`perform_users_replay`).

* `Job.outcomes`: what becomes of each id in the course of the job.
* `Job.Replayed`: how the state after a part of a job is related to the one before it.
* `Job.LeavesNoTrace`: what a whole job promises of those that fail.
-/

namespace Roster

namespace Tally

variable {t t' : Tally} {s : Status} {text : String} {done lost : Nat}

/-- The numbers of the outcomes add up. -/
theorem sum_count (t : Tally) : (Status.all.map t.count).sum = t.statuses.length := by
  show (Status.all.map fun s => t.statuses.count s).sum = _
  generalize t.statuses = statuses
  induction statuses with
  | nil => rfl
  | cons s statuses ih =>
    simp only [Status.all, List.map_cons, List.map_nil, List.sum_cons, List.sum_nil,
      List.count_cons, List.length_cons] at ih ⊢
    cases s <;> simp <;> omega

/-- From one tally to the other some identities were synchronised and some failed. -/
structure Counts (t t' : Tally) (done lost : Nat) : Prop where
  processed : t'.processed = t.processed + done
  statuses : t'.statuses.length = t.statuses.length + done
  failed : t'.failed = t.failed + lost
  failures : t'.failures.length = t.failures.length + lost

theorem Counts.refl (t : Tally) : t.Counts t 0 0 := ⟨rfl, rfl, rfl, rfl⟩

theorem Counts.of_add (h : (t.add s).Counts t' done lost) : t.Counts t' (done + 1) lost where
  processed := h.processed.trans (Nat.add_right_comm ..)
  statuses := by
    have := h.statuses
    simp only [add, List.length_append, List.length_singleton] at this
    omega
  failed := h.failed
  failures := h.failures

theorem Counts.of_fail (h : (t.fail text).Counts t' done lost) :
    t.Counts t' done (lost + 1) where
  processed := h.processed
  statuses := h.statuses
  failed := h.failed.trans (Nat.add_right_comm ..)
  failures := by
    have := h.failures
    simp only [fail, List.length_append, List.length_singleton] at this
    omega

end Tally

namespace Job

variable {ctx : Context} {m : Memory} {c : Scene} {st st' st'' : State} {x : Sync SyncResult}
  {id : Value} {ids : List Value}

/-- What becomes of each id, in the state that the ids before it leave. -/
def outcomes (ctx : Context) : List Value → State → List (Value × Except Failure SyncResult)
  | [], _ => []
  | id :: ids, st =>
    (id, (Sync.transaction (syncUser ctx id) st.world).1) ::
      outcomes ctx ids (execute (recordOutcome id (syncUser ctx id)) st).2

/-- The ids that did not fail, with their results. -/
def succeeded (outcomes : List (Value × Except Failure SyncResult)) : List (Value × SyncResult) :=
  outcomes.filterMap fun p => p.2.toOption.map fun r => (p.1, r)

/-- A part of a job that synchronises users went from one state to another: synchronising those
users that did not fail goes the same way, and all are counted. -/
structure Replayed (ctx : Context) (ids : List Value) (st st' : State) : Prop where
  replay : ∀ w : World, w.scene = st.world.scene → w.store = st.world.store → ∃ w',
    ((succeeded (outcomes ctx ids st)).map (·.1)).mapM (syncUser ctx) w
      = (.ok ((succeeded (outcomes ctx ids st)).map (·.2)), w') ∧
    w'.store = st'.world.store
  counts : ∃ lost, (succeeded (outcomes ctx ids st)).length + lost = ids.length ∧
    st.tally.Counts st'.tally (succeeded (outcomes ctx ids st)).length lost

/-! ## One identity -/

/-- An identity is synchronised and counted, or it fails, is counted and leaves the store as its
snapshot is read. -/
theorem recordOutcome_run (hwf : st.world.store.WellFormed) (ht : st.world.store.Typed)
    {Q : SyncResult → Store → Prop}
    (hx : Sync.Ends st.world.scene st.world.store x Q Context.Concerns) (id : Value) :
    ∃ st', execute (recordOutcome id x) st = (.ok (), st') ∧
      st'.world.scene = st.world.scene ∧
      ((∃ r w', (Sync.transaction x st.world).1 = .ok r ∧ x st.world = (.ok r, w') ∧
          Q r st'.world.store ∧ st'.world.store = w'.store ∧ st'.tally = st.tally.add r.status) ∨
        ∃ f text, (Sync.transaction x st.world).1 = .error f ∧
          st'.world.store = st.world.store.reread ∧ st'.tally = st.tally.fail text) := by
  obtain ⟨document, hd, -⟩ := Store.read_snapshot hwf ht
  have he := hx.holds st.world rfl rfl
  unfold recordOutcome
  rw [execute_bind_ok (execute_attempt ..)]
  rcases hr : x st.world with ⟨f | r, w'⟩
  · rw [hr] at he
    have hg : w'.generation = st.world.generation := congrArg Scene.generation he.1
    obtain ⟨notes, hback⟩ := Sync.transaction_reread hwf ht hr hg
    have hf : isOfIdentity f = true := he.2
    rw [hback]
    simp only [hf, if_true]
    unfold failIdentity
    rw [execute_bind_ok (execute_tally ..), execute_log]
    exact ⟨_, rfl, he.1, .inr ⟨f, _, rfl, rfl, rfl⟩⟩
  · rw [hr] at he
    rw [Sync.transaction_ok hd hr]
    dsimp only
    rw [execute_bind_ok (execute_tally ..), execute_log]
    exact ⟨_, rfl, he.1, .inl ⟨r, w', rfl, rfl, he.2, rfl, rfl⟩⟩

/-! ## One identity after the other -/

theorem outcomes_cons (h : execute (recordOutcome id (syncUser ctx id)) st = (.ok (), st')) :
    outcomes ctx (id :: ids) st
      = (id, (Sync.transaction (syncUser ctx id) st.world).1) :: outcomes ctx ids st' := by
  rw [outcomes, h]

theorem succeeded_cons_ok {r : SyncResult} (os : List (Value × Except Failure SyncResult)) :
    succeeded ((id, .ok r) :: os) = (id, r) :: succeeded os := rfl

theorem succeeded_cons_error {f : Failure} (os : List (Value × Except Failure SyncResult)) :
    succeeded ((id, .error f) :: os) = succeeded os := rfl

/-- The first user is synchronised. -/
theorem Replayed.cons_ok (h : Replayed ctx ids st' st'') {r : SyncResult}
    (hrun : execute (recordOutcome id (syncUser ctx id)) st = (.ok (), st'))
    (ho : (Sync.transaction (syncUser ctx id) st.world).1 = .ok r)
    (hsync : ∀ w : World, w.scene = st.world.scene → w.store = st.world.store → ∃ w',
      syncUser ctx id w = (.ok r, w') ∧ w'.scene = st'.world.scene ∧
      w'.store = st'.world.store)
    (htally : st'.tally = st.tally.add r.status) : Replayed ctx (id :: ids) st st'' := by
  have hos : succeeded (outcomes ctx (id :: ids) st)
      = (id, r) :: succeeded (outcomes ctx ids st') := by
    rw [outcomes_cons hrun, ho, succeeded_cons_ok]
  constructor
  · intro w hw hs
    obtain ⟨w₁, hr, hw₁, hs₁⟩ := hsync w hw hs
    obtain ⟨w₂, hreplay, hs₂⟩ := h.replay w₁ hw₁ hs₁
    refine ⟨w₂, ?_, hs₂⟩
    rw [hos, List.map_cons, List.map_cons, List.mapM_cons, Sync.bind_apply_ok hr,
      Sync.bind_apply_ok hreplay]
    rfl
  · obtain ⟨lost, hlen, hcounts⟩ := h.counts
    rw [htally] at hcounts
    rw [hos, List.length_cons, List.length_cons]
    exact ⟨lost, by omega, hcounts.of_add⟩

/-- The first user fails. -/
theorem Replayed.cons_error (h : Replayed ctx ids st' st'') {f : Failure} {text : String}
    (hrun : execute (recordOutcome id (syncUser ctx id)) st = (.ok (), st'))
    (ho : (Sync.transaction (syncUser ctx id) st.world).1 = .error f)
    (hscene : st'.world.scene = st.world.scene) (hstore : st'.world.store = st.world.store)
    (htally : st'.tally = st.tally.fail text) : Replayed ctx (id :: ids) st st'' := by
  have hos : succeeded (outcomes ctx (id :: ids) st) = succeeded (outcomes ctx ids st') := by
    rw [outcomes_cons hrun, ho, succeeded_cons_error]
  constructor
  · intro w hw hs
    rw [hos]
    exact h.replay w (hw.trans hscene.symm) (hs.trans hstore.symm)
  · obtain ⟨lost, hlen, hcounts⟩ := h.counts
    rw [htally] at hcounts
    rw [hos, List.length_cons]
    exact ⟨lost + 1, by omega, hcounts.of_fail⟩

/-- The users that a job synchronises are replayed without those that fail. -/
theorem users_run (h : ctx.Working m c Ref.Stable) (hu : c.Uncounted)
    (hids : ∀ id ∈ ids, id.IsText) (hc : st.world.scene = c)
    (hs : st.world.store.Sound Ref.Stable) :
    ∃ st', execute (ids.forM fun id => recordOutcome id (syncUser ctx id)) st = (.ok (), st') ∧
      Replayed ctx ids st st' := by
  induction ids generalizing st with
  | nil => exact ⟨st, rfl, fun w _ hw => ⟨w, rfl, hw⟩, 0, rfl, .refl _⟩
  | cons id ids ih =>
    subst hc
    have hx := h.syncUser_by_id_ends hs (hids id List.mem_cons_self)
    obtain ⟨st', hrun, hscene, hcase⟩ := recordOutcome_run hs.wellFormed hs.typed hx id
    have hs' : st'.world.store.Sound Ref.Stable := by
      rcases hcase with ⟨r, w', -, -, hs', -⟩ | ⟨f, text, -, hstore, -⟩
      · exact hs'
      · rw [hstore, hs.reread_eq]
        exact hs
    obtain ⟨st'', hrest, hrep⟩ :=
      ih (fun id hid => hids id (List.mem_cons_of_mem _ hid)) hscene hs'
    refine ⟨st'', (execute_bind_ok hrun).trans hrest, ?_⟩
    rcases hcase with ⟨r, w', ho, hr, -, hstore, htally⟩ | ⟨f, text, ho, hstore, htally⟩
    · refine hrep.cons_ok hrun ho (fun w hw hws => ?_) htally
      obtain ⟨ho', hs'⟩ := hx.same hu w st.world hw hws rfl rfl
      have hheld := hx.holds w hw hws
      rcases hv : syncUser ctx id w with ⟨o, v⟩
      rw [hv, hr] at ho' hs'
      obtain rfl : o = .ok r := ho'
      rw [hv] at hheld
      exact ⟨v, rfl, hheld.1.trans hscene.symm, hs'.trans hstore.symm⟩
    · exact hrep.cons_error hrun ho hscene (hstore.trans hs.reread_eq) htally

/-! ## Whole jobs -/

/-- A job that synchronises the users with the given ids ends in the store that synchronising only
those of them leads to that do not fail in it, each with the result that it has in the job; the
statistics count these, and the failures are the others. -/
def LeavesNoTrace (ctx : Context) (ids : List Value) (st : State) : Prop :=
  ∃ st' done, execute (perform ctx (.users (.list ids))) st = (.ok (), st') ∧
    done = succeeded (outcomes ctx ids st) ∧
    (∀ w : World, w.scene = st.world.scene → w.store = st.world.store → ∃ w',
      (done.map (·.1)).mapM (syncUser ctx) w = (.ok (done.map (·.2)), w') ∧
      w'.store = st'.world.store) ∧
    st'.tally.processed = done.length ∧ (Status.all.map st'.tally.count).sum = done.length ∧
    st'.tally.failed = st'.tally.failures.length ∧
    st'.tally.processed + st'.tally.failed = ids.length

theorem execute_perform_users (ids : List Value) (st : State) :
    execute (perform ctx (.users (.list ids))) st
      = execute (ids.forM fun id => recordOutcome id (syncUser ctx id)) st := rfl

theorem Replayed.leavesNoTrace (h : Replayed ctx ids st st')
    (hrun : execute (ids.forM fun id => recordOutcome id (syncUser ctx id)) st = (.ok (), st'))
    (ht : st.tally = {}) : LeavesNoTrace ctx ids st := by
  obtain ⟨lost, hlen, hcounts⟩ := h.counts
  obtain ⟨hprocessed, hstatuses, hfailed, hfailures⟩ := hcounts
  rw [ht] at hprocessed hstatuses hfailed hfailures
  rw [Nat.zero_add] at hprocessed hfailed
  rw [List.length_nil, Nat.zero_add] at hstatuses hfailures
  refine ⟨st', _, hrun, rfl, h.replay, hprocessed, ?_, hfailed.trans hfailures.symm, ?_⟩
  · rw [Tally.sum_count, hstatuses]
  · rw [hprocessed, hfailed, hlen]

/-- If even the failure of a user that the provider does not know leaves no trace, all references of
the store are stable. -/
theorem LeavesNoTrace.stable (hb : ctx.Backed m) (hwf : st.world.store.WellFormed)
    (ht : st.world.store.Typed) {t : String} (hu : m.identities.lookup (.text t) = none)
    (h : LeavesNoTrace ctx [.text t] st) :
    ∀ r ∈ st.world.store.all, ∀ q, r.ref = some q → q.Stable := by
  obtain ⟨st', hrun, -, hcase⟩ := recordOutcome_run hwf ht (hb.unknown_user_ends hu) (.text t)
  obtain ⟨r, w', -, -, hfalse, -⟩ | ⟨f, text, ho, hstore, -⟩ := hcase
  · exact hfalse.elim
  obtain ⟨st'', done, hjob, rfl, hreplay, -⟩ := h
  have hjob' : execute (perform ctx (.users (.list [.text t]))) st = (.ok (), st') := by
    rw [execute_perform_users]
    exact execute_bind_ok hrun
  obtain rfl : st' = st'' := congrArg Prod.snd (hjob'.symm.trans hjob)
  have hnone : succeeded (outcomes ctx [.text t] st) = [] := by
    rw [outcomes_cons hrun, ho, succeeded_cons_error]
    rfl
  rw [hnone] at hreplay
  obtain ⟨w', hw', hs'⟩ := hreplay st.world rfl rfl
  have hsame : w' = st.world := (congrArg Prod.snd hw').symm
  rw [hsame, hstore] at hs'
  exact (Store.reread_eq_iff ht).1 hs'.symm

theorem exists_unknown (m : Memory) : ∃ t : String, m.identities.lookup (.text t) = none := by
  obtain ⟨t, ht⟩ := Infinite.exists_notMem_finset
    (m.identities.keys.filterMap fun k => k.asText.text?).toFinset
  refine ⟨t, List.lookup_eq_none_iff.2 fun p hp => ?_⟩
  rw [bne_iff_ne]
  intro hk
  refine ht (List.mem_toFinset.2 (List.mem_filterMap.2 ⟨p.1, List.mem_map_of_mem hp, ?_⟩))
  rw [← hk]
  rfl

/-- Nothing fails but lookups of given ids, all data is typed, the provider's name is not empty and
has no semicolon, and all references of the store survive being written. Then no job on users leaves
a trace of those that fail, unless a record has the reference with the empty id and no provider: of
this one a failure leaves nothing. -/
theorem perform_users_replay {p : Policy} {d : Bool} {name : String} (hp : p.Typed) (hm : m.Typed)
    (hprovider : p.provider = m.name) (hname : m.name = .text name) (hne : name ≠ "")
    (hsemicolon : ';' ∉ name.toList) (hclock : st.world.clock.IsTime)
    (hstore : st.world.faults.store = []) (hcount : st.world.scene.Uncounted)
    (hwf : st.world.store.WellFormed) (ht : st.world.store.Typed)
    (hrefs : ∀ r ∈ st.world.store.all, ∀ q, r.ref = some q → q.Survives) (htally : st.tally = {}) :
    (∀ ids : List String,
      LeavesNoTrace ⟨p, m.provider, d⟩ (ids.map fun id => .text id) st) ↔
    ∀ r ∈ st.world.store.all, r.ref ≠ some ⟨.text "", .null⟩ := by
  have hback : (Context.mk p m.provider d).Backed m := ⟨rfl, hprovider, hm, hp⟩
  constructor
  · intro h r hr href
    obtain ⟨t, hu⟩ := exists_unknown m
    have hstable := (h [t]).stable hback hwf ht hu r hr _ href
    exact ((Ref.stable_iff_survives ((ht r hr).ref _ href)).1 hstable).2 rfl
  · intro h ids
    have hsound : st.world.store.Sound Ref.Stable := by
      refine ⟨hwf, ht, fun r hr q hq => ?_⟩
      refine (Ref.stable_iff_survives ((ht r hr).ref q hq)).2 ⟨hrefs r hr q hq, ?_⟩
      rintro rfl
      exact h r hr hq
    have hworking : (Context.mk p m.provider d).Working m st.world.scene Ref.Stable :=
      { hback with
        works := fun op id hmay => by
          simp [Scene.MayRefuse, Scene.plans, World.scene, hstore] at hmay
          exact hcount.2 hmay
        time := hclock
        refs := fun id => .inl ⟨name, hname, hne, hsemicolon⟩ }
    have hids : ∀ id ∈ ids.map fun id => (.text id : Value), id.IsText := by
      intro id hid
      obtain ⟨t, -, rfl⟩ := List.mem_map.1 hid
      exact ⟨t, rfl⟩
    obtain ⟨st', hrun, hreplayed⟩ := users_run hworking hcount hids rfl hsound
    exact hreplayed.leavesNoTrace hrun htally

/-- A job on a store where a user is in a group, in which one of the groups cannot be looked up. -/
def partly : State where
  world := { store := userInGroup, faults := { resolve := [.text "h"] } }
  files := {}

theorem perform_users_replay_unknown :
    (∀ r ∈ userInGroup.all, r.ref ≠ some ⟨.text "", .null⟩) ∧
      LeavesNoTrace ⟨Context.twoHops, Context.cyclicGroups.provider, true⟩
        [.text "u", .text "unknown", .text "u"] partly := by
  have hrefs : ∀ r ∈ userInGroup.all, r.ref ≠ some ⟨.text "", .null⟩ := by
    simp [Store.all, userInGroup]
  have hsurvive : ∀ r ∈ userInGroup.all, ∀ q, r.ref = some q → q.Survives := fun r hr q hq =>
    ((Ref.stable_iff_survives ((sound_userInGroup.typed r hr).ref q hq)).1
      (sound_userInGroup.refs r hr q hq)).1
  have hname : Context.cyclicGroups.name = .text "P" := rfl
  exact ⟨hrefs, (perform_users_replay Context.typed_twoHops Context.typed_cyclicGroups rfl hname
    (by decide) (by decide) (Value.isTime_int (by decide)) rfl (.of_faults rfl rfl)
    wellFormed_userInGroup sound_userInGroup.typed hsurvive rfl).2 hrefs ["u", "unknown", "u"]⟩

/-- A user whose reference has the empty id and no provider. -/
def blankRef : Store where
  records := [(.text "u", {
    id := .text "u", group := .bool false, principalName := .text "User"
    ref := some ⟨.text "", .null⟩ })]

/-- A user that is not found takes the reference of another one along. -/
theorem perform_users_not_replay :
    blankRef.WellFormed ∧ blankRef.Typed ∧
      (∀ r ∈ blankRef.all, ∀ q, r.ref = some q → q.Survives) ∧
      ¬ LeavesNoTrace ⟨Context.twoHops, Memory.provider { name := .text "P" }, false⟩
        [.text "unknown"] { world := { store := blankRef }, files := {} } := by
  have hwf : blankRef.WellFormed := by decide
  have ht : blankRef.Typed := by
    intro r hr
    obtain rfl := List.mem_singleton.1 hr
    exact {
      id := ⟨_, rfl⟩, group := ⟨_, rfl⟩, principalName := ⟨_, rfl⟩
      ref := by rintro q ⟨rfl⟩; exact ⟨⟨_, rfl⟩, .inl rfl⟩
      mode := ⟨_, rfl⟩, lastSynced := .inl rfl, names := nofun, properties := ⟨_, rfl⟩ }
  refine ⟨hwf, ht, fun r hr q hq => ?_, fun h => ?_⟩
  · obtain rfl := List.mem_singleton.1 hr
    obtain rfl := Option.some.inj hq
    exact ⟨"", rfl, rfl⟩
  · have hm : Memory.Typed { name := .text "P" } := ⟨⟨_, rfl⟩, fun _ _ hi => nomatch hi⟩
    have hstable := h.stable (m := { name := .text "P" })
      ⟨rfl, rfl, hm, Context.typed_twoHops⟩ hwf ht rfl _ List.mem_cons_self _ rfl
    simp [Ref.Stable] at hstable

end Job

end Roster
