import Roster.Proofs.Effects
import Roster.Proofs.Entering

/-!
# Outcomes of the entry points

Synchronising an identity ends in one of three ways: the store is left as it was, the record of the
identity was created and synchronised, or it was synchronised (`Outcome`). Synchronising a record
again ends in one of three ways too: the store is left, the record was synchronised or it is gone
(`Refreshed`). Each of them says which status is reported. A synchronisation that fails has let the
store grow and then shrink within its remit, as one that does not fail.

* `sync_ends_in`, `syncId_ends_in`: the entry points.
* `sync_turns`, `syncId_turns`: all that either of them does to the store.
-/

namespace Roster

open Sync (Leaves Makes TurnsOver)

namespace Context

/-- The record under a key was synchronised now, and the answer tells what it is. -/
def Reports (c : Scene) (k : Key) (s : Store) (a : SyncResult) : Prop :=
  ∃ r, s.find? k = some r ∧ r.lastSynced = c.clock ∧ a.id = r.id ∧ a.ref = r.ref ∧
    a.group = r.group ∧ (c.clock ≠ .null → a.lastSynced = c.clock)

/-- What synchronising an identity comes to. -/
inductive Outcome (rm : Remit) (ctx : Context) (c : Scene) (i : Identity) (s : Store) :
    SyncResult → Store → Prop where
  | left {a : SyncResult} (ha : a.status = .nop ∨ a.status = .foreign) : Outcome rm ctx c i s a s
  | added {a : SyncResult} {k : Key} {s₁ s' : Store} (ha : a.status = .add)
    (hk : i.id.toKey = .ok k) (hnew : s.find? k = none)
    (hr : s₁.find? k = some (ctx.newRecord i i.isGroup)) (hg : rm.Changes .growing s s₁)
    (ht : rm.Turns s₁ s') (hrep : Reports c k s' a) : Outcome rm ctx c i s a s'
  | updated {a : SyncResult} {k : Key} {r : Record} {s' : Store} (ha : a.status = .update)
    (hk : i.id.toKey = .ok k) (hr : s.find? k = some r) (hown : ctx.owns r.ref = true)
    (hsame : sameType r i = true) (ht : rm.Turns s s') (hrep : Reports c k s' a) :
    Outcome rm ctx c i s a s'

/-- What synchronising a record again comes to. -/
inductive Refreshed (rm : Remit) (ctx : Context) (c : Scene) (id : Value) (s : Store) :
    SyncResult → Store → Prop where
  | left {a : SyncResult} (ha : a.status = .nop ∨ a.status = .foreign)
    (hr : ∀ k r, id.toKey = .ok k → s.find? k = some r → ctx.owns r.ref = false) :
    Refreshed rm ctx c id s a s
  | updated {a : SyncResult} {k : Key} {r : Record} {ref : Ref} {i : Identity} {s' : Store}
    (ha : a.status = .update) (hk : id.toKey = .ok k) (hr : s.find? k = some r)
    (href : r.ref = some ref) (hown : ctx.policy.owns ref = true)
    (hi : (ctx.provider.lookup ref).outcome = .ok (some i)) (hsame : sameType r i = true)
    (ht : rm.Turns s s') (hrep : Reports c k s' a) : Refreshed rm ctx c id s a s'
  | deleted {a : SyncResult} {k : Key} {r : Record} {ref : Ref} (ha : a.status = .delete)
    (hk : id.toKey = .ok k) (hr : s.find? k = some r) (href : r.ref = some ref)
    (hown : ctx.policy.owns ref = true) (hi : (ctx.provider.lookup ref).outcome = .ok none) :
    Refreshed rm ctx c id s a (s.without k)

variable {ctx : Context} {rm : Remit} {c : Scene} {s s' : Store} {k : Key} {r : Record}
  {i : Identity} {id : Value} {α : Type}

namespace Outcome

variable {a : SyncResult}

theorem turns (h : Outcome rm ctx c i s a s') : rm.Turns s s' := by
  cases h with
  | left _ => exact .refl s
  | added _ _ _ _ hg ht _ => exact .after hg ht
  | updated _ _ _ _ _ ht _ => exact ht

/-- Where there is a record that is not one of the provider, nothing happens. -/
theorem eq_of_foreign (h : Outcome rm ctx c i s a s') (hk : i.id.toKey = .ok k)
    (hr : s.find? k = some r) (hown : ctx.owns r.ref = false) : s' = s := by
  cases h with
  | left _ => rfl
  | added _ hj hnew _ _ _ _ =>
    obtain rfl := Except.ok.inj (hk.symm.trans hj)
    rw [hr] at hnew
    cases hnew
  | updated _ hj hq hown' _ _ _ =>
    obtain rfl := Except.ok.inj (hk.symm.trans hj)
    obtain rfl := Option.some.inj (hr.symm.trans hq)
    rw [hown] at hown'
    cases hown'

end Outcome

namespace Refreshed

variable {a : SyncResult}

theorem turns (h : Refreshed rm ctx c id s a s') (hrm : rm.Covers ctx)
    (ho : ∀ k, id.toKey = .ok k → rm.own k) : rm.Turns s s' := by
  cases h with
  | left _ _ => exact .refl s
  | updated _ _ _ _ _ _ _ ht _ => exact ht
  | deleted _ hk hr href hown _ =>
    rw [Store.without_eq_drop]
    refine .of_shrinking (.single (.remove hr (.inl (ho _ hk)) (hrm.owned _ ?_)))
    rw [href]
    exact hown

/-- Where there is a record that is not one of the provider, nothing happens. -/
theorem eq_of_foreign (h : Refreshed rm ctx c id s a s') (hk : id.toKey = .ok k)
    (hr : s.find? k = some r) (hown : ctx.owns r.ref = false) : s' = s := by
  have absurd_of_owned {j : Key} {q : Record} {ref : Ref} (hj : id.toKey = .ok j)
      (hq : s.find? j = some q) (href : q.ref = some ref) (ho : ctx.policy.owns ref = true) :
      False := by
    obtain rfl := Except.ok.inj (hk.symm.trans hj)
    obtain rfl := Option.some.inj (hr.symm.trans hq)
    rw [href] at hown
    exact Bool.false_ne_true (hown.symm.trans ho)
  cases h with
  | left _ _ => rfl
  | updated _ hj hq href ho _ _ _ _ => exact (absurd_of_owned hj hq href ho).elim
  | deleted _ hj hq href ho _ => exact (absurd_of_owned hj hq href ho).elim

end Refreshed

/-! ## Parts of the entry points -/

theorem resultOf_ends_in (hs : Stamped c k s) (status : Status) :
    Leaves c s (resultOf (.stored k) status) fun a => a.status = status ∧ Reports c k s a := by
  obtain ⟨t, rfl⟩ := hs
  unfold resultOf
  refine Leaves.bind (Leaves.record k) fun r hr => Leaves.pure ⟨rfl, r, hr, ?_⟩
  rw [Store.find?_modify, if_pos rfl] at hr
  obtain ⟨q, -, rfl⟩ := Option.map_eq_some_iff.1 hr
  refine ⟨rfl, rfl, rfl, rfl, fun hc => ?_⟩
  dsimp only
  split
  · next he =>
    split at he
    · next hnull => exact absurd hnull hc
    · cases he
  · rfl

theorem isExpired_leaves (r : Record) (expiration : Value) :
    Leaves c s (isExpired r expiration) fun _ => True := by
  unfold isExpired
  split
  · exact Leaves.pure trivial
  · refine Sync.Ends.get (fun _ w w' hc _ hc' _ => ?_) fun w _ _ => ?_
    · have hclock : w.clock = w'.clock := congrArg Scene.clock (hc.trans hc'.symm)
      simp only [hclock]
    · refine Leaves.bind (Leaves.result fun _ _ => trivial) fun _ _ => ?_
      split
      · exact Leaves.throw
      · exact Leaves.pure trivial

theorem channelFor_leaves (source : String) (id : Value) :
    Leaves c s (channelFor source id) fun _ => True :=
  channelFor_ends fun _ => ⟨rfl, trivial⟩

theorem guarded_ends_in {x : Sync α} {Q : α → Store → Prop} (subject : String)
    (hx : Sync.Ends c s x Q fun _ s' => rm.Turns s s') :
    Sync.Ends c s (guarded subject x) Q fun _ s' => rm.Turns s s' :=
  guarded_ends hx fun _ _ h => h

/-- A step that leaves the store comes before the rest. -/
theorem ends_after {β : Type} {x : Sync α} {f : α → Sync β} {P : α → Prop}
    {Q : β → Store → Prop} (hx : Leaves c s x P)
    (hf : ∀ a, P a → Sync.Ends c s (f a) Q fun _ s' => rm.Turns s s') :
    Sync.Ends c s (x >>= f) Q fun _ s' => rm.Turns s s' := by
  refine Sync.Ends.bind (hx.mono (fun _ _ h => h) ?_) ?_
  · rintro _ _ rfl
    exact .refl _
  · rintro a _ ⟨rfl, ha⟩
    exact hf a ha

theorem ends_ite {P : Prop} [Decidable P] {x y : Sync α} {Q : α → Store → Prop}
    {E : Failure → Store → Prop} (hx : P → Sync.Ends c s x Q E) (hy : ¬ P → Sync.Ends c s y Q E) :
    Sync.Ends c s (if P then x else y) Q E := by
  split
  · next h => exact hx h
  · next h => exact hy h

/-- A record that was marked as synchronised is reported. -/
theorem reports_ends_in {s₀ : Store} (ht : rm.Turns s₀ s) (hs : Stamped c k s) (status : Status) :
    Sync.Ends c s (resultOf (.stored k) status)
      (fun a s' => rm.Turns s₀ s' ∧ a.status = status ∧ Reports c k s' a)
      fun _ s' => rm.Turns s₀ s' := by
  refine Sync.Ends.mono (resultOf_ends_in hs status) ?_ ?_
  · rintro a _ ⟨rfl, ha⟩
    exact ⟨ht, ha⟩
  · rintro _ _ rfl
    exact ht

/-! ## Synchronising an identity -/

theorem updateIdentity_ends_in (h : rm.Covers ctx) (hs : s.WellFormed) (ho : rm.own k)
    (hid : i.id.toKey = .ok k) (hk : s.find? k = some r) (log : Option Channel) :
    Sync.Ends c s (ctx.updateIdentity i (.stored k) log) (Outcome rm ctx c i s)
      fun _ s' => rm.Turns s s' := by
  unfold updateIdentity
  refine Sync.Ends.step (Sync.Ends.record hk ?_)
  refine ends_after Leaves.requireKnown fun _ _ => ?_
  dsimp only
  split
  · exact ends_after (P := fun _ => False) Leaves.throw fun _ => False.elim
  next hsame =>
  have hsame : sameType r i = true := by simpa using hsame
  split
  · refine ends_after Leaves.log fun _ _ => ?_
    exact Sync.Ends.pure (.left (.inr rfl))
  next hown =>
  have hown : ctx.owns r.ref = true := by simpa using hown
  refine ends_after (isExpired_leaves r _) fun b _ => ?_
  split
  · refine Sync.Ends.bind (syncRecord_turns h hs ho _ _) ?_
    rintro _ s' ⟨ht, hstamp⟩
    refine Sync.Ends.mono (reports_ends_in ht hstamp _) ?_ fun _ _ ht => ht
    rintro a s'' ⟨ht, ha, hrep⟩
    exact .updated ha hid hk hown hsame ht hrep
  · refine ends_after Leaves.log fun _ _ => ?_
    unfold resultOf
    refine ends_after (Leaves.record k) fun q _ => ?_
    exact Sync.Ends.pure (.left (.inl rfl))

theorem addIdentity_ends_in (h : rm.Covers ctx) (hs : s.WellFormed)
    (ho : ∀ k, i.id.toKey = .ok k → rm.own k) (log : Channel) :
    Sync.Ends c s (ctx.addIdentity i log) (Outcome rm ctx c i s) fun _ s' => rm.Turns s s' := by
  unfold addIdentity
  refine Sync.Ends.bind (Sync.Ends.mono (Makes.create rfl h.born fun k hk => .inl (ho k hk))
    (fun _ _ h => h) fun _ _ h => .of_growing h) ?_
  rintro _ s₁ ⟨hg, k, rfl, hk, hnew, hr⟩
  refine Sync.Ends.bind (Sync.Ends.mono
    (syncRecord_turns h (hg.wellFormed hs) (ho k hk) _ _) (fun _ _ h => h)
    fun _ _ ht => .after hg ht) ?_
  rintro _ s₂ ⟨ht, hstamp⟩
  refine Sync.Ends.step (Sync.Ends.log ?_)
  refine Sync.Ends.mono (reports_ends_in ht hstamp _) ?_ fun _ _ ht => .after hg ht
  rintro a s' ⟨ht, ha, hrep⟩
  exact .added ha hk hnew hr hg ht hrep

theorem syncStandard_ends_in (h : rm.Covers ctx) (hs : s.WellFormed)
    (ho : ∀ k, i.id.toKey = .ok k → rm.own k) :
    Sync.Ends c s (ctx.syncStandard i) (Outcome rm ctx c i s) fun _ s' => rm.Turns s s' := by
  have hthrow {f : Failure} {g : PUnit → Sync SyncResult} :
      Sync.Ends c s (throw f >>= g) (Outcome rm ctx c i s) fun _ s' => rm.Turns s s' :=
    ends_after (P := fun _ => False) Leaves.throw fun _ => False.elim
  unfold syncStandard
  dsimp only
  refine ends_ite (fun _ => hthrow) fun _ => ?_
  refine ends_ite (fun _ => Sync.Ends.pure (Outcome.left (.inr rfl))) fun _ => ?_
  refine ends_after (channelFor_leaves _ _) fun log _ => ?_
  refine guarded_ends_in _ (ends_after (Leaves.lookUp i.id) ?_)
  rintro _ ⟨k, hk, rfl⟩
  cases hf : s.find? k with
  | none => exact addIdentity_ends_in h hs ho log
  | some r => exact updateIdentity_ends_in h hs (ho k hk) hk hf _

theorem syncExternalGroup_ends_in (h : rm.Covers ctx) (hs : s.WellFormed)
    (ho : ∀ k, i.id.toKey = .ok k → rm.own k) (hgroup : i.isGroup = true) (log : Option Channel) :
    Sync.Ends c s (ctx.syncExternalGroup i log) (Outcome rm ctx c i s)
      fun _ s' => rm.Turns s s' := by
  unfold syncExternalGroup
  refine ends_after (Leaves.lookUp i.id) ?_
  rintro _ ⟨k, hk, rfl⟩
  cases hf : s.find? k with
  | some r => exact updateIdentity_ends_in h hs (ho k hk) hk hf _
  | none =>
    refine ends_after (Leaves.shown _) fun _ _ => ?_
    split
    · refine ends_after Leaves.log fun _ _ => ?_
      refine ends_after Leaves.requireKnown fun _ _ => ?_
      refine Sync.Ends.bind (Sync.Ends.mono (Makes.create rfl h.born fun k hk => .inl (ho k hk))
        (fun _ _ h => h) fun _ _ h => .of_growing h) ?_
      rintro _ s₁ ⟨hg, j, rfl, hj, hnew, hr⟩
      refine Sync.Ends.step (Sync.Ends.audit ?_)
      refine Sync.Ends.bind (Sync.Ends.mono
        (TurnsOver.of_growing (syncGroup_makes h (hg.wellFormed hs) (.inl (ho j hj)) _))
        (fun _ _ h => h) fun _ _ ht => .after hg ht) ?_
      rintro _ s₂ ⟨ht, hstamp⟩
      refine Sync.Ends.mono (reports_ends_in ht hstamp _) ?_ fun _ _ ht => .after hg ht
      rintro a s' ⟨ht, ha, hrep⟩
      exact .added ha hj hnew (by rw [hgroup]; exact hr) hg ht hrep
    · refine ends_after Leaves.log fun _ _ => ?_
      exact Sync.Ends.pure (.left (.inl rfl))

/-- Synchronising an identity comes to one of its outcomes, or fails after changes of its own. -/
theorem sync_ends_in (h : rm.Covers ctx) (hs : s.WellFormed)
    (ho : ∀ k, i.id.toKey = .ok k → rm.own k) :
    Sync.Ends c s (ctx.sync i) (Outcome rm ctx c i s) fun _ s' => rm.Turns s s' := by
  unfold sync
  split
  · unfold syncDynamic
    split
    · exact Sync.Ends.throw (.refl s)
    · exact syncStandard_ends_in h hs ho
    · exact Sync.Ends.pure (.left (.inr rfl))
    · next hc =>
      have hgroup : i.isGroup = true := by
        unfold classify at hc
        split at hc
        · cases hc
        · cases hc
        · next hk => simp [Identity.isGroup, hk]
      refine ends_after (channelFor_leaves _ _) fun log _ => ?_
      exact guarded_ends_in _ (syncExternalGroup_ends_in h hs ho hgroup _)
  · exact syncStandard_ends_in h hs ho

/-! ## Synchronising a record again -/

theorem refresh_ends_in (h : rm.Covers ctx) (hs : s.WellFormed) (hid : id.toKey = .ok k)
    (ho : rm.own k) (hk : s.find? k = some r) {ref : Ref} (href : r.ref = some ref)
    (hown : ctx.policy.owns ref = true) (log : Channel) :
    Sync.Ends c s (ctx.refresh id (.stored k) r ref log) (Refreshed rm ctx c id s)
      fun _ s' => rm.Turns s s' := by
  unfold refresh
  refine ends_after (resolve_leaves ref) fun a ha => ?_
  cases a with
  | none =>
    have hnear (j : Key) (q : Record) (hj : id.toKey = .ok j) (hq : s.find? j = some q) :
        rm.Allows j q ∧ rm.near q.ref := by
      obtain rfl : k = j := Except.ok.inj (hid.symm.trans hj)
      obtain rfl : r = q := Option.some.inj (hk.symm.trans hq)
      refine ⟨.inl ho, h.owned _ ?_⟩
      rw [href]
      exact hown
    refine Sync.Ends.bind (Sync.Ends.mono (Makes.remove hnear) (fun _ _ h => h)
      fun _ _ h => .of_shrinking h) ?_
    rintro _ s' ⟨ht, j, hj, rfl⟩
    obtain rfl : k = j := Except.ok.inj (hid.symm.trans hj)
    refine Sync.Ends.step (Sync.Ends.shown_any (fun _ => ?_) fun _ => .of_shrinking ht)
    refine Sync.Ends.step (Sync.Ends.log ?_)
    exact Sync.Ends.pure (.deleted rfl hid hk href hown ha)
  | some i =>
    dsimp only
    split
    · refine ends_after (Leaves.shown _) fun _ _ => ?_
      exact ends_after (P := fun _ => False) Leaves.throw fun _ => False.elim
    next hsame =>
    have hsame : sameType r i = true := by simpa using hsame
    refine Sync.Ends.bind (syncRecord_turns h hs ho _ _) ?_
    rintro _ s' ⟨ht, hstamp⟩
    refine Sync.Ends.mono (reports_ends_in ht hstamp _) ?_ fun _ _ ht => ht
    rintro a s'' ⟨ht, hst, hrep⟩
    exact .updated hst hid hk href hown ha hsame ht hrep

/-- Synchronising a record again comes to one of its outcomes, or fails after changes of its own. -/
theorem syncId_ends_in (h : rm.Covers ctx) (hs : s.WellFormed)
    (ho : ∀ k, id.toKey = .ok k → rm.own k) :
    Sync.Ends c s (ctx.syncId id) (Refreshed rm ctx c id s) fun _ s' => rm.Turns s s' := by
  unfold syncId
  refine ends_after (Leaves.lookUp id) ?_
  rintro _ ⟨k, hk, rfl⟩
  cases hf : s.find? k with
  | none =>
    refine ends_after Leaves.log fun _ _ => ?_
    refine Sync.Ends.pure (.left (.inl rfl) fun j r hj hr => ?_)
    obtain rfl : k = j := Except.ok.inj (hk.symm.trans hj)
    rw [hf] at hr
    cases hr
  | some r =>
    have hforeign {a : SyncResult} (ha : a.status = .foreign) (hown : ctx.owns r.ref = false) :
        Refreshed rm ctx c id s a s := by
      refine .left (.inr ha) fun j q hj hq => ?_
      obtain rfl : k = j := Except.ok.inj (hk.symm.trans hj)
      obtain rfl : r = q := Option.some.inj (hf.symm.trans hq)
      exact hown
    simp only [Option.map_some]
    cases href : r.ref with
    | none => exact Sync.Ends.pure (hforeign rfl (by rw [href]; rfl))
    | some ref =>
      dsimp only
      split
      · next hown =>
        refine Sync.Ends.pure (hforeign rfl ?_)
        rw [href]
        simpa [owns, Policy.ownsOption] using hown
      · next hown =>
        refine ends_after (channelFor_leaves _ _) fun log _ => ?_
        have howned : ctx.policy.owns ref = true := by simpa using hown
        exact guarded_ends_in _ (refresh_ends_in h hs hk (ho k hk) hf href howned log)

/-! ## Either of them -/

theorem sync_turns (h : rm.Covers ctx) (hs : s.WellFormed)
    (ho : ∀ k, i.id.toKey = .ok k → rm.own k) :
    TurnsOver rm c s (ctx.sync i) fun _ _ => True :=
  (sync_ends_in h hs ho).mono (fun _ _ h => ⟨h.turns, trivial⟩) fun _ _ h => h

theorem syncId_turns (h : rm.Covers ctx) (hs : s.WellFormed)
    (ho : ∀ k, id.toKey = .ok k → rm.own k) :
    TurnsOver rm c s (ctx.syncId id) fun _ _ => True :=
  (syncId_ends_in h hs ho).mono (fun _ _ hr => ⟨hr.turns h ho, trivial⟩) fun _ _ h => h

end Context

end Roster
