import Roster.Proofs.Migration
import Roster.Proofs.Soundness

/-!
# Failures that escape

Lookups, mappings to names and operations of the store may fail in any pattern: a failure is planned
for ids, for operations of the store on ids, for all lookups after a number of them, and for the turns
of single calls (`Faults`). The turns alone cover every pattern, for calls that are alike have
different turns. From typed data, whatever the pattern, an entry point is left with an answer or with
a failure of the synchronisation, which has a planned failure as its cause unless it says that types
differ (`only_reports_escape`).

What is tolerated is never a cause: collecting names always succeeds, and of removals only the one
of the record itself, whose identity is gone, is a cause. A failed lookup is one only where groups
are looked up for member lists or for placeholders (`LooksUp`), or where it is that of the record
itself; then nothing has happened yet.
-/

namespace Roster

namespace Context

/-- Groups are looked up when an identity is synchronised. -/
def LooksUpFor (ctx : Context) (s : Store) (i : Identity) : Prop :=
  i.isGroup = false ∧ ∃ k, i.id.toKey = .ok k ∧ ctx.LooksUp s k

/-- Groups are looked up when the record with an id is synchronised again. -/
def LooksUpAgain (ctx : Context) (s : Store) (id : Value) : Prop :=
  ∃ k r, id.toKey = .ok k ∧ s.find? k = some r ∧ r.isGroup = false ∧ ctx.LooksUp s k

/-- A planned failure of what synchronising a record again begins with: the lookup of its identity,
or its removal. The store is as it was. -/
def StopsAtOnce (c : Scene) (s : Store) (id : Value) (s' : Store) (f : Failure) : Prop :=
  s' = s ∧ (c.LookupFails f ∨ f = .refused .removeRecord id ∧ c.MayRefuse .removeRecord id)

variable {ctx : Context} {m : Memory} {c : Scene} {P : Ref → Prop} {k : Key} {r : Record}
  {s : Store} {id : Value} {L : Prop}

theorem StopsAtOnce.isA {s' : Store} {f : Failure} (h : StopsAtOnce c s id s' f) :
    (f.isA .store || f.isA .lookup) = true := by
  rcases h with ⟨-, hf | ⟨rfl, -⟩⟩
  · rw [hf.1, Bool.or_true]
  · rfl

namespace Running

variable (h : ctx.Running m c P)
include h

/-- The record goes where its identity is gone; otherwise it is synchronised, if the types agree. -/
theorem refresh_ends (hl : r.isGroup = false → ctx.LooksUp s k → L) (hs : s.Sound P)
    (hid : id.IsText) (hkey : id.toKey = .ok k) (hk : s.find? k = some r) {ref : Ref}
    (href : r.ref = some ref) (log : Channel) :
    Sync.Ends c s (ctx.refresh id (.stored k) r ref log) (fun _ _ => True)
      (fun f s' => (c.Interrupts L f ∨ StopsAtOnce c s id s' f) ∨ f.IsMismatch) := by
  have hr := hs.typed r (Store.mem_all_of_find? hk)
  have hq := hr.ref ref href
  have hshown : ∀ q, some ref = some q → q.Typed := by
    rintro _ ⟨rfl⟩
    exact hq
  unfold refresh
  refine Sync.Ends.bind ((h.fetch_ends hq).mono (fun _ _ ha => ha) ?_) ?_
  · rintro f s' ⟨hs', hf⟩
    exact .inl (.inr ⟨hs', .inl hf⟩)
  rintro a s ⟨rfl, ha⟩
  cases a with
  | none =>
    refine Sync.Ends.bind ((remove_ends hid hkey hk).mono (fun _ _ ha => ha)
      fun _ _ hf => .inl (.inr ⟨hf.1, .inr hf.2⟩)) ?_
    rintro _ s' -
    refine Sync.Ends.step (Sync.Ends.shown hshown fun _ => ?_)
    refine Sync.Ends.step (Sync.Ends.log ?_)
    exact Sync.Ends.pure trivial
  | some i =>
    obtain ⟨a, ha', hholds⟩ := h.memory.resolve hq
    obtain rfl : a = some i := Except.ok.inj (ha'.symm.trans ha)
    have hi : i.Typed := (hholds i rfl).typed
    dsimp only
    by_cases hsame : sameType r i = true
    · rw [if_neg (by simp [hsame])]
      refine Sync.Ends.bind ((h.syncRecord_ends hl hs hi ⟨r, hk⟩).mono (fun _ _ ha => ha)
        fun _ _ hf => .inl (.inl hf)) ?_
      rintro _ s' ⟨-, q, hq'⟩
      exact resultOf_ends hq' fun _ _ => trivial
    · rw [if_pos (by simp [hsame])]
      refine Sync.Ends.step (Sync.Ends.shown hshown fun _ => ?_)
      exact Sync.Ends.throw_bind (.inr trivial)

/-- Synchronising a record again reports what interrupts it. -/
theorem syncId_ends (hs : s.Sound P) (hid : id.IsText) (hkey : id.toKey = .ok k)
    (hl : ∀ r, s.find? k = some r → r.isGroup = false → ctx.LooksUp s k → L) :
    Sync.Ends c s (ctx.syncId id) (fun _ _ => True)
      (fun f s' => f.Reports fun cause => c.Interrupts L cause ∨ StopsAtOnce c s id s' cause) := by
  unfold syncId
  refine Sync.Ends.step (Sync.Ends.lookUp hkey ?_)
  cases hk : s.find? k with
  | none =>
    simp only [Option.map_none]
    refine Sync.Ends.step (Sync.Ends.log ?_)
    exact Sync.Ends.pure trivial
  | some r =>
    simp only [Option.map_some]
    cases href : r.ref with
    | none => exact Sync.Ends.pure trivial
    | some ref =>
      dsimp only
      split
      · exact Sync.Ends.pure trivial
      · refine Sync.Ends.step (channelFor_ends fun log => ?_)
        refine guarded_reports_ends (C := fun s' f => c.Interrupts L f ∨ StopsAtOnce c s id s' f)
          (fun _ _ hf => hf.elim Scene.Interrupts.isA StopsAtOnce.isA) ?_
        exact h.refresh_ends (hl r hk) hs hid hkey hk href log

end Running

/-- Whatever failures are planned, from typed data a synchronisation gives an answer or fails as a
synchronisation does: because types differ, or on account of a planned failure. Names are collected
in any case. -/
theorem only_reports_escape {p : Policy} {m : Memory} (dynamic : Bool) {w : World} (hp : p.Typed)
    (hm : m.Typed) (hs : w.store.WellFormed) (ht : w.store.Typed) (hclock : w.clock.IsTime) :
    (∀ i : Identity, i.Typed →
      (∃ a w', (Context.mk p m.provider dynamic).sync i w = (.ok a, w')) ∨
      ∃ f w', (Context.mk p m.provider dynamic).sync i w = (.error f, w') ∧ f.kind = .sync ∧
        f.Reports (w.scene.Interrupts
          ((Context.mk p m.provider dynamic).LooksUpFor w.store i))) ∧
    (∀ id : Value, id.IsText →
      (∃ a w', (Context.mk p m.provider dynamic).syncId id w = (.ok a, w')) ∨
      ∃ f w', (Context.mk p m.provider dynamic).syncId id w = (.error f, w') ∧ f.kind = .sync ∧
        f.Reports fun cause =>
          w.scene.Interrupts ((Context.mk p m.provider dynamic).LooksUpAgain w.store id) cause ∨
            StopsAtOnce w.scene w.store id w'.store cause) ∧
    ∀ (i : Identity) (log : Channel) (depth : Int) (v : World), i.Typed →
      ∃ names v', (Context.mk p m.provider dynamic).namesOf log i depth v = (.ok names, v') ∧
        v'.store = v.store := by
  have hrun : (Context.mk p m.provider dynamic).Running m w.scene fun _ => True :=
    { provider := rfl, memory := hm, policy := hp, time := hclock, refs := fun _ => trivial }
  have hsound : w.store.Sound fun _ => True := ⟨hs, ht, fun _ _ _ _ => trivial⟩
  refine ⟨fun i hi => ?_, fun id hid => ?_, fun i log depth v hi => ?_⟩
  · obtain ⟨t, hid⟩ := hi.id.toKey
    have hends := (hrun.sync_ends (L := (Context.mk p m.provider dynamic).LooksUpFor w.store i)
      (fun hg hl => ⟨hg, .text t, hid, hl⟩) hsound hi
      (fun _ _ => trivial) hid).holds w rfl rfl
    rcases hw : (Context.mk p m.provider dynamic).sync i w with ⟨f | a, w'⟩
    · rw [hw] at hends
      exact .inr ⟨f, w', rfl, hends.2.kind, hends.2⟩
    · exact .inl ⟨a, w', rfl⟩
  · obtain ⟨t, hkey⟩ := hid.toKey
    have hends := (hrun.syncId_ends (L := (Context.mk p m.provider dynamic).LooksUpAgain w.store id)
      hsound hid hkey fun r hr hg hl => ⟨.text t, r, hkey, hr, hg, hl⟩).holds w rfl rfl
    rcases hw : (Context.mk p m.provider dynamic).syncId id w with ⟨f | a, w'⟩
    · rw [hw] at hends
      exact .inr ⟨f, w', rfl, hends.2.kind, hends.2⟩
    · exact .inl ⟨a, w', rfl⟩
  · obtain ⟨names, v', hv, -, hs', -⟩ :=
      (hrun.namesOf_ends (c := v.scene) (s := v.store) hi log depth).run rfl rfl
    exact ⟨names, v', hv, hs'⟩

/-- A world in which the fourth call fails. -/
def refusing : World where
  store := userInGroup
  faults := { turns := (· == 3) }

/-- The group that the user declares is looked up for the names first and for its placeholder later,
and only the second of the two lookups fails. -/
theorem only_reports_escape_refusing :
    placing.Typed ∧ cyclicGroups.Typed ∧ refusing.store.WellFormed ∧ refusing.store.Typed ∧
    refusing.clock.IsTime ∧ ∃ i f w', cyclicGroups.identities.lookup (.text "u") = some i ∧
      i.Typed ∧ (Context.mk placing cyclicGroups.provider true).sync i refusing = (.error f, w') ∧
      w'.journal.calls = [.resolve (some ⟨.text "g", .text "P"⟩),
        .resolve (some ⟨.text "h", .text "P"⟩), .resolve (some ⟨.text "g", .text "P"⟩)] ∧
      f.kind = .sync ∧ f.Reports (refusing.scene.Interrupts
        ((Context.mk placing cyclicGroups.provider true).LooksUpFor refusing.store i)) := by
  have hclock : refusing.clock.IsTime := Value.isTime_int (by decide)
  refine ⟨typed_placing, typed_cyclicGroups, wellFormed_userInGroup, sound_userInGroup.typed, hclock,
    cyclicGroups.entry .user "u" [some ⟨.text "g", .text "P"⟩], _, _, rfl,
    (typed_cyclicGroups.of_lookup (k := .text "u") rfl).1, rfl, rfl, ?_⟩
  rcases (only_reports_escape true typed_placing typed_cyclicGroups wellFormed_userInGroup
    sound_userInGroup.typed hclock).1 _ (typed_cyclicGroups.of_lookup (k := .text "u") rfl).1
    with ⟨a, w', hw⟩ | ⟨f, w', hw, hkind, hf⟩
  · exact absurd (congrArg Prod.fst hw) nofun
  · obtain rfl := Except.error.inj (congrArg Prod.fst hw)
    exact ⟨hkind, hf⟩

end Context

end Roster
