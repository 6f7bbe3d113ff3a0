import Roster.Proofs.Changes
import Roster.Proofs.Sweeping

/-!
# How deep a walk nests

Clearing a record visits the groups that it leaves, from these the groups that they leave in turn,
and so on; `Context.unwindFrom` is given a bound for this. Here the walk is told without one: what a
visit comes to is a relation, which holds for as many nested visits as there happen to be.

Every visit begins with fewer memberships than the visit from which it is made. The first group that
a visit leaves is one whose membership is still there, since until then the visit has changed
nothing; it is taken back before the walk goes on. A group that is left later may be met over a
membership that is long gone, but by then the first one is gone too. So the memberships are what
runs out, and neither a bound nor a set of visited groups is needed.

* `Context.GoesOver`, `Context.Concludes`: what going over some groups and what a visit comes to.
* `Context.GoesTo`: the walk goes from one visit on to another, which begins inside it.
* `Context.GoesTo.fewer`: what a visit made inside another one begins with.
* `Context.concludes_iff`: a visit comes to what the bounded walk gives, and to nothing else.
-/

namespace Roster

/-- A visit of the walk: to whom it is made, what was found before and the world it begins in. -/
structure Visit where
  record : Record
  found : Unwound
  world : World

/-- How many memberships there are when a visit begins. -/
def Visit.memberships (v : Visit) : Nat := v.world.store.membershipCount

namespace Context

section Walk

variable (ctx : Context) (log : Channel)

/-- Takes back a membership if it is one to take back; the answer is then what the walk goes on with
at the group. -/
def leave (r g : Record) (found : Unwound) : Sync (Option Unwound) := do
  if ctx.owns g.ref then
    let name ← Sync.result g.principalName.toScalar
    endMembership r g
    return some { found with names := found.names.insert name }
  else if (ctx.policy.autoMembershipFor r.isGroup).contains (← Sync.result g.id.toScalar) then
    endMembership r g
    return some found
  else
    let (member, group) := (r.id, g.id)
    Sync.log log .debug s!"Keeping membership of {member} in unmanaged group {group}"
    return none

/-- Comes back from a group: one of the provider that is left without members is found. -/
def comeBack (g : Record) (found : Unwound) : Sync Unwound := do
  if ctx.owns g.ref then
    if ← ctx.isOrphaned g then
      let key ← Sync.result g.id.toKey
      return { found with orphans := found.orphans.set key g }
  return found

/-- Going over some groups of a record, from what was found in a world, comes to an outcome. Each
group that the record leaves goes over its own groups before the next one has its turn. -/
inductive GoesOver :
    Record → List Record → Unwound → World → Except Failure Unwound × World → Prop
  | done {r found w} : GoesOver r [] found w (.ok found, w)
  | refused {r g gs found w f w'} (hleave : ctx.leave log r g found w = (.error f, w')) :
      GoesOver r (g :: gs) found w (.error f, w')
  | stays {r g gs found w w' o} (hleave : ctx.leave log r g found w = (.ok none, w'))
      (hrest : GoesOver r gs found w' o) : GoesOver r (g :: gs) found w o
  | unread {r g gs found w found₁ w₁ f}
      (hleave : ctx.leave log r g found w = (.ok (some found₁), w₁))
      (hread : w₁.store.memberOf g.id = .error f) : GoesOver r (g :: gs) found w (.error f, w₁)
  | broken {r g gs hs found w found₁ w₁ f w₂}
      (hleave : ctx.leave log r g found w = (.ok (some found₁), w₁))
      (hread : w₁.store.memberOf g.id = .ok hs)
      (hvisit : GoesOver g hs found₁ w₁ (.error f, w₂)) :
      GoesOver r (g :: gs) found w (.error f, w₂)
  | stranded {r g gs hs found w found₁ w₁ found₂ w₂ f w₃}
      (hleave : ctx.leave log r g found w = (.ok (some found₁), w₁))
      (hread : w₁.store.memberOf g.id = .ok hs)
      (hvisit : GoesOver g hs found₁ w₁ (.ok found₂, w₂))
      (hback : ctx.comeBack g found₂ w₂ = (.error f, w₃)) :
      GoesOver r (g :: gs) found w (.error f, w₃)
  | returns {r g gs hs found w found₁ w₁ found₂ w₂ found₃ w₃ o}
      (hleave : ctx.leave log r g found w = (.ok (some found₁), w₁))
      (hread : w₁.store.memberOf g.id = .ok hs)
      (hvisit : GoesOver g hs found₁ w₁ (.ok found₂, w₂))
      (hback : ctx.comeBack g found₂ w₂ = (.ok found₃, w₃))
      (hrest : GoesOver r gs found₃ w₃ o) : GoesOver r (g :: gs) found w o

/-- A visit comes to an outcome: its record goes over the groups that it is a member of at the
beginning. -/
inductive Concludes (v : Visit) : Except Failure Unwound × World → Prop
  | unread {f} (hread : v.world.store.memberOf v.record.id = .error f) :
      Concludes v (.error f, v.world)
  | read {gs o} (hread : v.world.store.memberOf v.record.id = .ok gs)
      (hover : ctx.GoesOver log v.record gs v.found v.world o) : Concludes v o

/-- In the course of a visit the walk goes on to another one: the groups before have been gone over,
and the membership in the group is taken back, if it was still there. -/
inductive GoesTo (v : Visit) : Visit → Prop
  | next {done g rest found₁ w₁ found₂ w₂}
      (hread : v.world.store.memberOf v.record.id = .ok (done ++ g :: rest))
      (hdone : ctx.GoesOver log v.record done v.found v.world (.ok found₁, w₁))
      (hleave : ctx.leave log v.record g found₁ w₁ = (.ok (some found₂), w₂)) :
      GoesTo v ⟨g, found₂, w₂⟩

end Walk

variable {ctx : Context} {log : Channel} {c : Scene} {s : Store} {w w₁ w' : World} {k j : Key}
  {r g : Record} {gs hs : List Record} {found found₁ : Unwound} {f : Failure}
  {goOn : Record → Unwound → Sync Unwound} {o : Except Failure Unwound × World} {v v' : Visit}

/-! ## One group -/

/-- At a group the walk leaves, goes on and comes back. -/
theorem unwindGroup_eq : ctx.unwindGroup log r goOn found g =
    ctx.leave log r g found >>= fun a =>
      a.elim (pure found) fun f => goOn g f >>= ctx.comeBack g := by
  unfold unwindGroup leave comeBack
  by_cases hown : ctx.owns g.ref = true
  · simp only [if_pos hown, bind_assoc, pure_bind, Option.elim]
  · simp only [if_neg hown, bind_assoc, bind_pure]
    congr 1
    funext a
    split
    all_goals simp only [bind_assoc, pure_bind, Option.elim]

/-- Leaving a group cuts the membership in it or changes no memberships. -/
theorem leave_ends (h : s.WellFormed) (hid : r.id.toKey = .ok k) (hj : s.find? j = some g)
    (hg : g.isGroup = true) :
    Sync.Ends c s (ctx.leave log r g found)
      (fun a s' => s' = if a.isSome then s.cut fun x y => x == k && y == j else s)
      (fun _ s' => s' = s) := by
  have hend (f : Unwound) : Sync.Ends c s (do endMembership r g; return some f)
      (fun a s' => s' = if a.isSome then s.cut fun x y => x == k && y == j else s)
      (fun _ s' => s' = s) := by
    refine Sync.Ends.bind ((endMembership_ends h hid hj hg).mono (fun _ _ => id)
      fun _ _ hf => hf.2) ?_
    rintro _ _ rfl
    exact Sync.Ends.pure rfl
  unfold leave
  split
  · exact Sync.Ends.step (Sync.Ends.result (fun _ _ => hend _) fun _ _ => rfl)
  · refine Sync.Ends.step (Sync.Ends.result (fun a _ => ?_) fun _ _ => rfl)
    split
    · exact hend found
    · exact Sync.Ends.step (Sync.Ends.log (Sync.Ends.pure rfl))

/-- Looking, and then doing something that only looks, only looks. -/
theorem bind_same {α β : Type} {x : Sync α} {f : α → Sync β} (hx : ∀ w, (x w).2 = w)
    (hf : ∀ a w, (f a w).2 = w) (w : World) : ((x >>= f) w).2 = w := by
  have h := hx w
  rw [Sync.bind_apply]
  rcases hw : x w with ⟨e | a, w'⟩ <;> rw [hw] at h
  · exact h
  · exact (hf a w').trans h

theorem isOrphaned_same (ctx : Context) (g : Record) (w : World) :
    (ctx.isOrphaned g w).2 = w := by
  unfold isOrphaned
  split
  · rfl
  · refine bind_same (fun _ => rfl) (fun v w => ?_) w
    cases v.store.membersOf g <;> rfl

/-- Coming back from a group only looks. -/
theorem world_of_comeBack {a : Except Failure Unwound}
    (h : ctx.comeBack g found w = (a, w')) : w' = w := by
  suffices hsame : (ctx.comeBack g found w).2 = w by rwa [h] at hsame
  unfold comeBack
  split
  · refine bind_same (isOrphaned_same ctx g) (fun orphaned w => ?_) w
    split
    · exact bind_same (fun _ => rfl) (fun _ _ => rfl) w
    · rfl
  · rfl

/-! ## What a visit leaves -/

/-- What a record is gone over for: it can be a member, and these are groups. -/
structure Fits (s : Store) (r : Record) (k : Key) (gs : List Record) : Prop where
  id : r.id.toKey = .ok k
  groups : ∀ g ∈ gs, ∃ j, s.find? j = some g ∧ g.isGroup = true

theorem Fits.tail (h : Fits s r k (g :: gs)) : Fits s r k gs :=
  ⟨h.id, fun q hq => h.groups q (List.mem_cons_of_mem _ hq)⟩

theorem Fits.cut (h : Fits s r k gs) (D : Key → Key → Bool) : Fits (s.cut D) r k gs :=
  ⟨h.id, h.groups⟩

/-- What is a member of something can be a member. -/
theorem toKey_of_memberOf (hgs : s.memberOf r.id = .ok gs) (hne : gs ≠ []) :
    ∃ k, r.id.toKey = .ok k := by
  unfold Store.memberOf at hgs
  split at hgs
  · exact absurd (Except.ok.inj hgs).symm hne
  · obtain ⟨a, ha, -⟩ := bind_eq_ok.1 hgs
    exact ⟨a.key, Value.toKey_eq_ok_iff.2 ⟨a, ha, rfl⟩⟩

/-- The groups that a record is a member of are gone over for it. -/
theorem fits_memberOf (h : s.WellFormed) (hid : r.id.toKey = .ok k)
    (hgs : s.memberOf r.id = .ok gs) :
    Fits s r k gs ∧ ∀ g ∈ gs, ∀ j, s.find? j = some g → s.Member k j := by
  obtain ⟨gs', hgs', hmem⟩ := s.memberOf_ok hid
  obtain rfl := Except.ok.inj (hgs'.symm.trans hgs)
  refine ⟨⟨hid, fun g hg => ?_⟩, fun g hg j hj => ?_⟩
  · obtain ⟨j, hj, hm⟩ := (hmem g).1 hg
    obtain ⟨-, q, hq, hgroup⟩ := h.exists_of_member hm
    obtain rfl := Option.some.inj (hj.symm.trans hq)
    exact ⟨j, hj, hgroup⟩
  · obtain ⟨i, hi, hm⟩ := (hmem g).1 hg
    -- a record stands under the key of its id only
    obtain rfl : j = i := Except.ok.inj ((h.toKey_of_find? hj).symm.trans (h.toKey_of_find? hi))
    exact hm

/-- From one store to another some memberships were cut; unless there were none, the membership of
the record in one of the groups is among them. -/
def Cuts (s : Store) (k : Key) (gs : List Record) (s' : Store) : Prop :=
  ∃ D, s' = s.cut D ∧ (s' = s ∨ ∃ g ∈ gs, ∃ j, s.find? j = some g ∧ D k j = true)

theorem Cuts.refl (s : Store) (k : Key) (gs : List Record) : Cuts s k gs s :=
  ⟨fun _ _ => false, (Store.cut_eq_self fun _ _ _ => rfl).symm, .inl rfl⟩

theorem Cuts.of_tail {s' : Store} (h : Cuts s k gs s') : Cuts s k (g :: gs) s' := by
  obtain ⟨D, hD, h⟩ := h
  exact ⟨D, hD, h.imp_right fun ⟨q, hq, h⟩ => ⟨q, List.mem_cons_of_mem _ hq, h⟩⟩

/-- The membership in the first group was cut, and then some others. -/
theorem Cuts.of_head {s₁ s' : Store} {D : Key → Key → Bool} (hj : s.find? j = some g)
    (h₁ : s₁ = s.cut fun x y => x == k && y == j) (h' : s' = s₁.cut D) :
    Cuts s k (g :: gs) s' := by
  subst h₁ h'
  exact ⟨_, Store.cut_cut .., .inr ⟨g, List.mem_cons_self, j, hj, by simp⟩⟩

/-- A membership that is not taken back is left where it is. -/
theorem store_of_not_left {a : Except Failure (Option Unwound)} (h : w.store.WellFormed)
    (hfits : Fits w.store r k (g :: gs)) (hleave : ctx.leave log r g found w = (a, w'))
    (ha : a.toOption.join = none) : w'.store = w.store := by
  obtain ⟨j, hj, hgroup⟩ := hfits.groups g List.mem_cons_self
  have hends : Sync.Ends w.scene w.store (ctx.leave log r g found) _ _ :=
    leave_ends h hfits.id hj hgroup
  have hholds := hends.holds w rfl rfl
  rw [hleave] at hholds
  rcases a with f | _ | f
  · exact hholds.2
  · exact hholds.2
  · cases ha

/-- A membership that is taken back is cut. -/
theorem store_of_left (h : w.store.WellFormed) (hfits : Fits w.store r k (g :: gs))
    (hleave : ctx.leave log r g found w = (.ok (some found₁), w')) :
    ∃ j, w.store.find? j = some g ∧ w'.store = w.store.cut fun x y => x == k && y == j := by
  obtain ⟨j, hj, hgroup⟩ := hfits.groups g List.mem_cons_self
  exact ⟨j, hj, (leave_ends h hfits.id hj hgroup).of_ok rfl rfl hleave⟩

/-- The group that a record leaves is visited in a store without this membership. -/
theorem fits_of_left (h : w.store.WellFormed) (hfits : Fits w.store r k (g :: gs))
    (hleave : ctx.leave log r g found w = (.ok (some found₁), w₁))
    (hread : w₁.store.memberOf g.id = .ok hs) :
    w₁.store.WellFormed ∧ ∃ j, w.store.find? j = some g ∧
      (w₁.store = w.store.cut fun x y => x == k && y == j) ∧ Fits w₁.store g j hs := by
  obtain ⟨j, hj, hcut⟩ := store_of_left h hfits hleave
  have hwf : w₁.store.WellFormed := by
    rw [hcut]
    exact h.cut _
  exact ⟨hwf, j, hj, hcut, (fits_memberOf hwf (h.toKey_of_find? hj) hread).1⟩

/-- Going over groups cuts memberships, and if it cuts any then the one of the record in the first
group that it leaves. -/
theorem GoesOver.cuts (hover : ctx.GoesOver log r gs found w o) (h : w.store.WellFormed)
    (hfits : Fits w.store r k gs) : Cuts w.store k gs o.2.store := by
  induction hover generalizing k with
  | done => exact .refl ..
  | refused hleave =>
    have hsame := store_of_not_left h hfits hleave rfl
    exact hsame ▸ .refl ..
  | stays hleave hrest ih =>
    have hsame := store_of_not_left h hfits hleave rfl
    rw [hsame] at ih
    exact (ih h hfits.tail).of_tail
  | unread hleave hread =>
    obtain ⟨j, hj, hcut⟩ := store_of_left h hfits hleave
    exact .of_head hj hcut (Store.cut_eq_self fun _ _ _ => rfl).symm
  | broken hleave hread hvisit ih =>
    obtain ⟨hwf, j, hj, hcut, hg⟩ := fits_of_left h hfits hleave hread
    obtain ⟨D, hD, -⟩ := ih hwf hg
    exact .of_head hj hcut hD
  | stranded hleave hread hvisit hback ih =>
    obtain ⟨hwf, j, hj, hcut, hg⟩ := fits_of_left h hfits hleave hread
    obtain ⟨D, hD, -⟩ := ih hwf hg
    obtain rfl := world_of_comeBack hback
    exact .of_head hj hcut hD
  | returns hleave hread hvisit hback hrest ihvisit ihrest =>
    obtain ⟨hwf, j, hj, hcut, hg⟩ := fits_of_left h hfits hleave hread
    obtain ⟨D, hD, -⟩ := ihvisit hwf hg
    obtain rfl := world_of_comeBack hback
    have hfits₁ := hcut ▸ hfits.tail.cut _
    rw [hD] at ihrest
    obtain ⟨D', hD', -⟩ := ihrest (hwf.cut D) (hfits₁.cut D)
    exact .of_head hj hcut (hD'.trans (Store.cut_cut ..))

/-! ## Visits -/

/-- A visit made inside another one begins with fewer memberships. -/
theorem GoesTo.fewer (hgo : ctx.GoesTo log v v') (h : v.world.store.WellFormed) :
    v'.world.store.WellFormed ∧ v'.memberships < v.memberships := by
  obtain @⟨done, g, rest, found₁, w₁, found₂, w₂, hread, hdone, hleave⟩ := hgo
  obtain ⟨k, hid⟩ := toKey_of_memberOf hread (by simp)
  obtain ⟨hfits, hmember⟩ := fits_memberOf h hid hread
  obtain ⟨D, hD, hcuts⟩ := hdone.cuts h ⟨hid, fun q hq => hfits.groups q (by simp [hq])⟩
  dsimp only at hD hcuts
  have hfits₁ : Fits w₁.store v.record k [g] := by
    rw [hD]
    exact Fits.cut ⟨hid, fun q hq => hfits.groups q (by simp_all)⟩ D
  have hwf₁ : w₁.store.WellFormed := by
    rw [hD]
    exact h.cut D
  obtain ⟨j, hj, hcut⟩ := store_of_left hwf₁ hfits₁ hleave
  refine ⟨by rw [hcut]; exact hwf₁.cut _, ?_⟩
  show w₂.store.membershipCount < v.world.store.membershipCount
  rcases hcuts with hsame | ⟨q, hq, i, hi, hcut'⟩
  · -- nothing has changed before, so that the membership is still there
    rw [hsame] at hj hcut
    rw [hcut]
    exact Store.membershipCount_cut_lt (hmember g (by simp) j hj) (by simp)
  · -- the first membership taken back has gone
    rw [hcut, hD, Store.cut_cut]
    exact Store.membershipCount_cut_lt (hmember q (by simp [hq]) i hi) (by simp [hcut'])

/-- Visits that are made one inside another are no more than there are memberships and one. -/
theorem length_nested_le {vs : List Visit} (h : v.world.store.WellFormed)
    (hvs : List.IsChain (ctx.GoesTo log) (v :: vs)) : (v :: vs).length ≤ v.memberships + 1 := by
  induction vs generalizing v with
  | nil => simp
  | cons v' vs ih =>
    obtain ⟨hgo, hvs⟩ := List.isChain_cons_cons.1 hvs
    obtain ⟨hwf, hlt⟩ := hgo.fewer h
    have := ih hwf hvs
    simp only [List.length_cons] at this ⊢
    omega

/-! ## What a visit comes to -/

theorem unwindGroup_of_refused (hleave : ctx.leave log r g found w = (.error f, w')) :
    ctx.unwindGroup log r goOn found g w = (.error f, w') := by
  rw [unwindGroup_eq]
  exact Sync.bind_apply_error hleave

theorem unwindGroup_of_stays (hleave : ctx.leave log r g found w = (.ok none, w')) :
    ctx.unwindGroup log r goOn found g w = (.ok found, w') := by
  rw [unwindGroup_eq]
  exact Sync.bind_apply_ok hleave

theorem unwindGroup_of_left (hleave : ctx.leave log r g found w = (.ok (some found₁), w₁)) :
    ctx.unwindGroup log r goOn found g w = (goOn g found₁ >>= ctx.comeBack g) w₁ := by
  rw [unwindGroup_eq, Sync.bind_apply_ok hleave]
  rfl

theorem unwindFrom_of_unread (hread : w.store.memberOf r.id = .error f) {n : Nat} (hn : 1 ≤ n) :
    ctx.unwindFrom log n r found w = (.error f, w) := by
  obtain ⟨n, rfl⟩ := Nat.exists_eq_add_of_le' hn
  unfold unwindFrom
  rw [Sync.bind_apply_ok (Sync.get_apply w)]
  exact Sync.bind_apply_error (congrArg (·, w) hread)

theorem unwindFrom_of_read (hread : w.store.memberOf r.id = .ok gs) (n : Nat) :
    ctx.unwindFrom log (n + 1) r found w
      = gs.foldlM (ctx.unwindGroup log r (ctx.unwindFrom log n)) found w := by
  conv_lhs => unfold unwindFrom
  rw [Sync.bind_apply_ok (Sync.get_apply w)]
  exact Sync.bind_apply_ok (congrArg (·, w) hread)

/-- Going over groups comes to this if the bound is high enough. -/
def SettlesOn (ctx : Context) (log : Channel) (r : Record) (gs : List Record) (found : Unwound)
    (w : World) (o : Except Failure Unwound × World) (n : Nat) : Prop :=
  ∀ m, n ≤ m → gs.foldlM (ctx.unwindGroup log r (ctx.unwindFrom log m)) found w = o

theorem SettlesOn.visit {n : Nat} (h : SettlesOn ctx log r gs found w o n)
    (hread : w.store.memberOf r.id = .ok gs) {m : Nat} (hm : n + 1 ≤ m) :
    ctx.unwindFrom log m r found w = o := by
  obtain ⟨m, rfl⟩ := Nat.exists_eq_add_of_le' (Nat.le_of_add_left_le hm)
  rw [unwindFrom_of_read hread, h m (by omega)]

/-- What going over groups comes to is what the bounded walk gives if the bound is high enough. -/
theorem GoesOver.settles (hover : ctx.GoesOver log r gs found w o) :
    ∃ n, SettlesOn ctx log r gs found w o n := by
  induction hover with
  | done => exact ⟨0, fun _ _ => rfl⟩
  | refused hleave =>
    exact ⟨0, fun m _ => Sync.bind_apply_error (unwindGroup_of_refused hleave)⟩
  | stays hleave hrest ih =>
    obtain ⟨n, hn⟩ := ih
    exact ⟨n, fun m hm => (Sync.bind_apply_ok (unwindGroup_of_stays hleave)).trans (hn m hm)⟩
  | unread hleave hread =>
    refine ⟨1, fun m hm => Sync.bind_apply_error ?_⟩
    rw [unwindGroup_of_left hleave]
    exact Sync.bind_apply_error (unwindFrom_of_unread hread hm)
  | broken hleave hread hvisit ih =>
    obtain ⟨n, hn⟩ := ih
    refine ⟨n + 1, fun m hm => Sync.bind_apply_error ?_⟩
    rw [unwindGroup_of_left hleave]
    exact Sync.bind_apply_error (hn.visit hread hm)
  | stranded hleave hread hvisit hback ih =>
    obtain ⟨n, hn⟩ := ih
    refine ⟨n + 1, fun m hm => Sync.bind_apply_error ?_⟩
    rw [unwindGroup_of_left hleave]
    exact (Sync.bind_apply_ok (hn.visit hread hm)).trans hback
  | returns hleave hread hvisit hback hrest ihvisit ihrest =>
    obtain ⟨n, hn⟩ := ihvisit
    obtain ⟨n', hn'⟩ := ihrest
    refine ⟨max (n + 1) n', fun m hm => (Sync.bind_apply_ok ?_).trans (hn' m (by omega))⟩
    rw [unwindGroup_of_left hleave]
    exact (Sync.bind_apply_ok (hn.visit hread (by omega))).trans hback

/-- Going over groups after others. -/
theorem GoesOver.append {gs' : List Record} (hover : ctx.GoesOver log r gs found w (.ok found₁, w₁))
    (hover' : ctx.GoesOver log r gs' found₁ w₁ o) : ctx.GoesOver log r (gs ++ gs') found w o := by
  generalize ho : (Except.ok found₁, w₁) = o₁ at hover
  induction hover with
  | done => cases ho; exact hover'
  | refused => cases ho
  | stays hleave hrest ih => exact .stays hleave (ih hover' ho)
  | unread => cases ho
  | broken => cases ho
  | stranded => cases ho
  | returns hleave hread hvisit hback hrest ihvisit ihrest =>
    exact .returns hleave hread hvisit hback (ihrest hover' ho)

/-- A failure on the way over groups is one on the way over more. -/
theorem GoesOver.append_error {gs' : List Record}
    (hover : ctx.GoesOver log r gs found w (.error f, w')) :
    ctx.GoesOver log r (gs ++ gs') found w (.error f, w') := by
  generalize ho : (Except.error f, w') = o at hover
  induction hover with
  | done => cases ho
  | refused hleave => exact .refused hleave
  | stays hleave hrest ih => exact .stays hleave (ih ho)
  | unread hleave hread => exact .unread hleave hread
  | broken hleave hread hvisit => exact .broken hleave hread hvisit
  | stranded hleave hread hvisit hback => exact .stranded hleave hread hvisit hback
  | returns hleave hread hvisit hback hrest ihvisit ihrest =>
    exact .returns hleave hread hvisit hback (ihrest ho)

/-- A group is gone over by the step of the walk for it, if the visit to the group is what the step
goes on with. -/
theorem goesOver_group (hvisit : ∀ found₁ w₁,
      ctx.leave log r g found w = (.ok (some found₁), w₁) →
      ctx.Concludes log ⟨g, found₁, w₁⟩ (goOn g found₁ w₁)) :
    ctx.GoesOver log r [g] found w (ctx.unwindGroup log r goOn found g w) := by
  rcases hleave : ctx.leave log r g found w with ⟨f | _ | found₁, w₁⟩
  · rw [unwindGroup_of_refused hleave]
    exact .refused hleave
  · rw [unwindGroup_of_stays hleave]
    exact .stays hleave .done
  have hv := hvisit found₁ w₁ hleave
  rw [unwindGroup_of_left hleave, Sync.bind_apply]
  rcases hout : goOn g found₁ w₁ with ⟨f | found₂, w₂⟩ <;> rw [hout] at hv
  · cases hv with
    | unread hread => exact .unread hleave hread
    | read hread hover => exact .broken hleave hread hover
  · cases hv with
    | read hread hover =>
      dsimp only
      rcases hback : ctx.comeBack g found₂ w₂ with ⟨f | found₃, w₃⟩
      · exact .stranded hleave hread hover hback
      · exact .returns hleave hread hover hback .done

/-- The groups of a record are gone over by the steps of the walk for them, if the visits to be made
in the course of it are what the steps go on with. -/
theorem goesOver_foldlM (hread : v.world.store.memberOf v.record.id = .ok gs)
    (hvisit : ∀ v', ctx.GoesTo log v v' →
      ctx.Concludes log v' (goOn v'.record v'.found v'.world)) :
    ctx.GoesOver log v.record gs v.found v.world
      (gs.foldlM (ctx.unwindGroup log v.record goOn) v.found v.world) := by
  suffices hrest : ∀ done rest found₁ w₁, gs = done ++ rest →
      ctx.GoesOver log v.record done v.found v.world (.ok found₁, w₁) →
      ctx.GoesOver log v.record rest found₁ w₁
        (rest.foldlM (ctx.unwindGroup log v.record goOn) found₁ w₁) from
    hrest [] gs v.found v.world rfl .done
  intro done rest
  induction rest generalizing done with
  | nil => exact fun _ _ _ _ => .done
  | cons g rest ih =>
    intro found₁ w₁ he hdone
    have hgroup : ctx.GoesOver log v.record [g] found₁ w₁
        (ctx.unwindGroup log v.record goOn found₁ g w₁) :=
      goesOver_group fun found₂ w₂ hleave => hvisit _ (.next (he ▸ hread) hdone hleave)
    rw [List.foldlM_cons, Sync.bind_apply]
    rcases hout : ctx.unwindGroup log v.record goOn found₁ g w₁ with ⟨f | found₂, w₂⟩ <;>
      rw [hout] at hgroup
    · exact hgroup.append_error
    · exact hgroup.append (ih (done ++ [g]) found₂ w₂ (by simp [he]) (hdone.append hgroup))

/-- From a well-formed store a visit comes to what the walk gives that is bounded by the number of
memberships. -/
theorem concludes_unwindFrom {bound : Nat} (h : v.world.store.WellFormed)
    (hb : v.memberships < bound) :
    ctx.Concludes log v (ctx.unwindFrom log bound v.record v.found v.world) := by
  induction bound generalizing v with
  | zero => omega
  | succ bound ih =>
    cases hread : v.world.store.memberOf v.record.id with
    | error f =>
      rw [unwindFrom_of_unread hread (by omega)]
      exact .unread hread
    | ok gs =>
      rw [unwindFrom_of_read hread]
      refine .read hread (goesOver_foldlM hread fun v' hgo => ?_)
      obtain ⟨hwf, hfewer⟩ := hgo.fewer h
      exact ih hwf (by omega)

theorem Concludes.settles (hv : ctx.Concludes log v o) :
    ∃ n, ∀ m, n ≤ m → ctx.unwindFrom log m v.record v.found v.world = o := by
  cases hv with
  | unread hread => exact ⟨1, fun m hm => unwindFrom_of_unread hread hm⟩
  | read hread hover =>
    obtain ⟨n, hn⟩ := hover.settles
    exact ⟨n + 1, fun m hm => hn.visit hread hm⟩

/-- From a well-formed store a visit comes to what the bounded walk gives, and to nothing else. -/
theorem concludes_iff {bound : Nat} (h : v.world.store.WellFormed) (hb : v.memberships < bound) :
    ctx.Concludes log v o ↔ o = ctx.unwindFrom log bound v.record v.found v.world := by
  constructor
  · intro hv
    obtain ⟨n, hn⟩ := hv.settles
    have hwalk : ctx.Concludes log v _ := concludes_unwindFrom h hb
    obtain ⟨n', hn'⟩ := hwalk.settles
    rw [← hn (max n n') (by omega), hn' (max n n') (by omega)]
  · rintro rfl
    exact concludes_unwindFrom h hb

/-- Where clearing a record gives an answer, the walk has found the names in it. -/
theorem concludes_of_unwind {log : Option Channel} {names : NameSet} (h : w.store.WellFormed)
    (hrun : ctx.unwind r log w = (.ok names, w')) : ∃ found w₁, names = found.names ∧
      ctx.Concludes (log.getD ⟨"cleaner", none⟩) ⟨r, {}, w⟩ (.ok found, w₁) := by
  have hv : ctx.Concludes (log.getD ⟨"cleaner", none⟩) ⟨r, {}, w⟩ _ :=
    concludes_unwindFrom h (Nat.lt_succ_self w.store.membershipCount)
  unfold unwind at hrun
  rw [Sync.bind_apply_ok (Sync.get_apply w), Sync.bind_apply] at hrun
  rcases hwalk : ctx.unwindFrom (log.getD ⟨"cleaner", none⟩) (w.store.membershipCount + 1) r {} w
    with ⟨f | found, w₁⟩
  · rw [hwalk] at hrun
    cases hrun
  · rw [hwalk] at hrun
    refine ⟨found, w₁, ?_, hwalk ▸ hv⟩
    dsimp only at hrun
    rw [Sync.bind_apply] at hrun
    split at hrun
    · exact (Except.ok.inj (Prod.mk.inj hrun).1).symm
    · cases hrun

/-- Clearing a record terminates, however the memberships are tangled: a visit made inside another
one begins with fewer memberships, also where it is made over a membership that was gone already.
So visits nest no deeper than there are memberships and one, and without any bound a visit comes to
one outcome, the one of the walk that is given a bound above the number of memberships. Where only
removals fail it is an answer. -/
theorem unwind_nests (ctx : Context) (log : Channel) (h : w.store.WellFormed) :
    (∀ v v' : Visit, v.world.store.WellFormed → ctx.GoesTo log v v' →
      v'.world.store.WellFormed ∧ v'.memberships < v.memberships) ∧
    (∀ r found vs, List.IsChain (ctx.GoesTo log) (⟨r, found, w⟩ :: vs) →
      (⟨r, found, w⟩ :: vs : List Visit).length ≤ w.store.membershipCount + 1) ∧
    (∀ r found bound o, w.store.membershipCount < bound →
      (ctx.Concludes log ⟨r, found, w⟩ o ↔ o = ctx.unwindFrom log bound r found w)) ∧
    ∀ k r F log', w.store.Typed → w.store.find? k = some r → w.scene.Protects F →
      log = log'.getD ⟨"cleaner", none⟩ → ∃ found w₁ w',
        ctx.Concludes log ⟨r, {}, w⟩ (.ok found, w₁) ∧
        ctx.unwind r log' w = (.ok found.names, w') := by
  refine ⟨fun v v' hv hgo => hgo.fewer hv, fun r found vs hvs => length_nested_le h hvs,
    fun r found bound o hb => concludes_iff h hb, fun k r F log' ht hk hF hlog => ?_⟩
  obtain ⟨names, w', -, hrun, -⟩ := unwind_run ctx log' h ht hk hF
  obtain ⟨found, w₁, rfl, hv⟩ := concludes_of_unwind h hrun
  exact ⟨found, w₁, w', hlog ▸ hv, hrun⟩

/-- The group is met over its membership in another one after that has ended, and even so with fewer
memberships than there were. -/
theorem unwind_nests_tangled :
    tangled.WellFormed ∧ ∃ found₁ w₁ found₂ w₂,
      tidying.GoesOver ⟨"cleaner", none⟩ (tangled.record "a" true "P")
        [tangled.record "a" true "P"] {} (locking []) (.ok found₁, w₁) ∧
      ¬ w₁.store.Member (.text "a") (.text "b") ∧
      tidying.GoesTo ⟨"cleaner", none⟩ ⟨tangled.record "a" true "P", {}, locking []⟩
        ⟨tangled.record "b" true "P", found₂, w₂⟩ ∧
      w₂.store.membershipCount < 8 := by
  have hover : tidying.GoesOver ⟨"cleaner", none⟩ (tangled.record "a" true "P")
      [tangled.record "a" true "P"] {} (locking []) _ :=
    .returns rfl rfl (.returns rfl rfl (.returns rfl rfl .done rfl .done) rfl .done) rfl .done
  have hread : tangled.memberOf (.text "a") =
      .ok ([tangled.record "a" true "P"] ++ [tangled.record "b" true "P"]) := rfl
  have hgo : tidying.GoesTo ⟨"cleaner", none⟩ ⟨tangled.record "a" true "P", {}, locking []⟩
      ⟨tangled.record "b" true "P", _, _⟩ := .next hread hover rfl
  have hnests := unwind_nests (w := locking []) tidying ⟨"cleaner", none⟩ wellFormed_tangled
  exact ⟨wellFormed_tangled, _, _, _, _, hover, by decide, hgo,
    (hnests.1 _ _ wellFormed_tangled hgo).2⟩

end Context

end Roster
