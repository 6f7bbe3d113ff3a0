import Roster.Proofs.Outcomes
import Roster.Proofs.Rollback

/-!
# What a synchronisation leaves alone

A change within a remit touches the records of the remit and, of the others, only groups near to the
provider. The list of a group that is not managed keeps its members, except for those whose records
are deleted: while the store grows it stays as it is (`Change.list_growing`), and while it shrinks
only deleted records leave it (`Changes.list_shrinking`). No record is created again that was
deleted, so that the members left are those that have a record in the end.

* `frame`: what every synchronisation that gives an answer leaves alone.
-/

namespace Roster

open Relation (ReflTransGen)

namespace Store

variable {s : Store} {k : Key} {a : Scalar}

theorem lookup_map_lists (l : Assoc Scalar (List Scalar)) (f : Key → List Scalar → List Scalar)
    (a : Scalar) :
    List.lookup a (l.map fun p => (p.1, f p.1.key p.2)) = (List.lookup a l).map (f a.key) := by
  induction l with
  | nil => rfl
  | cons p l ih =>
    rw [List.map_cons, Assoc.lookup_cons, ih]
    obtain ⟨b, ms⟩ := p
    rw [Assoc.lookup_cons]
    by_cases hb : (a == b) = true
    · rw [if_pos hb, if_pos hb, Option.map_some, Scalar.beq_iff.1 hb]
    · rw [if_neg hb, if_neg hb]

theorem lookup_cut (s : Store) (D : Key → Key → Bool) (a : Scalar) :
    (s.cut D).members.lookup a
      = (s.members.lookup a).map fun ms => ms.filter fun m => !D m.key a.key :=
  lookup_map_lists s.members (fun g ms => ms.filter fun m => !D m.key g) a

theorem lookup_drop (s : Store) {X : Key → Bool} (ha : X a.key = false) :
    (s.drop X).members.lookup a
      = (s.members.lookup a).map fun ms => ms.filter fun m => !X m.key := by
  have hkept : List.lookup a (s.members.filter fun p => !X p.1.key) = s.members.lookup a := by
    induction s.members with
    | nil => rfl
    | cons p l ih =>
      obtain ⟨b, ms⟩ := p
      by_cases hX : X b.key = true
      · have hb : ¬ (a == b) = true := fun hb => by
          rw [Scalar.beq_iff.1 hb, hX] at ha
          cases ha
        rw [List.filter_cons_of_neg (by simp [hX]), ih, Assoc.lookup_cons, if_neg hb]
      · rw [List.filter_cons_of_pos (by simp [hX]), Assoc.lookup_cons, Assoc.lookup_cons, ih]
  rw [← hkept]
  exact lookup_map_lists _ (fun _ ms => ms.filter fun m => !X m.key) a

/-- Every member in a list of a well-formed store has a record. -/
theorem WellFormed.has_of_lookup (h : s.WellFormed) {ms : List Scalar}
    (hl : s.members.lookup a = some ms) {m : Scalar} (hm : m ∈ ms) : s.has m.key = true := by
  obtain ⟨b, hb, -⟩ := Assoc.exists_mem_of_lookup hl
  exact has_iff.2 (h.exists_member hb hm)

/-- A list without the members that have no record. -/
def present (s : Store) (ms : List Scalar) : List Scalar := ms.filter fun m => s.has m.key

/-- Where the same records are there, a list keeps its members. -/
theorem WellFormed.present_eq_self (h : s.WellFormed) {s' : Store} {ms : List Scalar}
    (hl : s.members.lookup a = some ms) (hh : ∀ j, s'.has j = s.has j) : s'.present ms = ms :=
  List.filter_eq_self.2 fun m hm => by rw [hh]; exact h.has_of_lookup hl hm

end Store

namespace Remit

variable {rm : Remit} {p : Phase} {s s' : Store} {k : Key} {r g : Record} {a : Scalar}

/-! ## Records -/

/-- A record outside the remit is there after a change exactly if it was there before, with the same
fields. -/
theorem Change.record_iff (h : rm.Change p s s') (hk : ¬ rm.own k)
    (hr : ¬ (r.isGroup = true ∧ rm.near r.ref)) :
    s'.find? k = some r ↔ s.find? k = some r := by
  have hnot {q : Record} (ha : rm.Allows k q) : q ≠ r := by
    rintro rfl
    exact hr (ha.resolve_left hk)
  cases h with
  | @put _ _ j q q' hj ha hb =>
    rw [Store.find?_put hj]
    split
    · next he =>
      subst he
      rw [hj, Option.some.injEq, Option.some.injEq]
      exact iff_of_false (hnot (ha.becomes hb)) (hnot ha)
    · rfl
  | leave _ => rfl
  | @create _ _ j q hid ha _ hc =>
    rw [Store.find?_create hid hc]
    split
    · next he =>
      subst he
      rw [Store.find?_of_create hid hc, Option.some.injEq]
      exact iff_of_false (hnot ha) nofun
    · rfl
  | join _ _ hj => rw [Store.find?, Store.find?, Store.records_addMember hj]
  | @remove _ j q hj ha _ =>
    rw [Store.find?_drop]
    split
    · next he =>
      obtain rfl : k = j := beq_iff_eq.1 he
      rw [hj, Option.some.injEq]
      exact iff_of_false nofun (hnot ha)
    · rfl

theorem Changes.record_iff (h : rm.Changes p s s') (hk : ¬ rm.own k)
    (hr : ¬ (r.isGroup = true ∧ rm.near r.ref)) :
    s'.find? k = some r ↔ s.find? k = some r := by
  induction h with
  | refl => rfl
  | tail _ h ih => exact (h.record_iff hk hr).trans ih

theorem Turns.record_iff (h : rm.Turns s s') (hk : ¬ rm.own k)
    (hr : ¬ (r.isGroup = true ∧ rm.near r.ref)) :
    s'.find? k = some r ↔ s.find? k = some r := by
  obtain ⟨s₁, h₁, h₂⟩ := h
  exact (h₂.record_iff hk hr).trans (h₁.record_iff hk hr)

/-! ## Lists -/

/-- There is a record under the key whose memberships are not the remit's business. -/
def Unmanaged (rm : Remit) (s : Store) (k : Key) : Prop :=
  (∃ g, s.find? k = some g ∧ ¬ rm.near g.ref) ∧ ¬ rm.auto k

theorem Unmanaged.not_managed (h : rm.Unmanaged s k) : ¬ rm.Managed s k := by
  obtain ⟨⟨g, hg, hn⟩, ha⟩ := h
  rintro (⟨g', hg', hn'⟩ | ha')
  · obtain rfl : g = g' := Option.some.inj (hg.symm.trans hg')
    exact hn hn'
  · exact ha ha'

theorem Unmanaged.later (h : rm.Unmanaged s k) (hs : rm.Change p s s') : rm.Unmanaged s' k := by
  obtain ⟨⟨g, hg, hn⟩, ha⟩ := h
  refine ⟨?_, ha⟩
  have of_becomes {g' : Record} (hg' : s'.find? k = some g') (hb : g.Becomes g') :
      ∃ g', s'.find? k = some g' ∧ ¬ rm.near g'.ref :=
    ⟨g', hg', by rw [hb.ref]; exact hn⟩
  cases p with
  | growing =>
    obtain ⟨g', hg', hb⟩ := hs.kept hg
    exact of_becomes hg' hb
  | shrinking =>
    -- only records near to the provider are deleted, so this one is still there
    cases hs with
    | @put _ _ j q q' hj _ hb =>
      by_cases he : k = j
      · subst he
        obtain rfl : q = g := Option.some.inj (hj.symm.trans hg)
        exact of_becomes (by rw [Store.find?_put hj, if_pos rfl]) hb
      · exact of_becomes (by rw [Store.find?_put hj, if_neg he, hg]) (.refl g)
    | leave _ => exact of_becomes hg (.refl g)
    | @remove _ j q hj _ hq =>
      refine of_becomes ?_ (.refl g)
      rw [Store.find?_drop, if_neg, hg]
      rw [beq_iff_eq]
      rintro rfl
      obtain rfl : q = g := Option.some.inj (hj.symm.trans hg)
      exact hn hq

theorem Change.list_cut {D : Key → Key → Bool} (hm : ¬ rm.Managed s a.key)
    (hD : ∀ x g, D x g = true → rm.Managed s g) :
    (s.cut D).members.lookup a = s.members.lookup a := by
  have hkeep (m : Scalar) : D m.key a.key = false := by
    rw [← Bool.not_eq_true]
    exact fun h => hm (hD _ _ h)
  have hall (ms : List Scalar) : ms.filter (fun m => !D m.key a.key) = ms :=
    List.filter_eq_self.2 fun m _ => by simp [hkeep m]
  rw [Store.lookup_cut]
  simp only [hall, Option.map_id']

/-- While the store grows, an unmanaged list stays as it is. -/
theorem Change.list_growing (h : rm.Change .growing s s') (hu : rm.Unmanaged s a.key) :
    s'.members.lookup a = s.members.lookup a := by
  have hm := hu.not_managed
  cases h with
  | put _ _ _ => rfl
  | leave hD => exact Change.list_cut hm hD
  | @create _ _ j q hid _ _ hc =>
    obtain ⟨g, hg, -⟩ := hu.1
    obtain ⟨i, hi, hnone⟩ := Store.create_eq_ok hc
    obtain ⟨b, hb, rfl⟩ := Value.toKey_eq_ok_iff.1 hi
    have hne : (a == b) = false := by
      rw [← Bool.not_eq_true, Scalar.beq_iff]
      intro he
      rw [← he, hg] at hnone
      cases hnone
    simp only [Store.create, hb, Store.has, hnone, bind, Except.bind, pure, Except.pure,
      Option.isSome_none, Bool.false_eq_true, if_false, Except.ok.injEq] at hc
    subst hc
    dsimp only
    split
    · rw [Assoc.lookup_set, hne, if_neg Bool.false_ne_true]
    · rfl
  | @join _ _ j q id b hq hj hs =>
    obtain ⟨b', ms, m, hgm, -, -, rfl | rfl⟩ := Store.addMember_eq_ok hs
    · rfl
    · have hb := Value.toKey_eq_ok_iff.2 ⟨b', (Store.groupMembers_eq_ok hgm).1, rfl⟩
      obtain rfl : j = b'.key := Except.ok.inj (hq.symm.trans hb)
      have hne : (a == b') = false := by
        rw [← Bool.not_eq_true, Scalar.beq_iff]
        intro he
        exact hm (he ▸ hj)
      show List.lookup a (s.members.set b' (ms ++ [m])) = s.members.lookup a
      rw [Assoc.lookup_set, hne, if_neg Bool.false_ne_true]

theorem Changes.list_growing (h : rm.Changes .growing s s') (hu : rm.Unmanaged s a.key) :
    rm.Unmanaged s' a.key ∧ s'.members.lookup a = s.members.lookup a := by
  induction h with
  | refl => exact ⟨hu, rfl⟩
  | tail _ h ih => exact ⟨ih.1.later h, (h.list_growing ih.1).trans ih.2⟩

/-- While the store shrinks, only members whose records are deleted leave an unmanaged list. -/
theorem Change.list_shrinking (h : rm.Change .shrinking s s') (hs : s.WellFormed)
    (hu : rm.Unmanaged s a.key) {ms : List Scalar} (hl : s.members.lookup a = some ms) :
    s'.members.lookup a = some (s'.present ms) := by
  have hm := hu.not_managed
  cases h with
  | @put _ _ j q q' hj _ _ =>
    rw [hs.present_eq_self hl fun i => ?_]
    · exact hl
    · rw [Store.has, Store.find?_put hj, Store.has]
      split
      · next he => rw [he, hj, Option.isSome_some, Option.isSome_some]
      · rfl
  | @leave _ _ D hD =>
    have hhas (i : Key) : (s.cut D).has i = s.has i := rfl
    rw [hs.present_eq_self hl hhas, Change.list_cut hm hD, hl]
  | @remove _ j q hj _ hq =>
    have hne : (a.key == j) = false := by
      rw [beq_eq_false_iff_ne]
      rintro rfl
      exact hm (.inl ⟨q, hj, hq⟩)
    rw [Store.lookup_drop s hne, hl, Option.map_some, Store.present]
    refine congrArg some (List.filter_congr fun m hmem => ?_)
    have hhas : (s.find? m.key).isSome = true := hs.has_of_lookup hl hmem
    rw [Store.has, Store.find?_drop]
    by_cases he : m.key = j
    · simp [he]
    · simp [he, hhas]

theorem Changes.list_shrinking (h : rm.Changes .shrinking s s') (hs : s.WellFormed)
    (hu : rm.Unmanaged s a.key) {ms : List Scalar} (hl : s.members.lookup a = some ms) :
    rm.Unmanaged s' a.key ∧ s'.members.lookup a = some (s'.present ms) := by
  induction h with
  | refl => exact ⟨hu, by rw [hs.present_eq_self hl fun _ => rfl]; exact hl⟩
  | @tail s₁ s₂ h₁ h ih =>
    refine ⟨ih.1.later h, ?_⟩
    rw [h.list_shrinking (Changes.wellFormed h₁ hs) ih.1 ih.2]
    refine congrArg some ?_
    rw [Store.present, Store.present, List.filter_filter]
    refine List.filter_congr fun m _ => ?_
    -- what still has a record had one before, since none comes back
    cases hh : s₂.has m.key with
    | false => rw [Bool.false_and]
    | true =>
      obtain ⟨r, hr⟩ := Store.has_iff.1 hh
      obtain ⟨q, hq, -⟩ := h.known hr
      rw [Store.has_iff.2 ⟨q, hq⟩, Bool.and_self]

/-- The list of an unmanaged group without the members whose records were deleted. -/
theorem Turns.list (h : rm.Turns s s') (hs : s.WellFormed) (hu : rm.Unmanaged s a.key)
    {ms : List Scalar} (hl : s.members.lookup a = some ms) :
    s'.members.lookup a = some (s'.present ms) := by
  obtain ⟨s₁, h₁, h₂⟩ := h
  obtain ⟨hu₁, hl₁⟩ := h₁.list_growing hu
  exact (h₂.list_shrinking (h₁.wellFormed hs) hu₁ (hl₁.trans hl)).2

end Remit

namespace Context

variable {ctx : Context} {w w' : World} {a : SyncResult}

/-- What a synchronisation of the records under some keys leaves alone, from a store to another. -/
structure Framed (ctx : Context) (own : Key → Prop) (s s' : Store) : Prop where
  /-- Other records than groups of the provider are neither created nor deleted nor changed. -/
  records : ∀ k r, ¬ own k → (r.isGroup && ctx.owns r.ref) = false →
    (s'.find? k = some r ↔ s.find? k = some r)
  /-- The list of a group that is neither of the provider nor an auto-membership group loses only
  members that were deleted. -/
  lists : ∀ k g, s.find? k = some g → g.isGroup = true → ctx.owns g.ref = false →
    (∀ isGroup, k ∉ (ctx.policy.autoMembershipFor isGroup).keys) →
    ∃ a ms, a.key = k ∧ s.members.lookup a = some ms ∧ s'.members.lookup a = some (s'.present ms)
  /-- Where the record itself is not one of the provider, nothing happens. -/
  foreign : ∀ k r, own k → s.find? k = some r → ctx.owns r.ref = false → s' = s

/-- The remit of a context whose provider finds its own identities only. -/
def remit (ctx : Context) (own : Key → Prop) : Remit where
  own := own
  near ref := ctx.owns ref = true
  auto k := ∃ isGroup, k ∈ (ctx.policy.autoMembershipFor isGroup).keys

theorem remit_covers
    (hp : ∀ q i, (ctx.provider.lookup q).outcome = .ok (some i) → ctx.owns i.ref = true)
    (own : Key → Prop) : (ctx.remit own).Covers ctx where
  owned _ h := h
  found := hp
  joined isGroup _ h := ⟨isGroup, h⟩
  born := trivial
  converts _ _ _ := trivial
  fills _ := trivial

theorem framed_of_turns {own : Key → Prop} {s s' : Store} (hs : s.WellFormed)
    (h : (ctx.remit own).Turns s s')
    (hforeign : ∀ k r, own k → s.find? k = some r → ctx.owns r.ref = false → s' = s) :
    Framed ctx own s s' where
  records := by
    intro k r hk hr
    refine h.record_iff hk ?_
    rintro ⟨hgroup, hown⟩
    rw [hgroup, show ctx.owns r.ref = true from hown] at hr
    cases hr
  lists := by
    intro k g hk hgroup hown hauto
    obtain ⟨a, ms, -, -, rfl, hl⟩ := hs.groupMembers_ok hk hgroup
    refine ⟨a, ms, rfl, hl, h.list hs ⟨⟨g, hk, ?_⟩, ?_⟩ hl⟩
    · exact fun hn => Bool.false_ne_true (hown.symm.trans hn)
    · rintro ⟨isGroup, hm⟩
      exact hauto isGroup hm
  foreign := hforeign

/-- If every identity that the provider finds is one of the configured provider, a synchronisation
that gives an answer leaves everything alone but its own record, the groups of the provider and the
memberships in auto-membership groups. -/
theorem frame (hs : w.store.WellFormed)
    (hp : ∀ q i, (ctx.provider.lookup q).outcome = .ok (some i) → ctx.owns i.ref = true) :
    (∀ i : Identity, ctx.sync i w = (.ok a, w') →
      Framed ctx (fun k => i.id.toKey = .ok k) w.store w'.store) ∧
    ∀ id : Value, ctx.syncId id w = (.ok a, w') →
      Framed ctx (fun k => id.toKey = .ok k) w.store w'.store := by
  refine ⟨fun i hw => ?_, fun id hw => ?_⟩
  · have h := (sync_ends_in (c := w.scene) (i := i) (remit_covers hp fun k => i.id.toKey = .ok k) hs
      fun k hk => hk).of_ok rfl rfl hw
    refine framed_of_turns hs h.turns fun k r hk hr hown => ?_
    exact h.eq_of_foreign hk hr hown
  · have h := (syncId_ends_in (c := w.scene) (remit_covers hp fun k => id.toKey = .ok k)
      hs fun k hk => hk).of_ok rfl rfl hw
    have hturns := h.turns (remit_covers hp _) fun k hk => hk
    refine framed_of_turns hs hturns fun k r hk hr hown => ?_
    exact h.eq_of_foreign hk hr hown

/-- What a provider in memory finds is one of its identities. -/
theorem owns_of_memory {m : Memory} (h : ∀ p ∈ m.identities, ctx.owns p.2.ref = true) (q : Ref)
    (i : Identity) (hi : (m.provider.lookup q).outcome = .ok (some i)) : ctx.owns i.ref = true := by
  have hres : m.resolve q = .ok (some i) := by
    change (Reply.ofResult (m.resolve q)).outcome = _ at hi
    cases hr : m.resolve q with
    | ok a =>
      rw [hr] at hi
      exact hi
    | error f =>
      rw [hr] at hi
      cases hi
  unfold Memory.resolve Memory.find? at hres
  split at hres
  · cases hk : q.id.toKey with
    | error f => simp [hk, bind, Except.bind] at hres
    | ok k =>
      simp only [hk, bind, Except.bind, pure, Except.pure, Except.ok.injEq] at hres
      obtain ⟨l₁, l₂, he, -⟩ := List.lookup_eq_some_iff.1 hres
      exact h (k, i) (by rw [he]; simp)
  · cases hres

/-- A user of the legacy mode in a group of a provider, both of them in a local group. -/
def userInTeam : Store where
  records := [
    (.text "u", {
      id := .text "u", group := .bool false, principalName := .text "User"
      ref := some ⟨.text "u", .text "P"⟩, mode := some .legacy }),
    (.text "g", {
      id := .text "g", group := .bool true, principalName := .text "Group"
      ref := some ⟨.text "g", .text "P"⟩, mode := some .legacy }),
    (.text "team", {
      id := .text "team", group := .bool true, principalName := .text "Team"
      mode := some .legacy })]
  members := [(.text "g", [.text "u"]), (.text "team", [.text "u", .text "g"])]

/-- The user as it is known to the provider, without groups. -/
def lonelyUser : Identity :=
  Memory.identity { name := .text "P" } .user (.text "u") [] .null []

/-- A dynamic context that migrates the records of the user's provider. -/
def migrating : Context where
  policy := { provider := .text "P", user := { enforceDynamic := true } }
  provider := Memory.provider ⟨.text "P", false, [(.text "u", lonelyUser)]⟩
  dynamic := true

/-- The user is migrated, its group is deleted and leaves the local group. -/
theorem frame_userInTeam :
    userInTeam.WellFormed ∧ ∃ a w',
      migrating.sync lonelyUser { store := userInTeam } = (.ok a, w') ∧
      Framed migrating (fun k => lonelyUser.id.toKey = .ok k) userInTeam w'.store ∧
      w'.store.members = [(.text "team", [.text "u"])] := by
  have hwf : userInTeam.WellFormed := by decide
  have hp : ∀ q i, (migrating.provider.lookup q).outcome = .ok (some i) →
      migrating.owns i.ref = true :=
    owns_of_memory (m := ⟨.text "P", false, [(.text "u", lonelyUser)]⟩) (by decide)
  refine ⟨hwf, _, _, rfl, ?_, rfl⟩
  exact (frame (w := { store := userInTeam }) hwf hp).1 lonelyUser rfl

end Context

end Roster
