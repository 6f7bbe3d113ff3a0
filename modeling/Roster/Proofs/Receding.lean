import Roster.Proofs.Ownership

/-!
# Memberships that only recede

Under a policy that forces records onto the dynamic path, a dynamic context begins no membership:
member lists are made by the standard path only, and auto-membership is a matter of standard
contexts. So whatever is synchronised or converted, and wherever it fails, memberships only end, new
records are in the dynamic mode, and no record goes back to the legacy mode (`Store.Recedes`). Going
back to a snapshot gives nothing that was not there when it was taken.

* `Remit.Change.recedes`: a change within a remit that begins no membership.
* `Store.Recedes.of_snapshot`: reading a snapshot back.
* `Deed.Enforced`: what such a context does, one thing after the other or in a block.
* `Deed.run_recedes`: a group that is created in a run has no members for the rest of it.
-/

namespace Roster

namespace Store

variable {s s' s'' t t' : Store} {document v : Value} {k x g : Key} {r r' : Record}

/-- No membership began from one store to another, records came in the dynamic mode only, and none
left it. -/
structure Recedes (s s' : Store) : Prop where
  members : ∀ x g, s'.Member x g → s.Member x g
  created : ∀ k r, s.find? k = none → s'.find? k = some r → r.mode = some .dynamic
  kept : ∀ k r r', s.find? k = some r → s'.find? k = some r' → r.mode = some .dynamic →
    r'.mode = some .dynamic

namespace Recedes

/-- Every record is one that was there in the same mode, or it is in the dynamic mode. -/
theorem of_modes (hm : ∀ x g, s'.Member x g → s.Member x g)
    (h : ∀ k r', s'.find? k = some r' →
      r'.mode = some .dynamic ∨ ∃ r, s.find? k = some r ∧ r'.mode = r.mode) : s.Recedes s' where
  members := hm
  created k r hk hr := by
    rcases h k r hr with hd | ⟨q, hq, -⟩
    · exact hd
    · rw [hk] at hq
      cases hq
  kept k r r' hr hr' hd := by
    rcases h k r' hr' with hd' | ⟨q, hq, he⟩
    · exact hd'
    · obtain rfl : r = q := Option.some.inj (hr.symm.trans hq)
      rw [he, hd]

theorem refl (s : Store) : s.Recedes s :=
  of_modes (fun _ _ h => h) fun _ r' hr' => .inr ⟨r', hr', rfl⟩

theorem trans (h : s.Recedes s') (h' : s'.Recedes s'') : s.Recedes s'' where
  members x g hm := h.members x g (h'.members x g hm)
  created k r hk hr := by
    cases hk' : s'.find? k with
    | none => exact h'.created k r hk' hr
    | some q => exact h'.kept k q r hk' hr (h.created k q hk hk')
  kept k r r' hr hr' hd := by
    cases hk' : s'.find? k with
    | none => exact h'.created k r' hk' hr'
    | some q => exact h'.kept k q r' hk' hr' (h.kept k r q hr hk' hd)

end Recedes

end Store

/-! ## Changes -/

namespace Remit

variable {rm : Remit} {p : Phase} {s s' : Store}

/-- No membership begins within the remit, and records are created in the dynamic mode only. -/
structure Closed (rm : Remit) : Prop where
  born : ∀ m, rm.born m → m = some .dynamic
  fills : ¬ rm.fills

theorem Change.recedes (hrm : rm.Closed) (hs : s.WellFormed) (h : rm.Change p s s') :
    s.Recedes s' := by
  cases h with
  | @put _ _ j q q' hj _ _ hm =>
    refine .of_modes (fun _ _ => Store.member_put.1) fun k r' hr' => ?_
    rw [Store.find?_put hj] at hr'
    split at hr'
    · next he =>
      subst he
      obtain rfl := Option.some.inj hr'
      rcases hm with hm | ⟨-, hm⟩
      · exact .inr ⟨q, hj, hm⟩
      · exact .inl hm
    · exact .inr ⟨r', hr', rfl⟩
  | leave _ =>
    refine .of_modes (fun _ _ hm => (Store.member_cut.1 hm).1) fun _ r' hr' => ?_
    exact .inr ⟨r', hr', rfl⟩
  | @create _ _ j q hid _ _ hc hb =>
    refine .of_modes (fun x g hm => ((hs.created hc).2 x g).1 hm) fun k r' hr' => ?_
    rw [Store.find?_create hid hc] at hr'
    split at hr'
    · obtain rfl := Option.some.inj hr'
      exact .inl (hrm.born _ hb)
    · exact .inr ⟨r', hr', rfl⟩
  | join _ _ _ hf => exact (hrm.fills hf).elim
  | remove _ _ _ =>
    refine .of_modes (fun _ _ hm => (Store.member_drop.1 hm).1) fun k r' hr' => ?_
    rw [Store.find?_drop] at hr'
    split at hr'
    · cases hr'
    · exact .inr ⟨r', hr', rfl⟩

/-- The remit of contexts that force records onto the dynamic path. -/
def enforced : Remit where
  own _ := True
  near _ := True
  auto _ := True
  born m := m = some .dynamic
  fills := False

theorem closed_enforced : enforced.Closed := ⟨fun _ h => h, id⟩

theorem enforced_covers {ctx : Context} (hd : ctx.dynamic = true)
    (he : ctx.policy.enforcesDynamic = true) : enforced.Covers ctx where
  owned _ _ := trivial
  found _ _ _ := trivial
  joined _ _ _ := trivial
  born := by rw [Context.recordMode, hd]; rfl
  converts _ _ _ := trivial
  fills := by
    rintro (hd' | ⟨he', -⟩)
    · exact Bool.false_ne_true (hd'.symm.trans hd)
    · exact Bool.false_ne_true (he'.symm.trans he)

end Remit

/-! ## Snapshots -/

namespace Store

variable {s s' t t' : Store} {document v : Value} {k x g : Key} {r r' q : Record} {b : Bool}

/-- A membership that began is the one that was asked for. -/
theorem WellFormed.member_of_addMember (h : s.WellFormed) (hs : s.addMember q v = .ok (b, s'))
    (hm : s'.Member x g) :
    s.Member x g ∨ v.toKey = .ok x ∧ q.id.toKey = .ok g := by
  obtain ⟨a, ms, m, hgm, hid, ⟨q', hq'⟩, -⟩ := addMember_eq_ok hs
  obtain ⟨ha, hl⟩ := groupMembers_eq_ok hgm
  obtain ⟨b', s₁, hs₁, -, -, hmem⟩ := h.addMember_eq hgm hl hid hq'
  obtain ⟨-, rfl⟩ := Prod.mk.inj (Except.ok.inj (hs₁.symm.trans hs))
  rcases (hmem x g).1 hm with hm | ⟨rfl, rfl⟩
  · exact .inl hm
  · exact .inr ⟨Value.toKey_eq_ok_iff.2 ⟨m, hid, rfl⟩, Value.toKey_eq_ok_iff.2 ⟨a, ha, rfl⟩⟩

theorem WellFormed.member_of_readEntry (h : t.WellFormed) (hv : readEntry t v = .ok t')
    (hm : t'.Member x g) : t.Member x g := by
  unfold readEntry at hv
  obtain ⟨⟨fields, r₀⟩, -, hv⟩ := bind_eq_ok.1 hv
  obtain ⟨k, -, hv⟩ := bind_eq_ok.1 hv
  obtain ⟨t₁, ht₁, hv⟩ := bind_eq_ok.1 hv
  obtain ⟨r, -, hv⟩ := bind_eq_ok.1 hv
  obtain rfl := Except.ok.inj hv
  rw [upTo_eq_ok] at ht₁
  exact ((h.created ht₁).2 x g).1 (member_modify.1 hm)

/-- Reading a member list begins the memberships in the list only. -/
theorem WellFormed.member_of_readMembership {a : Scalar} {ms : List Scalar} (h : t.WellFormed)
    (hl : readMembership t (a, .list (ms.map .scalar)) = .ok t') (hm : t'.Member x g) :
    t.Member x g ∨ g = a.key ∧ ∃ m ∈ ms, x = m.key := by
  unfold readMembership at hl
  split at hl
  · next q hq =>
    obtain ⟨items, hitems, hl⟩ := bind_eq_ok.1 hl
    obtain rfl : ms.map .scalar = items := Except.ok.inj (upTo_eq_ok.1 hitems)
    refine (foldlM_keeps (I := fun u : Store => u.WellFormed ∧ ∀ x g, u.Member x g →
      t.Member x g ∨ g = a.key ∧ ∃ m ∈ ms, x = m.key) ?_ ⟨h, fun _ _ => .inl⟩ hl).2 x g hm
    rintro u _ u' hmem ⟨hu, hold⟩ hread
    obtain ⟨m, hmms, rfl⟩ := List.mem_map.1 hmem
    unfold readMember at hread
    obtain ⟨found, hfound, hread⟩ := bind_eq_ok.1 hread
    dsimp only at hread
    split at hread
    · next r =>
      obtain ⟨⟨b, u₁⟩, hu₁, hread⟩ := bind_eq_ok.1 hread
      obtain rfl := Except.ok.inj hread
      rw [upTo_eq_ok] at hfound hu₁
      have hr : u.find? m.key = some r := Except.ok.inj hfound
      refine ⟨hu.of_addMember hu₁, fun y j hy => ?_⟩
      rcases hu.member_of_addMember hu₁ hy with hy | ⟨hy, hj⟩
      · exact hold y j hy
      · obtain rfl : m.key = y := Except.ok.inj ((hu.toKey_of_find? hr).symm.trans hy)
        obtain rfl : a.key = j := Except.ok.inj ((h.toKey_of_find? hq).symm.trans hj)
        exact .inr ⟨rfl, m, hmms, rfl⟩
    · cases hread
  · cases hl

/-- Reading entries begins no membership. -/
theorem not_member_of_readEntries {entries : List Value} (h : entries.foldlM readEntry {} = .ok t) :
    t.WellFormed ∧ ∀ x g, ¬ t.Member x g := by
  refine foldlM_keeps (I := fun u : Store => u.WellFormed ∧ ∀ x g, ¬ u.Member x g)
    ?_ ⟨wellFormed_empty, ?_⟩ h
  · rintro u v u' - ⟨hu, hnone⟩ hv
    exact ⟨(hu.of_readEntry hv).1, fun x g hm => hnone x g (hu.member_of_readEntry hv hm)⟩
  · rintro x g ⟨_, _, _, hp, -⟩
    cases hp

/-- Reading a snapshot back begins no membership that was not there. -/
theorem member_of_snapshot (hd : s.snapshot = .ok document) (hr : read document = .ok s')
    (hm : s'.Member x g) : s.Member x g := by
  unfold snapshot at hd
  obtain ⟨vs, -, hd⟩ := bind_eq_ok.1 hd
  obtain rfl := Except.ok.inj hd
  unfold read at hr
  dsimp only [Value.mapping?] at hr
  obtain ⟨entries, -, hr⟩ := bind_eq_ok.1 hr
  obtain ⟨t, ht, hr⟩ := bind_eq_ok.1 hr
  obtain ⟨ht, hnone⟩ := not_member_of_readEntries ht
  have hlists (l : Fields) : ((Value.mapping l).orElse (.mapping [])).mapping? = some l := by
    cases l <;> rfl
  split at hr
  · next lists hl =>
    obtain rfl := Option.some.inj ((hlists _).symm.trans hl)
    refine (foldlM_keeps (I := fun u : Store => u.WellFormed ∧
      ∀ x g, u.Member x g → s.Member x g) ?_ ⟨ht, fun x g hm => (hnone x g hm).elim⟩ hr).2 x g hm
    rintro u _ u' hp ⟨hu, hold⟩ hread
    obtain ⟨⟨a, ms⟩, hmem, rfl⟩ := List.mem_map.1 hp
    refine ⟨(hu.of_readMembership hread).1, fun x g hm => ?_⟩
    rcases hu.member_of_readMembership hread hm with hm | ⟨rfl, m, hms, rfl⟩
    · exact hold x g hm
    · exact ⟨a, ms, m, List.mem_of_mem_filter hmem, rfl, hms, rfl⟩
  · cases hr

/-- Reading a snapshot back gives no record and no membership that was not there, and every record
its mode. -/
theorem Recedes.of_snapshot (hs : s.WellFormed) (hd : s.snapshot = .ok document)
    (hr : read document = .ok s') : s.Recedes s' := by
  refine .of_modes (fun _ _ => member_of_snapshot hd hr) fun k r' hr' => .inr ?_
  obtain ⟨r, hmem, v, he, hsaid⟩ := says_of_snapshot hd hr hr'
  obtain ⟨j, hj⟩ := hs.mem_all_iff.1 hmem
  obtain ⟨hid, -⟩ := hsaid.ref_of_entry he
  have hk : r.id.toKey = .ok k := hid ▸ (of_read hr).1.toKey_of_find? hr'
  obtain rfl : j = k := Except.ok.inj ((hs.toKey_of_find? hj).symm.trans hk)
  exact ⟨r, hj, (hsaid.of_entry he).1⟩

end Store

/-! ## Runs -/

namespace Store

/-- A well-formed store that is left when a store recedes. -/
def Receded (s₀ s : Store) : Prop := s.WellFormed ∧ s₀.Recedes s

theorem receded_preserved {rm : Remit} (hrm : rm.Closed) (s₀ : Store) :
    rm.Preserves s₀.Receded where
  wellFormed _ h := h.1
  change _ _ _ h hc := ⟨hc.wellFormed h.1, h.2.trans (hc.recedes hrm h.1)⟩

end Store

namespace Deed

open Sync (Keeps)

/-- What is done on behalf of dynamic contexts whose policies force records onto the dynamic path:
synchronisations and conversions, one after the other or in a block that may be rolled back, under
whatever failures are planned. -/
inductive Enforced : Deed → Prop where
  | sync {ctx : Context} {i : Identity} (hd : ctx.dynamic = true)
    (he : ctx.policy.enforcesDynamic = true) : Enforced (.sync ctx i)
  | syncId {ctx : Context} {id : Value} (hd : ctx.dynamic = true)
    (he : ctx.policy.enforcesDynamic = true) : Enforced (.syncId ctx id)
  | convertMembership {ctx : Context} {x : Subject} (hd : ctx.dynamic = true)
    (he : ctx.policy.enforcesDynamic = true) : Enforced (.convertMembership ctx x)
  | meanwhile {clock : Value} {faults : Faults} {held : List (Nat × Record)} :
    Enforced (.meanwhile clock faults held)
  | fail {f : Failure} : Enforced (.fail f)
  | attempt {deed : Deed} (h : Enforced deed) : Enforced (.attempt deed)
  | transaction {block : List Deed} (h : ∀ deed ∈ block, Enforced deed) :
    Enforced (.transaction block)

variable {s₀ : Store}

/-- Deeds that keep an invariant keep it one after the other. -/
theorem block_keeps {I : Store → Prop} {block : List Deed}
    (h : ∀ deed ∈ block, Keeps I deed.perform fun _ => True) :
    Keeps I (performAll block) fun _ => True := by
  induction block with
  | nil =>
    rw [performAll]
    exact Keeps.pure trivial
  | cons deed block ih =>
    rw [performAll]
    refine (h deed List.mem_cons_self).bind fun _ _ => ih fun next hn => ?_
    exact h next (List.mem_cons_of_mem _ hn)

/-- Whatever is done, memberships recede, also where it fails or is rolled back. -/
theorem Enforced.keeps {deed : Deed} (h : deed.Enforced) :
    Keeps s₀.Receded deed.perform fun _ => True := by
  have hkept := Store.receded_preserved Remit.closed_enforced s₀
  have hown (k : Key) : Remit.enforced.own k := trivial
  induction h with
  | @sync ctx i hd he =>
    rw [perform]
    exact discard_keeps (sync_keeps hkept hown (Remit.enforced_covers hd he) i)
  | @syncId ctx id hd he =>
    rw [perform]
    exact discard_keeps (syncId_keeps hkept hown (Remit.enforced_covers hd he) id)
  | @convertMembership ctx x hd he =>
    rw [perform]
    exact discard_keeps
      (convertMembership_keeps hkept hown (Remit.enforced_covers hd he) (fun _ => trivial) x)
  | meanwhile =>
    rw [perform]
    exact Keeps.modify fun _ hs => hs
  | fail =>
    rw [perform]
    exact Keeps.throw
  | attempt _ ih =>
    rw [perform]
    exact ih.tryCatch fun _ => Keeps.pure trivial
  | transaction _ ih =>
    rw [perform]
    refine (block_keeps ih).transaction fun s s' document hs hd hr => ?_
    exact ⟨(Store.of_read hr).1, hs.2.trans (.of_snapshot hs.1 hd hr)⟩

variable {w : World}

theorem Enforced.recedes {deed : Deed} (h : deed.Enforced) (hs : w.store.WellFormed) :
    w.store.Receded (deed.perform w).2.store :=
  (h.keeps w ⟨hs, .refl _⟩).1

theorem receded_run {deeds : List Deed} (hd : ∀ deed ∈ deeds, deed.Enforced)
    (h : s₀.Receded w.store) : s₀.Receded (run deeds w).store :=
  run_keeps (fun deed hm => (hd deed hm).keeps) h

/-- On behalf of dynamic contexts whose policies force records onto the dynamic path, each thing
that is done lets memberships recede; a group that is not there at some point of a run has no
members from then on. -/
theorem run_recedes {deeds : List Deed} (hs : w.store.WellFormed)
    (hd : ∀ deed ∈ deeds, deed.Enforced) :
    (∀ first next later, deeds = first ++ next :: later →
      (run first w).store.Recedes (next.perform (run first w)).2.store) ∧
    ∀ first middle later g, deeds = first ++ middle ++ later →
      (run first w).store.find? g = none → ∀ x, ¬ (run (first ++ middle) w).store.Member x g := by
  have hrun {first later : List Deed} (he : deeds = first ++ later) :
      w.store.Receded (run first w).store :=
    receded_run (fun deed hm => hd deed (by rw [he]; exact List.mem_append_left _ hm))
      ⟨hs, .refl _⟩
  constructor
  · rintro first next later he
    exact ((hd next (by rw [he]; simp)).recedes (hrun he).1).2
  · rintro first middle later g he hg x hm
    rw [List.append_assoc] at he
    rw [run_append] at hm
    have hwf := (hrun he).1
    have hmiddle : (run first w).store.Receded (run middle (run first w)).store :=
      receded_run (fun deed hm => hd deed (by rw [he]; simp [hm])) ⟨hwf, .refl _⟩
    obtain ⟨-, r, hr, -⟩ := hwf.exists_of_member (hmiddle.2.members x g hm)
    rw [hg] at hr
    cases hr

/-- The user of a group that is known to the provider. -/
def userOfGroup : Identity :=
  Memory.identity { name := .text "P" } .user (.text "u") [some ⟨.text "h", .text "P"⟩] .null []

/-- A dynamic context with dynamic groups, whose provider knows the user and the group. -/
def knowing : Context where
  policy := { provider := .text "P", group := { dynamicGroups := true } }
  provider := Memory.provider ⟨.text "P", false, [
    (.text "h", Memory.identity { name := .text "P" } .group (.text "h") [] .null []),
    (.text "u", userOfGroup)]⟩
  dynamic := true

/-- The user is synchronised in a block that is rolled back, and then again. -/
def placedTwice : List Deed := [
  .attempt (.transaction [.sync knowing userOfGroup, .fail .malformed]),
  .syncId knowing (.text "u")]

/-- The user leaves its group with the legacy mode, and the new group is there without members. -/
theorem run_recedes_placedTwice :
    Context.userInTeam.WellFormed ∧ (∀ deed ∈ placedTwice, deed.Enforced) ∧
    Context.userInTeam.find? (.text "h") = none ∧
    (run placedTwice { store := Context.userInTeam }).store.members
      = [(.text "g", []), (.text "team", [.text "u", .text "g"]), (.text "h", [])] ∧
    ∀ x, ¬ (run placedTwice { store := Context.userInTeam }).store.Member x (.text "h") := by
  have hwf : Context.userInTeam.WellFormed := by decide
  have hd : ∀ deed ∈ placedTwice, deed.Enforced := by
    rintro _ (_ | ⟨_, _ | ⟨_, ⟨⟩⟩⟩)
    · refine .attempt (.transaction ?_)
      rintro _ (_ | ⟨_, _ | ⟨_, ⟨⟩⟩⟩)
      · exact .sync rfl rfl
      · exact .fail
    · exact .syncId rfl rfl
  refine ⟨hwf, hd, rfl, rfl, ?_⟩
  exact (run_recedes (w := { store := Context.userInTeam }) hwf hd).2 [] placedTwice [] _
    (by simp) rfl

end Deed

end Roster
