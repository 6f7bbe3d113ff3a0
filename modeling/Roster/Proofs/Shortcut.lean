import Roster.Proofs.Changes
import Roster.Proofs.Foreign
import Roster.Proofs.Migration

/-!
# The shortcut at the last hop

With direct mapping, the references that are met at the last hop are not followed: each is taken to
tell the name of its group. A reference to a group that the provider holds tells the name that
following it finds. But it is not noticed that a reference leads to no group: one to nothing tells its
own id, and one to a user tells the name of the user, which thus comes to stand among the names of
groups.

* `MetAfter`: the references of the provider that are met after a number of hops.
* `nameWithin_succ_last`: the names within one more hop, told apart by the last hop.
* `collected_succ_iff_told`: with direct mapping, what is collected are the names within all hops but
  the last and what the references of the last hop tell.
* `collect_mapped`: what the shortcut changes, and when it changes nothing.
-/

namespace Roster

namespace Memory

variable {m : Memory} {q : Ref} {n : Key} {i : Identity}

/-- The provider with or without direct mapping. -/
def withMapping (m : Memory) (on : Bool) : Memory := { m with directMapping := on }

theorem Typed.withMapping (h : m.Typed) (on : Bool) : (m.withMapping on).Typed :=
  ⟨h.name, h.identities⟩

/-- Nothing is held under the id of the reference. -/
def Unknown (m : Memory) (q : Ref) : Prop := m.find? q.id = .ok none

/-- A reference tells the name of what is held under its id, and its own id if there is nothing. -/
theorem tells_iff : m.Tells q n ↔ (m.Unknown q ∧ q.id.toKey = .ok n) ∨
    ∃ i, m.find? q.id = .ok (some i) ∧ i.principalName.toKey = .ok n := by
  unfold Tells directName Unknown
  cases m.find? q.id with
  | error f => simp [bind, Except.bind]
  | ok a => cases a <;> simp [bind, Except.bind, pure, Except.pure]

theorem Unknown.toKey (h : m.Unknown q) : ∃ n, q.id.toKey = .ok n := by
  obtain ⟨n, hn, -⟩ := bind_eq_ok.1 h
  exact ⟨n, hn⟩

theorem find?_of_resolve (h : m.resolve q = .ok (some i)) : m.find? q.id = .ok (some i) := by
  unfold resolve at h
  split at h
  · exact h
  · cases h

end Memory

namespace Context

/-- The reference is one of the provider and is met when references were followed for a number of
hops. -/
def MetAfter (ctx : Context) (m : Memory) : Nat → List (Option Ref) → Ref → Prop
  | 0, refs, q => some q ∈ refs ∧ ctx.policy.owns q = true
  | d + 1, refs, q => ∃ ref ∈ refs, ∃ i, ctx.leadsTo m ref = some i ∧ MetAfter ctx m d i.groups q

/-- The name of a group within a number of hops of references, or what a reference tells that is
met after them. -/
def Told (ctx : Context) (m : Memory) (d : Nat) (refs : List (Option Ref)) (n : Key) : Prop :=
  ctx.NameWithin m d refs n ∨ ∃ q, ctx.MetAfter m d refs q ∧ m.Tells q n

variable {ctx : Context} {m : Memory} {c : Scene} {s : Store} {r q : Ref} {d : Nat}
  {refs : List (Option Ref)} {n : Key} {j : Identity} {log : Channel}

/-! ## The last hop -/

/-- A group within one more hop is one within the hops before, or one that a reference leads to
that is met after them. -/
theorem within_succ_last : ctx.Within m (d + 1) refs j ↔
    ctx.Within m d refs j ∨ ∃ q, ctx.MetAfter m d refs q ∧ ctx.leadsTo m (some q) = some j := by
  induction d generalizing refs with
  | zero =>
    simp only [Within, MetAfter, or_false, false_or]
    constructor
    · rintro ⟨ref, href, i, hi, rfl⟩
      obtain ⟨q, rfl, ho, -⟩ := leadsTo_eq_some_iff.1 hi
      exact ⟨q, ⟨href, ho⟩, hi⟩
    · rintro ⟨q, ⟨hq, -⟩, hj⟩
      exact ⟨some q, hq, j, hj, rfl⟩
  | succ d ih =>
    rw [Within]
    constructor
    · rintro ⟨ref, href, i, hi, rfl | hj⟩
      · exact .inl ⟨ref, href, j, hi, .inl rfl⟩
      · rcases ih.1 hj with hj | ⟨q, hq, hj⟩
        · exact .inl ⟨ref, href, i, hi, .inr hj⟩
        · exact .inr ⟨q, ⟨ref, href, i, hi, hq⟩, hj⟩
    · rintro (⟨ref, href, i, hi, hj⟩ | ⟨q, ⟨ref, href, i, hi, hq⟩, hj⟩)
      · exact ⟨ref, href, i, hi, hj.imp_right fun hj => ih.2 (.inl hj)⟩
      · exact ⟨ref, href, i, hi, .inr (ih.2 (.inr ⟨q, hq, hj⟩))⟩

theorem nameWithin_succ_last : ctx.NameWithin m (d + 1) refs n ↔
    ctx.NameWithin m d refs n ∨ ∃ q, ctx.MetAfter m d refs q ∧
      ∃ i, ctx.leadsTo m (some q) = some i ∧ i.principalName.toKey = .ok n := by
  simp only [NameWithin, within_succ_last]
  grind

/-- What one more hop tells lies behind one of the references. -/
theorem told_succ_iff : ctx.Told m (d + 1) refs n ↔
    ∃ r ∈ (refs.filterMap id).filter ctx.policy.owns, ∃ i, ctx.leadsTo m (some r) = some i ∧
      (i.principalName.toKey = .ok n ∨ ctx.Told m d i.groups n) := by
  rw [Told, nameWithin_succ_iff]
  constructor
  · rintro (⟨r, hr, i, hi, hn⟩ | ⟨q, ⟨ref, href, i, hi, hq⟩, hn⟩)
    · exact ⟨r, hr, i, hi, hn.imp_right .inl⟩
    · obtain ⟨r, rfl, ho, -⟩ := leadsTo_eq_some_iff.1 hi
      exact ⟨r, mem_own.2 ⟨href, ho⟩, i, hi, .inr (.inr ⟨q, hq, hn⟩)⟩
  · rintro ⟨r, hr, i, hi, hn | hn | ⟨q, hq, hn⟩⟩
    · exact .inl ⟨r, hr, i, hi, .inl hn⟩
    · exact .inl ⟨r, hr, i, hi, .inr hn⟩
    · exact .inr ⟨q, ⟨some r, (mem_own.1 hr).1, i, hi, hq⟩, hn⟩

/-- With direct mapping, what is collected is what is told. -/
theorem collected_succ_iff_told (hdirect : m.directMapping = true) :
    ctx.Collected m (d + 1) refs n ↔ ctx.Told m d refs n := by
  induction d generalizing refs with
  | zero =>
    rw [Collected, if_pos ⟨rfl, hdirect⟩]
    simp only [mem_own, Told, NameWithin, Within, MetAfter, false_and, exists_false, false_or]
  | succ d ih =>
    rw [Collected, if_neg (by simp), told_succ_iff]
    simp only [ih]

/-! ## With the shortcut and without -/

section Mapping

variable {p : Policy} {dynamic on : Bool}

theorem leadsTo_withMapping (ref : Option Ref) :
    (ofMemory p (m.withMapping on) dynamic).leadsTo (m.withMapping on) ref
      = (ofMemory p m dynamic).leadsTo m ref := rfl

theorem within_withMapping :
    (ofMemory p (m.withMapping on) dynamic).Within (m.withMapping on) d refs j
      ↔ (ofMemory p m dynamic).Within m d refs j := by
  induction d generalizing refs with
  | zero => exact Iff.rfl
  | succ d ih => simp only [Within, leadsTo_withMapping, ih]

theorem metAfter_withMapping :
    (ofMemory p (m.withMapping on) dynamic).MetAfter (m.withMapping on) d refs q
      ↔ (ofMemory p m dynamic).MetAfter m d refs q := by
  induction d generalizing refs with
  | zero => exact Iff.rfl
  | succ d ih => simp only [MetAfter, leadsTo_withMapping, ih]

theorem tells_withMapping : (m.withMapping on).Tells q n ↔ m.Tells q n := Iff.rfl

end Mapping

/-- A reference to a group tells the name of this group. -/
theorem tells_of_leadsTo (hj : ctx.leadsTo m (some q) = some j)
    (hn : j.principalName.toKey = .ok n) : m.Tells q n := by
  obtain ⟨_, ⟨rfl⟩, -, hres, -⟩ := leadsTo_eq_some_iff.1 hj
  exact Memory.tells_iff.2 (.inr ⟨j, Memory.find?_of_resolve hres, hn⟩)

/-- All names of groups within the number of hops are told. -/
theorem told_of_nameWithin (h : ctx.NameWithin m (d + 1) refs n) : ctx.Told m d refs n := by
  rcases nameWithin_succ_last.1 h with h | ⟨q, hq, i, hi, hn⟩
  · exact .inl h
  · exact .inr ⟨q, hq, tells_of_leadsTo hi hn⟩

/-- What is told besides is told by references that lead to no group. -/
theorem nameWithin_or_of_told (h : ctx.Told m d refs n) :
    ctx.NameWithin m (d + 1) refs n ∨ ∃ q, ctx.MetAfter m d refs q ∧
      ctx.leadsTo m (some q) = none ∧ m.Tells q n := by
  rcases h with h | ⟨q, hq, htells⟩
  · exact .inl (nameWithin_succ_last.2 (.inl h))
  cases hl : ctx.leadsTo m (some q) with
  | none => exact .inr ⟨q, hq, hl, htells⟩
  | some i =>
    obtain ⟨_, ⟨rfl⟩, -, hres, -⟩ := leadsTo_eq_some_iff.1 hl
    have hfound := Memory.find?_of_resolve hres
    rcases Memory.tells_iff.1 htells with ⟨hno, -⟩ | ⟨j, hj, hn⟩
    · cases hno.symm.trans hfound
    · obtain rfl := Option.some.inj (Except.ok.inj (hj.symm.trans hfound))
      exact .inl (nameWithin_succ_last.2 (.inr ⟨q, hq, j, hl, hn⟩))

/-- A reference of texts is typed. -/
theorem typedRefs_text (id provider : String) : TypedRefs [some ⟨.text id, .text provider⟩] := by
  intro ref href
  obtain rfl := List.mem_singleton.1 href
  exact ⟨_, rfl, ⟨_, rfl⟩, .inr ⟨_, rfl⟩⟩

/-- Direct mapping keeps all names, and adds the ids of the references met at the last hop under
which the provider holds nothing. Whatever else it adds is the name of something that such a
reference stands for and that is no group of the provider, a user's for one. So it changes nothing if
and only if what the references tell that are met at the last hop and lead to no group are names of
groups within the hops anyhow. -/
theorem collect_mapped {p : Policy} {m : Memory} {dynamic : Bool} {d : Nat}
    {refs : List (Option Ref)} {w w' : World} (log log' : Channel) (hp : p.Typed) (hm : m.Typed)
    (hrefs : TypedRefs refs) (hw : ¬ w.scene.FailsLookups) (hw' : ¬ w'.scene.FailsLookups) :
    ∃ told found v v',
      (ofMemory p (m.withMapping true) dynamic).collect log (d + 1) ∅ refs w = (.ok told, v) ∧
      (ofMemory p (m.withMapping false) dynamic).collect log' (d + 1) ∅ refs w'
        = (.ok found, v') ∧
      (∀ n ∈ found.keys, n ∈ told.keys) ∧
      (∀ q, (ofMemory p m dynamic).MetAfter m d refs q → m.Unknown q →
        ∃ n ∈ told.keys, q.id.toKey = .ok n) ∧
      (∀ n ∈ told.keys, n ∈ found.keys ∨
        ∃ q, (ofMemory p m dynamic).MetAfter m d refs q ∧
          (ofMemory p m dynamic).leadsTo m (some q) = none ∧ (m.Unknown q ∧ q.id.toKey = .ok n ∨
            ∃ i, m.find? q.id = .ok (some i) ∧ i.principalName.toKey = .ok n)) ∧
      (told = found ↔ ∀ q, (ofMemory p m dynamic).MetAfter m d refs q →
        (ofMemory p m dynamic).leadsTo m (some q) = none → ∀ n, m.Tells q n →
          (ofMemory p m dynamic).NameWithin m (d + 1) refs n) := by
  have hserved (on : Bool) :
      (ofMemory p (m.withMapping on) dynamic).Served (m.withMapping on) :=
    ⟨rfl, hm.withMapping on, hp⟩
  obtain ⟨told, v, hrun, -, -, htold, hkeys⟩ :=
    ((hserved true).collect_gains (d + 1) hrefs NameSet.texts_empty).run rfl
      (rfl : w.store = w.store)
  obtain ⟨found, v', hrun', -, -, hfound, hkeys'⟩ :=
    ((hserved false).collect_ends (d + 1) hrefs NameSet.texts_empty).run rfl
      (rfl : w'.store = w'.store)
  have htold_iff (n : Key) : n ∈ told.keys ↔ (ofMemory p m dynamic).Told m d refs n := by
    refine ((hkeys (.of_not_failsLookups hw) n).trans (or_iff_right List.not_mem_nil)).trans ?_
    rw [collected_succ_iff_told rfl]
    simp only [Told, NameWithin, within_withMapping, metAfter_withMapping, tells_withMapping]
  have hfound_iff (n : Key) :
      n ∈ found.keys ↔ (ofMemory p m dynamic).NameWithin m (d + 1) refs n := by
    refine ((hkeys' (Plain.clear ⟨hw', rfl⟩) n).trans (or_iff_right List.not_mem_nil)).trans ?_
    simp only [NameWithin, within_withMapping]
  have hkeeps (n : Key) (hn : n ∈ found.keys) : n ∈ told.keys :=
    (htold_iff n).2 (told_of_nameWithin ((hfound_iff n).1 hn))
  refine ⟨told, found, v, v', hrun, hrun', hkeeps, fun q hq hno => ?_, fun n hn => ?_,
    fun heq q hq _ n hn => ?_, fun hall => htold.ext hfound fun n => ⟨fun hn => ?_, hkeeps n⟩⟩
  · obtain ⟨n, hn⟩ := hno.toKey
    exact ⟨n, (htold_iff n).2 (.inr ⟨q, hq, Memory.tells_iff.2 (.inl ⟨hno, hn⟩)⟩), hn⟩
  · refine (nameWithin_or_of_told ((htold_iff n).1 hn)).imp (hfound_iff n).2 ?_
    rintro ⟨q, hq, hl, htells⟩
    exact ⟨q, hq, hl, Memory.tells_iff.1 htells⟩
  · rw [← hfound_iff, ← heq]
    exact (htold_iff n).2 (.inr ⟨q, hq, hn⟩)
  · rcases nameWithin_or_of_told ((htold_iff n).1 hn) with hn | ⟨q, hq, hl, htells⟩
    · exact (hfound_iff n).2 hn
    · exact (hfound_iff n).2 (hall q hq hl n htells)

/-- Besides the group, the provider tells the user that is taken for one. -/
theorem collect_mapped_groupAndUser :
    twoHops.Typed ∧ cyclicGroups.Typed ∧ ∃ told found v v',
      (ofMemory twoHops (cyclicGroups.withMapping true) true).collect ⟨"test", none⟩ 1 ∅
        [some ⟨.text "g", .text "P"⟩, some ⟨.text "u", .text "P"⟩] {} = (.ok told, v) ∧
      (ofMemory twoHops (cyclicGroups.withMapping false) true).collect ⟨"test", none⟩ 1 ∅
        [some ⟨.text "g", .text "P"⟩, some ⟨.text "u", .text "P"⟩] {} = (.ok found, v') ∧
      (∀ n ∈ found.keys, n ∈ told.keys) ∧ told ≠ found := by
  have hrefs : TypedRefs [some ⟨.text "g", .text "P"⟩, some ⟨.text "u", .text "P"⟩] := by
    intro ref href
    simp only [List.mem_cons, List.not_mem_nil, or_false] at href
    rcases href with rfl | rfl <;> exact ⟨_, rfl, ⟨_, rfl⟩, .inr ⟨_, rfl⟩⟩
  have hplain : ¬ (World.scene {}).FailsLookups := Scene.not_failsLookups rfl
  obtain ⟨told, found, v, v', hrun, hrun', hkeeps, -, -, hsame⟩ :=
    collect_mapped (d := 0) ⟨"test", none⟩ ⟨"test", none⟩ typed_twoHops typed_cyclicGroups hrefs
      hplain hplain
  refine ⟨typed_twoHops, typed_cyclicGroups, told, found, v, v', hrun, hrun', hkeeps, fun heq => ?_⟩
  obtain ⟨j, ⟨ref, href, i, hi, hj⟩, hn⟩ :=
    hsame.1 heq ⟨.text "u", .text "P"⟩ ⟨by simp, rfl⟩ rfl (.text "u")
      (Memory.tells_iff.2 (.inr ⟨_, rfl, rfl⟩))
  simp only [List.mem_cons, List.not_mem_nil, or_false] at href
  obtain rfl : j = i := hj.resolve_right id
  rcases href with rfl | rfl
  · obtain rfl := Option.some.inj hi
    exact absurd (Key.text.inj (Except.ok.inj hn)) (by decide)
  · cases hi

/-- For a reference to a user, the two ways do not give the same names. -/
theorem collect_mapped_ne_collect :
    twoHops.Typed ∧ cyclicGroups.Typed ∧ ∃ told found v v',
      (ofMemory twoHops (cyclicGroups.withMapping true) true).collect ⟨"test", none⟩ 1 ∅
        [some ⟨.text "u", .text "P"⟩] {} = (.ok told, v) ∧
      (ofMemory twoHops (cyclicGroups.withMapping false) true).collect ⟨"test", none⟩ 1 ∅
        [some ⟨.text "u", .text "P"⟩] {} = (.ok found, v') ∧
      told.keys = [.text "u"] ∧ found.keys = [] :=
  ⟨typed_twoHops, typed_cyclicGroups, _, _, _, _, rfl, rfl, rfl, rfl⟩

end Context

end Roster
