import Mathlib.Data.List.Nodup
import Mathlib.Logic.Relation
import Roster.Proofs.Shortcut

/-!
# Depths that are deep enough

Collecting names keeps no record of the groups that it has been to, only a number of hops. Every
group that can be reached from the references at all is reached on a path that comes to no group
twice, so that no more hops are needed than the provider holds groups; and a group that is reached
within some hops is reached within more.

* `Memory.groups`, `Context.Beyond`: the groups of a provider, and those that can be reached.
* `Context.Path`: a path to a group, told from its end.
* `Context.within_iff_beyond`: with as many hops as there are groups, all that can be reached are.
* `Context.collect_saturates`: the names that are collected, for all depths.
-/

namespace Roster

/-- The groups that a provider holds. -/
def Memory.groups (m : Memory) : List Identity := (m.identities.map (·.2)).filter (·.isGroup)

namespace Context

/-- A group declares another one. -/
def Nests (ctx : Context) (m : Memory) (i j : Identity) : Prop :=
  ∃ ref ∈ i.groups, ctx.leadsTo m ref = some j

/-- The group can be reached from references, at whatever distance. -/
def Beyond (ctx : Context) (m : Memory) (refs : List (Option Ref)) (j : Identity) : Prop :=
  ∃ ref ∈ refs, ∃ i, ctx.leadsTo m ref = some i ∧ Relation.ReflTransGen (ctx.Nests m) i j

/-- The groups on a path from references, the one at its end first. -/
inductive Path (ctx : Context) (m : Memory) (refs : List (Option Ref)) : List Identity → Prop
  | first {ref i} (href : ref ∈ refs) (hi : ctx.leadsTo m ref = some i) : Path ctx m refs [i]
  | next {i j is} (hpath : Path ctx m refs (i :: is)) (hij : ctx.Nests m i j) :
      Path ctx m refs (j :: i :: is)

variable {ctx : Context} {m : Memory} {refs : List (Option Ref)} {ref : Option Ref}
  {i j : Identity} {is : List Identity} {d e : Nat} {n : Key}

/-! ## Paths -/

theorem mem_groups_of_leadsTo (h : ctx.leadsTo m ref = some i) : i ∈ m.groups := by
  obtain ⟨r, -, -, hres, hgroup⟩ := leadsTo_eq_some_iff.1 h
  obtain ⟨k, -, hk⟩ := bind_eq_ok.1 (Memory.find?_of_resolve hres)
  obtain ⟨l₁, l₂, he, -⟩ := List.lookup_eq_some_iff.1 (Except.ok.inj hk)
  exact List.mem_filter.2 ⟨List.mem_map.2 ⟨(k, i), by rw [he]; simp, rfl⟩, hgroup⟩

/-- A path passes groups of the provider only. -/
theorem Path.subset_groups (h : ctx.Path m refs is) : is ⊆ m.groups := by
  induction h with
  | first href hi => exact List.cons_subset.2 ⟨mem_groups_of_leadsTo hi, List.nil_subset _⟩
  | next hpath hij ih =>
    obtain ⟨ref, -, hj⟩ := hij
    exact List.cons_subset.2 ⟨mem_groups_of_leadsTo hj, ih⟩

/-- The way to a group that a path passes is a path. -/
theorem Path.of_append {is₁ is₂ : List Identity} (h : ctx.Path m refs (is₁ ++ j :: is₂)) :
    ctx.Path m refs (j :: is₂) := by
  induction is₁ with
  | nil => exact h
  | cons i is₁ ih =>
    refine ih ?_
    rw [List.cons_append] at h
    generalize he : is₁ ++ j :: is₂ = is at h
    cases h with
    | first => exact absurd he (by simp)
    | next hpath => exact hpath

/-- What can be reached is reached on a path that comes to no group twice. -/
theorem exists_path_nodup (h : ctx.Beyond m refs j) :
    ∃ is, ctx.Path m refs (j :: is) ∧ (j :: is).Nodup := by
  obtain ⟨ref, href, i, hi, hij⟩ := h
  induction hij with
  | refl => exact ⟨[], .first href hi, List.nodup_singleton i⟩
  | @tail i j _ hij ih =>
    obtain ⟨is, hpath, hnodup⟩ := ih
    by_cases hj : j ∈ i :: is
    · -- the path has been here before: what came after is left out
      obtain ⟨is₁, is₂, he⟩ := List.append_of_mem hj
      rw [he] at hpath hnodup
      exact ⟨is₂, hpath.of_append, hnodup.of_append_right⟩
    · exact ⟨i :: is, .next hpath hij, List.nodup_cons.2 ⟨hj, hnodup⟩⟩

/-! ## Hops -/

/-- A group that is declared by one within a number of hops is within one more. -/
theorem within_of_nests (h : ctx.Within m d refs i) (hij : ctx.Nests m i j) :
    ctx.Within m (d + 1) refs j := by
  induction d generalizing refs with
  | zero => exact h.elim
  | succ d ih =>
    obtain ⟨ref, href, k, hk, rfl | hi⟩ := h
    · obtain ⟨ref', href', hj⟩ := hij
      exact ⟨ref, href, i, hk, .inr ⟨ref', href', j, hj, .inl rfl⟩⟩
    · exact ⟨ref, href, k, hk, .inr (ih hi)⟩

/-- The end of a path is within as many hops as the path has groups. -/
theorem Path.within (h : ctx.Path m refs (j :: is)) : ctx.Within m (j :: is).length refs j := by
  generalize he : j :: is = l at h
  induction h generalizing j is with
  | first href hi =>
    obtain rfl := (List.cons.inj he).1
    exact ⟨_, href, _, hi, .inl rfl⟩
  | next hpath hij ih =>
    obtain rfl := (List.cons.inj he).1
    exact within_of_nests (ih rfl) hij

/-- What is within some hops is within more. -/
theorem within_mono (hde : d ≤ e) (h : ctx.Within m d refs j) : ctx.Within m e refs j := by
  induction d generalizing refs e with
  | zero => exact h.elim
  | succ d ih =>
    obtain ⟨e, rfl⟩ := Nat.exists_eq_add_of_le' (Nat.le_trans (Nat.le_add_left 1 d) hde)
    obtain ⟨ref, href, i, hi, hj⟩ := h
    exact ⟨ref, href, i, hi, hj.imp_right (ih (Nat.le_of_succ_le_succ hde))⟩

theorem beyond_of_within (h : ctx.Within m d refs j) : ctx.Beyond m refs j := by
  induction d generalizing refs with
  | zero => exact h.elim
  | succ d ih =>
    obtain ⟨ref, href, i, hi, rfl | hj⟩ := h
    · exact ⟨ref, href, j, hi, .refl⟩
    · obtain ⟨ref', href', k, hk, hkj⟩ := ih hj
      exact ⟨ref, href, i, hi, .head ⟨ref', href', hk⟩ hkj⟩

/-- With as many hops as the provider holds groups, everything is reached that can be reached. -/
theorem within_iff_beyond (hd : m.groups.length ≤ d) :
    ctx.Within m d refs j ↔ ctx.Beyond m refs j := by
  refine ⟨beyond_of_within, fun h => ?_⟩
  obtain ⟨is, hpath, hnodup⟩ := exists_path_nodup h
  have hlen : (j :: is).length ≤ m.groups.length :=
    (List.subperm_of_subset hnodup hpath.subset_groups).length_le
  exact within_mono (hlen.trans hd) hpath.within

/-- Raising the depth never loses a name, and from the number of groups that the provider holds on
it changes nothing: the names are then those of all groups that can be reached, whatever cycles they
form. -/
theorem collect_saturates {w w' : World} (h : ctx.Served m) (hdirect : m.directMapping = false)
    (hrefs : TypedRefs refs) (hw : ¬ w.scene.FailsLookups) (hw' : ¬ w'.scene.FailsLookups)
    (log log' : Channel) (d e : Int) :
    ∃ ns v ns' v', ctx.collect log d.toNat ∅ refs w = (.ok ns, v) ∧
      ctx.collect log' e.toNat ∅ refs w' = (.ok ns', v') ∧
      (d ≤ e → ∀ n ∈ ns.keys, n ∈ ns'.keys) ∧
      (m.groups.length ≤ d → ∀ n, n ∈ ns.keys ↔
        ∃ j, ctx.Beyond m refs j ∧ j.principalName.toKey = .ok n) ∧
      (m.groups.length ≤ d → m.groups.length ≤ e → ns = ns') := by
  obtain ⟨ns, v, hrun, -, -, hns, hkeys⟩ :=
    (h.collect_ends d.toNat hrefs NameSet.texts_empty).run rfl (rfl : w.store = w.store)
  obtain ⟨ns', v', hrun', -, -, hns', hkeys'⟩ :=
    (h.collect_ends e.toNat hrefs NameSet.texts_empty).run rfl (rfl : w'.store = w'.store)
  have hiff (n : Key) : n ∈ ns.keys ↔ ctx.NameWithin m d.toNat refs n :=
    (hkeys (Plain.clear ⟨hw, hdirect⟩) n).trans (or_iff_right List.not_mem_nil)
  have hiff' (n : Key) : n ∈ ns'.keys ↔ ctx.NameWithin m e.toNat refs n :=
    (hkeys' (Plain.clear ⟨hw', hdirect⟩) n).trans (or_iff_right List.not_mem_nil)
  have hall {d : Int} (hd : m.groups.length ≤ d) (n : Key) : ctx.NameWithin m d.toNat refs n ↔
      ∃ j, ctx.Beyond m refs j ∧ j.principalName.toKey = .ok n := by
    have hdepth : m.groups.length ≤ d.toNat := by omega
    simp only [NameWithin, within_iff_beyond hdepth]
  refine ⟨ns, v, ns', v', hrun, hrun', fun hde n hn => ?_, fun hd n => (hiff n).trans (hall hd n),
    fun hd he => hns.ext hns' fun n => ?_⟩
  · obtain ⟨j, hj, hname⟩ := (hiff n).1 hn
    exact (hiff' n).2 ⟨j, within_mono (Int.toNat_le_toNat hde) hj, hname⟩
  · rw [hiff, hiff', hall hd, hall he]

/-- Two hops are enough in a provider of two groups, which form a cycle. -/
theorem collect_saturates_cyclicGroups :
    ∃ ns v ns' v', (ofMemory twoHops cyclicGroups true).collect ⟨"test", none⟩ 2 ∅
        [some ⟨.text "g", .text "P"⟩] {} = (.ok ns, v) ∧
      (ofMemory twoHops cyclicGroups true).collect ⟨"test", none⟩ 7 ∅
        [some ⟨.text "g", .text "P"⟩] {} = (.ok ns', v') ∧
      .text "h" ∈ ns.keys ∧ ns = ns' := by
  have hserved : (ofMemory twoHops cyclicGroups true).Served cyclicGroups :=
    ⟨rfl, typed_cyclicGroups, typed_twoHops⟩
  have hplain : ¬ (World.scene {}).FailsLookups := Scene.not_failsLookups rfl
  obtain ⟨ns, v, ns', v', hrun, hrun', -, hnames, hsame⟩ :=
    collect_saturates hserved rfl (typedRefs_text "g" "P") hplain hplain ⟨"test", none⟩
      ⟨"test", none⟩ 2 7
  refine ⟨ns, v, ns', v', hrun, hrun', (hnames (by decide) _).2
    ⟨cyclicGroups.entry .group "h" [some ⟨.text "g", .text "P"⟩], ?_, rfl⟩,
    hsame (by decide) (by decide)⟩
  exact ⟨_, List.mem_cons_self, _, rfl, .single ⟨_, List.mem_cons_self, rfl⟩⟩

end Context

end Roster
