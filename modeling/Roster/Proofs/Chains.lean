import Roster.Proofs.Asking

/-!
# Chains of references

Names are collected by a recursion that keeps no record of where it was. What it finds is told by
the chains that begin with one of the given references: each reference of a chain leads to a group
that declares the next one. A chain may come back to where it was, and there may be many to the same
group; all that counts for a name is whether there is one that is short enough.

* `Context.Chain`: references, each of which leads on to the next one.
* `Context.NameAt`: the name at the end of a chain, which may be the last hop.
* `Context.finds_iff`: what is found within a number of hops, by chains.
* `Context.collect_chains`: what collecting adds to the names.
-/

namespace Roster

namespace Context

/-- A reference leads to a group that declares the other one. -/
def LeadsOn (ctx : Context) (c : Scene) (r q : Ref) : Prop :=
  ∃ i, ctx.provider.groupBehind c r = some i ∧ some q ∈ i.groups

/-- References of the provider, each of which leads on to the next one; the first one is given. -/
structure Chain (ctx : Context) (c : Scene) (refs : List (Option Ref)) (rs : List Ref) : Prop where
  owned : ∀ r ∈ rs, ctx.policy.owns r = true
  given : ∀ r ∈ rs.head?, some r ∈ refs
  linked : rs.IsChain (ctx.LeadsOn c)

/-- The name of the group that a reference leads to. With direct mapping, one that is met at the
last hop is mapped to the name instead. -/
def NameAt (ctx : Context) (c : Scene) (last : Prop) (q : Ref) (n : Key) : Prop :=
  ((¬ last ∨ ctx.provider.direct = false) ∧
    ∃ i, ctx.provider.groupBehind c q = some i ∧ i.principalName.toKey = .ok n) ∨
  (last ∧ ctx.provider.direct = true) ∧
    ∃ v, ctx.provider.mapped c q = .ok v ∧ v.toKey = .ok n

variable {ctx : Context} {c : Scene} {refs : List (Option Ref)} {r q : Ref} {rs : List Ref}
  {n : Key} {d : Nat}

theorem chain_singleton : ctx.Chain c refs [q] ↔ q ∈ ctx.own refs := by
  rw [own, mem_own]
  constructor
  · exact fun h => ⟨h.given q rfl, h.owned q List.mem_cons_self⟩
  · rintro ⟨hq, ho⟩
    exact ⟨by simpa using ho, by simpa using hq, .singleton q⟩

/-- Behind its first reference, a chain is one from the references that the group there declares. -/
theorem chain_cons (hrs : rs ≠ []) : ctx.Chain c refs (r :: rs) ↔
    r ∈ ctx.own refs ∧ ∃ i, ctx.provider.groupBehind c r = some i ∧ ctx.Chain c i.groups rs := by
  rw [← chain_singleton (c := c)]
  cases rs with
  | nil => exact absurd rfl hrs
  | cons q rs =>
    constructor
    · rintro ⟨howned, hgiven, hlinked⟩
      obtain ⟨⟨i, hi, hq⟩, hlinked⟩ := List.isChain_cons_cons.1 hlinked
      refine ⟨⟨?_, hgiven, .singleton r⟩, i, hi, ?_, ?_, hlinked⟩
      · simpa using howned r List.mem_cons_self
      · exact fun p hp => howned p (List.mem_cons_of_mem _ hp)
      · simpa using hq
    · rintro ⟨⟨hr, hgiven, -⟩, i, hi, hchain⟩
      refine ⟨?_, hgiven, List.isChain_cons_cons.2 ⟨⟨i, hi, hchain.given q rfl⟩, hchain.linked⟩⟩
      exact List.forall_mem_cons.2 ⟨hr r List.mem_cons_self, hchain.owned⟩

/-- A chain without its last references. -/
theorem Chain.of_append {qs : List Ref} (h : ctx.Chain c refs (rs ++ qs)) :
    ctx.Chain c refs rs where
  owned := fun r hr => h.owned r (List.mem_append_left _ hr)
  given := fun r hr => h.given r (by rw [List.head?_append, hr]; rfl)
  linked := h.linked.left_of_append

theorem nameAt_of_last {last : Prop} (hlast : last) (hdirect : ctx.provider.direct = true) :
    ctx.NameAt c last q n ↔ ∃ v, ctx.provider.mapped c q = .ok v ∧ v.toKey = .ok n := by
  simp [NameAt, hlast, hdirect]

theorem nameAt_of_more {last : Prop} (h : ¬ (last ∧ ctx.provider.direct = true)) :
    ctx.NameAt c last q n ↔
      ∃ i, ctx.provider.groupBehind c q = some i ∧ i.principalName.toKey = .ok n := by
  have hmore : ¬ last ∨ ctx.provider.direct = false := by
    rw [← Bool.not_eq_true]
    exact not_and_or.1 h
  rw [NameAt, and_iff_right hmore, or_iff_left fun hno => h hno.1]

/-- What is found within a number of hops is what chains of no more references lead to. -/
theorem finds_iff : ctx.Finds c d refs n ↔ ∃ rs q, ctx.Chain c refs (rs ++ [q]) ∧
    (rs ++ [q]).length ≤ d ∧ ctx.NameAt c ((rs ++ [q]).length = d) q n := by
  induction d generalizing refs with
  | zero => simp [Finds]
  | succ d ih =>
    simp only [Finds, ih, List.length_append, List.length_singleton, Nat.add_right_cancel_iff,
      Nat.add_le_add_iff_right, Bool.and_eq_true, decide_eq_true_eq]
    constructor
    · split
      · next hlast =>
        rintro ⟨q, hq, hn⟩
        exact ⟨[], q, chain_singleton.2 hq, Nat.zero_le d,
          (nameAt_of_last hlast.1.symm hlast.2).2 hn⟩
      · next hmore =>
        rintro ⟨q, hq, i, hi, hn | ⟨rs, p, hchain, hlen, hn⟩⟩
        · refine ⟨[], q, chain_singleton.2 hq, Nat.zero_le d,
            (nameAt_of_more fun hlast => hmore ⟨hlast.1.symm, hlast.2⟩).2 ⟨i, hi, hn⟩⟩
        · exact ⟨q :: rs, p, (chain_cons (by simp)).2 ⟨hq, i, hi, hchain⟩, hlen, hn⟩
    · rintro ⟨rs, q, hchain, hlen, hn⟩
      cases rs with
      | nil =>
        have hq := chain_singleton.1 hchain
        split
        · next hlast =>
          exact ⟨q, hq, (nameAt_of_last hlast.1.symm hlast.2).1 hn⟩
        · next hmore =>
          obtain ⟨i, hi, hn⟩ := (nameAt_of_more fun hlast => hmore ⟨hlast.1.symm, hlast.2⟩).1 hn
          exact ⟨q, hq, i, hi, .inl hn⟩
      | cons r rs =>
        rw [if_neg (by simp only [List.length_cons] at hlen; omega)]
        obtain ⟨hr, i, hi, hrest⟩ := (chain_cons (by simp)).1 hchain
        exact ⟨r, hr, i, hi, .inr ⟨rs, q, hrest, hlen, hn⟩⟩

/-- Collecting names is bounded reachability, on any graph of groups and whichever lookups fail. It
never fails itself, and adds to the names exactly those at the end of a chain of at most as many
references as the depth tells; at a depth of zero or less nobody is asked. -/
theorem collect_chains {w : World} (ctx : Context) (log : Channel) (names : NameSet) (depth : Int)
    (h : ctx.provider.Definite) (hrefs : TypedRefs refs) (hw : w.scene.Uncounted) :
    ∃ ns w', ctx.collect log depth.toNat names refs w = (.ok ns, w') ∧
      (∀ n, n ∈ ns.keys ↔ n ∈ names.keys ∨ ∃ rs q, ctx.Chain w.scene refs (rs ++ [q]) ∧
        ((rs ++ [q]).length : Int) ≤ depth ∧
        ctx.NameAt w.scene (((rs ++ [q]).length : Int) = depth) q n) ∧
      (depth ≤ 0 → ns = names ∧ w' = w) := by
  have hadds : Adds w.scene _ (ctx.Finds w.scene depth.toNat refs) fun ns =>
      ctx.collect log depth.toNat ns refs := collect_adds h hw depth.toNat hrefs
  obtain ⟨ns, hns, hiff⟩ := hadds names
  obtain ⟨w', hrun, -, -, -⟩ := hns w rfl
  refine ⟨ns, w', hrun, fun n => ?_, fun hdepth => ?_⟩
  · rw [hiff, finds_iff]
    refine or_congr_right (exists_congr fun rs => exists_congr fun q => and_congr_right fun _ => ?_)
    have hpos : 0 < (rs ++ [q]).length := by simp
    have hlast : ((rs ++ [q]).length = depth.toNat) = (((rs ++ [q]).length : Int) = depth) := by
      rw [eq_iff_iff]
      omega
    rw [hlast]
    exact and_congr_left fun _ => by omega
  · rw [Int.toNat_eq_zero.2 hdepth] at hrun
    obtain ⟨hsame, hworld⟩ := Prod.mk.inj hrun
    exact ⟨(Except.ok.inj hsame).symm, hworld.symm⟩

/-- A group that cannot be looked up is mapped to its name at the last hop. -/
theorem collect_chains_cyclicGroups :
    ∃ ns w', (ofMemory twoHops (cyclicGroups.withMapping true) true).collect ⟨"test", none⟩ 2 ∅
        [some ⟨.text "g", .text "P"⟩] { faults := { resolve := [.text "h"] } } = (.ok ns, w') ∧
      .text "g" ∈ ns.keys ∧ .text "h" ∈ ns.keys := by
  have htyped : (cyclicGroups.withMapping true).Typed := typed_cyclicGroups.withMapping true
  obtain ⟨ns, w', hrun, hiff, -⟩ := collect_chains (w := { faults := { resolve := [.text "h"] } })
    (ofMemory twoHops (cyclicGroups.withMapping true) true) ⟨"test", none⟩ ∅ 2 htyped.definite
    (typedRefs_text "g" "P") (.of_faults rfl rfl)
  refine ⟨ns, w', hrun, (hiff _).2 (.inr ⟨[], ⟨.text "g", .text "P"⟩, ?_, by decide, ?_⟩),
    (hiff _).2 (.inr ⟨[⟨.text "g", .text "P"⟩], ⟨.text "h", .text "P"⟩, ?_, by decide, ?_⟩)⟩
  · exact chain_singleton.2 List.mem_cons_self
  · exact .inl ⟨.inl (by decide), _, rfl, rfl⟩
  · refine (chain_cons (by simp)).2 ⟨List.mem_cons_self, _, rfl, ?_⟩
    exact chain_singleton.2 List.mem_cons_self
  · exact .inr ⟨⟨rfl, rfl⟩, _, rfl, rfl⟩

end Context

end Roster
