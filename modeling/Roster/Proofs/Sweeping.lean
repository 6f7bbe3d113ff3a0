import Roster.Proofs.Conversion

/-!
# What clearing a record leaves

Clearing a record is a walk, which takes memberships back and deletes nothing, and then a sweep,
which deletes the groups of the provider that the walk found without members. In a world where only
removals fail both go through to the end. The walk takes back the clearable memberships of what the
record reaches in the store before it, and the sweep deletes the groups all whose members were
reached: it does not matter in which order the walk meets memberships, how often it comes by a
group, or whether a group is a member of itself.

A deletion that fails leaves its group and nothing else: which groups lose their members was settled
by the walk.

* `unwind_walks`: the names found and the memberships taken back.
* `unwind_sweeps`: the groups deleted.
-/

namespace Roster

/-- Of the operations of the store just the removals of the records with some ids fail. -/
def Scene.Protects (c : Scene) (F : Value → Bool) : Prop :=
  ∀ op id, c.MayRefuse op id ↔ op = .removeRecord ∧ F id = true

theorem Scene.Protects.not_refuses {c : Scene} {F : Value → Bool} (hF : c.Protects F) {s : Store}
    {f : Failure} : ¬ c.Refuses s f := by
  rintro ⟨op, r, hop, -, -, hp⟩
  exact hop ((hF op r.id).1 hp).1

/-- The keys are those of the records with the ids. -/
def Store.Matches (s : Store) (F : Value → Bool) (K : Key → Bool) : Prop :=
  ∀ g q, s.find? g = some q → K g = F q.id

/-- Just the removals fail that are said to. -/
theorem Scene.Protects.matches {c : Scene} {F : Value → Bool} (hF : c.Protects F) {s : Store}
    {K : Key → Bool} (hK : c.Spares s K) : s.Matches F K := by
  intro g q hq
  have hturns : ¬ c.Strikes := fun h => nomatch ((hF .addMember q.id).1 (.inr h)).1
  have hplans : c.plans .removeRecord q.id = true ↔ F q.id = true := by
    rw [← or_iff_left (a := c.plans .removeRecord q.id = true) hturns]
    exact (hF .removeRecord q.id).trans (and_iff_right rfl)
  rw [Bool.eq_iff_iff]
  exact ⟨fun hk => ((hF .removeRecord q.id).1 (hK.may g q hq hk)).2,
    fun hf => hK.planned g q hq (hplans.2 hf)⟩

/-- The memberships of a store as pairs of a member and a group. -/
def Store.pairs (s : Store) : List (Key × Key) :=
  s.members.flatMap fun p => p.2.map fun m => (m.key, p.1.key)

theorem Store.member_iff_mem_pairs {s : Store} {x g : Key} : s.Member x g ↔ (x, g) ∈ s.pairs := by
  simp only [pairs, List.mem_flatMap, List.mem_map, Prod.mk.injEq]
  constructor
  · rintro ⟨a, ms, m, hp, rfl, hm, rfl⟩
    exact ⟨(a, ms), hp, m, hm, rfl, rfl⟩
  · rintro ⟨⟨a, ms⟩, hp, m, hm, rfl, rfl⟩
    exact ⟨a, ms, m, hp, rfl, hm, rfl⟩

instance (s : Store) (x g : Key) : Decidable (s.Member x g) :=
  decidable_of_iff _ Store.member_iff_mem_pairs.symm

namespace Context

variable {ctx : Context} {w : World} {s : Store} {F : Value → Bool} {K : Key → Bool}
  {k x g : Key} {r q : Record}

/-! ## The walk -/

/-- In a world where only removals fail, clearing a record goes through to the end. It finds the
names of the groups of the provider that something the record reaches is a clearable member of, the
record included. Its walk takes back just the clearable memberships of what the record reaches and
leaves the others in their places, and its sweep deletes groups. -/
theorem unwind_walks (ctx : Context) (log : Option Channel) (h : w.store.WellFormed)
    (ht : w.store.Typed) (hk : w.store.find? k = some r) (hF : w.scene.Protects F) :
    ∃ found w₁ w' D X,
      ctx.unwindFrom (log.getD ⟨"cleaner", none⟩) (w.store.membershipCount + 1) r {} w
        = (.ok found, w₁) ∧
      (found.orphans.map (·.2)).forM (deleteOrphan (log.getD ⟨"cleaner", none⟩)) w₁
        = (.ok (), w') ∧
      ctx.unwind r log w = (.ok found.names, w') ∧
      found.names.Texts ∧
      (∀ n, n ∈ found.names.keys ↔ ∃ x g,
        ctx.Clearable w.store x g ∧ ctx.Reaches w.store k x ∧ ctx.Named w.store g n) ∧
      w₁.store = w.store.cut D ∧
      (∀ x g, D x g = true ↔ ctx.Clearable w.store x g ∧ ctx.Reaches w.store k x) ∧
      w'.store = w₁.store.drop X ∧
      ∀ g, X g = true → ∃ q, w.store.find? g = some q ∧ q.isGroup = true := by
  have hends : Sync.Ends w.scene w.store (ctx.unwindFrom (log.getD ⟨"cleaner", none⟩) _ r {}) _ _ :=
    walk_ends h ht hk _ (Nat.lt_succ_self _)
  obtain ⟨found, w₁, hwalk, hscene, hcut, hnames, hfound, horphans⟩ :=
    (hends.mono (fun _ _ => id) fun _ _ hf => hF.not_refuses hf.1).run rfl rfl
  obtain ⟨_, w', hsweep, -, K, -, hdrop⟩ :=
    (deleteOrphans_ends (h.cut _) (ht.cut _) hfound.nodup hfound.records
      (E := fun _ _ => False)).run hscene hcut
  refine ⟨found, w₁, w', ctx.cleared w.store k, _, hwalk, hsweep, ?_, hnames.1, hnames.2, hcut,
    fun x g => cleared_iff, by rw [hdrop, hcut], fun g hg => ?_⟩
  · exact (Sync.bind_apply_ok hwalk).trans (Sync.bind_apply_ok hsweep)
  · have hmem := List.contains_iff_mem.1 (Bool.and_eq_true_iff.1 hg).1
    obtain ⟨-, -, ⟨x, hx⟩, -⟩ := (horphans g).1 hmem
    exact (h.exists_of_member hx).2

/-- A user in a group that is a member of itself and of another group, which is a member of it in
turn; in a group with another user; and in a group that users join automatically. -/
def tangled : Store where
  records := [
    (.text "u", record "u" false "P"), (.text "v", record "v" false "P"),
    (.text "a", record "a" true "P"), (.text "b", record "b" true "P"),
    (.text "team", record "team" true "P"), (.text "everyone", record "everyone" true "local")]
  members := [
    (.text "a", [.text "u", .text "b", .text "a"]), (.text "b", [.text "a"]),
    (.text "team", [.text "u", .text "v"]), (.text "everyone", [.text "u", .text "team"])]
where
  /-- A record of the legacy mode of a provider, with its id for a name. -/
  record (id : String) (group : Bool) (provider : String) : Record :=
    { id := .text id, group := .bool group, principalName := .text id
      ref := some ⟨.text id, .text provider⟩, mode := some .legacy }

/-- A context of the provider, whose users join one group automatically. -/
def tidying : Context where
  policy := { provider := .text "P", user := { autoMembership := .ofList [.text "everyone"] } }
  provider := Memory.provider { name := .text "P" }
  dynamic := true

theorem wellFormed_tangled : tangled.WellFormed := by decide

theorem typed_tangled : tangled.Typed := by
  have hrecord (id : String) (group : Bool) (provider : String) :
      (tangled.record id group provider).Typed :=
    ⟨⟨_, rfl⟩, ⟨_, rfl⟩, ⟨_, rfl⟩, by rintro q ⟨rfl⟩; exact ⟨⟨_, rfl⟩, .inr ⟨_, rfl⟩⟩, ⟨_, rfl⟩,
      .inl rfl, nofun, ⟨_, rfl⟩⟩
  intro r hr
  simp only [Store.all, tangled, List.map_cons, List.map_nil, List.mem_cons, List.not_mem_nil,
    or_false] at hr
  rcases hr with rfl | rfl | rfl | rfl | rfl | rfl <;> exact hrecord ..

/-- In a group of the provider everything is a clearable member. -/
theorem clearable_tangled {q : Record} (hm : tangled.Member x g) (hq : tangled.find? g = some q)
    (ho : tidying.owns q.ref = true) : tidying.Clearable tangled x g :=
  clearable_of_owned wellFormed_tangled hm ⟨q, hq, ho⟩

theorem reaches_tangled : tidying.Reaches tangled (.text "u") (.text "a") :=
  .single (clearable_tangled (by decide) rfl rfl)

/-- Nothing is reached that has no members. -/
theorem not_reaches_tangled : ¬ tidying.Reaches tangled (.text "u") (.text "v") := by
  intro h
  rcases h.cases_tail with h | ⟨y, -, hy⟩
  · exact absurd h (by decide)
  · have hmem := Store.member_iff_mem_pairs.1 hy.1
    simp [Store.pairs, tangled, Scalar.key] at hmem

/-- A world in which the removals of some records fail. -/
def locking (ids : List Value) : World where
  store := tangled
  faults := { store := [(.removeRecord, ids)] }

theorem protects_locking (ids : List Value) : (locking ids).scene.Protects ids.contains := by
  intro op id
  have hturns : ¬ (locking ids).scene.Strikes := (Scene.Uncounted.of_faults rfl rfl).2
  rw [Scene.MayRefuse, or_iff_left hturns]
  simp only [Scene.plans, World.scene, locking, List.any_cons, List.any_nil, Bool.or_false,
    Bool.and_eq_true, decide_eq_true_eq]
  exact and_congr_left fun _ => ⟨Eq.symm, Eq.symm⟩

/-- Clearing a user follows a cycle to its end, and the membership of another user is left. -/
theorem unwind_walks_tangled :
    tangled.WellFormed ∧ tangled.Typed ∧
    ∃ (found : Unwound) (w₁ w' : World) (D : Key → Key → Bool),
      tidying.unwind (tangled.record "u" false "P") none (locking []) = (.ok found.names, w') ∧
      .text "b" ∈ found.names.keys ∧ w₁.store = tangled.cut D ∧
      D (.text "a") (.text "a") = true ∧ D (.text "v") (.text "team") = false := by
  obtain ⟨found, w₁, w', D, -, -, -, hrun, -, hnames, hcut, hD, -⟩ :=
    unwind_walks (w := locking []) (k := .text "u") tidying none wellFormed_tangled typed_tangled
      rfl (protects_locking [])
  refine ⟨wellFormed_tangled, typed_tangled, found, w₁, w', D, hrun, ?_, hcut, ?_, ?_⟩
  · exact (hnames _).2 ⟨.text "a", .text "b", clearable_tangled (by decide) rfl rfl,
      reaches_tangled, _, rfl, rfl, rfl⟩
  · exact (hD _ _).2 ⟨clearable_tangled (by decide) rfl rfl, reaches_tangled⟩
  · rw [← Bool.not_eq_true, hD]
    exact fun h => not_reaches_tangled h.2

/-! ## The sweep -/

/-- The group, with the given record, is deleted when a record is cleared: groups are not dynamic,
it belongs to the provider, it has members and all of them are reached, and its removal does not
fail. -/
structure Swept (ctx : Context) (F : Value → Bool) (s : Store) (k g : Key) (q : Record) : Prop where
  static : ctx.policy.hasDynamicGroups = false
  owned : ctx.owns q.ref = true
  inhabited : ∃ x, s.Member x g
  reached : ∀ x, s.Member x g → ctx.Reaches s k x
  unprotected : F q.id = false

theorem orphaned_iff_swept (hK : s.Matches F K) (hq : s.find? g = some q) :
    ctx.orphaned K s k g = true ↔ ctx.Swept F s k g q := by
  rw [orphaned_iff, owned_iff hq, hK g q hq]
  exact ⟨fun h => ⟨h.1, h.2.1, h.2.2.1, h.2.2.2.1, h.2.2.2.2⟩,
    fun h => ⟨h.1, h.2, h.3, h.4, h.5⟩⟩

/-- If clearing a record leaves a group that it does not delete without members, then it reached all
its members. -/
theorem reaches_of_not_member (h : s.WellFormed)
    (hempty : ∀ x, ¬ (ctx.unwoundStore K s k).Member x g) (hkept : ctx.orphaned K s k g = false)
    (hx : s.Member x g) : ctx.Reaches s k x := by
  by_contra hr
  refine hempty x ?_
  rw [unwoundStore, Store.member_drop, Store.member_cut]
  refine ⟨⟨hx, ?_⟩, ?_, hkept⟩
  · rw [← Bool.not_eq_true, cleared_iff]
    exact fun hc => hr hc.2
  · -- a member that is deleted was reached through its own members
    rw [← Bool.not_eq_true, orphaned_iff]
    rintro ⟨-, hown, ⟨y, hy⟩, hall, -⟩
    exact hr ((hall y hy).tail (clearable_of_owned h hy hown))

/-- A record that is cleared deletes a group that is swept, and no other record. -/
theorem find?_unwoundStore_of_matches (hK : s.Matches F K) (hq : s.find? g = some q) :
    ctx.Swept F s k g q ∧ (ctx.unwoundStore K s k).find? g = none ∨
      ¬ ctx.Swept F s k g q ∧ (ctx.unwoundStore K s k).find? g = some q := by
  rw [find?_unwoundStore, ← orphaned_iff_swept hK hq]
  by_cases ho : ctx.orphaned K s k g = true
  · exact .inl ⟨ho, if_pos ho⟩
  · exact .inr ⟨ho, by rw [if_neg ho, hq]⟩

/-- A group of the provider that is left without members is one whose removal fails. -/
theorem matches_of_emptied (hK : s.Matches F K) (h : s.WellFormed)
    (hstatic : ctx.policy.hasDynamicGroups = false)
    (hq : (ctx.unwoundStore K s k).find? g = some q) (hown : ctx.owns q.ref = true)
    (hmember : ∃ x, s.Member x g) (hempty : ∀ x, ¬ (ctx.unwoundStore K s k).Member x g) :
    F q.id = true := by
  rw [find?_unwoundStore] at hq
  split at hq
  · cases hq
  · next ho =>
    have hkept : ctx.orphaned K s k g = false := by simpa using ho
    by_contra hn
    refine ho ((orphaned_iff_swept hK hq).2 ?_)
    exact ⟨hstatic, hown, hmember, fun x hx => reaches_of_not_member h hempty hkept hx,
      by simpa using hn⟩

/-- A removal that fails keeps its record and makes no difference for any other. -/
theorem find?_unwoundStore_eq_ite {K₀ : Key → Bool} (hK : s.Matches F K)
    (hK₀ : s.Matches (fun _ => false) K₀) (hq : s.find? g = some q) :
    (ctx.unwoundStore K s k).find? g
      = if F q.id then some q else (ctx.unwoundStore K₀ s k).find? g := by
  rw [find?_unwoundStore, find?_unwoundStore, hq]
  cases hprotected : F q.id with
  | true =>
    rw [if_pos rfl, if_neg fun ho => ?_]
    have hn := ((orphaned_iff_swept hK hq).1 ho).unprotected
    rw [hprotected] at hn
    cases hn
  | false =>
    have hsame : ctx.orphaned K s k g = ctx.orphaned K₀ s k g := by
      rw [Bool.eq_iff_iff, orphaned_iff_swept hK₀ hq, orphaned_iff_swept hK hq]
      exact ⟨fun h => ⟨h.1, h.2, h.3, h.4, rfl⟩, fun h => ⟨h.1, h.2, h.3, h.4, hprotected⟩⟩
    rw [hsame, if_neg Bool.false_ne_true]

/-- Clearing a record where only removals fail, as one function of the store. -/
theorem unwind_run (ctx : Context) (log : Option Channel) (h : w.store.WellFormed)
    (ht : w.store.Typed) (hk : w.store.find? k = some r) (hF : w.scene.Protects F) :
    ∃ names w' K, ctx.unwind r log w = (.ok names, w') ∧ ctx.UnwoundNames w.store k names ∧
      w.store.Matches F K ∧ w'.store = ctx.unwoundStore K w.store k := by
  have hends : Sync.Ends w.scene w.store (ctx.unwind r log) _ _ := unwind_ends h ht hk
  obtain ⟨names, w', hrun, -, hnames, K, hK, hstore⟩ :=
    (hends.mono (fun _ _ => id) fun _ _ hf => hF.not_refuses hf.1).run rfl rfl
  exact ⟨names, w', K, hrun, hnames, hF.matches hK, hstore⟩

/-- In a world where only the removals of some records fail, clearing a record deletes just the
groups that are swept, and leaves all other records as they are. So a group of the provider that it
leaves without members stays only if its removal fails; and if no removal failed, the answer and the
fate of the other records would be the same. -/
theorem unwind_sweeps (ctx : Context) (log : Option Channel) (h : w.store.WellFormed)
    (ht : w.store.Typed) (hk : w.store.find? k = some r) (hF : w.scene.Protects F) :
    ∃ names w', ctx.unwind r log w = (.ok names, w') ∧
      (∀ g, w.store.find? g = none → w'.store.find? g = none) ∧
      (∀ g q, w.store.find? g = some q →
        ctx.Swept F w.store k g q ∧ w'.store.find? g = none ∨
        ¬ ctx.Swept F w.store k g q ∧ w'.store.find? g = some q) ∧
      (∀ g q, ctx.policy.hasDynamicGroups = false → w'.store.find? g = some q →
        ctx.owns q.ref = true → (∃ x, w.store.Member x g) → (∀ x, ¬ w'.store.Member x g) →
        F q.id = true) ∧
      ∀ w₀ : World, w₀.store = w.store → w₀.scene.Protects (fun _ => false) →
        ∃ w₀', ctx.unwind r log w₀ = (.ok names, w₀') ∧
          ∀ g q, w.store.find? g = some q →
            w'.store.find? g = if F q.id then some q else w₀'.store.find? g := by
  obtain ⟨names, w', K, hrun, hnames, hK, hstore⟩ := unwind_run ctx log h ht hk hF
  refine ⟨names, w', hrun, fun g hg => ?_, fun g q hq => ?_, ?_, ?_⟩
  · rw [hstore, find?_unwoundStore, hg, ite_self]
  · rw [hstore]
    exact find?_unwoundStore_of_matches hK hq
  · intro g q hstatic hq hown hmember hempty
    rw [hstore] at hq hempty
    exact matches_of_emptied hK h hstatic hq hown hmember hempty
  · intro w₀ hw₀ hF₀
    rw [← hw₀] at h ht hk
    obtain ⟨names₀, w₀', K₀, hrun₀, hnames₀, hK₀, hstore₀⟩ := unwind_run ctx log h ht hk hF₀
    obtain rfl : names₀ = names := hnames₀.1.ext hnames.1 fun n => by
      rw [hnames₀.2, hnames.2, hw₀]
    refine ⟨w₀', hrun₀, fun g q hq => ?_⟩
    rw [hw₀] at hK₀
    rw [hstore, hstore₀, hw₀]
    exact find?_unwoundStore_eq_ite hK hK₀ hq

/-- Of two groups left without members the one whose removal fails stays, and so does a group with
another member. -/
theorem unwind_sweeps_tangled :
    tangled.WellFormed ∧ tangled.Typed ∧ (locking [.text "b"]).scene.Protects [.text "b"].contains ∧
    ∃ names w',
      tidying.unwind (tangled.record "u" false "P") none (locking [.text "b"]) = (.ok names, w') ∧
      w'.store.find? (.text "a") = none ∧
      w'.store.find? (.text "b") = some (tangled.record "b" true "P") ∧
      w'.store.find? (.text "team") = some (tangled.record "team" true "P") := by
  obtain ⟨names, w', hrun, -, hfate, -⟩ := unwind_sweeps (w := locking [.text "b"])
    (k := .text "u") tidying none wellFormed_tangled typed_tangled rfl (protects_locking _)
  refine ⟨wellFormed_tangled, typed_tangled, protects_locking _, names, w', hrun, ?_, ?_, ?_⟩
  · refine ((hfate (.text "a") _ rfl).resolve_right fun h => h.1 ?_).2
    refine ⟨rfl, rfl, ⟨.text "u", by decide⟩, fun x hx => ?_, by decide⟩
    have hmem := Store.member_iff_mem_pairs.1 hx
    simp [Store.pairs, locking, tangled, Scalar.key] at hmem
    rcases hmem with rfl | rfl | rfl
    · exact .refl
    · exact reaches_tangled.tail (clearable_tangled (by decide) rfl rfl)
    · exact reaches_tangled
  · exact ((hfate (.text "b") _ rfl).resolve_left fun h =>
      absurd h.1.unprotected (by decide)).2
  · exact ((hfate (.text "team") _ rfl).resolve_left fun h =>
      not_reaches_tangled (h.1.reached (.text "v") (by decide))).2

end Context

end Roster
