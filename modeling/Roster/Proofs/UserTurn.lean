import Roster.Proofs.Clearing
import Roster.Proofs.Soundness

/-!
# The turn of a user

A dynamic context synchronises a user in one of several ways, which depend on the policy and on the
record that the user has. Besides the record itself, each of them does one thing to the store: it
expands records or clears for them (`Context.Moved`). What becomes of the record (`afterTurn`) and
what is answered (`answer`) depends on the record and on the identity only.

* `sync_turn`: synchronising a user, in one statement.
-/

namespace Roster

/-- Another record takes the place of one. -/
theorem Store.Ready.put {K : Key → Prop} {s : Store} {k : Key} {r q : Record} (h : s.Ready K)
    (hk : s.find? k = some r) (ht : q.Typed) (hq : q.id = r.id ∧ q.group = r.group) :
    (s.put k q).Ready K where
  wellFormed := h.wellFormed.put hk q hq
  typed := h.typed.put ht
  users := by
    intro j r' hj hr'
    rw [Store.find?_put hk] at hr'
    split at hr'
    · next he =>
      subst he
      obtain rfl := Option.some.inj hr'
      rw [Record.isGroup, hq.2]
      exact h.users j r hj hk
    · exact h.users j r' hj hr'

theorem Store.Ready.alone {K : Key → Prop} {s : Store} (h : s.Ready K) : s.Ready Context.Nobody :=
  ⟨h.wellFormed, h.typed, nofun⟩

namespace Context

variable {ctx : Context} {m : Memory} {c : Scene} {K : Key → Prop} {k j x y : Key}
  {s s' s'' : Store} {r q : Record} {o o' : Option Record} {u i : Identity} {d : Nat}
  {A : Key → Key → Prop} {R P P' X X' : Key → Prop} {ns : NameSet} {E : Failure → Store → Prop}

/-! ## Walks and users -/

/-- A walk leaves users as they are. -/
theorem Declares.find?_user (h : ctx.Declares m c Nobody s A X s') (hc : ctx.Calm m c K)
    (hk : K k) : s'.find? k = s.find? k := by
  refine Option.ext fun r => (h.records k r id).trans (or_iff_left ?_)
  rintro ⟨-, ⟨x, hx⟩, -⟩
  obtain ⟨i, hi, hg⟩ := hc.isGroup_of_joins (h.declared x k hx)
  exact hc.not_user hi hg hk

theorem Declares.widen (h : ctx.Declares m c Nobody s A X s') (hc : ctx.Calm m c K)
    (hs : s.Ready K) : ctx.Declares m c K s A X s' where
  wellFormed := h.wellFormed
  typed := h.typed
  users := fun k r hk hr => hs.users k r hk (by rw [← h.find?_user hc hk, hr])
  records := fun y r _ => h.records y r id
  member := h.member
  declared := h.declared
  complete := h.complete

/-- Clearing leaves users as they are. -/
theorem Clears.find?_user (h : ctx.Clears m c Nobody s R P s') (hc : ctx.Calm m c K)
    (hs : s.Ready K) (hk : K k) : s'.find? k = s.find? k := by
  rw [h.records k id, if_neg fun ho => ho.not_user hs hk, if_neg]
  intro hR
  obtain ⟨-, -, i, hi, hg⟩ := h.groups k hR
  exact hc.not_user hi hg hk

theorem Clears.widen (h : ctx.Clears m c Nobody s R P s') (hc : ctx.Calm m c K)
    (hs : s.Ready K) : ctx.Clears m c K s R P s' where
  wellFormed := h.wellFormed
  typed := h.typed
  users := fun k r hk hr => hs.users k r hk (by rw [← h.find?_user hc hs hk, hr])
  records := fun y _ => h.records y id
  member := h.member
  groups := h.groups
  closed := h.closed

/-! ## What happens besides -/

/-- What synchronising users does to everything but their own records: under a policy that enforces
names, the groups in front of what is visited are refreshed if groups are dynamic, and memberships
are taken back; otherwise what is visited is expanded. -/
def Moved (ctx : Context) (m : Memory) (c : Scene) (K : Key → Prop) (s : Store)
    (X P : Key → Prop) (s' : Store) : Prop :=
  if ctx.policy.enforcesDynamic then
    ctx.Clears m c K s
      (fun y => ctx.policy.hasDynamicGroups = true ∧ ∃ x, X x ∧ ctx.Joins m s x y) P s'
  else ctx.Declares m c K s (fun x g => X x ∧ ctx.Joins m s x g) X s'

theorem enforces_of_dynamicGroups (h : ctx.policy.hasDynamicGroups = true) :
    ctx.policy.enforcesDynamic = true := by
  rw [Policy.enforcesDynamic, Bool.or_eq_true]
  exact .inr h

namespace Moved

theorem ready (h : ctx.Moved m c K s X P s') : s'.Ready K := by
  unfold Moved at h
  split at h
  · exact h.toReady
  · exact h.toReady

/-- What is taken back counts only where a policy enforces names. -/
theorem congr (h : ctx.Moved m c K s X P s') (hx : ∀ x, X x ↔ X' x)
    (hp : ctx.policy.enforcesDynamic = true → ∀ x, P x ↔ P' x) : ctx.Moved m c K s X' P' s' := by
  obtain rfl : X = X' := funext fun x => propext (hx x)
  unfold Moved at h ⊢
  split at h
  · next he =>
    rw [if_pos he]
    exact h.congr (fun _ => .rfl) (hp he)
  · next he =>
    rw [if_neg he]
    exact h

/-- Only records of users are changed. -/
theorem of_own (h : s'.Ready K) (hr : ∀ y, ¬ K y → s'.find? y = s.find? y)
    (hm : ∀ x g, s'.Member x g ↔ s.Member x g) :
    ctx.Moved m c K s (fun _ => False) (fun _ => False) s' := by
  unfold Moved
  split
  · exact (Clears.of_own h hr hm).congr (by simp) fun _ => .rfl
  · exact (Declares.of_own h hr hm).congr (by simp) fun _ => .rfl

variable (hc : ctx.Calm m c K) (hs : s.Ready K)
include hc hs

theorem joins_iff {g : Key} (h : ctx.Moved m c K s X P s') :
    ctx.Joins m s' x g ↔ ctx.Joins m s x g := by
  unfold Moved at h
  split at h
  · exact h.joins_iff hc hs
  · exact h.joins_iff hc

theorem visits_iff (h : ctx.Moved m c K s X P s') :
    ctx.Visits m s' d k x ↔ ctx.Visits m s d k x :=
  visits_congr fun _ _ => h.joins_iff hc hs

theorem reaches_iff (h : ctx.Moved m c K s X P s') (he : ctx.policy.enforcesDynamic = true) :
    P x ∨ ctx.Reaches s' k x ↔ P x ∨ ctx.Reaches s k x := by
  rw [Moved, if_pos he] at h
  exact h.reaches_iff hc.toBacked hs

theorem trans (h : ctx.Moved m c K s X P s') (h' : ctx.Moved m c K s' X' P' s'') :
    ctx.Moved m c K s (fun x => X x ∨ X' x) (fun x => P x ∨ P' x) s'' := by
  have hj {x g : Key} := h.joins_iff hc hs (x := x) (g := g)
  unfold Moved at h h' ⊢
  split at h
  · next he =>
    rw [if_pos he] at h' ⊢
    refine (h.trans hc hs h').congr (fun y => ?_) fun _ => .rfl
    simp only [hj, or_and_right, exists_or, and_or_left]
  · next he =>
    rw [if_neg he] at h' ⊢
    refine (h.trans hc hs h').congr (fun x g => ?_) fun _ => .rfl
    simp only [hj, or_and_right]

end Moved

/-- What one step of the turn of a user does: it leaves a record of the user's, the records of other
users, and besides moves. -/
structure Steps (ctx : Context) (m : Memory) (c : Scene) (K : Key → Prop) (k : Key) (s : Store)
    (o : Option Record) (X P : Key → Prop) (s' : Store) : Prop where
  own : s'.find? k = o
  others : ∀ j, K j → j ≠ k → s'.find? j = s.find? j
  moved : ctx.Moved m c K s X P s'

namespace Steps

theorem congr (h : ctx.Steps m c K k s o X P s') (hx : ∀ x, X x ↔ X' x)
    (hp : ctx.policy.enforcesDynamic = true → ∀ x, P x ↔ P' x) : ctx.Steps m c K k s o X' P' s' :=
  ⟨h.own, h.others, h.moved.congr hx hp⟩

/-- Nothing happens. -/
theorem refl (hs : s.Ready K) :
    ctx.Steps m c K k s (s.find? k) (fun _ => False) (fun _ => False) s :=
  ⟨rfl, fun _ _ _ => rfl, .of_own hs (fun _ _ => rfl) fun _ _ => .rfl⟩

/-- The record of the user is changed. -/
theorem put (hk : K k) (hs : s.Ready K) (hr : s.find? k = some r) (ht : q.Typed)
    (hq : q.id = r.id ∧ q.group = r.group) :
    ctx.Steps m c K k s (some q) (fun _ => False) (fun _ => False) (s.put k q) := by
  have hfind := Store.find?_put hr q
  refine ⟨(hfind k).trans (if_pos rfl), fun j _ hne => (hfind j).trans (if_neg hne), ?_⟩
  refine .of_own (hs.put hr ht hq) (fun y hy => (hfind y).trans (if_neg ?_)) fun _ _ => .rfl
  rintro rfl
  exact hy hk

/-- The record of the user is created. -/
theorem create (hk : K k) (hs' : s'.Ready K)
    (hfind : ∀ y, s'.find? y = if y = k then some r else s.find? y)
    (hm : ∀ x g, s'.Member x g ↔ s.Member x g) :
    ctx.Steps m c K k s (some r) (fun _ => False) (fun _ => False) s' := by
  refine ⟨(hfind k).trans (if_pos rfl), fun j _ hne => (hfind j).trans (if_neg hne), ?_⟩
  refine .of_own hs' (fun y hy => (hfind y).trans (if_neg ?_)) hm
  rintro rfl
  exact hy hk

theorem trans (hc : ctx.Calm m c K) (hs : s.Ready K) (h : ctx.Steps m c K k s o X P s')
    (h' : ctx.Steps m c K k s' o' X' P' s'') :
    ctx.Steps m c K k s o' (fun x => X x ∨ X' x) (fun x => P x ∨ P' x) s'' where
  own := h'.own
  others := fun j hj hne => (h'.others j hj hne).trans (h.others j hj hne)
  moved := h.moved.trans hc hs h'.moved

/-- A change of the record comes first. -/
theorem after (hc : ctx.Calm m c K) (hs : s.Ready K)
    (h : ctx.Steps m c K k s o (fun _ => False) (fun _ => False) s')
    (h' : ctx.Steps m c K k s' o' X P s'') : ctx.Steps m c K k s o' X P s'' :=
  (h.trans hc hs h').congr (fun _ => or_iff_right not_false) fun _ _ => or_iff_right not_false

/-- A change of the record comes last. -/
theorem andThen (hc : ctx.Calm m c K) (hs : s.Ready K) (h : ctx.Steps m c K k s o X P s')
    (h' : ctx.Steps m c K k s' o' (fun _ => False) (fun _ => False) s'') :
    ctx.Steps m c K k s o' X P s'' :=
  (h.trans hc hs h').congr (fun _ => or_iff_left not_false) fun _ _ => or_iff_left not_false

/-- Clearing besides the users. -/
theorem of_clears (hc : ctx.Calm m c K) (hs : s.Ready K) (hk : K k)
    (he : ctx.policy.enforcesDynamic = true) (h : ctx.Clears m c Nobody s
      (fun y => ctx.policy.hasDynamicGroups = true ∧ ∃ x, X x ∧ ctx.Joins m s x y) P s') :
    ctx.Steps m c K k s (s.find? k) X P s' :=
  ⟨h.find?_user hc hs hk, fun _ hj _ => h.find?_user hc hs hj, by
    rw [Moved, if_pos he]
    exact h.widen hc hs⟩

/-- Expanding besides the users. -/
theorem of_declares (hc : ctx.Calm m c K) (hs : s.Ready K) (hk : K k)
    (he : ctx.policy.enforcesDynamic = false)
    (h : ctx.Declares m c Nobody s (fun x g => X x ∧ ctx.Joins m s x g) X s') :
    ctx.Steps m c K k s (s.find? k) X P s' :=
  ⟨h.find?_user hc hk, fun _ hj _ => h.find?_user hc hj, by
    rw [Moved, if_neg (by simp [he])]
    exact h.widen hc hs⟩

end Steps

/-! ## The record of the user -/

/-- A record with its memberships represented by names. Where names are not enforced, a record of
the legacy mode goes without. -/
def represented (ctx : Context) (ns : NameSet) (r : Record) : Record :=
  if r.isLegacy then if ctx.policy.enforcesDynamic then r.toDynamic ns else r
  else { r with names := some (.set ns) }

/-- The record of a user after it was synchronised. -/
def turned (ctx : Context) (c : Scene) (ns : NameSet) (u : Identity) (r : Record) : Record :=
  { ctx.represented ns (r.takingOver ctx.policy.user.propertyMapping u) with lastSynced := c.clock }

/-- Whether a user with a given record, or none, is synchronised: a record of another provider is
not, and neither is one that was synchronised a short time ago. -/
def due (ctx : Context) (c : Scene) : Option Record → Bool
  | none => true
  | some r => ctx.owns r.ref && expiredAt c.clock ctx.policy.user.expirationTime r

/-- The record of a user after its turn. -/
def afterTurn (ctx : Context) (c : Scene) (ns : NameSet) (u : Identity) (o : Option Record) :
    Option Record :=
  if ctx.due c o then some (ctx.turned c ns u (o.getD (ctx.newRecord u false))) else o

/-- The outcome of the turn of a user with a given record, or none. -/
def answer (ctx : Context) (c : Scene) (ns : NameSet) (u : Identity) : Option Record → SyncResult
  | none => told (ctx.turned c ns u (ctx.newRecord u false)) .add
  | some r =>
    if ctx.owns r.ref then
      if ctx.due c (some r) then told (ctx.turned c ns u r) .update else told r .nop
    else ⟨r.id, r.ref, r.group, .never, .foreign⟩

/-- What the turn of a user visits. -/
def Walks (ctx : Context) (m : Memory) (c : Scene) (s : Store) (k x : Key) : Prop :=
  ctx.due c (s.find? k) = true ∧
    (ctx.policy.enforcesDynamic = true ∨ (s.find? k).any Record.isLegacy = true) ∧
    ctx.Visits m s ctx.policy.user.nestingDepth.toNat k x

/-- The records of which the turn of a user takes the memberships back, where names are enforced. -/
def Spends (ctx : Context) (c : Scene) (s : Store) (k x : Key) : Prop :=
  ctx.due c (s.find? k) = true ∧ (s.find? k).any Record.isLegacy = true ∧ ctx.Reaches s k x

/-- The names are those that an identity has in every store. -/
def HasNames (ctx : Context) (c : Scene) (u : Identity) (ns : NameSet) : Prop :=
  ns.Texts ∧ ∀ s log E, Sync.Ends c s (ctx.namesOf log u ctx.policy.user.nestingDepth)
    (fun a s' => a = ns ∧ s' = s) E

theorem Backed.exists_names (h : ctx.Backed m) (hc : ¬ c.FailsLookups) (hu : u.Typed) :
    ∃ ns, ctx.HasNames c u ns := by
  obtain ⟨ns, hns, hcollect⟩ :=
    h.served.collect_fixed hc ctx.policy.user.nestingDepth.toNat hu.groups NameSet.texts_empty
  refine ⟨ns, hns, fun s log E => ?_⟩
  unfold namesOf
  split
  · refine Sync.Ends.step (requireKnown_ends hu.known ?_)
    exact hcollect s log E
  · exact hcollect s log E

theorem represented_same (r : Record) :
    (ctx.represented ns r).id = r.id ∧ (ctx.represented ns r).group = r.group := by
  unfold represented
  split
  · split <;> exact ⟨rfl, rfl⟩
  · exact ⟨rfl, rfl⟩

theorem typed_represented (hr : r.Typed) (hn : ns.Texts) : (ctx.represented ns r).Typed := by
  unfold represented
  split
  · split
    · exact hr.toDynamic hn
    · exact hr
  · exact { hr with names := by rintro _ ⟨rfl⟩; exact ⟨ns, rfl, hn⟩ }

/-- Names are kept on a record of the dynamic mode, and on one that is migrated. -/
theorem keepNames_put_ends (hc : c.Foresees E) (hs : s.WellFormed) (hr : s.find? k = some r)
    (hl : r.isLegacy = true → ctx.policy.enforcesDynamic = true) :
    Sync.Ends c s (keepNames (.stored k) r ns)
      (fun _ s' => s' = s.put k (ctx.represented ns r)) E := by
  unfold keepNames
  split
  · next hlegacy =>
    refine (convert_ends hr hlegacy ns).mono ?_ fun _ s' hf => hc.of_refuses hf.1 s'
    rintro _ _ rfl
    have he : ctx.represented ns r = r.toDynamic ns := by
      rw [represented, if_pos hlegacy, if_pos (hl hlegacy)]
    rw [Store.modify_eq_put hs hr, he]
  · next hlegacy =>
    refine (setNames_ends hc hs hr (by simpa using hlegacy) ns).mono ?_ fun _ _ => id
    rintro _ _ rfl
    rw [represented, if_neg hlegacy]

namespace Calm

variable (h : ctx.Calm m c K)
include h

theorem keepNames_ends (hs : s.Ready K) (hk : K k) (hr : s.find? k = some r) (hn : ns.Texts)
    (hl : r.isLegacy = true → ctx.policy.enforcesDynamic = true) :
    Sync.Ends c s (keepNames (.stored k) r ns) (fun _ s' => ctx.Steps m c K k s
      (some (ctx.represented ns r)) (fun _ => False) (fun _ => False) s') E := by
  refine (keepNames_put_ends h.storeWorks.foresees hs.wellFormed hr hl).mono ?_ fun _ _ => id
  rintro _ _ rfl
  exact .put hk hs hr (typed_represented (hs.typed r (Store.mem_all_of_find? hr)) hn)
    (represented_same r)

/-- Placeholders are refreshed if groups are dynamic, and then names are enforced. -/
theorem ensurePlaceholders_ends (hs : s.Ready K) (hk : K k)
    (hu : m.identities.lookup k = some u) (depth : Int) {log : Channel} :
    Sync.Ends c s (ctx.ensurePlaceholders log u depth) (fun _ s' => ctx.Steps m c K k s
      (s.find? k) (fun x => ctx.policy.enforcesDynamic = true ∧ ctx.Visits m s depth.toNat k x)
      (fun _ => False) s') (fun _ _ => False) := by
  unfold ensurePlaceholders
  split
  · next hd =>
    obtain ⟨hdyn, hdepth⟩ := Bool.and_eq_true_iff.1 hd
    have he := enforces_of_dynamicGroups hdyn
    obtain ⟨n, hn⟩ : ∃ n, depth.toNat = n + 1 :=
      ⟨depth.toNat - 1, by simp only [decide_eq_true_eq] at hdepth; omega⟩
    rw [hn, Nat.add_sub_cancel]
    refine (h.alone.ensureGroups_clears hdyn n hs.alone hu).mono ?_ fun _ _ => id
    intro _ s' h'
    exact .of_clears h hs hk he (h'.congr (fun y => by simp [hdyn, he]) fun _ => .rfl)
  · next hd =>
    refine Sync.Ends.pure ?_
    cases he : ctx.policy.enforcesDynamic with
    | false => exact (Steps.refl hs).congr (by simp) fun _ _ => .rfl
    | true =>
      refine .of_clears h hs hk he ?_
      refine (Clears.of_own hs.alone (fun _ _ => rfl) fun _ _ => .rfl).congr (fun y => ?_)
        fun _ => .rfl
      rw [false_iff]
      rintro ⟨hdyn, x, ⟨-, hx⟩, -⟩
      rw [hdyn, Bool.true_and, decide_eq_true_eq] at hd
      rw [show depth.toNat = 0 by omega] at hx
      exact hx

/-- Unwinding the record of a user, of which only id and type matter. -/
theorem unwind_ends (hs : s.Ready K) (hk : K k) (hr : s.find? k = some r)
    (hq : q.id = r.id ∧ q.group = r.group) (he : ctx.policy.enforcesDynamic = true)
    {log : Option Channel} :
    Sync.Ends c s (ctx.unwind q log) (fun _ s' => ctx.Steps m c K k s (s.find? k)
      (fun _ => False) (ctx.Reaches s k) s') E := by
  rw [unwind_congr hq.1 hq.2]
  refine (Context.unwind_ends hs.wellFormed hs.typed hr).mono ?_
    fun _ _ hf => absurd hf.1 h.storeWorks.not_refuses
  rintro _ _ ⟨-, F, hF, rfl⟩
  exact .of_clears h hs hk he ((unwound_clears h.storeWorks hs.alone k hF).congr
    (by simp) fun _ => .rfl)

/-- The memberships of a user are represented. -/
theorem syncNames_ends (hs : s.Ready K) (hk : K k) (hu : m.identities.lookup k = some u)
    (hr : s.find? k = some r) (hn : ctx.HasNames c u ns) {log : Option Channel} :
    Sync.Ends c s (ctx.syncNames u (.stored k) ctx.policy.user.nestingDepth log)
      (fun _ s' => ctx.Steps m c K k s (some (ctx.represented ns r))
        (fun x => (ctx.policy.enforcesDynamic = true ∨ r.isLegacy = true) ∧
          ctx.Visits m s ctx.policy.user.nestingDepth.toNat k x)
        (fun x => r.isLegacy = true ∧ ctx.Reaches s k x) s') (fun _ _ => False) := by
  have hgroup := hs.users k r hk hr
  unfold syncNames
  refine Sync.Ends.step (Sync.Ends.record hr ?_)
  rw [if_neg (by simp [hgroup])]
  by_cases hl : r.isLegacy = true → ctx.policy.enforcesDynamic = true
  · rw [if_neg (by simpa using hl)]
    refine Sync.Ends.bind (hn.2 s _ _) ?_
    rintro _ s ⟨rfl, rfl⟩
    refine Sync.Ends.bind (h.keepNames_ends hs hk hr hn.1 hl) ?_
    intro _ s₁ h₁
    refine Sync.Ends.step (Sync.Ends.log ?_)
    refine Sync.Ends.bind (h.ensurePlaceholders_ends h₁.moved.ready hk hu _) ?_
    intro _ s₂ h₂
    have h₁₂ := h₁.after h hs h₂
    rw [h₁.own] at h₁₂
    simp only [h₁.moved.visits_iff h hs] at h₁₂
    rw [or_iff_left_of_imp hl]
    split
    · next hlegacy =>
      refine Sync.Ends.bind (h.unwind_ends h₂.moved.ready hk h₁₂.own
        ⟨(represented_same r).1.symm, (represented_same r).2.symm⟩ (hl hlegacy)) ?_
      intro _ s₃ h₃
      rw [h₁₂.own] at h₃
      refine Sync.Ends.pure ((h₁₂.trans h hs h₃).congr (by simp) fun he x => ?_)
      rw [h₁₂.moved.reaches_iff h hs he]
      simp [hlegacy]
    · next hlegacy => exact Sync.Ends.pure (h₁₂.congr (fun _ => .rfl) (by simp [hlegacy]))
  · -- the user is synchronised as in a standard context
    obtain ⟨hlegacy, he⟩ := Classical.not_imp.1 hl
    rw [Bool.not_eq_true] at he
    rw [if_pos (by simp [hlegacy, he])]
    refine Sync.Ends.step (Sync.Ends.log ?_)
    refine (h.alone.materialize_declares _ hs.alone hu ⟨r, hr⟩).mono ?_ fun _ _ => id
    intro _ s' h'
    have hrep : ctx.represented ns r = r := by
      rw [represented, if_pos hlegacy, if_neg (by simp [he])]
    rw [hrep, ← hr]
    exact .of_declares h hs hk he (h'.congr (by simp [hlegacy]) (by simp [hlegacy]))

/-- Synchronising a user. -/
theorem syncUser_ends (hs : s.Ready K) (hk : K k) (hu : m.identities.lookup k = some u)
    (hr : s.find? k = some r) (hn : ctx.HasNames c u ns) {log : Option Channel} :
    Sync.Ends c s (ctx.syncUser u (.stored k) log)
      (fun _ s' => ctx.Steps m c K k s (some (ctx.turned c ns u r))
        (fun x => (ctx.policy.enforcesDynamic = true ∨ r.isLegacy = true) ∧
          ctx.Visits m s ctx.policy.user.nestingDepth.toNat k x)
        (fun x => r.isLegacy = true ∧ ctx.Reaches s k x) s') (fun _ _ => False) := by
  have hty := (h.memory.of_lookup hu).1
  have ht := hs.typed r (Store.mem_all_of_find? hr)
  have ht₁ := ht.takingOver hty ctx.policy.user.propertyMapping
  have h₁ : ctx.Steps m c K k s (some (r.takingOver ctx.policy.user.propertyMapping u))
      (fun _ => False) (fun _ => False) _ := .put hk hs hr ht₁ ⟨rfl, rfl⟩
  unfold syncUser
  refine Sync.Ends.bind (syncProperties_ends hs.wellFormed hr ht hty h.policy.userMapping) ?_
  rintro _ _ rfl
  refine Sync.Ends.bind (Q := fun _ s' => ctx.Steps m c K k s
    (some (ctx.represented ns (r.takingOver ctx.policy.user.propertyMapping u)))
    (fun x => (ctx.policy.enforcesDynamic = true ∨ r.isLegacy = true) ∧
      ctx.Visits m s ctx.policy.user.nestingDepth.toNat k x)
    (fun x => r.isLegacy = true ∧ ctx.Reaches s k x) s') ?_ ?_
  · unfold syncMembership
    rw [if_pos h.dynamic]
    refine (h.syncNames_ends h₁.moved.ready hk hu h₁.own hn).mono ?_ fun _ _ => id
    intro _ s₂ h₂
    refine (h₁.after h hs h₂).congr (fun x => ?_) fun he x => ?_
    · rw [h₁.moved.visits_iff h hs]
      rfl
    · have hreach := h₁.moved.reaches_iff h hs he (k := k) (x := x)
      simp only [false_or] at hreach
      rw [hreach]
      rfl
  · intro _ s₂ h₂
    refine Sync.Ends.bind (h.alone.applyMembership_ends h₂.own) ?_
    rintro _ _ rfl
    have hrep : Record.Typed (ctx.represented ns _) := typed_represented ht₁ hn.1
    have ht₂ : Record.Typed (ctx.turned c ns u r) := { hrep with lastSynced := .inr h.time }
    refine (stamp_ends h₂.moved.ready.wellFormed h₂.own).mono ?_ fun _ _ => id
    rintro _ _ rfl
    exact h₂.andThen h hs (.put hk h₂.moved.ready h₂.own ht₂ ⟨rfl, rfl⟩)

/-! ## Entry points -/

theorem addIdentity_ends (hs : s.Ready K) (hk : K k) (hu : m.identities.lookup k = some u)
    (hnew : s.find? k = none) (hn : ctx.HasNames c u ns) {log : Channel} :
    Sync.Ends c s (ctx.addIdentity u log) (fun a s' => a = ctx.answer c ns u none ∧
      ctx.Steps m c K k s (ctx.afterTurn c ns u none) (ctx.Walks m c s k) (ctx.Spends c s k) s')
      (fun _ _ => False) := by
  have hlegacy : (ctx.newRecord u false).isLegacy = false := by
    simp [Record.isLegacy, newRecord, recordMode, h.dynamic]
  unfold addIdentity
  rw [h.users k u hk hu]
  refine Sync.Ends.bind (h.create_ends hs hu hnew fun _ => rfl) ?_
  rintro _ s₁ ⟨rfl, hs₁, hfind, hmember⟩
  have h₁ : ctx.Steps m c K k s (some (ctx.newRecord u false)) (fun _ => False)
      (fun _ => False) s₁ := .create hk hs₁ hfind hmember
  refine Sync.Ends.bind (h.syncUser_ends hs₁ hk hu h₁.own hn) ?_
  intro _ s₂ h₂
  refine Sync.Ends.step (Sync.Ends.log ?_)
  refine (resultOf_told_ends h₂.own).mono ?_ fun _ _ => id
  rintro _ _ ⟨rfl, rfl⟩
  refine ⟨rfl, (h₁.after h hs h₂).congr (fun x => ?_) fun _ x => ?_⟩
  · simp [Walks, hnew, due, hlegacy, h₁.moved.visits_iff h hs]
  · simp [Spends, hnew, hlegacy]

theorem updateIdentity_ends (hs : s.Ready K) (hk : K k) (hu : m.identities.lookup k = some u)
    (hr : s.find? k = some r) (hn : ctx.HasNames c u ns) {log : Option Channel} :
    Sync.Ends c s (ctx.updateIdentity u (.stored k) log) (fun a s' =>
      a = ctx.answer c ns u (some r) ∧ ctx.Steps m c K k s (ctx.afterTurn c ns u (some r))
        (ctx.Walks m c s k) (ctx.Spends c s k) s') (fun _ _ => False) := by
  have hty := (h.memory.of_lookup hu).1
  have ht := hs.typed r (Store.mem_all_of_find? hr)
  have hgroup := hs.users k r hk hr
  have hsame : sameType r u = true :=
    (sameType_iff ht u).2 (hgroup.trans (h.users k u hk hu).symm)
  -- a record that is not due stays
  have hrefl (hd : ctx.due c (some r) = false) : ctx.Steps m c K k s
      (ctx.afterTurn c ns u (some r)) (ctx.Walks m c s k) (ctx.Spends c s k) s := by
    rw [afterTurn, if_neg (by simp [hd]), ← hr]
    exact (Steps.refl hs).congr (by simp [Walks, hr, hd]) (by simp [Spends, hr, hd])
  unfold updateIdentity
  refine Sync.Ends.step (Sync.Ends.record hr ?_)
  refine Sync.Ends.step (requireKnown_ends hty.known ?_)
  dsimp only
  rw [if_neg (by simp [hsame])]
  split
  · next ho =>
    have ho' : ctx.owns r.ref = false := by simpa using ho
    refine Sync.Ends.step (Sync.Ends.log ?_)
    refine Sync.Ends.pure ⟨?_, hrefl (by simp [due, ho'])⟩
    rw [answer, if_neg (by simp [ho'])]
  · next ho =>
    have ho' : ctx.owns r.ref = true := by simpa using ho
    simp only [hgroup, Bool.false_eq_true, if_false]
    refine Sync.Ends.bind (isExpired_ends h.time ht h.policy.userExpiration) ?_
    rintro b s ⟨hb, rfl⟩
    have hdue : ctx.due c (some r) = b := by rw [due, ho', Bool.true_and, hb]
    cases b with
    | true =>
      rw [if_pos rfl]
      refine Sync.Ends.bind (h.syncUser_ends hs hk hu hr hn) ?_
      intro _ s₁ h₁
      refine (resultOf_told_ends h₁.own).mono ?_ fun _ _ => id
      rintro _ _ ⟨rfl, rfl⟩
      refine ⟨?_, ?_⟩
      · rw [answer, if_pos ho', if_pos hdue]
      · rw [afterTurn, if_pos hdue]
        exact h₁.congr (by simp [Walks, hr, hdue]) (by simp [Spends, hr, hdue])
    | false =>
      rw [if_neg (by simp)]
      refine Sync.Ends.step (Sync.Ends.log ?_)
      refine (resultOf_told_ends hr).mono ?_ fun _ _ => id
      rintro _ _ ⟨rfl, rfl⟩
      refine ⟨?_, hrefl hdue⟩
      rw [answer, if_pos ho', if_neg (by simp [hdue])]

/-- The turn of a user. -/
theorem sync_turn (hs : s.Ready K) (hk : K k) (hu : m.identities.lookup k = some u)
    (hkind : u.kind = .user) (hn : ctx.HasNames c u ns) :
    Sync.Ends c s (ctx.sync u) (fun a s' => a = ctx.answer c ns u (s.find? k) ∧
      ctx.Steps m c K k s (ctx.afterTurn c ns u (s.find? k)) (ctx.Walks m c s k)
        (ctx.Spends c s k) s') (fun _ _ => False) := by
  refine h.sync_user_ends (F := fun _ _ => False) hu hkind (fun _ _ _ => False.elim) ?_ ?_
  · intro hf log
    rw [hf]
    exact h.addIdentity_ends hs hk hu hf hn
  · intro r hf log
    rw [hf]
    exact h.updateIdentity_ends hs hk hu hf hn

end Calm

end Context

end Roster
