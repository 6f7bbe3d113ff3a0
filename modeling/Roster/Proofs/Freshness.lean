import Roster.Proofs.Binding

/-!
# Fresh records

A synchronisation that gives an answer has left no record half done. What stands under a key was
there before and has the time that it had or that of the run, or it is a group that came on the
way, and such a group was synchronised at once (`Context.Fares`). A context either deletes the
groups that lose all their members, or it creates groups, and never does both (`Context.Retires`),
so that what is deleted on the way does not come back.

* `Context.Freshening`: steps whose answers say so, with one rule for each way to put steps
  together and one lemma for each function. Of failures nothing is said.
* `syncRecord_freshens`: a record that is synchronised.
-/

namespace Roster

open Sync (Leaves Makes)

/-- A record becomes another one, which has the time it had or a given one. -/
structure Record.Ages (t : Value) (r r' : Record) : Prop where
  becomes : r.Becomes r'
  time : r'.lastSynced = r.lastSynced ∨ r'.lastSynced = t

/-- A record that is not of the legacy mode does not get there. -/
theorem Record.Becomes.not_legacy {r r' : Record} (h : r.Becomes r') (hl : r.isLegacy = false) :
    r'.isLegacy = false := by
  rw [← Bool.not_eq_true] at hl ⊢
  exact fun hl' => hl (h.names hl').1

namespace Record.Ages

variable {t : Value} {r r' r'' : Record}

theorem refl (r : Record) : r.Ages t r := ⟨.refl r, .inl rfl⟩

theorem trans (h : r.Ages t r') (h' : r'.Ages t r'') : r.Ages t r'' where
  becomes := h.becomes.trans h'.becomes
  time := by
    rcases h'.time with he | he
    · rw [he]
      exact h.time
    · exact .inr he

end Record.Ages

namespace Context

variable {α β γ : Type} {ctx : Context} {c : Scene} {s s' s'' s₁ : Store} {k : Key}
  {r r' g : Record} {i : Identity} {log : Channel} {o o' o'' : Option Record}

/-! ## How records fare -/

/-- The reference of a record leads to an identity of its type. -/
def Leads (ctx : Context) (r : Record) : Prop :=
  ∃ q i, r.ref = some q ∧ (ctx.provider.lookup q).outcome = .ok (some i) ∧ sameType r i = true

/-- What the provider finds it finds again by the reference of what it found. -/
def Faithful (ctx : Context) : Prop :=
  ∀ q i, (ctx.provider.lookup q).outcome = .ok (some i) →
    ∃ q', i.ref = some q' ∧ (ctx.provider.lookup q').outcome = .ok (some i)

/-- Users are converted and groups are not kept for their own sake: what loses all its members is
deleted, and nothing is created. -/
def Retires (ctx : Context) : Prop :=
  ctx.dynamic = true ∧ ctx.policy.enforcesDynamic = true ∧ ctx.policy.hasDynamicGroups = false

/-- A group that comes during a synchronisation is synchronised at once. -/
structure Arrives (ctx : Context) (c : Scene) (r : Record) : Prop where
  group : r.isGroup = true
  time : r.lastSynced = c.clock
  leads : ctx.Leads r
  created : ¬ ctx.Retires

/-- How what stands under a key fares. -/
inductive Fares (ctx : Context) (c : Scene) : Option Record → Option Record → Prop where
  | absent : Fares ctx c none none
  | aged {r r' : Record} (h : r.Ages c.clock r') : Fares ctx c (some r) (some r')
  | arrived {r' : Record} (h : ctx.Arrives c r') : Fares ctx c none (some r')
  | retired {r : Record} (h : ctx.Retires) : Fares ctx c (some r) none

/-- Every record fares well. -/
def Freshens (ctx : Context) (c : Scene) (s s' : Store) : Prop :=
  ∀ k, ctx.Fares c (s.find? k) (s'.find? k)

theorem Leads.becomes (h : ctx.Leads r) (hb : r.Becomes r') : ctx.Leads r' := by
  obtain ⟨q, i, hq, hi, hsame⟩ := h
  refine ⟨q, i, hb.ref.trans hq, hi, ?_⟩
  rw [sameType, hb.group]
  exact hsame

theorem Arrives.ages (h : ctx.Arrives c r) (ha : r.Ages c.clock r') : ctx.Arrives c r' where
  group := ha.becomes.isGroup.trans h.group
  time := ha.time.elim (fun he => he.trans h.time) id
  leads := h.leads.becomes ha.becomes
  created := h.created

namespace Fares

theorem refl (o : Option Record) : ctx.Fares c o o := by
  cases o with
  | none => exact .absent
  | some r => exact .aged (.refl r)

theorem trans (h : ctx.Fares c o o') (h' : ctx.Fares c o' o'') : ctx.Fares c o o'' := by
  cases h with
  | absent => exact h'
  | aged ha =>
    cases h' with
    | aged ha' => exact .aged (ha.trans ha')
    | retired hr => exact .retired hr
  | arrived ha =>
    cases h' with
    | aged ha' => exact .arrived (ha.ages ha')
    | retired hr => exact absurd hr ha.created
  | retired hr =>
    cases h' with
    | absent => exact .retired hr
    | arrived ha => exact absurd hr ha.created

/-- A record that is there was there before or has just come. -/
theorem of_some (h : ctx.Fares c o (some r')) :
    (∃ r, o = some r ∧ r.Ages c.clock r') ∨ o = none ∧ ctx.Arrives c r' := by
  cases h with
  | aged ha => exact .inl ⟨_, rfl, ha⟩
  | arrived ha => exact .inr ⟨rfl, ha⟩

end Fares

namespace Freshens

theorem refl (s : Store) : ctx.Freshens c s s := fun _ => .refl _

theorem trans (h : ctx.Freshens c s s') (h' : ctx.Freshens c s' s'') : ctx.Freshens c s s'' :=
  fun k => (h k).trans (h' k)

theorem of_records (h : s'.records = s.records) : ctx.Freshens c s s' := by
  intro k
  rw [Store.find?, ← h]
  exact .refl _

theorem modify {f : Record → Record} (hf : ∀ r, s.find? k = some r → r.Ages c.clock (f r)) :
    ctx.Freshens c s (s.modify k f) := by
  intro j
  rw [Store.find?_modify]
  split
  · next hj =>
    subst hj
    cases hr : s.find? j with
    | none => exact .absent
    | some r => exact .aged (hf r hr)
  · exact .refl _

/-- A group that is created fares well once it is synchronised. -/
theorem create (hnew : s.find? k = none)
    (hs₁ : ∀ j, s₁.find? j = if j = k then some r else s.find? j)
    (h : ctx.Freshens c s₁ s') (hg : r.isGroup = true) (hl : ctx.Leads r) (hc : ¬ ctx.Retires)
    (ht : ∀ r', s'.find? k = some r' → r'.lastSynced = c.clock) : ctx.Freshens c s s' := by
  intro j
  have hj := h j
  rw [hs₁ j] at hj
  split at hj
  · next he =>
    subst he
    rw [hnew]
    cases hr' : s'.find? j with
    | none => exact .absent
    | some r' =>
      rw [hr'] at hj
      obtain ⟨q, hq, ha⟩ | ⟨hn, -⟩ := hj.of_some
      · obtain rfl := Option.some.inj hq
        exact .arrived ⟨ha.becomes.isGroup.trans hg, ht r' hr', hl.becomes ha.becomes, hc⟩
      · cases hn
  · exact hj

/-- A record that is there before and afterwards is the same one. -/
theorem ages (h : ctx.Freshens c s s') (hk : s.find? k = some r) (hr' : s'.find? k = some r') :
    r.Ages c.clock r' := by
  have hkey := h k
  rw [hk, hr'] at hkey
  obtain ⟨q, hq, ha⟩ | ⟨hn, -⟩ := hkey.of_some
  · obtain rfl := Option.some.inj hq
    exact ha
  · cases hn

end Freshens

/-! ## Steps -/

/-- If the step gives an answer, every record fares well, and answer and store satisfy a
predicate. -/
def Freshening (ctx : Context) (c : Scene) (s : Store) (x : Sync α) (Q : α → Store → Prop) : Prop :=
  Sync.Ends c s x (fun a s' => ctx.Freshens c s s' ∧ Q a s') fun _ _ => True

namespace Freshening

variable {x : Sync α} {P : α → Prop} {Q Q' : α → Store → Prop} {R : β → Store → Prop}

theorem pure {a : α} (h : Q a s) : ctx.Freshening c s (pure a) Q := Sync.Ends.pure ⟨.refl s, h⟩

theorem throw {f : Failure} : ctx.Freshening c s (throw f) Q := Sync.Ends.throw trivial

theorem mono (h : ctx.Freshening c s x Q) (hq : ∀ a s', Q a s' → Q' a s') :
    ctx.Freshening c s x Q' :=
  Sync.Ends.mono h (fun a s' h => ⟨h.1, hq a s' h.2⟩) fun _ _ h => h

theorem bind {f : α → Sync β} (hx : ctx.Freshening c s x Q)
    (hf : ∀ a s', ctx.Freshens c s s' → Q a s' → ctx.Freshening c s' (f a) R) :
    ctx.Freshening c s (x >>= f) R := by
  refine Sync.Ends.bind hx ?_
  rintro a s' ⟨h, ha⟩
  exact Sync.Ends.mono (hf a s' h ha) (fun b s'' h' => ⟨h.trans h'.1, h'.2⟩) fun _ _ h => h

/-- A step that leaves the store comes first. -/
theorem after {f : α → Sync β} (hx : Leaves c s x P) (hf : ∀ a, P a → ctx.Freshening c s (f a) R) :
    ctx.Freshening c s (x >>= f) R :=
  hx.before hf

theorem leaves (hx : Leaves c s x P) (hq : ∀ a, P a → Q a s) : ctx.Freshening c s x Q := by
  refine Sync.Ends.mono hx ?_ fun _ _ _ => trivial
  rintro a _ ⟨rfl, ha⟩
  exact ⟨.refl _, hq a ha⟩

/-- A step that changes member lists only. -/
theorem of_records (h : Sync.Ends c s x (fun _ s' => s'.records = s.records) fun _ _ => True) :
    ctx.Freshening c s x fun _ s' => s'.records = s.records :=
  Sync.Ends.mono h (fun _ _ hr => ⟨.of_records hr, hr⟩) fun _ _ h => h

theorem update {f : Record → Record} (hf : ∀ r, s.find? k = some r → r.Ages c.clock (f r)) :
    ctx.Freshening c s (Sync.update (.stored k) f) fun _ s' => s' = s.modify k f :=
  Sync.Ends.update ⟨.modify hf, rfl⟩

theorem foldlM {f : α → γ → Sync α} {xs : List γ} {a : α} (h0 : P a)
    (hf : ∀ y ∈ xs, ∀ a s', P a → ctx.Freshening c s' (f a y) fun b _ => P b) :
    ctx.Freshening c s (xs.foldlM f a) fun b _ => P b := by
  refine Sync.Ends.foldlM (I := fun _ b s' => ctx.Freshens c s s' ∧ P b) ⟨.refl s, h0⟩ ?_
  rintro done y rest b s' he ⟨h, hb⟩
  refine Sync.Ends.mono (hf y (by rw [he]; simp) b s' hb) ?_ fun _ _ h => h
  exact fun b' s'' h' => ⟨h.trans h'.1, h'.2⟩

theorem forM {f : γ → Sync Unit} {xs : List γ}
    (hf : ∀ y ∈ xs, ∀ s', ctx.Freshens c s s' → ctx.Freshening c s' (f y) fun _ _ => True) :
    ctx.Freshening c s (xs.forM f) fun _ _ => True := by
  refine Sync.Ends.mono (Sync.Ends.forM (I := fun _ s' => ctx.Freshens c s s') (.refl s) ?_)
    (fun _ _ h => ⟨h, trivial⟩) fun _ _ h => h
  intro done y rest s' he h
  exact Sync.Ends.mono (hf y (by rw [he]; simp) s' h) (fun _ _ h' => h.trans h'.1) fun _ _ h => h

end Freshening

/-! ## Attributes -/

theorem syncProperties_freshens (i : Identity) (k : Key) (mapping : Value) :
    ctx.Freshening c s (syncProperties i (.stored k) mapping) fun _ _ => True := by
  have hname (r : Record) : r.Ages c.clock { r with principalName := i.principalName } :=
    ⟨⟨rfl, rfl, rfl, fun h => ⟨h, rfl⟩⟩, .inl rfl⟩
  have hprops {s : Store} {g : World → World} (v : Value) (hc : ∀ w, (g w).scene = w.scene)
      (hg : ∀ w, (g w).store = w.store.modify k fun r => { r with properties := v }) :
      ctx.Freshening c s (modify g) fun _ _ => True := by
    refine Sync.Ends.modify hc (fun w hw => by rw [hg, hw]) ⟨.modify fun r _ => ?_, trivial⟩
    exact ⟨⟨rfl, rfl, rfl, fun h => ⟨h, rfl⟩⟩, .inl rfl⟩
  unfold syncProperties
  refine Freshening.after Leaves.requireKnown fun _ _ => ?_
  refine Freshening.bind (Freshening.update fun r _ => hname r) fun _ s₁ _ _ => ?_
  refine ends_ite (fun _ => ?_) fun _ => ?_
  · refine Freshening.after (Leaves.result fun _ _ => trivial) fun properties _ => ?_
    exact hprops _ (fun _ => rfl) fun _ => rfl
  · refine Freshening.after (Leaves.record k) fun r _ => ?_
    split
    · next names external own _ _ _ =>
      refine Freshening.bind (hprops (.mapping (copyProperties external own names).1)
        (fun _ => rfl) fun _ => rfl) fun _ s₂ _ _ => ?_
      split
      · exact Freshening.throw
      · exact Freshening.pure trivial
    · exact Freshening.throw

theorem stamp_freshens (k : Key) :
    ctx.Freshening c s (stamp (.stored k)) fun _ s' =>
      s' = s.modify k fun r => { r with lastSynced := c.clock } := by
  unfold stamp
  refine Sync.Ends.get (fun _ w w' hc _ hc' _ => ?_) fun w hc _ => ?_
  · have hclock : w.clock = w'.clock := congrArg Scene.clock (hc.trans hc'.symm)
    simp only [hclock]
  subst hc
  exact Freshening.update fun r _ => ⟨⟨rfl, rfl, rfl, fun h => ⟨h, rfl⟩⟩, .inr rfl⟩

theorem syncGroup_freshens (i : Identity) (k : Key) (log : Option Channel) :
    ctx.Freshening c s (ctx.syncGroup i (.stored k) log) fun _ s' =>
      ∀ r, s'.find? k = some r → r.lastSynced = c.clock := by
  unfold syncGroup
  refine Freshening.bind (syncProperties_freshens i k _) fun _ s₁ _ _ => ?_
  refine Freshening.bind (Freshening.of_records (applyMembership_records _ log)) fun _ s₂ _ _ => ?_
  refine Freshening.mono (stamp_freshens k) ?_
  rintro _ _ rfl r hr
  rw [Store.find?_modify, if_pos rfl] at hr
  obtain ⟨q, -, rfl⟩ := Option.map_eq_some_iff.1 hr
  rfl

/-! ## Groups -/

/-- A new group leads to the identity it is made for. -/
theorem leads_newGroup (h : ctx.Faithful) (hg : i.isGroup = true) {q : Ref}
    (hq : (ctx.provider.lookup q).outcome = .ok (some i)) : ctx.Leads (ctx.newRecord i true) := by
  obtain ⟨q', hq', hi⟩ := h q i hq
  exact ⟨q', i, hq', hi, by rw [sameType, hg]; rfl⟩

variable (hf : ctx.Faithful) (hc : ¬ ctx.Retires)
include hf hc

theorem localGroup_freshens (hg : i.isGroup = true) {q : Ref}
    (hq : (ctx.provider.lookup q).outcome = .ok (some i)) :
    ctx.Freshening c s (ctx.localGroup i log) fun a _ =>
      ∀ x g, a = some (x, g) → ∃ k, x = .stored k := by
  unfold localGroup
  refine Freshening.after (Leaves.lookUp i.id) ?_
  rintro _ ⟨k, -, rfl⟩
  cases hk : s.find? k with
  | none =>
    simp only [Option.map_none]
    refine Sync.Ends.step (Sync.Ends.create_any (fun j s₁ hj hs₁ => ?_) fun _ => trivial)
    have hnew := Store.find?_of_create hj hs₁
    refine Sync.Ends.bind (syncGroup_freshens i j _) ?_
    rintro _ s₂ ⟨h₂, ht⟩
    refine (Leaves.record j).before fun g _ => Sync.Ends.pure ⟨?_, ?_⟩
    · exact .create hnew (Store.find?_create hj hs₁) h₂ rfl (leads_newGroup hf hg hq) hc ht
    · rintro _ _ ⟨rfl, rfl⟩
      exact ⟨j, rfl⟩
  | some g =>
    simp only [Option.map_some]
    refine ends_ite (fun _ => Freshening.pure ?_) fun _ => ?_
    · rintro _ _ ⟨rfl, rfl⟩
      exact ⟨k, rfl⟩
    · exact Freshening.after Leaves.log fun _ _ => Freshening.pure nofun

/-- What going on at a group promises. -/
def FreshensUp (ctx : Context) (c : Scene) (goOn : Identity → Subject → Sync Unit) : Prop :=
  ∀ i k s, ctx.Freshening c s (goOn i (.stored k)) fun _ _ => True

theorem declareGroup_freshens {goOn : Identity → Subject → Sync Unit} (hgo : ctx.FreshensUp c goOn)
    (declared : List Key) (ref : Option Ref) :
    ctx.Freshening c s (ctx.declareGroup log r goOn declared ref) fun _ _ => True := by
  unfold declareGroup
  refine ends_ite (fun _ => ?_) fun _ => ?_
  · refine Freshening.after (Leaves.shown _) fun _ _ => ?_
    exact Freshening.after Leaves.log fun _ _ => Freshening.pure trivial
  · refine Freshening.after (externalGroup_leaves ref _) fun a ha => ?_
    cases a with
    | none => exact Freshening.pure trivial
    | some i =>
      obtain ⟨hg, q, hq⟩ := ha i rfl
      refine Freshening.bind (localGroup_freshens hf hc hg hq) ?_
      rintro a s₁ - hx
      match a with
      | none => exact Freshening.pure trivial
      | some (x, g) =>
        obtain ⟨k, rfl⟩ := hx x g rfl
        refine Freshening.bind (Freshening.of_records (Sync.Ends.addMember_any
          (fun _ _ h => Store.records_addMember h) fun _ => trivial)) fun _ s₂ _ _ => ?_
        refine Freshening.after (Leaves.result fun _ _ => trivial) fun _ _ => ?_
        exact Freshening.bind (hgo i k s₂) fun _ _ _ _ => Freshening.pure trivial

omit hf hc in
theorem pruneGroup_freshens (declared : List Key) :
    ctx.Freshening c s (ctx.pruneGroup log r declared g) fun _ _ => True := by
  unfold pruneGroup
  refine Freshening.after (Leaves.result fun _ _ => trivial) fun key _ => ?_
  refine ends_ite (fun _ => ?_) fun _ => Freshening.pure trivial
  refine Freshening.bind (Freshening.of_records (Sync.Ends.removeMember_any
    (fun _ _ h => Store.records_removeMember h) fun _ => trivial)) fun _ s₁ _ _ => ?_
  exact Freshening.leaves Leaves.log fun _ _ => trivial

theorem materialize_freshens (d : Nat) : ctx.FreshensUp c (ctx.materialize log d) := by
  induction d with
  | zero => exact fun _ _ _ => Freshening.pure trivial
  | succ d ih =>
    intro i k s
    unfold materialize
    refine Freshening.after Leaves.requireKnown fun _ _ => ?_
    refine Freshening.after (Leaves.record k) fun r _ => ?_
    refine Freshening.bind (Freshening.foldlM (P := fun _ => True) trivial
      fun ref _ declared s₁ _ => declareGroup_freshens hf hc ih declared ref) ?_
    rintro declared s₁ - -
    refine Sync.Ends.get (fun _ _ _ _ hs _ hs' => by rw [hs, hs']) fun w _ _ => ?_
    refine Freshening.after (Leaves.result fun _ _ => trivial) fun gs _ => ?_
    exact Freshening.forM fun g _ s₂ _ => pruneGroup_freshens declared

omit hf hc in
/-- A placeholder is there, or it is created. -/
theorem placeholder_ends_in (q : Ref) :
    Sync.Ends c s (ctx.placeholder log q i) (fun a s' => (a = none → s' = s) ∧
      ∀ x, a = some x → ∃ k, x = .stored k ∧ (s' = s ∨ s.find? k = none ∧
        ∀ j, s'.find? j = if j = k then some (ctx.newRecord i true) else s.find? j))
      fun _ _ => True := by
  unfold placeholder
  refine (Leaves.lookUp i.id).before ?_
  rintro _ ⟨k, -, rfl⟩
  cases hk : s.find? k with
  | none =>
    simp only [Option.map_none]
    refine Sync.Ends.step (Sync.Ends.create_any (fun j s₁ hj hs₁ => ?_) fun _ => trivial)
    refine (Leaves.shown _).before fun _ _ => ?_
    refine Leaves.audit.before fun _ _ => ?_
    refine Leaves.log.before fun _ _ => Sync.Ends.pure ⟨nofun, ?_⟩
    rintro _ ⟨rfl⟩
    exact ⟨j, rfl, .inr ⟨Store.find?_of_create hj hs₁, Store.find?_create hj hs₁⟩⟩
  | some g =>
    simp only [Option.map_some]
    refine ends_ite (fun _ => Sync.Ends.pure ⟨nofun, ?_⟩) fun _ => ?_
    · rintro _ ⟨rfl⟩
      exact ⟨k, rfl, .inl rfl⟩
    · exact Leaves.log.before fun _ _ => Sync.Ends.pure ⟨fun _ => rfl, nofun⟩

/-- What going on at the groups of a group promises. -/
def FreshensWide (ctx : Context) (c : Scene) (goOn : List (Option Ref) → Sync Unit) : Prop :=
  ∀ refs s, ctx.Freshening c s (goOn refs) fun _ _ => True

theorem ensureGroup_freshens {goOn : List (Option Ref) → Sync Unit} (hgo : ctx.FreshensWide c goOn)
    (ref : Option Ref) : ctx.Freshening c s (ctx.ensureGroup log goOn ref) fun _ _ => True := by
  unfold ensureGroup
  cases ref with
  | none => exact Freshening.pure trivial
  | some q =>
    refine Freshening.after (externalGroup_leaves (some q) _) fun a ha => ?_
    cases a with
    | none => exact Freshening.pure trivial
    | some i =>
      obtain ⟨hg, q', hq'⟩ := ha i rfl
      refine Sync.Ends.bind (placeholder_ends_in q) ?_
      rintro a s₁ ⟨hnone, hsome⟩
      cases a with
      | none =>
        obtain rfl := hnone rfl
        exact Freshening.pure trivial
      | some x =>
        obtain ⟨k, rfl, hs₁⟩ := hsome x rfl
        refine Sync.Ends.bind (syncGroup_freshens i k _) ?_
        rintro _ s₂ ⟨h₂, ht⟩
        have h : ctx.Freshens c s s₂ := by
          rcases hs₁ with rfl | ⟨hnew, hs₁⟩
          · exact h₂
          · exact .create hnew hs₁ h₂ rfl (leads_newGroup hf hg hq') hc ht
        exact Sync.Ends.mono (hgo i.groups s₂) (fun _ _ h' => ⟨h.trans h'.1, trivial⟩)
          fun _ _ h => h

theorem ensureGroups_freshens (more : Nat) : ctx.FreshensWide c (ctx.ensureGroups log more) := by
  have hall {goOn : List (Option Ref) → Sync Unit} (hgo : ctx.FreshensWide c goOn)
      (refs : List (Option Ref)) (s : Store) :
      ctx.Freshening c s (refs.forM (ctx.ensureGroup log goOn)) fun _ _ => True :=
    Freshening.forM fun ref _ s₁ _ => ensureGroup_freshens hf hc hgo ref
  induction more with
  | zero => exact hall fun _ _ => Freshening.pure trivial
  | succ more ih => exact hall ih

omit hc in
theorem ensurePlaceholders_freshens (depth : Int) :
    ctx.Freshening c s (ctx.ensurePlaceholders log i depth) fun _ _ => True := by
  unfold ensurePlaceholders
  refine ends_ite (fun hdyn => ?_) fun _ => Freshening.pure trivial
  refine ensureGroups_freshens hf ?_ _ _ _
  rintro ⟨-, -, hno⟩
  rw [hno] at hdyn
  cases hdyn

omit hf hc

/-! ## Names -/

/-- A user that keeps names is not of the legacy mode any more. -/
theorem keepNames_freshens (hk : s.find? k = some r) (names : NameSet) :
    ctx.Freshening c s (keepNames (.stored k) r names) fun _ s' =>
      ∃ r', s'.find? k = some r' ∧ r'.isLegacy = false := by
  have hthrow {f : Failure} {g : PUnit → Sync Unit} {Q : Unit → Store → Prop} :
      ctx.Freshening c s (throw f >>= g) Q :=
    Freshening.after (P := fun _ => False) Leaves.throw fun _ => False.elim
  unfold keepNames
  refine ends_ite (fun _ => ?_) fun hl => ?_
  · unfold Sync.convert
    refine Freshening.after (Leaves.record k) fun q _ => ?_
    refine Freshening.after Leaves.allow fun _ _ => ?_
    refine Freshening.after (Leaves.result fun _ _ => trivial) fun names _ => ?_
    refine ends_ite (fun _ => hthrow) fun _ => ?_
    refine Freshening.mono (Freshening.update fun q _ =>
      ⟨⟨rfl, rfl, rfl, fun hl => absurd hl (by simp [Record.isLegacy, Record.toDynamic])⟩,
        .inl rfl⟩) ?_
    rintro _ _ rfl
    exact ⟨r.toDynamic names, by rw [Store.find?_modify, if_pos rfl, hk, Option.map_some], rfl⟩
  · unfold Sync.setNames
    refine Freshening.after (Leaves.record k) fun q hq => ?_
    obtain rfl : r = q := Option.some.inj (hk.symm.trans hq)
    refine Freshening.after Leaves.allow fun _ _ => ?_
    refine ends_ite (fun _ => hthrow) fun _ => ?_
    refine Freshening.after (Leaves.result fun _ _ => trivial) fun names _ => ?_
    refine Freshening.mono (Freshening.update fun q hq' => ?_) ?_
    · obtain rfl : r = q := Option.some.inj (hk.symm.trans hq')
      exact ⟨⟨rfl, rfl, rfl, fun hl' => absurd hl' hl⟩, .inl rfl⟩
    · rintro _ _ rfl
      refine ⟨{ r with names := some (.set names) },
        by rw [Store.find?_modify, if_pos rfl, hk, Option.map_some], ?_⟩
      simpa [Record.isLegacy] using hl

/-! ## Unwinding -/

/-- Taking memberships back changes no record, and groups to delete are found only where groups are
not kept for their own sake. -/
def TakesBack (ctx : Context) (s : Store) (found found' : Unwound) (s' : Store) : Prop :=
  s'.records = s.records ∧ (ctx.policy.hasDynamicGroups = true → found'.orphans = found.orphans)

theorem isOrphaned_kept : Leaves c s (ctx.isOrphaned g) fun b =>
    b = true → ctx.policy.hasDynamicGroups = false := by
  unfold isOrphaned
  cases hdyn : ctx.policy.hasDynamicGroups with
  | true =>
    rw [if_pos rfl]
    exact Leaves.pure nofun
  | false =>
    rw [if_neg Bool.false_ne_true]
    refine Sync.Ends.get (fun _ _ _ _ hs _ hs' => by rw [hs, hs']) fun w _ _ => ?_
    split
    · exact Leaves.pure fun _ => rfl
    · exact Leaves.throw

theorem endMembership_records :
    Sync.Ends c s (endMembership r g) (fun _ s' => s'.records = s.records) fun _ _ => True := by
  unfold endMembership
  refine Sync.Ends.bind (Q := fun _ s' => s'.records = s.records) (Sync.Ends.removeMember_any
    (fun _ _ h => Store.records_removeMember h) fun _ => trivial) fun _ _ h => ?_
  exact Sync.Ends.audit h

theorem unwindFrom_takesBack (bound : Nat) (r : Record) (found : Unwound) (s : Store) :
    Sync.Ends c s (ctx.unwindFrom log bound r found) (ctx.TakesBack s found) fun _ _ => True := by
  induction bound generalizing r found s with
  | zero => exact Sync.Ends.pure ⟨rfl, fun _ => rfl⟩
  | succ bound ih =>
    unfold unwindFrom
    refine Sync.Ends.get (fun _ _ _ _ hs _ hs' => by rw [hs, hs']) fun w _ _ => ?_
    refine (Leaves.result (P := fun _ => True) fun _ _ => trivial).before fun gs _ => ?_
    refine Sync.Ends.foldlM (I := fun _ f s' => ctx.TakesBack s found f s') ⟨rfl, fun _ => rfl⟩ ?_
    rintro - g - f s₁ - ⟨hr₁, hf₁⟩
    unfold unwindGroup
    refine ends_ite (fun _ => ?_) fun _ => ?_
    · refine (Leaves.result (P := fun _ => True) fun _ _ => trivial).before fun name _ => ?_
      refine Sync.Ends.bind endMembership_records fun _ s₂ hr₂ => ?_
      refine Sync.Ends.bind (ih g _ s₂) ?_
      rintro f' s₃ ⟨hr₃, hf₃⟩
      have h₃ : ctx.TakesBack s found f' s₃ :=
        ⟨hr₃.trans (hr₂.trans hr₁), fun hdyn => (hf₃ hdyn).trans (hf₁ hdyn)⟩
      refine isOrphaned_kept.before fun b hb => ?_
      refine ends_ite (fun ht => ?_) fun _ => Sync.Ends.pure h₃
      refine (Leaves.result (P := fun _ => True) fun _ _ => trivial).before fun key _ => ?_
      refine Sync.Ends.pure ⟨h₃.1, fun hdyn => ?_⟩
      rw [hb ht] at hdyn
      cases hdyn
    · refine (Leaves.result (P := fun _ => True) fun _ _ => trivial).before fun a _ => ?_
      refine ends_ite (fun _ => ?_) fun _ => ?_
      · refine Sync.Ends.bind endMembership_records fun _ s₂ hr₂ => ?_
        refine Sync.Ends.mono (ih g f s₂) ?_ fun _ _ h => h
        exact fun f' s₃ h => ⟨h.1.trans (hr₂.trans hr₁), fun hdyn => (h.2 hdyn).trans (hf₁ hdyn)⟩
      · exact Leaves.log.before fun _ _ => Sync.Ends.pure ⟨hr₁, hf₁⟩

theorem Freshens.drop (hret : ctx.Retires) (k : Key) : ctx.Freshens c s (s.drop (· == k)) := by
  intro j
  rw [Store.find?_drop]
  split
  · cases s.find? j with
    | none => exact .absent
    | some r => exact .retired hret
  · exact .refl _

theorem deleteOrphan_freshens (hret : ctx.Retires) :
    ctx.Freshening c s (deleteOrphan log g) fun _ _ => True := by
  unfold deleteOrphan
  refine Sync.Ends.tryCatch (F := fun _ s' => s' = s) ?_ ?_
  · refine Sync.Ends.step (Sync.Ends.remove_any (fun k r _ _ => ?_) fun _ => rfl)
    exact Sync.Ends.step (Sync.Ends.audit (Sync.Ends.log ⟨.drop hret k, trivial⟩))
  · rintro f _ rfl
    refine ends_ite (fun _ => ?_) fun _ => Freshening.throw
    exact Sync.Ends.step (Sync.Ends.audit (Sync.Ends.log ⟨.refl _, trivial⟩))

/-- Unwinding a user that is converted. -/
theorem unwind_freshens (hd : ctx.dynamic = true) (he : ctx.policy.enforcesDynamic = true)
    (r : Record) (log : Option Channel) :
    ctx.Freshening c s (ctx.unwind r log) fun _ _ => True := by
  unfold unwind
  refine Sync.Ends.get (fun _ _ _ _ hs _ hs' => by rw [hs, hs']) fun w _ _ => ?_
  refine Sync.Ends.bind (unwindFrom_takesBack _ r {} s) ?_
  rintro found s₁ ⟨hr, horphans⟩
  have hloop : ctx.Freshening c s₁
      ((found.orphans.map (·.2)).forM (deleteOrphan (log.getD ⟨"cleaner", none⟩)))
      fun _ _ => True := by
    cases hdyn : ctx.policy.hasDynamicGroups with
    | true =>
      rw [horphans hdyn]
      exact Freshening.pure trivial
    | false => exact Freshening.forM fun g _ s₂ _ => deleteOrphan_freshens ⟨hd, he, hdyn⟩
  refine Sync.Ends.bind hloop ?_
  rintro _ s₂ ⟨h₂, -⟩
  exact Sync.Ends.pure ⟨.trans (.of_records hr) h₂, trivial⟩

/-! ## Synchronising a record -/

/-- No record of the legacy mode stands under a key. -/
def Modern (k : Key) (s : Store) : Prop := ∀ r, s.find? k = some r → r.isLegacy = false

theorem syncNames_freshens (hf : ctx.Faithful) (hd : ctx.dynamic = true)
    (hg : ∀ r, s.find? k = some r → r.isGroup = false) (depth : Int) (log : Option Channel) :
    ctx.Freshening c s (ctx.syncNames i (.stored k) depth log) fun _ s' =>
      ctx.policy.enforcesDynamic = true → Modern k s' := by
  unfold syncNames
  refine Freshening.after (Leaves.record k) fun r hk => ?_
  rw [if_neg (by simp [hg r hk])]
  refine ends_ite (fun hl => ?_) fun hl => ?_
  · have he : ctx.policy.enforcesDynamic = false := by
      simpa using (Bool.and_eq_true_iff.1 hl).2
    have hc : ¬ ctx.Retires := by
      rintro ⟨-, he', -⟩
      rw [he] at he'
      cases he'
    refine Freshening.after Leaves.log fun _ _ => ?_
    refine Freshening.mono (materialize_freshens hf hc _ i k s) fun _ _ _ he' => ?_
    rw [he] at he'
    cases he'
  · refine Freshening.after (namesOf_leaves depth) fun names _ => ?_
    refine Freshening.bind (keepNames_freshens hk names) ?_
    rintro _ s₁ - ⟨r₁, hk₁, hl₁⟩
    have hmodern {s' : Store} (h : ctx.Freshens c s₁ s') : Modern k s' :=
      fun r' hr' => (h.ages hk₁ hr').becomes.not_legacy hl₁
    have hrest : ctx.Freshening c s₁ (do
        ctx.ensurePlaceholders (log.getD ⟨"resolver", none⟩) i depth
        if r.isLegacy then
          let _ ← ctx.unwind r (some (log.getD ⟨"resolver", none⟩))) fun _ _ => True := by
      refine Freshening.bind (ensurePlaceholders_freshens hf depth) fun _ s₂ _ _ => ?_
      refine ends_ite (fun hl' => ?_) fun _ => Freshening.pure trivial
      have he : ctx.policy.enforcesDynamic = true := by
        simpa [hl'] using hl
      exact Freshening.bind (unwind_freshens hd he r _) fun _ _ _ _ => Freshening.pure trivial
    refine Freshening.after Leaves.log fun _ _ => ?_
    exact Sync.Ends.mono hrest (fun _ _ h => ⟨h.1, fun _ => hmodern h.1⟩) fun _ _ h => h

/-- A user that is synchronised by force is not of the legacy mode any more. -/
theorem syncRecord_freshens (hf : ctx.Faithful) (hk : s.find? k = some r) (log : Option Channel) :
    ctx.Freshening c s (ctx.syncRecord i (.stored k) r.isGroup log) fun _ s' =>
      ctx.dynamic = true → ctx.policy.enforcesDynamic = true → r.isGroup = false →
        Modern k s' := by
  unfold syncRecord
  cases hg : r.isGroup with
  | true =>
    rw [if_pos rfl]
    exact Freshening.mono (syncGroup_freshens i k log) fun _ _ _ _ _ => nofun
  | false =>
    rw [if_neg Bool.false_ne_true]
    unfold syncUser
    refine Freshening.bind (syncProperties_freshens i k _) fun _ s₁ h₁ _ => ?_
    have hg₁ (r₁ : Record) (hr₁ : s₁.find? k = some r₁) : r₁.isGroup = false :=
      (h₁.ages hk hr₁).becomes.isGroup.trans hg
    have hmembership : ctx.Freshening c s₁ (ctx.syncMembership i (.stored k)
        ctx.policy.user.nestingDepth log) fun _ s₂ =>
          ctx.dynamic = true → ctx.policy.enforcesDynamic = true → Modern k s₂ := by
      unfold syncMembership
      refine ends_ite (fun hd => ?_) fun hd => ?_
      · exact Freshening.mono (syncNames_freshens hf hd hg₁ _ log) fun _ _ h _ => h
      · refine Freshening.mono (materialize_freshens hf (fun h => hd h.1) _ i k s₁) ?_
        exact fun _ _ _ hd' => absurd hd' hd
    refine Freshening.bind hmembership fun _ s₂ _ hmodern => ?_
    refine Freshening.bind (Freshening.of_records (applyMembership_records _ log))
      fun _ s₃ _ hr₃ => ?_
    refine Freshening.mono (stamp_freshens k) ?_
    rintro _ _ rfl hd he - r' hr'
    rw [Store.find?_modify, if_pos rfl] at hr'
    obtain ⟨r₃, hk₃, rfl⟩ := Option.map_eq_some_iff.1 hr'
    rw [Store.find?, hr₃] at hk₃
    exact hmodern hd he r₃ hk₃

end Context

end Roster
