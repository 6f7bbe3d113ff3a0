import Roster.Proofs.Changes
import Roster.Proofs.Logic

/-!
# Steps and the changes they make

The rules here are for statements that hold of any data: nothing is assumed of ids, references and
properties, and what cannot be used is a failure. A step either leaves the store (`Sync.Leaves`), or
makes changes of one phase (`Sync.Makes`), or lets the store grow and then shrink
(`Sync.TurnsOver`). Each of them says so of failures too, since a failed step keeps what it changed.
The rules for `bind` and for loops are those of `Sync.Ends`, with the changes put together.
-/

namespace Roster

namespace Sync

variable {α β : Type} {rm : Remit} {p : Phase} {c : Scene} {s : Store} {x : Sync α}
  {P : α → Prop} {Q : α → Store → Prop} {R : β → Store → Prop} {E : Failure → Store → Prop}

/-! ## Elementary steps on any data -/

namespace Ends

theorem lookUp_any {id : Value} {Q : Option (Subject × Record) → Store → Prop}
    (h : ∀ k, id.toKey = .ok k → Q ((s.find? k).map fun r => (.stored k, r)) s)
    (he : ∀ f, E f s) : Ends c s (Sync.lookUp id) Q E := by
  cases hk : id.toKey with
  | ok k => exact lookUp hk (h k hk)
  | error f =>
    refine of_apply (o := .error f) (t := s) ?_ (fun _ h => nomatch h) fun _ _ => he _
    exact fun w hc hs => ⟨w, by simp only [Sync.lookUp, hk]; rfl, hc, hs⟩

theorem record_any {k : Key} {Q : Record → Store → Prop}
    (h : ∀ r, s.find? k = some r → Q r s) (he : ∀ f, E f s) :
    Ends c s (Sync.record (.stored k)) Q E := by
  cases hk : s.find? k with
  | some r => exact record hk (h r hk)
  | none =>
    refine of_apply (o := .error .malformed) (t := s) ?_ (fun _ h => nomatch h) fun _ _ => he _
    rintro w hc rfl
    have hw : w.record? (.stored k) = none := hk
    exact ⟨w, by simp only [Sync.record, bind_apply, get_apply, hw]; rfl, hc, rfl⟩

theorem shown_any {r : Option Ref} {Q : String → Store → Prop} (h : ∀ t, Q t s)
    (he : ∀ f, E f s) : Ends c s (Sync.shown r) Q E := by
  unfold Sync.shown
  split
  · exact pure (h _)
  · split
    · exact pure (h _)
    · exact throw (he _)

theorem allowById_any {op : StoreOperation} {id : Value} {Q : Unit → Store → Prop} (h : Q () s)
    (he : ∀ f, E f s) : Ends c s (Sync.allowById op id) Q E := by
  unfold Sync.allowById
  split
  · exact allow (fun _ => h) fun _ => he _
  · exact throw (he _)

/-- A record that is created stands under the key of its id. -/
theorem create_any {r : Record} {Q : Subject → Store → Prop}
    (h : ∀ k s', r.id.toKey = .ok k → s.create r = .ok s' → Q (.stored k) s')
    (he : ∀ f, E f s) : Ends c s (Sync.create r) Q E := by
  unfold Sync.create
  refine step (allowById_any ?_ he)
  refine bind (Q := fun _ s' => s.create r = .ok s')
    (onStore (fun _ s' hs => ?_) fun f _ => he f) fun _ s' hc => ?_
  · cases hc : s.create r with
    | error f => simp [hc, Except.map] at hs
    | ok s₁ =>
      simp only [hc, Except.map, Except.ok.injEq, Prod.mk.injEq, true_and] at hs
      rw [hs]
  · obtain ⟨k, hk, -⟩ := Store.create_eq_ok hc
    refine step (log ?_)
    refine step (result_ok hk ?_)
    exact pure (h k s' hk hc)

theorem addMember_any {g : Record} {id : Value} {Q : Bool → Store → Prop}
    (h : ∀ b s', s.addMember g id = .ok (b, s') → Q b s') (he : ∀ f, E f s) :
    Ends c s (Sync.addMember g id) Q E :=
  step (allow (fun _ => onStore h fun f _ => he f) fun _ => he _)

theorem removeMember_any {g : Record} {id : Value} {Q : Bool → Store → Prop}
    (h : ∀ b s', s.removeMember g id = .ok (b, s') → Q b s') (he : ∀ f, E f s) :
    Ends c s (Sync.removeMember g id) Q E :=
  step (allow (fun _ => onStore h fun f _ => he f) fun _ => he _)

theorem remove_any {id : Value} {Q : Unit → Store → Prop}
    (h : ∀ k r, id.toKey = .ok k → s.find? k = some r → Q () (s.drop (· == k)))
    (he : ∀ f, E f s) : Ends c s (Sync.remove id) Q E := by
  unfold Sync.remove
  refine step (allowById_any ?_ he)
  refine bind (onStore (Q := Q) (fun _ s' hs => ?_) fun f _ => he f) fun _ _ hq => log hq
  cases hr : s.remove id with
  | error f => simp [hr, Except.map] at hs
  | ok s₁ =>
    simp only [hr, Except.map, Except.ok.injEq, Prod.mk.injEq, true_and] at hs
    subst hs
    obtain ⟨k, r, hk, hf, rfl⟩ := Store.remove_eq_ok hr
    exact h k r hk hf

end Ends

/-! ## Steps that leave the store -/

/-- The step leaves the store, whether it fails or not, and an answer satisfies a predicate. -/
def Leaves (c : Scene) (s : Store) (x : Sync α) (P : α → Prop) : Prop :=
  Ends c s x (fun a s' => s' = s ∧ P a) fun _ s' => s' = s

namespace Leaves

theorem bind {f : α → Sync β} {P' : β → Prop} (hx : Leaves c s x P)
    (hf : ∀ a, P a → Leaves c s (f a) P') : Leaves c s (x >>= f) P' := by
  refine Ends.bind hx ?_
  rintro a _ ⟨rfl, ha⟩
  exact hf a ha

/-- A step that leaves the store comes before the rest; of failures nothing is said. -/
theorem before {f : α → Sync β} {Q : β → Store → Prop} (hx : Leaves c s x P)
    (hf : ∀ a, P a → Ends c s (f a) Q fun _ _ => True) :
    Ends c s (x >>= f) Q fun _ _ => True := by
  refine Ends.bind (hx.mono (fun _ _ h => h) fun _ _ _ => trivial) ?_
  rintro a _ ⟨rfl, ha⟩
  exact hf a ha

theorem tryCatch {handle : Failure → Sync α} (hx : Leaves c s x P)
    (hh : ∀ f, Leaves c s (handle f) P) : Leaves c s (tryCatch x handle) P := by
  refine Ends.tryCatch hx ?_
  rintro f _ rfl
  exact hh f

theorem foldlM {γ : Type} {f : α → γ → Sync α} (hf : ∀ a y, Leaves c s (f a y) fun _ => True)
    (xs : List γ) (a : α) : Leaves c s (xs.foldlM f a) fun _ => True := by
  induction xs generalizing a with
  | nil => exact Ends.pure ⟨rfl, trivial⟩
  | cons y xs ih => exact bind (hf a y) fun a' _ => ih a'

theorem pure {a : α} (h : P a) : Leaves c s (pure a) P := Ends.pure ⟨rfl, h⟩

theorem throw {f : Failure} : Leaves c s (throw f) P := Ends.throw rfl

theorem result {r : Except Failure α} (h : ∀ a, r = .ok a → P a) : Leaves c s (Sync.result r) P :=
  Ends.result (fun a ha => ⟨rfl, h a ha⟩) fun _ _ => rfl

theorem log {ch : Channel} {level : Level} {text : String} :
    Leaves c s (Sync.log ch level text) fun _ => True :=
  Ends.log ⟨rfl, trivial⟩

theorem audit {text : String} : Leaves c s (Sync.audit text) fun _ => True :=
  Ends.audit ⟨rfl, trivial⟩

theorem takeTurn : Leaves c s Sync.takeTurn fun _ => True :=
  Ends.takeTurn.mono (fun _ _ h => ⟨h.1, trivial⟩) fun _ _ => id

theorem shown (r : Option Ref) : Leaves c s (Sync.shown r) fun _ => True :=
  Ends.shown_any (fun _ => ⟨rfl, trivial⟩) fun _ => rfl

theorem record (k : Key) : Leaves c s (Sync.record (.stored k)) fun r => s.find? k = some r :=
  Ends.record_any (fun _ hr => ⟨rfl, hr⟩) fun _ => rfl

/-- What a lookup finds is what stands under the key of the id. -/
theorem lookUp (id : Value) : Leaves c s (Sync.lookUp id) fun a =>
    ∃ k, id.toKey = .ok k ∧ a = (s.find? k).map fun r => (.stored k, r) :=
  Ends.lookUp_any (fun k hk => ⟨rfl, k, hk, rfl⟩) fun _ => rfl

theorem allow {op : StoreOperation} {id : Value} :
    Leaves c s (Sync.allow op id) fun _ => True :=
  Ends.allow (fun _ => ⟨rfl, trivial⟩) fun _ => rfl

theorem requireKnown {i : Identity} : Leaves c s (Context.requireKnown i) fun _ => True := by
  unfold Context.requireKnown
  split
  · exact throw
  · exact pure trivial

end Leaves

/-! ## Steps that make changes -/

/-- The step makes changes of one phase only, whether it fails or not, and an answer with the store
satisfies a predicate. -/
def Makes (rm : Remit) (p : Phase) (c : Scene) (s : Store) (x : Sync α) (Q : α → Store → Prop) :
    Prop :=
  Ends c s x (fun a s' => rm.Changes p s s' ∧ Q a s') fun _ s' => rm.Changes p s s'

theorem Leaves.makes (h : Leaves c s x P) (hq : ∀ a, P a → Q a s) : Makes rm p c s x Q := by
  refine h.mono ?_ ?_
  · rintro a _ ⟨rfl, ha⟩
    exact ⟨.refl, hq a ha⟩
  · rintro f _ rfl
    exact .refl

namespace Makes

theorem pure {a : α} (h : Q a s) : Makes rm p c s (pure a) Q := Ends.pure ⟨.refl, h⟩

theorem throw {f : Failure} : Makes rm p c s (throw f) Q := Ends.throw .refl

theorem mono {Q' : α → Store → Prop} (h : Makes rm p c s x Q) (hq : ∀ a s', Q a s' → Q' a s') :
    Makes rm p c s x Q' :=
  Ends.mono h (fun a s' h => ⟨h.1, hq a s' h.2⟩) fun _ _ => id

theorem bind {f : α → Sync β} (hs : s.WellFormed) (hx : Makes rm p c s x Q)
    (hf : ∀ a s', s'.WellFormed → rm.Changes p s s' → Q a s' → Makes rm p c s' (f a) R) :
    Makes rm p c s (x >>= f) R := by
  refine Ends.bind (Ends.mono hx (fun _ _ => id) fun _ _ => id) ?_
  rintro a s' ⟨h, ha⟩
  refine Ends.mono (hf a s' (h.wellFormed hs) h ha) ?_ fun _ _ h' => h.trans h'
  exact fun b s'' ⟨h', hb⟩ => ⟨h.trans h', hb⟩

/-- A step that leaves the store comes first. -/
theorem after {f : α → Sync β} (hx : Leaves c s x P) (hf : ∀ a, P a → Makes rm p c s (f a) R) :
    Makes rm p c s (x >>= f) R := by
  refine Ends.bind (Ends.mono hx (fun _ _ => id) ?_) ?_
  · rintro f _ rfl
    exact .refl
  · rintro a _ ⟨rfl, ha⟩
    exact hf a ha

theorem tryCatch {handle : Failure → Sync α} (hs : s.WellFormed) (hx : Makes rm p c s x Q)
    (hh : ∀ f s', s'.WellFormed → rm.Changes p s s' → Makes rm p c s' (handle f) Q) :
    Makes rm p c s (tryCatch x handle) Q := by
  refine Ends.tryCatch hx fun f s' h => ?_
  refine Ends.mono (hh f s' (h.wellFormed hs) h) ?_ fun _ _ h' => h.trans h'
  exact fun a s'' ⟨h', ha⟩ => ⟨h.trans h', ha⟩

theorem foldlM {γ : Type} {f : α → γ → Sync α} {xs : List γ} {a : α} (hs : s.WellFormed)
    (h0 : Q a s) (hf : ∀ y ∈ xs, ∀ a s', s'.WellFormed → rm.Changes p s s' → Q a s' →
      Makes rm p c s' (f a y) Q) : Makes rm p c s (xs.foldlM f a) Q := by
  refine Ends.mono (Ends.foldlM (I := fun _ a s' => rm.Changes p s s' ∧ Q a s') ⟨.refl, h0⟩ ?_)
    (fun _ _ => id) fun _ _ => id
  rintro done y rest a s' he ⟨h, ha⟩
  refine Ends.mono (hf y (by rw [he]; simp) a s' (h.wellFormed hs) h ha) ?_ fun _ _ h' => h.trans h'
  exact fun b s'' ⟨h', hb⟩ => ⟨h.trans h', hb⟩

theorem forM {γ : Type} {f : γ → Sync Unit} {xs : List γ} {I : Store → Prop} (hs : s.WellFormed)
    (h0 : I s) (hf : ∀ y ∈ xs, ∀ s', s'.WellFormed → rm.Changes p s s' → I s' →
      Makes rm p c s' (f y) fun _ s'' => I s'') :
    Makes rm p c s (xs.forM f) fun _ s' => I s' := by
  refine Ends.mono (Ends.forM (I := fun _ s' => rm.Changes p s s' ∧ I s') ⟨.refl, h0⟩ ?_)
    (fun _ _ => id) fun _ _ => id
  rintro done y rest s' he ⟨h, hi⟩
  refine Ends.mono (hf y (by rw [he]; simp) s' (h.wellFormed hs) h hi) ?_ fun _ _ h' => h.trans h'
  exact fun _ s'' ⟨h', hi'⟩ => ⟨h.trans h', hi'⟩

/-- A record gets other fields. -/
theorem modify {k : Key} {f : Record → Record} {g : World → World} (hs : s.WellFormed)
    (hc : ∀ w, (g w).scene = w.scene) (hg : ∀ w, (g w).store = w.store.modify k f)
    (hf : ∀ r, s.find? k = some r → rm.Allows k r ∧ r.Becomes (f r) ∧ rm.Recasts r (f r)) :
    Makes rm p c s (modify g) fun _ s' => s' = s.modify k f := by
  refine Ends.modify hc (fun w hw => ?_) ⟨.modify hs hf, rfl⟩
  rw [hg, hw]

theorem update {k : Key} {f : Record → Record} (hs : s.WellFormed)
    (hf : ∀ r, s.find? k = some r → rm.Allows k r ∧ r.Becomes (f r) ∧ rm.Recasts r (f r)) :
    Makes rm p c s (Sync.update (.stored k) f) fun _ s' => s' = s.modify k f :=
  modify hs (fun _ => rfl) (fun _ => rfl) hf

/-! ## Operations of the store -/

/-- A new record stands under the key of its id. -/
theorem create {r : Record} (hn : r.names = none) (hm : rm.born r.mode)
    (ha : ∀ k, r.id.toKey = .ok k → rm.Allows k r) :
    Makes rm .growing c s (Sync.create r) fun x s' => ∃ k, x = .stored k ∧ r.id.toKey = .ok k ∧
      s.find? k = none ∧ s'.find? k = some r := by
  refine Ends.create_any (fun k s' hk hc => ?_) fun _ => .refl
  refine ⟨.single (.create hk (ha k hk) hn hc hm), k, rfl, hk, Store.find?_of_create hk hc, ?_⟩
  rw [Store.find?_create hk hc, if_pos rfl]

theorem addMember {g : Record} {id : Value} {k : Key} (hf : rm.fills)
    (hg : g.id.toKey = .ok k) (hm : rm.Managed s k) :
    Makes rm .growing c s (Sync.addMember g id) fun _ s' => s'.records = s.records :=
  Ends.addMember_any (fun _ _ h => ⟨.single (.join hg hm h hf), Store.records_addMember h⟩)
    fun _ => .refl

theorem removeMember {g : Record} {id : Value} {k : Key} (hs : s.WellFormed)
    (hg : g.id.toKey = .ok k) (hm : rm.Managed s k) :
    Makes rm p c s (Sync.removeMember g id) fun _ s' => s'.records = s.records := by
  refine Ends.removeMember_any (fun b s' h => ?_) fun _ => .refl
  obtain ⟨j, k', -, hk', rfl⟩ := hs.removeMember_cut h
  obtain rfl : k = k' := Except.ok.inj (hg.symm.trans hk')
  refine ⟨.single (.leave fun x y hxy => ?_), rfl⟩
  rw [Bool.and_eq_true, beq_iff_eq, beq_iff_eq] at hxy
  exact hxy.2 ▸ hm

theorem remove {id : Value}
    (h : ∀ k r, id.toKey = .ok k → s.find? k = some r → rm.Allows k r ∧ rm.near r.ref) :
    Makes rm .shrinking c s (Sync.remove id) fun _ s' =>
      ∃ k, id.toKey = .ok k ∧ s' = s.drop (· == k) :=
  Ends.remove_any (fun k r hk hr =>
    ⟨.single (.remove hr (h k r hk hr).1 (h k r hk hr).2), k, hk, rfl⟩) fun _ => .refl

end Makes

/-! ## Growing and then shrinking -/

/-- The step lets the store grow and then shrink, wherever it fails, and an answer with the store
satisfies a predicate. -/
def TurnsOver (rm : Remit) (c : Scene) (s : Store) (x : Sync α) (Q : α → Store → Prop) : Prop :=
  Ends c s x (fun a s' => rm.Turns s s' ∧ Q a s') fun _ s' => rm.Turns s s'

namespace TurnsOver

theorem of_growing (h : Makes rm .growing c s x Q) : TurnsOver rm c s x Q :=
  Ends.mono h (fun _ _ h => ⟨.of_growing h.1, h.2⟩) fun _ _ h => .of_growing h

theorem of_shrinking (h : Makes rm .shrinking c s x Q) : TurnsOver rm c s x Q :=
  Ends.mono h (fun _ _ h => ⟨.of_shrinking h.1, h.2⟩) fun _ _ h => .of_shrinking h

/-- The store grows before the rest. -/
theorem after {f : α → Sync β} (hs : s.WellFormed) (hx : Makes rm .growing c s x Q)
    (hf : ∀ a s', s'.WellFormed → rm.Changes .growing s s' → Q a s' → TurnsOver rm c s' (f a) R) :
    TurnsOver rm c s (x >>= f) R := by
  refine Ends.bind (Ends.mono hx (fun _ _ => id) fun _ _ h => .of_growing h) ?_
  rintro a s' ⟨h, ha⟩
  refine Ends.mono (hf a s' (h.wellFormed hs) h ha) ?_ fun _ _ h' => .after h h'
  exact fun b s'' ⟨h', hb⟩ => ⟨.after h h', hb⟩

/-- The store shrinks in the end. -/
theorem andThen {f : α → Sync β} (hs : s.WellFormed) (hx : TurnsOver rm c s x Q)
    (hf : ∀ a s', s'.WellFormed → rm.Turns s s' → Q a s' → Makes rm .shrinking c s' (f a) R) :
    TurnsOver rm c s (x >>= f) R := by
  refine Ends.bind (Ends.mono hx (fun _ _ => id) fun _ _ => id) ?_
  rintro a s' ⟨h, ha⟩
  refine Ends.mono (hf a s' (h.wellFormed hs) h ha) ?_ fun _ _ h' => h.andThen h'
  exact fun b s'' ⟨h', hb⟩ => ⟨h.andThen h', hb⟩

end TurnsOver

end Sync

end Roster
