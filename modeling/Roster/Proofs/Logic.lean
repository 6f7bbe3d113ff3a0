import Roster.Sync
import Roster.Proofs.Reference
import Roster.Proofs.Store

/-!
# Reasoning about steps

A step of a synchronisation sees its store and a *scene* that it never changes: the clock, the run,
the planned failures. What it writes down and how many calls it makes is not looked at here.

`Ends c s x Q E`: started in the store `s` within the scene `c`, the step `x` ends there too, with
an answer and a store that satisfy `Q` or with a failure and a store that satisfy `E`. The turn of a
call is no part of the scene, so a failure that is planned for a turn may strike at any call. Unless
failures are planned for turns or for a number of lookups, where a step ends depends on store and
scene only. There is one rule for each way to put steps together and one for each elementary step; a proof about a
function follows its text and applies them. `Ends.step` takes an elementary step off, so that what
is left to prove is the rest of the text.
-/

namespace Roster

/-- What a synchronisation sees of its world besides the store. -/
structure Scene where
  clock : Value
  run : Value
  faults : Faults
  generation : Nat
  detached : List (Nat × Record)

/-- The scene of a world. -/
def World.scene (w : World) : Scene := ⟨w.clock, w.run, w.faults, w.generation, w.detached⟩

/-- A failure is planned for the turn of a call. -/
def Scene.Strikes (c : Scene) : Prop := ∃ n, c.faults.turns n = true

/-- No failure is planned for a number of lookups or for the turn of a call. -/
def Scene.Uncounted (c : Scene) : Prop := c.faults.resolveAfter = none ∧ ¬ c.Strikes

theorem Scene.Uncounted.of_faults {c : Scene} (hafter : c.faults.resolveAfter = none)
    (hturns : c.faults.turns = fun _ => false) : c.Uncounted :=
  ⟨hafter, fun ⟨n, hn⟩ => Bool.false_ne_true ((congrFun hturns n).symm.trans hn)⟩

/-- Whether a failure of an operation is planned for an id. -/
def Scene.plans (c : Scene) (op : StoreOperation) (id : Value) : Bool :=
  c.faults.store.any fun p => p.1 = op && p.2.contains id

/-- An operation on an id may fail: a failure is planned for the two, or for the turns of calls. -/
def Scene.MayRefuse (c : Scene) (op : StoreOperation) (id : Value) : Prop :=
  c.plans op id = true ∨ c.Strikes

/-- The failure is a planned one at a record of the store, and not at its removal. -/
def Scene.Refuses (c : Scene) (s : Store) (f : Failure) : Prop :=
  ∃ op r, op ≠ .removeRecord ∧ r ∈ s.all ∧ f = .refused op r.id ∧ c.MayRefuse op r.id

/-- Every failure that is planned for an operation of the store is foreseen, but for removals of
records. -/
def Scene.Foresees (c : Scene) (E : Failure → Store → Prop) : Prop :=
  ∀ op id s, op ≠ .removeRecord → c.MayRefuse op id → E (.refused op id) s

theorem Scene.Foresees.of_refuses {c : Scene} {E : Failure → Store → Prop} (h : c.Foresees E)
    {s : Store} {f : Failure} (hf : c.Refuses s f) (s' : Store) : E f s' := by
  obtain ⟨op, r, hop, -, rfl, hp⟩ := hf
  exact h op r.id s' hop hp

namespace Sync

variable {α β : Type} {c : Scene} {s : Store} {x : Sync α} {P Q : α → Store → Prop}
  {E F : Failure → Store → Prop} {R : β → Store → Prop}

theorem tryCatch_apply (x : Sync α) (handle : Failure → Sync α) (w : World) :
    (tryCatch x handle) w = match x w with
      | (.ok a, w') => (.ok a, w')
      | (.error e, w') => handle e w' := rfl

/-- Where a step started in a store and a scene ends. -/
structure Ends (c : Scene) (s : Store) (x : Sync α) (Q : α → Store → Prop)
    (E : Failure → Store → Prop) : Prop where
  holds : ∀ w : World, w.scene = c → w.store = s →
    match x w with
    | (.ok a, w') => w'.scene = c ∧ Q a w'.store
    | (.error f, w') => w'.scene = c ∧ E f w'.store
  same : c.Uncounted → ∀ w w' : World, w.scene = c → w.store = s → w'.scene = c → w'.store = s →
    (x w).1 = (x w').1 ∧ (x w).2.store = (x w').2.store

namespace Ends

/-- A step with the same outcome in all worlds of a store and a scene. -/
theorem of_apply {o : Except Failure α} {t : Store}
    (h : ∀ w : World, w.scene = c → w.store = s →
      ∃ w', x w = (o, w') ∧ w'.scene = c ∧ w'.store = t)
    (hq : ∀ a, o = .ok a → Q a t) (he : ∀ f, o = .error f → E f t) : Ends c s x Q E where
  holds := by
    intro w hc hs
    obtain ⟨w', hw, hc', rfl⟩ := h w hc hs
    rw [hw]
    cases o with
    | ok a => exact ⟨hc', hq a rfl⟩
    | error f => exact ⟨hc', he f rfl⟩
  same := by
    intro _ w v hc hs hc' hs'
    obtain ⟨w', hw, -, hsw⟩ := h w hc hs
    obtain ⟨v', hv, -, hsv⟩ := h v hc' hs'
    rw [hw, hv]
    exact ⟨rfl, hsw.trans hsv.symm⟩

/-! ## Putting steps together -/

theorem mono (h : Ends c s x Q E) (hq : ∀ a s', Q a s' → P a s') (he : ∀ f s', E f s' → F f s') :
    Ends c s x P F where
  holds := by
    intro w hc hs
    have := h.holds w hc hs
    split at this
    · exact ⟨this.1, hq _ _ this.2⟩
    · exact ⟨this.1, he _ _ this.2⟩
  same := h.same

/-- What holds of a step in two ways. -/
theorem and (hx : Ends c s x P E) (hx' : Ends c s x Q F) :
    Ends c s x (fun a s' => P a s' ∧ Q a s') fun f s' => E f s' ∧ F f s' where
  holds := by
    intro w hc hs
    have h := hx.holds w hc hs
    have h' := hx'.holds w hc hs
    rcases hw : x w with ⟨f | a, w'⟩ <;> rw [hw] at h h'
    · exact ⟨h.1, h.2, h'.2⟩
    · exact ⟨h.1, h.2, h'.2⟩
  same := hx.same

theorem pure {a : α} (h : Q a s) : Ends c s (pure a) Q E :=
  of_apply (o := .ok a) (t := s) (fun w hc hs => ⟨w, rfl, hc, hs⟩)
    (fun _ he => Except.ok.inj he ▸ h) fun _ he => nomatch he

theorem throw {f : Failure} (h : E f s) : Ends c s (throw f) Q E :=
  of_apply (o := .error f) (t := s) (fun w hc hs => ⟨w, rfl, hc, hs⟩) (fun _ he => nomatch he)
    fun _ he => Except.error.inj he ▸ h

theorem bind {f : α → Sync β} (hx : Ends c s x Q E) (hf : ∀ a s', Q a s' → Ends c s' (f a) R E) :
    Ends c s (x >>= f) R E where
  holds := by
    intro w hc hs
    have h := hx.holds w hc hs
    rw [bind_apply]
    rcases hxw : x w with ⟨e | a, w'⟩ <;> rw [hxw] at h
    · exact h
    · exact (hf a w'.store h.2).holds w' h.1 rfl
  same := by
    intro hu w v hc hs hc' hs'
    have hw := hx.holds w hc hs
    have hv := hx.holds v hc' hs'
    have hsame := hx.same hu w v hc hs hc' hs'
    rw [bind_apply, bind_apply]
    rcases hxw : x w with ⟨e | a, w'⟩ <;> rcases hxv : x v with ⟨e' | a', v'⟩ <;>
      rw [hxw, hxv] at hsame
    · exact ⟨congrArg Except.error (Except.error.inj hsame.1), hsame.2⟩
    · cases hsame.1
    · cases hsame.1
    · obtain rfl := Except.ok.inj hsame.1
      rw [hxw] at hw
      rw [hxv] at hv
      exact (hf a _ hw.2).same hu w' v' hw.1 rfl hv.1 hsame.2.symm

/-- A failure, whatever would come after it. -/
theorem throw_bind {f : Failure} {g : α → Sync β} (h : E f s) :
    Ends c s (MonadExcept.throw f >>= g) R E :=
  bind (Q := fun _ _ => False) (throw h) fun _ _ => False.elim

/-- A step after which the rest is known to go on as it should. -/
theorem step {f : α → Sync β} (h : Ends c s x (fun a s' => Ends c s' (f a) R E) E) :
    Ends c s (x >>= f) R E :=
  bind h fun _ _ => id

/-- The world is looked at: only its scene and its store are known and matter. -/
theorem get {f : World → Sync β}
    (hf : c.Uncounted → ∀ w w' : World, w.scene = c → w.store = s → w'.scene = c → w'.store = s →
      f w = f w')
    (h : ∀ w : World, w.scene = c → w.store = s → Ends c s (f w) R E) :
    Ends c s (get >>= f) R E where
  holds := fun w hc hs => (h w hc hs).holds w hc hs
  same := by
    intro hu w v hc hs hc' hs'
    have hsame := (h w hc hs).same hu w v hc hs hc' hs'
    show (f w w).1 = (f v v).1 ∧ (f w w).2.store = (f v v).2.store
    rw [← hf hu w v hc hs hc' hs']
    exact hsame

theorem tryCatch {handle : Failure → Sync α} (hx : Ends c s x Q F)
    (hh : ∀ f s', F f s' → Ends c s' (handle f) Q E) :
    Ends c s (tryCatch x handle) Q E where
  holds := by
    intro w hc hs
    have h := hx.holds w hc hs
    rw [tryCatch_apply]
    split at h
    · exact h
    · next e w' hw => exact (hh e w'.store h.2).holds w' h.1 rfl
  same := by
    intro hu w v hc hs hc' hs'
    have hw := hx.holds w hc hs
    have hv := hx.holds v hc' hs'
    have hsame := hx.same hu w v hc hs hc' hs'
    rw [tryCatch_apply, tryCatch_apply]
    rcases hxw : x w with ⟨e | a, w'⟩ <;> rcases hxv : x v with ⟨e' | a', v'⟩ <;>
      rw [hxw, hxv] at hsame
    · obtain rfl := Except.error.inj hsame.1
      rw [hxw] at hw
      rw [hxv] at hv
      exact (hh e _ hw.2).same hu w' v' hw.1 rfl hv.1 hsame.2.symm
    · cases hsame.1
    · cases hsame.1
    · exact hsame

/-- A step for each item of a list keeps an invariant that may speak of the items done. -/
theorem forM {γ : Type} {f : γ → Sync Unit} {xs : List γ} {I : List γ → Store → Prop}
    (h0 : I [] s)
    (hf : ∀ done y rest s', xs = done ++ y :: rest → I done s' →
      Ends c s' (f y) (fun _ s'' => I (done ++ [y]) s'') E) :
    Ends c s (xs.forM f) (fun _ s' => I xs s') E := by
  suffices h : ∀ done rest s', xs = done ++ rest → I done s' →
      Ends c s' (rest.forM f) (fun _ s'' => I xs s'') E from h [] xs s rfl h0
  intro done rest
  induction rest generalizing done with
  | nil =>
    intro s' he hi
    rw [List.append_nil] at he
    subst he
    exact pure hi
  | cons y rest ih =>
    intro s' he hi
    show Ends c s' (f y >>= fun _ => rest.forM f) _ _
    refine bind (hf done y rest s' he hi) fun _ s'' hi' => ?_
    exact ih (done ++ [y]) s'' (by rw [he, List.append_assoc]; rfl) hi'

/-- A fold over a list keeps an invariant that may speak of the items done. -/
theorem foldlM {γ : Type} {f : α → γ → Sync α} {xs : List γ} {a : α}
    {I : List γ → α → Store → Prop} (h0 : I [] a s)
    (hf : ∀ done y rest a s', xs = done ++ y :: rest → I done a s' →
      Ends c s' (f a y) (fun a' s'' => I (done ++ [y]) a' s'') E) :
    Ends c s (xs.foldlM f a) (fun a' s' => I xs a' s') E := by
  suffices h : ∀ done rest a s', xs = done ++ rest → I done a s' →
      Ends c s' (rest.foldlM f a) (fun a' s'' => I xs a' s'') E from h [] xs a s rfl h0
  intro done rest
  induction rest generalizing done with
  | nil =>
    intro a s' he hi
    rw [List.append_nil] at he
    subst he
    exact pure hi
  | cons y rest ih =>
    intro a s' he hi
    rw [List.foldlM_cons]
    refine bind (hf done y rest a s' he hi) fun a' s'' hi' => ?_
    exact ih (done ++ [y]) a' s'' (by rw [he, List.append_assoc]; rfl) hi'

/-- A step for each item of a list gives a known answer for each and keeps an invariant that may
speak of the items done. -/
theorem mapM {γ : Type} {f : γ → Sync α} {xs : List γ} {g : γ → α} {I : List γ → Store → Prop}
    (h0 : I [] s)
    (hf : ∀ done y rest s', xs = done ++ y :: rest → I done s' →
      Ends c s' (f y) (fun a s'' => a = g y ∧ I (done ++ [y]) s'') E) :
    Ends c s (xs.mapM f) (fun as s' => as = xs.map g ∧ I xs s') E := by
  suffices h : ∀ done rest s', xs = done ++ rest → I done s' →
      Ends c s' (rest.mapM f) (fun as s'' => as = rest.map g ∧ I xs s'') E from h [] xs s rfl h0
  intro done rest
  induction rest generalizing done with
  | nil =>
    intro s' he hi
    rw [List.append_nil] at he
    subst he
    exact pure ⟨rfl, hi⟩
  | cons y rest ih =>
    intro s' he hi
    rw [List.mapM_cons]
    refine bind (hf done y rest s' he hi) ?_
    rintro _ s₁ ⟨rfl, h₁⟩
    refine bind (ih (done ++ [y]) s₁ (by rw [he, List.append_assoc]; rfl) h₁) ?_
    rintro _ s₂ ⟨rfl, h₂⟩
    exact pure ⟨rfl, h₂⟩

/-- A step that cannot fail gives an answer in every world. -/
theorem run (h : Ends c s x Q fun _ _ => False) {w : World} (hc : w.scene = c) (hs : w.store = s) :
    ∃ a w', x w = (.ok a, w') ∧ w'.scene = c ∧ Q a w'.store := by
  have he := h.holds w hc hs
  rcases hw : x w with ⟨f | a, w'⟩
  · rw [hw] at he
    exact he.2.elim
  · rw [hw] at he
    exact ⟨a, w', rfl, he⟩

/-- What an answer in a world tells. -/
theorem of_ok (h : Ends c s x Q E) {w w' : World} {a : α} (hc : w.scene = c) (hs : w.store = s)
    (hw : x w = (.ok a, w')) : Q a w'.store := by
  have := h.holds w hc hs
  rw [hw] at this
  exact this.2

/-! ## Elementary steps -/

/-- A change of the world that leaves the scene alone. -/
theorem modify {f : World → World} {s' : Store} {Q : Unit → Store → Prop}
    (hc : ∀ w, (f w).scene = w.scene) (hs : ∀ w, w.store = s → (f w).store = s') (h : Q () s') :
    Ends c s (modify f) Q E :=
  of_apply (o := .ok ()) (fun w hcw hsw => ⟨f w, rfl, (hc w).trans hcw, hs w hsw⟩) (fun _ _ => h)
    fun _ he => nomatch he

theorem log {ch : Channel} {level : Level} {text : String} {Q : Unit → Store → Prop} (h : Q () s) :
    Ends c s (log ch level text) Q E :=
  modify (fun _ => rfl) (fun _ => id) h

theorem audit {text : String} {Q : Unit → Store → Prop} (h : Q () s) :
    Ends c s (audit text) Q E :=
  modify (fun _ => rfl) (fun _ => id) h

theorem call {k : Call} {Q : Unit → Store → Prop} (h : Q () s) : Ends c s (call k) Q E :=
  modify (fun _ => rfl) (fun _ => id) h

theorem reply {r : Reply α} (hq : ∀ a, r.outcome = .ok a → Q a s)
    (he : ∀ f, r.outcome = .error f → E f s) : Ends c s (reply r) Q E :=
  of_apply (fun w hc hs => ⟨w.note r.journal, rfl, hc, hs⟩) hq he

theorem result {r : Except Failure α} (hq : ∀ a, r = .ok a → Q a s)
    (he : ∀ f, r = .error f → E f s) : Ends c s (result r) Q E :=
  of_apply (fun w hc hs => ⟨w, rfl, hc, hs⟩) hq he

theorem result_ok {r : Except Failure α} {a : α} (hr : r = .ok a) (h : Q a s) :
    Ends c s (Sync.result r) Q E := by
  subst hr
  exact result (fun _ he => Except.ok.inj he ▸ h) fun _ he => nomatch he

/-- The record of a subject of the store. -/
theorem record {k : Key} {r : Record} {Q : Record → Store → Prop} (hr : s.find? k = some r)
    (h : Q r s) : Ends c s (record (.stored k)) Q E := by
  refine of_apply (o := .ok r) ?_ (fun _ he => Except.ok.inj he ▸ h) fun _ he => nomatch he
  rintro w hc rfl
  have hw : w.record? (.stored k) = some r := hr
  exact ⟨w, by simp only [Sync.record, bind_apply, get_apply, hw]; rfl, hc, rfl⟩

theorem update {k : Key} {f : Record → Record} {Q : Unit → Store → Prop} (h : Q () (s.modify k f)) :
    Ends c s (update (.stored k) f) Q E :=
  modify (fun _ => rfl) (fun _ hs => congrArg (Store.modify · k f) hs) h

theorem lookUp {id : Value} {k : Key} {Q : Option (Subject × Record) → Store → Prop}
    (hk : id.toKey = .ok k) (h : Q ((s.find? k).map fun r => (.stored k, r)) s) :
    Ends c s (lookUp id) Q E := by
  refine of_apply (o := .ok ((s.find? k).map fun r => (.stored k, r))) ?_
    (fun _ he => Except.ok.inj he ▸ h) fun _ he => nomatch he
  rintro w hc rfl
  exact ⟨w, by simp only [Sync.lookUp, hk, Sync.result, bind_apply, get_apply]; rfl, hc, rfl⟩

/-- An operation of the store changes the store, or fails and leaves it. -/
theorem onStore {f : Store → Except Failure (α × Store)}
    (hq : ∀ a s', f s = .ok (a, s') → Q a s') (he : ∀ e, f s = .error e → E e s) :
    Ends c s (onStore f) Q E := by
  cases hf : f s with
  | ok p =>
    obtain ⟨a, s'⟩ := p
    refine of_apply (o := .ok a) (t := s') ?_ (fun _ h => Except.ok.inj h ▸ hq a s' hf)
      fun _ h => nomatch h
    rintro w hc rfl
    exact ⟨{ w with store := s' }, by simp only [Sync.onStore, hf], hc, rfl⟩
  | error e =>
    refine of_apply (o := .error e) (t := s) ?_ (fun _ h => nomatch h)
      fun _ h => Except.error.inj h ▸ he e hf
    rintro w hc rfl
    exact ⟨w, by simp only [Sync.onStore, hf], hc, rfl⟩

theorem onStore_ok {f : Store → Except Failure (α × Store)} {a : α} {s' : Store}
    (hf : f s = .ok (a, s')) (h : Q a s') : Ends c s (Sync.onStore f) Q E := by
  refine onStore (fun b s'' he => ?_) fun f he => nomatch hf.symm.trans he
  obtain ⟨rfl, rfl⟩ := Prod.mk.inj (Except.ok.inj (hf.symm.trans he))
  exact h

/-- A turn is taken, which is one that a failure is planned for only where there are such. -/
theorem takeTurn :
    Ends c s takeTurn (fun struck s' => s' = s ∧ (struck = true → c.Strikes)) E where
  holds := by
    rintro w rfl rfl
    exact ⟨rfl, rfl, fun h => ⟨w.turn, h⟩⟩
  same := by
    intro hu w v hc hs hc' hs'
    have hnone (w : World) (hc : w.scene = c) : w.faults.turns w.turn = false := by
      subst hc
      exact Bool.eq_false_iff.2 fun h => hu.2 ⟨w.turn, h⟩
    rw [takeTurn_apply, takeTurn_apply, hnone w hc, hnone v hc']
    exact ⟨rfl, hs.trans hs'.symm⟩

/-- A planned failure strikes before anything is done. -/
theorem allow {op : StoreOperation} {id : Value} {Q : Unit → Store → Prop}
    (hq : c.plans op id = false → Q () s) (he : c.MayRefuse op id → E (.refused op id) s) :
    Ends c s (allow op id) Q E := by
  unfold Sync.allow
  refine bind takeTurn ?_
  rintro struck s ⟨rfl, hstruck⟩
  refine get (fun _ w w' hc _ hc' _ => ?_) fun w hc hs => ?_
  · have hf : w.faults = w'.faults := congrArg Scene.faults (hc.trans hc'.symm)
    simp only [hf]
  have hp : (w.faults.store.any fun p => decide (p.1 = op) && p.2.contains id) = c.plans op id := by
    rw [← hc]
    rfl
  simp only [hp]
  cases h : struck || c.plans op id with
  | true => exact throw (he ((Bool.or_eq_true_iff.1 h).symm.imp_right hstruck))
  | false => exact pure (hq (Bool.or_eq_false_iff.1 h).2)

theorem allowById {op : StoreOperation} {t : String} {Q : Unit → Store → Prop}
    (hq : c.plans op (.text t) = false → Q () s)
    (he : c.MayRefuse op (.text t) → E (.refused op (.text t)) s) :
    Ends c s (allowById op (.text t)) Q E :=
  allow hq he

theorem shown {r : Option Ref} {Q : String → Store → Prop} (hr : ∀ q, r = some q → q.Typed)
    (h : ∀ t, Q t s) : Ends c s (shown r) Q E := by
  unfold Sync.shown
  cases r with
  | none => exact pure (h _)
  | some q =>
    obtain ⟨t, ht⟩ := (hr q rfl).shown?
    simp only [ht]
    exact pure (h t)

end Ends

end Sync

end Roster
