import Mathlib.Data.List.Forall2
import Roster.Proofs.Logic

/-!
# Two runs side by side

Two synchronisations are compared by running both, each in a world of its own.
`Abreast W P R x y`: from worlds related by `W` the steps `x` and `y` leave such worlds again, fail
in the same way or give answers related by `R`, and write the same calls down, each of which
satisfies `P`. Log lines are not compared. `InStep P R x y` is the case of worlds that differ in
nothing but what was written down.

There is one rule for each way to put steps together and one for each elementary step, as for a
single run. `foldlM_filter` and `forM_filter` let one run work on a list and the other on a sublist
of it, provided that a step for an item that was left out does nothing. What is about the store
alone runs in step with itself; these lemmas follow the rules, one for each function.
-/

namespace Roster

/-- The worlds differ in nothing but what was written down. -/
def World.UpToNotes (v w : World) : Prop := w = { v with notes := w.notes }

theorem World.UpToNotes.refl (w : World) : w.UpToNotes w := rfl

theorem World.UpToNotes.store {v w : World} (h : v.UpToNotes w) : w.store = v.store := by
  rw [h]

/-- The calls that were written down, in order. -/
def World.calls (w : World) : List Call := w.journal.calls

theorem World.calls_note (w : World) (j : Journal) : (w.note j).calls = w.calls ++ j.calls := by
  rw [calls, journal_note]
  rfl

namespace Sync

variable {α β γ δ : Type} {P : Call → Prop} {R : α → β → Prop} {S : γ → δ → Prop}

/-- Both outcomes are the same failure, or they are related answers. -/
inductive Corresponds (R : α → β → Prop) : Except Failure α → Except Failure β → Prop where
  | ok {a : α} {b : β} (h : R a b) : Corresponds R (.ok a) (.ok b)
  | error (f : Failure) : Corresponds R (.error f) (.error f)

theorem Corresponds.eq {a b : Except Failure α} (h : Corresponds Eq a b) : a = b := by
  cases h with
  | ok h => rw [h]
  | error => rfl

theorem Corresponds.of_eq {R : α → α → Prop} (hR : ∀ a, R a a) (o : Except Failure α) :
    Corresponds R o o := by
  cases o with
  | ok a => exact .ok (hR a)
  | error f => exact .error f

/-- The steps run side by side. -/
def Abreast (W : World → World → Prop) (P : Call → Prop) (R : α → β → Prop) (x : Sync α)
    (y : Sync β) : Prop :=
  ∀ v w : World, W v w → ∃ calls : List Call, (∀ k ∈ calls, P k) ∧
    (x v).2.calls = v.calls ++ calls ∧ (y w).2.calls = w.calls ++ calls ∧
    W (x v).2 (y w).2 ∧ Corresponds R (x v).1 (y w).1

/-- The steps run in step. -/
abbrev InStep (P : Call → Prop) (R : α → β → Prop) (x : Sync α) (y : Sync β) : Prop :=
  Abreast World.UpToNotes P R x y

/-- The worlds may differ in what was written down. The same failures are planned for them, and it is
the turn of the same call. -/
class Paired (W : World → World → Prop) : Prop where
  left : ∀ {v w : World}, W v w → ∀ j, W (v.note j) w
  right : ∀ {v w : World}, W v w → ∀ j, W v (w.note j)
  faults : ∀ {v w : World}, W v w → w.faults = v.faults
  turn : ∀ {v w : World}, W v w → w.turn = v.turn
  turned : ∀ {v w : World}, W v w → ∀ n, W { v with turn := n } { w with turn := n }

theorem Paired.note {W : World → World → Prop} [Paired W] {v w : World} (h : W v w)
    (j k : Journal) : W (v.note j) (w.note k) :=
  right (left h j) k

instance : Paired World.UpToNotes where
  left h _ := by rw [h]; rfl
  right h _ := by rw [h]; rfl
  faults h := by rw [h]
  turn h := by rw [h]
  turned h _ := by rw [h]; rfl

namespace Abreast

variable {W : World → World → Prop} {x : Sync α} {y : Sync β}

/-! ## Putting steps together -/

/-- Steps that write no call down. -/
theorem of_quiet (h : ∀ v w : World, W v w → (x v).2.calls = v.calls ∧
      (y w).2.calls = w.calls ∧ W (x v).2 (y w).2 ∧ Corresponds R (x v).1 (y w).1) :
    Abreast W P R x y := by
  intro v w hvw
  obtain ⟨hv, hw, h⟩ := h v w hvw
  exact ⟨[], by simp, by rw [hv, List.append_nil], by rw [hw, List.append_nil], h⟩

theorem pure {a : α} {b : β} (h : R a b) : Abreast W P R (pure a) (pure b) :=
  of_quiet fun _ _ hvw => ⟨rfl, rfl, hvw, .ok h⟩

theorem throw (f : Failure) : Abreast W P R (throw f : Sync α) (throw f : Sync β) :=
  of_quiet fun _ _ hvw => ⟨rfl, rfl, hvw, .error f⟩

theorem bind {f : α → Sync γ} {g : β → Sync δ} (hx : Abreast W P R x y)
    (hf : ∀ a b, R a b → Abreast W P S (f a) (g b)) : Abreast W P S (x >>= f) (y >>= g) := by
  intro v w hvw
  obtain ⟨cs, hcs, hv, hw, hvw', ho⟩ := hx v w hvw
  rw [bind_apply, bind_apply]
  rcases hxv : x v with ⟨o, v'⟩
  rcases hyw : y w with ⟨o', w'⟩
  rw [hxv] at hv hvw' ho
  rw [hyw] at hw hvw' ho
  cases ho with
  | error e => exact ⟨cs, hcs, hv, hw, hvw', .error e⟩
  | @ok a b hab =>
    obtain ⟨ds, hds, hv', hw', h⟩ := hf a b hab v' w' hvw'
    refine ⟨cs ++ ds, fun k hk => (List.mem_append.1 hk).elim (hcs k) (hds k), ?_, ?_, h⟩
    · rw [hv', hv, List.append_assoc]
    · rw [hw', hw, List.append_assoc]

/-- After steps with the same answer. -/
theorem next {x y : Sync α} {f : α → Sync γ} {g : α → Sync δ} (hx : Abreast W P Eq x y)
    (hf : ∀ a, Abreast W P S (f a) (g a)) : Abreast W P S (x >>= f) (y >>= g) :=
  hx.bind fun a _ h => h ▸ hf a

/-- The world is looked at. -/
theorem get {f : World → Sync γ} {g : World → Sync δ}
    (h : ∀ v w, W v w → Abreast W P S (f v) (g w)) :
    Abreast W P S (get >>= f) (get >>= g) :=
  fun v w hvw => h v w hvw v w hvw

theorem tryCatch {handle : Failure → Sync α} {handle' : Failure → Sync β} (hx : Abreast W P R x y)
    (hh : ∀ f, Abreast W P R (handle f) (handle' f)) :
    Abreast W P R (tryCatch x handle) (tryCatch y handle') := by
  intro v w hvw
  obtain ⟨cs, hcs, hv, hw, hvw', ho⟩ := hx v w hvw
  rw [tryCatch_apply, tryCatch_apply]
  rcases hxv : x v with ⟨o, v'⟩
  rcases hyw : y w with ⟨o', w'⟩
  rw [hxv] at hv hvw' ho
  rw [hyw] at hw hvw' ho
  cases ho with
  | ok hab => exact ⟨cs, hcs, hv, hw, hvw', .ok hab⟩
  | error e =>
    obtain ⟨ds, hds, hv', hw', h⟩ := hh e v' w' hvw'
    refine ⟨cs ++ ds, fun k hk => (List.mem_append.1 hk).elim (hcs k) (hds k), ?_, ?_, h⟩
    · rw [hv', hv, List.append_assoc]
    · rw [hw', hw, List.append_assoc]

theorem ite {b : Prop} [Decidable b] {x x' : Sync α} {y y' : Sync β} (ht : b → Abreast W P R x y)
    (he : ¬ b → Abreast W P R x' y') :
    Abreast W P R (if b then x else x') (if b then y else y') := by
  by_cases hb : b
  · rw [if_pos hb, if_pos hb]
    exact ht hb
  · rw [if_neg hb, if_neg hb]
    exact he hb

/-- Both steps stop in the same way, or both go on. -/
theorem stopIf {b : Prop} [Decidable b] {f : Failure} {k : PUnit → Sync α}
    {l : PUnit → Sync β} (h : Abreast W P R (k ⟨⟩) (l ⟨⟩)) :
    Abreast W P R (if b then MonadExcept.throw f >>= k else k ⟨⟩)
      (if b then MonadExcept.throw f >>= l else l ⟨⟩) :=
  ite (fun _ => (throw f : Abreast W P (fun _ _ => False) _ _).bind fun _ _ => False.elim)
    fun _ => h

/-- A fold over a list beside a fold over some of its items. -/
theorem foldlM_filter {f : α → γ → Sync α} {g : β → γ → Sync β} {keep : γ → Bool} {xs : List γ}
    {a : α} {b : β} (h : R a b)
    (hkeep : ∀ x ∈ xs, keep x = true → ∀ a b, R a b → Abreast W P R (f a x) (g b x))
    (hskip : ∀ x ∈ xs, keep x = false → ∀ a b, R a b → Abreast W P R (f a x) (Pure.pure b)) :
    Abreast W P R (xs.foldlM f a) ((xs.filter keep).foldlM g b) := by
  induction xs generalizing a b with
  | nil => exact pure h
  | cons x xs ih =>
    have hrest {a : α} {b : β} (h : R a b) := ih h
      (fun y hy => hkeep y (List.mem_cons_of_mem _ hy))
      fun y hy => hskip y (List.mem_cons_of_mem _ hy)
    cases hx : keep x with
    | true =>
      rw [List.filter_cons_of_pos hx, List.foldlM_cons, List.foldlM_cons]
      exact (hkeep x List.mem_cons_self hx a b h).bind fun _ _ => hrest
    | false =>
      rw [List.filter_cons_of_neg (by simp [hx]), List.foldlM_cons,
        ← pure_bind b fun b => (xs.filter keep).foldlM g b]
      exact (hskip x List.mem_cons_self hx a b h).bind fun _ _ => hrest

theorem foldlM {f : α → γ → Sync α} {g : β → γ → Sync β} {xs : List γ} {a : α} {b : β} (h : R a b)
    (hf : ∀ x ∈ xs, ∀ a b, R a b → Abreast W P R (f a x) (g b x)) :
    Abreast W P R (xs.foldlM f a) (xs.foldlM g b) := by
  have h : Abreast W P R (xs.foldlM f a) ((xs.filter fun _ => true).foldlM g b) :=
    foldlM_filter h (fun x hx _ => hf x hx) fun _ _ h => nomatch h
  rwa [List.filter_eq_self.2 fun _ _ => rfl] at h

/-- A step for each item of a list beside a step for some of its items. -/
theorem forM_filter {f g : γ → Sync Unit} {keep : γ → Bool} {xs : List γ}
    (hkeep : ∀ x ∈ xs, keep x = true → Abreast W P Eq (f x) (g x))
    (hskip : ∀ x ∈ xs, keep x = false → Abreast W P Eq (f x) (Pure.pure ())) :
    Abreast W P Eq (xs.forM f) ((xs.filter keep).forM g) := by
  induction xs with
  | nil => exact pure rfl
  | cons x xs ih =>
    have hrest := ih (fun y hy => hkeep y (List.mem_cons_of_mem _ hy))
      fun y hy => hskip y (List.mem_cons_of_mem _ hy)
    show Abreast W P Eq (f x >>= fun _ => xs.forM f) _
    cases hx : keep x with
    | true =>
      rw [List.filter_cons_of_pos hx]
      exact (hkeep x List.mem_cons_self hx).next fun _ => hrest
    | false =>
      rw [List.filter_cons_of_neg (by simp [hx]),
        ← pure_bind () fun _ => (xs.filter keep).forM g]
      exact (hskip x List.mem_cons_self hx).next fun _ => hrest

theorem forM {f g : γ → Sync Unit} {xs : List γ} (hf : ∀ x ∈ xs, Abreast W P Eq (f x) (g x)) :
    Abreast W P Eq (xs.forM f) (xs.forM g) := by
  have h : Abreast W P Eq (xs.forM f) ((xs.filter fun _ => true).forM g) :=
    forM_filter (fun x hx _ => hf x hx) fun _ _ h => nomatch h
  rwa [List.filter_eq_self.2 fun _ _ => rfl] at h

/-- Steps for the items of two lists that are related one by one. -/
theorem forM_forall₂ {T : γ → δ → Prop} {f : γ → Sync Unit} {g : δ → Sync Unit} {xs : List γ}
    {ys : List δ} (h : List.Forall₂ T xs ys) (hf : ∀ x y, T x y → Abreast W P Eq (f x) (g y)) :
    Abreast W P Eq (xs.forM f) (ys.forM g) := by
  induction h with
  | nil => exact pure rfl
  | cons hxy _ ih => exact (hf _ _ hxy).next fun _ => ih

/-! ## Elementary steps -/

theorem results {o : Except Failure α} {o' : Except Failure β} (h : Corresponds R o o') :
    Abreast W P R (result o) (result o') :=
  of_quiet fun _ _ hvw => ⟨rfl, rfl, hvw, h⟩

theorem result {o : Except Failure α} : Abreast W P Eq (result o) (result o) :=
  results (.of_eq (fun _ => rfl) o)

theorem modify {f g : World → World} (h : ∀ v w, W v w → W (f v) (g w))
    (hf : ∀ w, (f w).notes = w.notes) (hg : ∀ w, (g w).notes = w.notes) :
    Abreast W P Eq (modify f : Sync Unit) (modify g : Sync Unit) :=
  of_quiet fun v w hvw => ⟨by simp only [modify_apply, World.calls, World.journal, hf],
    by simp only [modify_apply, World.calls, World.journal, hg], h v w hvw, .ok rfl⟩

theorem onStore {f : Store → Except Failure (α × Store)} {g : Store → Except Failure (β × Store)}
    (h : ∀ v w, W v w → Corresponds (fun p q => R p.1 q.1 ∧
      W { v with store := p.2 } { w with store := q.2 }) (f v.store) (g w.store)) :
    Abreast W P R (onStore f) (onStore g) := by
  refine of_quiet fun v w hvw => ?_
  have hvw' := h v w hvw
  unfold Sync.onStore
  show _ ∧ _ ∧ _ ∧ _
  generalize f v.store = o at hvw'
  generalize g w.store = o' at hvw'
  cases hvw' with
  | ok h => exact ⟨rfl, rfl, h.2, .ok h.1⟩
  | error e => exact ⟨rfl, rfl, hvw, .error e⟩

theorem shown (r : Option Ref) : Abreast W P Eq (shown r) (shown r) := by
  unfold Sync.shown
  split
  · exact pure rfl
  · split
    · exact pure rfl
    · exact throw _

section

variable [Paired W]

theorem log {c c' : Channel} {level level' : Level} {text text' : String} :
    Abreast W P Eq (log c level text) (log c' level' text') :=
  of_quiet fun _ _ hvw =>
    ⟨by simp [Sync.log, World.calls_note], by simp [Sync.log, World.calls_note],
      Paired.note hvw _ _, .ok rfl⟩

/-- A log line that only one of the runs writes. -/
theorem log_pure {c : Channel} {level : Level} {text : String} :
    Abreast W P Eq (Sync.log c level text) (Pure.pure ()) :=
  of_quiet fun v w hvw =>
    ⟨by simp [Sync.log, World.calls_note], rfl, Paired.left hvw _, .ok rfl⟩

/-- A log line that only the other one writes. -/
theorem pure_log {c : Channel} {level : Level} {text : String} :
    Abreast W P Eq (Pure.pure ()) (Sync.log c level text) :=
  of_quiet fun v w hvw =>
    ⟨rfl, by simp [Sync.log, World.calls_note], Paired.right hvw _, .ok rfl⟩

theorem audit {text : String} : Abreast W P Eq (audit text) (audit text) :=
  of_quiet fun _ _ hvw => ⟨by simp [Sync.audit, World.calls_note],
    by simp [Sync.audit, World.calls_note], Paired.note hvw _ _, .ok rfl⟩

theorem call {k : Call} (h : P k) : Abreast W P Eq (call k) (call k) :=
  fun v w hvw =>
    ⟨[k], by simpa using h, v.calls_note _, w.calls_note _, Paired.note hvw _ _, .ok rfl⟩

/-- Replies that write the same calls down. -/
theorem reply {r : Reply α} {r' : Reply β} (hcalls : r'.journal.calls = r.journal.calls)
    (hP : ∀ k ∈ r.journal.calls, P k) (h : Corresponds R r.outcome r'.outcome) :
    Abreast W P R (reply r) (reply r') :=
  fun v w hvw => ⟨r.journal.calls, hP, v.calls_note _, hcalls ▸ w.calls_note _,
    Paired.note hvw _ _, h⟩

theorem takeTurn : Abreast W P Eq takeTurn takeTurn := by
  refine of_quiet fun v w hvw => ?_
  rw [takeTurn_apply, takeTurn_apply, Paired.turn hvw]
  exact ⟨rfl, rfl, Paired.turned hvw _, .ok (by rw [Paired.faults hvw])⟩

theorem allow (op : StoreOperation) (id : Value) : Abreast W P Eq (allow op id) (allow op id) := by
  unfold Sync.allow
  refine takeTurn.next fun struck => get fun v w hvw => ?_
  rw [Paired.faults hvw]
  exact ite (fun _ => throw _) fun _ => pure rfl

theorem allowById (op : StoreOperation) (id : Value) :
    Abreast W P Eq (allowById op id) (allowById op id) := by
  unfold Sync.allowById
  split
  · exact allow op _
  · exact throw _

end

end Abreast

namespace InStep

/-- The world is looked at, but not what was written down. -/
theorem get {f : World → Sync γ} {g : World → Sync δ}
    (h : ∀ v notes, InStep P S (f v) (g { v with notes })) :
    InStep P S (get >>= f) (get >>= g) :=
  Abreast.get fun v w hvw => hvw ▸ h v w.notes

theorem modify {f : World → World} (hf : ∀ w notes, f { w with notes } = { f w with notes })
    (hn : ∀ w, (f w).notes = w.notes) :
    InStep P Eq (modify f : Sync Unit) (modify f : Sync Unit) := by
  refine Abreast.modify (fun v w hvw => ?_) hn hn
  show f w = { f v with notes := (f w).notes }
  rw [hn w, ← hf, ← hvw]

theorem onStore {f : Store → Except Failure (α × Store)} :
    InStep P Eq (onStore f) (onStore f) := by
  refine Abreast.onStore fun v w hvw => ?_
  rw [hvw]
  exact .of_eq (fun _ => ⟨rfl, rfl⟩) _

/-! ## Records and the store -/

theorem record (x : Subject) : InStep P Eq (record x) (record x) := by
  unfold Sync.record
  refine get fun v notes => ?_
  have hr : ({ v with notes } : World).record? x = v.record? x := by cases x <;> rfl
  rw [hr]
  cases v.record? x with
  | none => exact .throw _
  | some r => exact .pure rfl

theorem update (x : Subject) (f : Record → Record) : InStep P Eq (update x f) (update x f) := by
  unfold Sync.update
  exact modify (fun _ _ => by cases x <;> rfl) fun _ => by cases x <;> rfl

theorem lookUp (id : Value) : InStep P Eq (lookUp id) (lookUp id) := by
  unfold Sync.lookUp
  exact Abreast.result.next fun k => InStep.get fun v notes => .pure rfl

theorem create (r : Record) : InStep P Eq (create r) (create r) := by
  unfold Sync.create
  exact (Abreast.allowById _ _).next fun _ => onStore.next fun _ => Abreast.log.next fun _ =>
    Abreast.result.next fun _ => .pure rfl

theorem remove (id : Value) : InStep P Eq (remove id) (remove id) := by
  unfold Sync.remove
  exact (Abreast.allowById _ _).next fun _ => onStore.next fun _ => .log

theorem addMember (g : Record) (id : Value) : InStep P Eq (addMember g id) (addMember g id) := by
  unfold Sync.addMember
  exact (Abreast.allow _ _).next fun _ => onStore

theorem removeMember (g : Record) (id : Value) :
    InStep P Eq (removeMember g id) (removeMember g id) := by
  unfold Sync.removeMember
  exact (Abreast.allow _ _).next fun _ => onStore

theorem setNames (x : Subject) (names : Except Failure NameSet) :
    InStep P Eq (setNames x names) (setNames x names) := by
  unfold Sync.setNames
  refine (record x).next fun r => (Abreast.allow _ _).next fun _ => ?_
  exact .stopIf (Abreast.result.next fun _ => update x _)

theorem convert (x : Subject) (names : Except Failure NameSet) :
    InStep P Eq (convert x names) (convert x names) := by
  unfold Sync.convert
  refine (record x).next fun r => (Abreast.allow _ _).next fun _ =>
    Abreast.result.next fun _ => ?_
  exact .stopIf (update x _)

end InStep

end Sync

open Sync (Abreast InStep)

namespace Context

variable {ctx : Context} {P : Call → Prop} {provider : Provider} {i : Identity}
  {groups : List (Option Ref)} {x : Subject} {r : Record} {log : Channel}

/-! ## What does not ask the provider -/

theorem requireKnown_inStep :
    InStep P Eq (requireKnown i) (requireKnown { i with groups }) := by
  unfold requireKnown
  exact .ite (fun _ => .throw _) fun _ => .pure rfl

theorem syncProperties_inStep (mapping : Value) :
    InStep P Eq (syncProperties i x mapping) (syncProperties { i with groups } x mapping) := by
  unfold syncProperties
  refine requireKnown_inStep.next fun _ => (InStep.update x _).next fun _ => ?_
  refine .ite (fun _ => Abreast.result.next fun _ => ?_) fun _ => (InStep.record x).next fun r => ?_
  · exact InStep.modify (fun _ _ => by cases x <;> rfl) fun _ => by cases x <;> rfl
  · dsimp only
    split
    · refine (InStep.modify (fun _ _ => by cases x <;> rfl) fun _ => by cases x <;> rfl).next
        fun _ => ?_
      split
      · exact .throw _
      · exact .pure rfl
    · exact .throw _

theorem joinGroup_inStep (id : Value) : InStep P Eq (joinGroup r log id) (joinGroup r log id) := by
  unfold joinGroup joinGroup.missing
  refine (InStep.lookUp id).next fun found => ?_
  split
  · next g =>
    exact .ite (fun _ => (InStep.addMember g r.id).next fun _ => .pure rfl) fun _ => .log
  · exact .log

theorem applyMembership_inStep (ids : Except Failure (List Value)) (log : Option Channel) :
    InStep P Eq (ctx.applyMembership x ids log)
      ({ ctx with provider }.applyMembership x ids log) := by
  unfold applyMembership
  refine (InStep.record x).next fun r => .ite (fun _ => .log) fun _ => ?_
  exact Abreast.result.next fun ids => .forM fun id _ => joinGroup_inStep id

theorem stamp_inStep : InStep P Eq (stamp x) (stamp x) := by
  unfold stamp
  exact InStep.get fun v notes => InStep.update x _

theorem syncGroup_inStep (log : Option Channel) :
    InStep P Eq (ctx.syncGroup i x log)
      ({ ctx with provider }.syncGroup { i with groups } x log) := by
  unfold syncGroup
  exact (syncProperties_inStep _).next fun _ => (applyMembership_inStep _ log).next fun _ =>
    stamp_inStep

theorem isExpired_inStep (expiration : Value) :
    InStep P Eq (isExpired r expiration) (isExpired r expiration) := by
  unfold isExpired
  split
  · exact .pure rfl
  · refine InStep.get fun v notes => Abreast.result.next fun age => ?_
    split
    · exact .throw _
    · exact .pure rfl

theorem localGroup_inStep :
    InStep P Eq (ctx.localGroup i log)
      ({ ctx with provider }.localGroup { i with groups } log) := by
  unfold localGroup
  refine (InStep.lookUp i.id).next fun found => ?_
  split
  · refine (InStep.create _).next fun x => (syncGroup_inStep _).next fun _ => ?_
    exact (InStep.record x).next fun g => .pure rfl
  · exact .ite (fun _ => .pure rfl) fun _ => Abreast.log.next fun _ => .pure rfl

theorem pruneGroup_inStep (declared : List Key) (g : Record) :
    InStep P Eq (ctx.pruneGroup log r declared g)
      ({ ctx with provider }.pruneGroup log r declared g) := by
  unfold pruneGroup
  refine Abreast.result.next fun key => .ite (fun _ => ?_) fun _ => .pure rfl
  exact (InStep.removeMember g r.id).next fun _ => .log

theorem placeholder_inStep (q : Ref) :
    InStep P Eq (ctx.placeholder log q i)
      ({ ctx with provider }.placeholder log q { i with groups }) := by
  unfold placeholder
  refine (InStep.lookUp i.id).next fun found => ?_
  split
  · refine (InStep.create _).next fun x => (Abreast.shown _).next fun words => ?_
    exact Abreast.audit.next fun _ => Abreast.log.next fun _ => .pure rfl
  · exact .ite (fun _ => .pure rfl) fun _ => Abreast.log.next fun _ => .pure rfl

theorem endMembership_inStep (g : Record) :
    InStep P Eq (endMembership r g) (endMembership r g) := by
  unfold endMembership
  exact (InStep.removeMember g r.id).next fun _ => .audit

theorem isOrphaned_inStep (g : Record) :
    InStep P Eq (ctx.isOrphaned g) ({ ctx with provider }.isOrphaned g) := by
  unfold isOrphaned
  refine .ite (fun _ => .pure rfl) fun _ => InStep.get fun v notes => ?_
  dsimp only
  split
  · exact .pure rfl
  · exact .throw _

theorem unwindGroup_inStep {goOn goOn' : Record → Unwound → Sync Unwound}
    (hgoOn : ∀ g found, InStep P Eq (goOn g found) (goOn' g found)) (found : Unwound)
    (g : Record) :
    InStep P Eq (ctx.unwindGroup log r goOn found g)
      ({ ctx with provider }.unwindGroup log r goOn' found g) := by
  unfold unwindGroup
  refine .ite (fun _ => ?_) fun _ => Abreast.result.next fun id => .ite (fun _ => ?_) fun _ => ?_
  · refine Abreast.result.next fun name => (endMembership_inStep g).next fun _ => ?_
    refine (hgoOn g _).next fun found => (isOrphaned_inStep g).next fun orphaned => ?_
    exact .ite (fun _ => Abreast.result.next fun key => .pure rfl) fun _ => .pure rfl
  · exact (endMembership_inStep g).next fun _ => hgoOn g found
  · exact Abreast.log.next fun _ => .pure rfl

theorem unwindFrom_inStep (bound : Nat) (found : Unwound) :
    InStep P Eq (ctx.unwindFrom log bound r found)
      ({ ctx with provider }.unwindFrom log bound r found) := by
  induction bound generalizing r found with
  | zero => exact .pure rfl
  | succ bound ih =>
    refine InStep.get fun v notes => Abreast.result.next fun groups => ?_
    exact .foldlM rfl fun g _ found _ h => h ▸ unwindGroup_inStep (fun g found => ih found) found g

theorem deleteOrphan_inStep (g : Record) :
    InStep P Eq (deleteOrphan log g) (deleteOrphan log g) := by
  unfold deleteOrphan
  refine .tryCatch ?_ fun f => .ite (fun _ => Abreast.audit.next fun _ => .log) fun _ => .throw f
  exact (InStep.remove g.id).next fun _ => Abreast.audit.next fun _ => .log

theorem unwind_inStep (log : Option Channel) :
    InStep P Eq (ctx.unwind r log) ({ ctx with provider }.unwind r log) := by
  unfold unwind
  refine InStep.get fun v notes => (unwindFrom_inStep _ _).next fun found => ?_
  exact (Abreast.forM fun g _ => deleteOrphan_inStep g).next fun _ => .pure rfl

theorem keepNames_inStep (names : NameSet) :
    InStep P Eq (keepNames x r names) (keepNames x r names) := by
  unfold keepNames
  exact .ite (fun _ => InStep.convert x _) fun _ => InStep.setNames x _

theorem resultOf_inStep (status : Status) :
    InStep P Eq (resultOf x status) (resultOf x status) := by
  unfold resultOf
  exact (InStep.record x).next fun r => .pure rfl

theorem channelFor_inStep (source : String) (id : Value) :
    InStep P Eq (channelFor source id) (channelFor source id) := by
  unfold channelFor
  exact InStep.get fun v notes => .pure rfl

theorem guarded_inStep {α : Type} {y z : Sync α} (subject : String) (h : InStep P Eq y z) :
    InStep P Eq (guarded subject y) (guarded subject z) := by
  unfold guarded
  exact h.tryCatch fun f => .throw _

end Context

end Roster
