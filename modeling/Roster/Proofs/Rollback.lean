import Roster.Proofs.Logic
import Roster.Proofs.Snapshot

/-!
# Transactions

A transaction writes a snapshot before its block runs and reads it back if the block fails. Since a
sound store with stable references is read back as itself, a failed block leaves no trace in the
store (`transaction_error`), whatever it did to it.

* `Edit`: what a block can do to a store, one operation or one change of a record at a time.
* `snapshot_and_rollback`: which stores are read back exactly, and what follows for a block of edits
  that fails.
-/

namespace Roster

/-- A sound store with stable references is read back as itself. -/
theorem Store.Sound.reread_eq {s : Store} (h : s.Sound Ref.Stable) : s.reread = s :=
  (Store.reread_eq_iff h.typed).2 h.refs

namespace Sync

variable {α : Type} {w w' : World} {s : Store} {document : Value} {f : Failure}

/-! ## Going back -/

theorem log_run (ch : Channel) (level : Level) (text : String) (w : World) :
    log ch level text w = (.ok (), w.note ⟨[⟨level, ch.source, ch.message text⟩], []⟩) := rfl

/-- A lookup of an id finds what stands under its key. -/
theorem lookUp_run {id : Value} {k : Key} (hid : id.toKey = .ok k) (w : World) :
    lookUp id w = (.ok ((w.store.find? k).map fun r => (.stored k, r)), w) := by
  simp only [lookUp, hid, result, bind_apply, get_apply]
  rfl

/-- Logging the records of a store only adds to what was written down. -/
theorem logCreated_run (s : Store) (w : World) :
    ∃ notes, logCreated s w = (.ok (), { w with notes := notes }) := by
  unfold logCreated
  generalize s.all = rs
  induction rs generalizing w with
  | nil => exact ⟨w.notes, rfl⟩
  | cons r rs ih =>
    obtain ⟨notes, h⟩ := ih (w.note ⟨[⟨.debug, storeChannel.source,
      storeChannel.message (createdText r)⟩], []⟩)
    refine ⟨notes, ?_⟩
    show (log storeChannel .debug (createdText r) >>= fun _ => rs.forM _) w = _
    rw [bind_apply_ok (log_run storeChannel .debug (createdText r) w), h]
    rfl

theorem build_run (h : Store.read document = .ok s) (w : World) :
    ∃ notes, build document w = (.ok s, { w with notes := notes }) := by
  obtain ⟨notes, hl⟩ := logCreated_run s w
  refine ⟨notes, ?_⟩
  simp only [build, h]
  rw [bind_apply_ok hl, pure_apply]

theorem rollBack_run (h : Store.read document = .ok s) (w : World) :
    ∃ notes, rollBack w.generation document w = (.ok (), { w with store := s, notes := notes }) := by
  obtain ⟨notes, hb⟩ := build_run h w
  have hm : (modify fun v : World =>
      if v.generation = w.generation then { v with store := s } else v : Sync Unit)
        { w with notes := notes } = (.ok (), { w with store := s, notes := notes }) := by
    rw [modify_apply, if_pos rfl]
  unfold rollBack
  rw [bind_apply_ok hb, bind_apply_ok hm]
  exact ⟨_, log_run ..⟩

theorem transaction_ok {x : Sync α} {a : α} (hd : w.store.snapshot = .ok document)
    (hx : x w = (.ok a, w')) : transaction x w = (.ok a, w') := by
  have hr : result (.ok document) w = (.ok document, w) := rfl
  unfold transaction
  rw [bind_apply_ok (get_apply w), hd, bind_apply_ok hr, tryCatch_apply, hx]

/-- A transaction that gives an answer gives that of its block. -/
theorem transaction_eq_ok {x : Sync α} {a : α} (h : transaction x w = (.ok a, w')) :
    x w = (.ok a, w') := by
  unfold transaction at h
  rw [bind_apply_ok (get_apply w)] at h
  cases hd : w.store.snapshot with
  | error f =>
    rw [hd, bind_apply_error (show result (.error f) w = (.error f, w) from rfl)] at h
    cases h
  | ok document =>
    rw [hd, bind_apply_ok (show result (.ok document) w = (.ok document, w) from rfl),
      tryCatch_apply] at h
    rcases hx : x w with ⟨f | b, v⟩
    · rw [hx] at h
      dsimp only at h
      rw [bind_apply] at h
      rcases hb : rollBack w.generation document v with ⟨e | u, v'⟩
      · rw [hb] at h
        cases h
      · rw [hb] at h
        cases h
    · rw [hx] at h
      exact h

/-- A block that fails leaves the store as its snapshot is read, and its failure goes on. -/
theorem transaction_reread {x : Sync α} (h : w.store.WellFormed) (ht : w.store.Typed)
    (hx : x w = (.error f, w')) (hg : w'.generation = w.generation) :
    ∃ notes, transaction x w = (.error f, { w' with store := w.store.reread, notes := notes }) := by
  obtain ⟨document, hd, hread⟩ := Store.read_snapshot h ht
  obtain ⟨notes, hb⟩ := rollBack_run hread w'
  refine ⟨notes, ?_⟩
  have hr : result (.ok document) w = (.ok document, w) := rfl
  unfold transaction
  rw [bind_apply_ok (get_apply w), hd, bind_apply_ok hr, tryCatch_apply, hx]
  simp only [← hg]
  rw [bind_apply_ok hb, throw_apply]

/-- A block that fails leaves the store as it was before, and its failure goes on. -/
theorem transaction_error {x : Sync α} (hs : w.store.Sound Ref.Stable) (hx : x w = (.error f, w'))
    (hg : w'.generation = w.generation) :
    ∃ notes, transaction x w = (.error f, { w' with store := w.store, notes := notes }) := by
  have h := transaction_reread hs.wellFormed hs.typed hx hg
  rwa [hs.reread_eq] at h

end Sync

/-! ## Blocks of edits -/

namespace Sync

variable {α β : Type} {x : Sync α}

/-- The step works on the store that is there and never puts another one in its place. -/
def Steady (x : Sync α) : Prop := ∀ w, (x w).2.generation = w.generation

namespace Steady

theorem pure (a : α) : Steady (pure a) := fun _ => rfl

theorem throw (f : Failure) : Steady (throw f : Sync α) := fun _ => rfl

theorem result (r : Except Failure α) : Steady (result r) := fun _ => rfl

theorem bind {f : α → Sync β} (hx : Steady x) (hf : ∀ a, Steady (f a)) : Steady (x >>= f) := by
  intro w
  have h := hx w
  rw [bind_apply]
  split
  · next a w' hw =>
    rw [hw] at h
    exact (hf a w').trans h
  · next e w' hw =>
    rw [hw] at h
    exact h

theorem get {f : World → Sync β} (hf : ∀ w, Steady (f w)) : Steady (get >>= f) :=
  fun w => hf w w

theorem log (ch : Channel) (level : Level) (text : String) : Steady (log ch level text) :=
  fun _ => rfl

theorem record (x : Subject) : Steady (record x) := by
  refine get fun w => ?_
  split
  · exact pure _
  · exact throw _

theorem update (x : Subject) (f : Record → Record) : Steady (update x f) := by
  intro w
  cases x <;> rfl

theorem onStore (f : Store → Except Failure (α × Store)) : Steady (onStore f) := by
  intro w
  unfold Sync.onStore
  split <;> rfl

theorem takeTurn : Steady takeTurn :=
  fun _ => rfl

theorem allow (op : StoreOperation) (id : Value) : Steady (allow op id) := by
  refine bind takeTurn fun struck => get fun w => ?_
  dsimp only
  split
  · exact throw _
  · exact pure _

theorem allowById (op : StoreOperation) (id : Value) : Steady (allowById op id) := by
  unfold Sync.allowById
  split
  · exact allow op _
  · exact throw _

theorem forM {γ : Type} {f : γ → Sync Unit} (hf : ∀ a, Steady (f a)) (xs : List γ) :
    Steady (xs.forM f) := by
  induction xs with
  | nil => exact pure ()
  | cons a xs ih => exact bind (hf a) fun _ => ih

end Steady

end Sync

/-- One operation of the store, or one change of the fields of a record. -/
inductive Edit where
  | create (r : Record)
  | remove (id : Value)
  | addMember (g : Record) (id : Value)
  | removeMember (g : Record) (id : Value)
  | setNames (x : Subject) (names : NameSet)
  | convert (x : Subject) (names : NameSet)
  | change (x : Subject) (f : Record → Record)

namespace Edit

/-- Performs an edit. -/
def perform : Edit → Sync Unit
  | create r => discard (Sync.create r)
  | remove id => Sync.remove id
  | addMember g id => discard (Sync.addMember g id)
  | removeMember g id => discard (Sync.removeMember g id)
  | setNames x names => Sync.setNames x (.ok names)
  | convert x names => Sync.convert x (.ok names)
  | change x f => Sync.update x f

/-- A block that performs edits one after the other and then fails. -/
def block (edits : List Edit) (f : Failure) : Sync Unit := do
  edits.forM perform
  throw f

open Sync in
theorem steady_perform (e : Edit) : Steady e.perform := by
  have discarded {α : Type} {x : Sync α} (h : Steady x) : Steady (discard x) :=
    h.bind fun _ => .pure ()
  cases e with
  | create r =>
    refine discarded ?_
    exact (Steady.allowById _ _).bind fun _ => (Steady.onStore _).bind fun _ =>
      (Steady.log _ _ _).bind fun _ => (Steady.result _).bind fun _ => .pure _
  | remove id =>
    exact (Steady.allowById _ _).bind fun _ => (Steady.onStore _).bind fun _ => Steady.log _ _ _
  | addMember g id =>
    exact discarded ((Steady.allow _ _).bind fun _ => Steady.onStore _)
  | removeMember g id =>
    exact discarded ((Steady.allow _ _).bind fun _ => Steady.onStore _)
  | setNames x names =>
    refine (Steady.record x).bind fun r => (Steady.allow _ _).bind fun _ => ?_
    dsimp only
    split
    · exact (Steady.throw _).bind fun _ => (Steady.result _).bind fun _ => Steady.update _ _
    · exact (Steady.result _).bind fun _ => Steady.update _ _
  | convert x names =>
    refine (Steady.record x).bind fun r => (Steady.allow _ _).bind fun _ =>
      (Steady.result _).bind fun names => ?_
    dsimp only
    split
    · exact (Steady.throw _).bind fun _ => Steady.update _ _
    · exact Steady.update _ _
  | change x f => exact Steady.update x f

theorem steady_block (edits : List Edit) (f : Failure) : Sync.Steady (block edits f) :=
  (Sync.Steady.forM steady_perform edits).bind fun _ => .throw f

/-- A block of edits that ends in a failure does fail: with that failure, or where an edit fails. -/
theorem block_error (edits : List Edit) (f : Failure) (w : World) :
    ∃ e w', block edits f w = (.error e, w') := by
  unfold block
  rw [Sync.bind_apply]
  split
  · next w' _ => exact ⟨f, w', rfl⟩
  · next e w' _ => exact ⟨e, w', rfl⟩

end Edit

/-- A store is read back from its snapshot as it was exactly if its references are stable. If they
are, a block that fails in a transaction leaves the store as it was and its failure goes on, and so
does every sequence of edits that ends in a failure. -/
theorem snapshot_and_rollback {s : Store} (h : s.WellFormed) (ht : s.Typed) :
    ((∃ document, s.snapshot = .ok document ∧ Store.ofSnapshot document = .ok s) ↔
      ∀ r ∈ s.all, ∀ q, r.ref = some q → q.Stable) ∧
    ((∀ r ∈ s.all, ∀ q, r.ref = some q → q.Stable) → ∀ w : World, w.store = s →
      (∀ (α : Type) (x : Sync α) (f : Failure) (w' : World), x w = (.error f, w') →
        w'.generation = w.generation →
        ∃ w'', Sync.transaction x w = (.error f, w'') ∧ w''.store = s) ∧
      ∀ (edits : List Edit) (f : Failure), ∃ e w' w'', Edit.block edits f w = (.error e, w') ∧
        Sync.transaction (Edit.block edits f) w = (.error e, w'') ∧ w''.store = s) := by
  refine ⟨Store.ofSnapshot_snapshot_eq_iff h ht, fun hstable w hw => ?_⟩
  have hsound : w.store.Sound Ref.Stable := by
    subst hw
    exact ⟨h, ht, hstable⟩
  refine ⟨fun α x f w' hx hg => ?_, fun edits f => ?_⟩
  · obtain ⟨notes, hr⟩ := Sync.transaction_error hsound hx hg
    exact ⟨_, hr, hw⟩
  · obtain ⟨e, w', hx⟩ := Edit.block_error edits f w
    have hg : w'.generation = w.generation := by
      have := Edit.steady_block edits f w
      rwa [hx] at this
    obtain ⟨notes, hr⟩ := Sync.transaction_error hsound hx hg
    exact ⟨e, w', _, hx, hr, hw⟩

/-- A user and a group of a provider, the user being a member of the group. -/
def userInGroup : Store where
  records := [
    (.text "u", {
      id := .text "u", group := .bool false, principalName := .text "User"
      ref := some ⟨.text "u", .text "P"⟩ }),
    (.text "g", {
      id := .text "g", group := .bool true, principalName := .text "Group"
      ref := some ⟨.text "g", .text "P"⟩ })]
  members := [(.text "g", [.text "u"])]

theorem wellFormed_userInGroup : userInGroup.WellFormed := by decide

theorem sound_userInGroup : userInGroup.Sound Ref.Stable where
  wellFormed := wellFormed_userInGroup
  typed := by
    intro r hr
    simp only [Store.all, userInGroup, List.map_cons, List.map_nil, List.mem_cons,
      List.not_mem_nil, or_false] at hr
    rcases hr with rfl | rfl <;> constructor <;> simp [Value.IsText, Value.IsTime]
    all_goals exact ⟨⟨_, rfl⟩, .inr ⟨_, rfl⟩⟩
  refs := by
    simp [Store.all, userInGroup, Ref.Stable]

/-- Takes the group away and makes another user. -/
def groupForUser : List Edit :=
  [.remove (.text "g"),
    .create { id := .text "v", group := .bool false, principalName := .text "Other" }]

theorem rollback_userInGroup :
    userInGroup.WellFormed ∧ userInGroup.Typed ∧ ∃ e w' w'',
      Edit.block groupForUser .malformed { store := userInGroup } = (.error e, w') ∧
      Sync.transaction (Edit.block groupForUser .malformed) { store := userInGroup }
        = (.error e, w'') ∧ w''.store = userInGroup :=
  ⟨wellFormed_userInGroup, sound_userInGroup.typed,
    ((snapshot_and_rollback wellFormed_userInGroup sound_userInGroup.typed).2
      sound_userInGroup.refs _ rfl).2 _ _⟩

end Roster
