import Roster.Job
import Roster.Proofs.Rollback

/-!
# Reasoning about jobs

A job runs its steps one after the other and keeps their failures as values. `execute_bind` and
`execute_forM` put actions of a job together.
-/

namespace Roster

namespace Job

variable {α β γ : Type}

theorem execute_bind (x : Job α) (f : α → Job β) (st : State) :
    execute (x >>= f) st = match execute x st with
      | (.ok a, st') => execute (f a) st'
      | (.error e, st') => (.error e, st') := by
  show (ExceptT.bindCont (m := StateM State) f (x st).1) (x st).2 = _
  rcases hx : x st with ⟨e | a, st'⟩
  all_goals
    have he : execute x st = (_, st') := hx
    rw [he]
    rfl

theorem execute_bind_ok {x : Job α} {f : α → Job β} {st st' : State} {a : α}
    (h : execute x st = (.ok a, st')) : execute (x >>= f) st = execute (f a) st' := by
  rw [execute_bind, h]

theorem execute_get (f : State → Job β) (st : State) :
    execute (get >>= f) st = execute (f st) st := rfl

theorem execute_attempt (x : Sync α) (st : State) :
    execute (attempt x) st = (.ok (x st.world).1, { st with world := (x st.world).2 }) := rfl

theorem execute_tally (f : Tally → Tally) (st : State) :
    execute (tally f) st = (.ok (), { st with tally := f st.tally }) := rfl

theorem execute_log (level : Level) (text : String) (st : State) :
    execute (log level text) st = (.ok (), { st with
      world := st.world.note ⟨[⟨level, channel.source, channel.message text⟩], []⟩ }) := rfl

theorem execute_bind_eq_ok {x : Job α} {f : α → Job β} {st st' : State} {b : β} :
    execute (x >>= f) st = (.ok b, st') ↔
      ∃ a st₁, execute x st = (.ok a, st₁) ∧ execute (f a) st₁ = (.ok b, st') := by
  rw [execute_bind]
  rcases execute x st with ⟨e | a, st₁⟩
  · simp
  · constructor
    · exact fun h => ⟨a, st₁, rfl, h⟩
    · rintro ⟨_, _, h, hf⟩
      cases h
      exact hf

theorem execute_sync_ok {x : Sync α} {st : State} {a : α} {w : World}
    (h : x st.world = (.ok a, w)) : execute (sync x) st = (.ok a, { st with world := w }) := by
  unfold sync
  rw [execute_bind_ok (execute_attempt ..), h]
  rfl

/-- An action for each item of a list keeps an invariant that may speak of the items done. -/
theorem execute_forM {f : γ → Job Unit} {xs : List γ} {st : State} {I : List γ → State → Prop}
    (h0 : I [] st)
    (hf : ∀ done y rest st, xs = done ++ y :: rest → I done st →
      ∃ st', execute (f y) st = (.ok (), st') ∧ I (done ++ [y]) st') :
    ∃ st', execute (xs.forM f) st = (.ok (), st') ∧ I xs st' := by
  suffices h : ∀ done rest st, xs = done ++ rest → I done st →
      ∃ st', execute (rest.forM f) st = (.ok (), st') ∧ I xs st' from h [] xs st rfl h0
  intro done rest
  induction rest generalizing done with
  | nil =>
    intro st he hi
    rw [List.append_nil] at he
    subst he
    exact ⟨st, rfl, hi⟩
  | cons y rest ih =>
    intro st he hi
    obtain ⟨st', hy, hi'⟩ := hf done y rest st he hi
    obtain ⟨st'', hr, hi''⟩ := ih (done ++ [y]) st' (by rw [he, List.append_assoc]; rfl) hi'
    refine ⟨st'', ?_, hi''⟩
    show execute (f y >>= fun _ => rest.forM f) st = _
    rw [execute_bind_ok hy, hr]

end Job

end Roster
