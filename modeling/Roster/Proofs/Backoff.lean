import Mathlib.Algebra.Group.Int.Defs
import Roster.Proofs.Retrying

/-!
# Waits that grow

Over exact numbers every product exists, so a policy is kept to the letter: the operation is
attempted until an attempt does not fail in a way that is retried, at most as often as the policy
allows, and the wait before each retry is the one before it times the factor. A wait of zero is a
wait like any other. It is not asked here whether a wait can be slept: waits are skipped.

* `RetryPolicy.Tries.ending_of_yields`: where all products exist, the last attempt decides or the
  retries are used up.
* `RetryPolicy.call_decided`: the attempts, the waits and the result, for exact numbers of any kind
  and for the integers of a document.
-/

namespace Roster

/-- The products of a factor exist without end; these are the waits from the first on. -/
structure Pace.Yields {α : Type} (pace : Pace α) (backoff : α) (wait : Nat → α) : Prop where
  times : ∀ i, pace.times (wait i) backoff = .ok (wait (i + 1))
  present : ∀ i, pace.isAbsent (wait i) = false

namespace RetryPolicy

variable {α β : Type} {pace : Pace α} {backoff : α} {retried : Failure → Bool}
  {result : Nat → Except Failure β} {left k n : Nat} {next : Except Failure α} {waits : List α}
  {r : Except Failure β} {wait : Nat → α}

/-! ## Where all products exist -/

theorem waitAfter_of_yields (hw : pace.Yields backoff wait) (n i : Nat) :
    waitAfter pace backoff n (.ok (wait i)) = .ok (wait (i + n)) := by
  induction n generalizing i with
  | zero => rfl
  | succ n ih => rw [waitAfter_succ, hw.times, ih, Nat.add_right_comm, Nat.add_assoc]

/-- The attempt of a number fails in a way that is retried. -/
def Missed (retried : Failure → Bool) (result : Nat → Except Failure β) (k : Nat) : Prop :=
  ∃ f, result k = .error f ∧ retried f = true

namespace Tries

theorem waits_eq (h : Tries pace backoff retried result left (.ok (wait 0)) k waits r)
    (hw : pace.Yields backoff wait) : waits = (List.range waits.length).map wait := by
  refine List.ext_getElem (by simp) fun i hi _ => ?_
  have hpaced := (h.paced (List.getElem?_eq_getElem hi)).1
  rw [waitAfter_of_yields hw, Nat.zero_add] at hpaced
  simpa using (Except.ok.inj hpaced).symm

/-- The last attempt decides unless it is missed; then it is the last one allowed. -/
theorem ending_of_yields (h : Tries pace backoff retried result left (.ok (wait 0)) k waits r)
    (hw : pace.Yields backoff wait) :
    (¬ Missed retried result (k + waits.length) ∧ r = result (k + waits.length)) ∨
    waits.length = left ∧
      ∃ f, result (k + left) = .error f ∧ retried f = true ∧
        r = .error (.retriesExhausted (k + left) f) := by
  rcases h.ending with ⟨b, hb, rfl⟩ | ⟨f, hf, ⟨hretried, rfl⟩ | ⟨hretried, hend⟩⟩
  · refine .inl ⟨?_, hb.symm⟩
    rintro ⟨f, hf, -⟩
    cases hb.symm.trans hf
  · refine .inl ⟨?_, hf.symm⟩
    rintro ⟨f', hf', hretried'⟩
    obtain rfl := Except.error.inj (hf.symm.trans hf')
    rw [hretried] at hretried'
    cases hretried'
  · rw [waitAfter_of_yields hw, Nat.zero_add] at hend
    rcases hend with ⟨e, he, -⟩ | ⟨v, hv, hlast, rfl⟩
    · cases he
    · obtain rfl := Except.ok.inj hv
      rw [hw.present, or_iff_left Bool.false_ne_true] at hlast
      exact .inr ⟨hlast, f, hlast ▸ hf, hretried, by rw [hlast]⟩

end Tries

/-- What a policy of `n` attempts makes of the results of an operation. A run is told by the number
of its attempts and by its result. -/
structure Decided (n : Nat) (retried : Failure → Bool) (result : Nat → Except Failure β)
    (Runs : Nat → Except Failure β → Prop) : Prop where
  /-- The first attempt that is not missed is the last one, and its result is that of the run. -/
  first : ∀ k, 1 ≤ k → k ≤ n → (∀ j, 1 ≤ j → j < k → Missed retried result j) →
    ¬ Missed retried result k → Runs k (result k)
  /-- If all attempts are missed, the run fails on account of the last one. -/
  exhausted : (∀ k, 1 ≤ k → k ≤ n → Missed retried result k) →
    ∃ f, result n = .error f ∧ (Failure.retriesExhausted n f).cause? = some f.kind ∧
      Runs n (.error (.retriesExhausted n f))

/-- Where all products exist a policy decides every run. -/
theorem decided_of_yields {Runs : Nat → Except Failure β → Prop} (hw : pace.Yields backoff wait)
    (hruns : ∀ waits r, Tries pace backoff retried result left (.ok (wait 0)) 1 waits r →
      Runs (waits.length + 1) r) :
    Decided (left + 1) retried result Runs := by
  obtain ⟨waits, r, h⟩ := exists_tries pace backoff retried result left (.ok (wait 0)) 1
  have hle := h.length_le
  have hend := h.ending_of_yields hw
  rw [Nat.add_comm 1 waits.length, Nat.add_comm 1 left] at hend
  have hmissed {i : Nat} (hi : i < waits.length) : Missed retried result (i + 1) := by
    rw [Nat.add_comm]
    exact h.failed hi
  refine ⟨fun k hk hkn hbefore hnot => ?_, fun hall => ?_⟩
  · -- a run that is longer or shorter would contradict what is known of attempt `k` or before it
    have hlen : waits.length + 1 = k := by
      rcases Nat.lt_trichotomy (waits.length + 1) k with hlt | heq | hgt
      · rcases hend with ⟨hlast, -⟩ | ⟨hleft, -⟩
        · exact absurd (hbefore _ (Nat.le_add_left 1 _) hlt) hlast
        · omega
      · exact heq
      · have := hmissed (i := k - 1) (by omega)
        rw [Nat.sub_add_cancel hk] at this
        exact absurd this hnot
    rcases hend with ⟨-, hr⟩ | ⟨hleft, f, hf, hretried, -⟩
    · rw [← hlen, ← hr]
      exact hruns waits r h
    · rw [← hlen, hleft] at hnot
      exact absurd ⟨f, hf, hretried⟩ hnot
  · rcases hend with ⟨hlast, -⟩ | ⟨hleft, f, hf, -, hr⟩
    · exact absurd (hall _ (Nat.le_add_left 1 _) (by omega)) hlast
    · refine ⟨f, hf, rfl, ?_⟩
      rw [← hr, ← hleft]
      exact hruns waits r h

/-! ## What happens in a run -/

/-- What happens while an operation is tried. -/
inductive Move (α : Type) where
  | attempt (k : Nat)
  | pause (wait : α)

/-- An operation with the given results that takes down what happens. -/
def observed (retried : Failure → Bool) (result : Nat → Except Failure β) :
    Operation (StateM (List (Move α))) α β where
  attempt k := do
    modify (· ++ [.attempt k])
    return result k
  retried := retried
  pause _ wait _ := modify (· ++ [.pause wait])
  settled _ := pure ()

theorem attempt_run (k : Nat) (moves : List (Move α)) :
    ((observed retried result).attempt k).run moves = (result k, moves ++ [.attempt k]) := rfl

theorem pause_run (k : Nat) (wait : α) (f : Failure) (moves : List (Move α)) :
    ((observed retried result).pause k wait f).run moves = ((), moves ++ [.pause wait]) := rfl

/-- The attempts from a number on, with the given waits between them. -/
def course : List α → Nat → List (Move α)
  | [], k => [.attempt k]
  | wait :: waits, k => .attempt k :: .pause wait :: course waits (k + 1)

/-- After an attempt that is missed the run goes on if it has a wait and a retry left. -/
theorem callFrom_missed {f : Failure} (h : result k = .error f) (hf : retried f = true)
    (moves : List (Move α)) :
    (callFrom pace backoff (observed retried result) left next k).run moves
      = StateT.run (match next, left with
          | .error e, _ => pure (.error e)
          | .ok _, 0 => pure (.error (.retriesExhausted k f))
          | .ok wait, left + 1 =>
            if pace.isAbsent wait then pure (.error (.retriesExhausted k f))
            else do
              (observed retried result).pause k wait f
              callFrom pace backoff (observed retried result) left (pace.times wait backoff) (k + 1)
          : StateM (List (Move α)) (Except Failure β)) (moves ++ [.attempt k]) := by
  conv_lhs => unfold callFrom
  rw [StateT.run_bind, attempt_run, h]
  change StateT.run (ite (retried f = true) _ _) _ = _
  exact congrArg (StateT.run · _) (if_pos hf)

/-- A run takes its course. -/
theorem callFrom_observed (h : Tries pace backoff retried result left next k waits r)
    (moves : List (Move α)) :
    (callFrom pace backoff (observed retried result) left next k).run moves
      = (r, moves ++ course waits k) := by
  induction h generalizing moves with
  | settled h =>
    unfold callFrom
    rw [StateT.run_bind, attempt_run, h]
    rfl
  | escaped h hf =>
    unfold callFrom
    rw [StateT.run_bind, attempt_run, h]
    change StateT.run (ite (retried _ = true) _ _) _ = _
    rw [if_neg (by simp [hf])]
    rfl
  | unpaced h hf => exact callFrom_missed h hf moves
  | exhausted h hf => exact callFrom_missed h hf moves
  | absent h hf hw =>
    rw [callFrom_missed h hf]
    dsimp only
    rw [if_pos hw]
    rfl
  | again h hf hw hrest ih =>
    rw [callFrom_missed h hf]
    dsimp only
    rw [if_neg (by simp [hw]), StateT.run_bind, pause_run]
    refine (ih _).trans ?_
    simp [course]

/-! ## Exact numbers -/

section Exact

variable [Monoid α]

/-- The waits before the attempts up to a number, over exact numbers. -/
def exactWaits (wait backoff : α) (k : Nat) : List α :=
  (List.range (k - 1)).map fun i => wait * backoff ^ i

theorem yields_exact (wait backoff : α) :
    Pace.exact.Yields backoff fun i => wait * backoff ^ i where
  times i := by
    show Except.ok (wait * backoff ^ i * backoff) = _
    rw [pow_succ, mul_assoc]
  present _ := rfl

end Exact

/-- The integers of a document are exact numbers. -/
theorem yields_int (wait backoff : Int) :
    RetryPolicy.pace.Yields (.int backoff) fun i => .int (wait * backoff ^ i) where
  times i := by
    refine (times_eq_ok (Number.int_mul_int _ _)).trans ?_
    rw [pow_succ, mul_assoc]
    rfl
  present _ := rfl

/-- Asks for the given results, one after the other. -/
def asking (result : Nat → Except Failure β) (k : Nat) : Reply β := do
  Reply.call .operation
  Reply.ofResult (result k)

theorem outcome_asking (k : Nat) : (asking result k).outcome = result k := by
  unfold asking
  rw [Reply.outcome_bind]
  exact Reply.outcome_ofResult _

theorem calls_asking (k : Nat) : (asking result k).journal.calls = [.operation] := by
  unfold asking
  cases result k <;> rfl

/-- A policy decides how often an operation is attempted, what is waited between two attempts and
what comes of it, over exact numbers of any kind and over the integers of a document. -/
theorem call_decided [Monoid α] (p : RetryPolicy α) (retried : Failure → Bool)
    (result : Nat → Except Failure β) :
    (p.attempts : Int) = max 0 p.maxRetries + 1 ∧
    Decided p.attempts retried result (fun k r =>
      (p.call .exact (observed retried result)).run []
        = (r, course (exactWaits p.waitSeconds p.backoff k) 1)) ∧
    ∀ (wait backoff : Int) (description : String) (kinds : List FailureKind),
      Decided p.attempts (fun f => kinds.any f.isA) result fun k r =>
        (run ⟨p.maxRetries, .int wait, .int backoff⟩ description kinds (asking result)).Gives
          (trace (fun _ => [.operation]) ((exactWaits wait backoff k).map Value.int) 1) r := by
  refine ⟨?_, ?_, fun wait backoff description kinds => ?_⟩
  · rw [attempts]
    omega
  · show Decided (p.maxRetries.toNat + 1) _ _ _
    refine decided_of_yields (yields_exact p.waitSeconds p.backoff) fun waits r h => ?_
    have hrun := callFrom_observed h []
    rw [h.waits_eq (yields_exact _ _), pow_zero, mul_one] at hrun
    exact hrun
  · show Decided (p.maxRetries.toNat + 1) _ _ _
    refine decided_of_yields (yields_int wait backoff) fun waits r h => ?_
    have hresult : (fun k => (asking result k).outcome) = result := funext outcome_asking
    have hcalls : (fun k => (asking result k).journal.calls) = fun _ => [.operation] :=
      funext calls_asking
    have hwaits : waits = (exactWaits wait backoff (waits.length + 1)).map Value.int := by
      rw [exactWaits, List.map_map]
      exact h.waits_eq (yields_int wait backoff)
    rw [pow_zero, mul_one, ← hresult] at h
    rw [← hwaits, ← hcalls]
    refine run_gives (p := ⟨p.maxRetries, .int wait, .int backoff⟩) Sleep.skipped description kinds
      _ h ?_ (fun _ _ => rfl) ?_
    · rintro k c hc xs rfl
      rw [calls_asking, List.mem_singleton] at hc
      cases hc
    · intro v hv
      rw [hwaits] at hv
      obtain ⟨w, -, rfl⟩ := List.mem_map.1 hv
      rfl

end RetryPolicy

end Roster
