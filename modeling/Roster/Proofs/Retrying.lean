import Roster.Proofs.Rounding
import Roster.Retry.Run

/-!
# What is tried again

How a run of an operation that is tried again goes, and which calls it makes. `Reply.Gives` says of
a reply which calls are written down and how it ends, with one rule per way to put replies together.
`RetryPolicy.Tries` follows the attempts one by one; what a whole run comes to is read off it.

* `RetryPolicy.callFrom_gives`: the calls are those of the attempts, with one wait between two of
  them, if all waits can be slept; `RetryPolicy.callFrom_refused`: a wait that cannot be slept ends
  the run.
* `RetryPolicy.run_gives`: the same for an operation that is run under a policy, with waits that are
  not lists.
* `RetryPolicy.Tries.failed`, `RetryPolicy.Tries.paced`, `RetryPolicy.Tries.ending`: which attempts
  failed, which waits were taken and what the last attempt decides.
* `RetryPolicy.Tries.even`, `RetryPolicy.Tries.ending_even`: the waits of a policy without backoff,
  and how a run under it ends. Its factor is the binary64 value one, which leaves a wait as it is
  that has a binary64 value.
* `Sleep.isExact_of_short`: a wait that the clock can sleep is of that kind.
-/

namespace Roster

namespace Reply

variable {α β : Type} {r : Reply α} {f : α → Reply β} {cs cs' : List Call} {a : α}
  {b : Except Failure β} {e : Failure}

/-- The reply makes these calls and ends so. -/
structure Gives (r : Reply α) (cs : List Call) (x : Except Failure α) : Prop where
  calls : r.journal.calls = cs
  outcome : r.outcome = x

namespace Gives

theorem pure (a : α) : (Pure.pure a : Reply α).Gives [] (.ok a) := ⟨rfl, rfl⟩

theorem throw (e : Failure) : (MonadExcept.throw e : Reply α).Gives [] (.error e) := ⟨rfl, rfl⟩

theorem log (level : Level) (source text : String) :
    (Reply.log level source text).Gives [] (.ok ()) :=
  ⟨rfl, rfl⟩

theorem call (c : Call) : (Reply.call c).Gives [c] (.ok ()) := ⟨rfl, rfl⟩

theorem bind (h : r.Gives cs (.ok a)) (hf : (f a).Gives cs' b) : (r >>= f).Gives (cs ++ cs') b := by
  obtain ⟨outcome, journal⟩ := r
  obtain ⟨rfl, rfl⟩ := h
  exact ⟨congrArg (journal.calls ++ ·) hf.calls, hf.outcome⟩

/-- What follows makes no calls. -/
theorem bind_silent (h : r.Gives cs (.ok a)) (hf : (f a).Gives [] b) : (r >>= f).Gives cs b := by
  simpa using h.bind hf

theorem bind_error (h : r.Gives cs (.error e)) : (r >>= f).Gives cs (.error e) := by
  obtain ⟨outcome, journal⟩ := r
  obtain ⟨rfl, rfl⟩ := h
  exact ⟨rfl, rfl⟩

theorem tryCatch {handle : Failure → Reply α} (h : r.Gives cs (.ok a)) :
    (MonadExcept.tryCatch r handle).Gives cs (.ok a) := by
  obtain ⟨outcome, journal⟩ := r
  obtain ⟨rfl, rfl⟩ := h
  exact ⟨rfl, rfl⟩

theorem tryCatch_error {handle : Failure → Reply α} {x : Except Failure α}
    (h : r.Gives cs (.error e)) (hx : (handle e).Gives cs' x) :
    (MonadExcept.tryCatch r handle).Gives (cs ++ cs') x := by
  obtain ⟨outcome, journal⟩ := r
  obtain ⟨rfl, rfl⟩ := h
  exact ⟨congrArg (journal.calls ++ ·) hx.calls, hx.outcome⟩

/-- The failure is only told in another way. -/
theorem tryCatch_silent {handle : Failure → Reply α} {x : Except Failure α}
    (h : r.Gives cs (.error e)) (hx : (handle e).Gives [] x) :
    (MonadExcept.tryCatch r handle).Gives cs x := by
  simpa using h.tryCatch_error hx

/-- Calls may be told in another way that says the same. -/
theorem retold {x : Except Failure α} {g : Call → Call} (h : r.Gives cs x)
    (hg : ∀ c ∈ cs, g c = c) :
    (⟨r.outcome, ⟨r.journal.lines, r.journal.calls.map g⟩⟩ : Reply α).Gives cs x := by
  refine ⟨?_, h.outcome⟩
  show r.journal.calls.map g = cs
  rw [h.calls, List.map_congr_left hg, List.map_id']

end Gives

end Reply

namespace RetryPolicy

variable {α β : Type} {pace : Pace α} {backoff : α} {retried : Failure → Bool}
  {result : Nat → Except Failure β} {left k : Nat} {next : Except Failure α} {waits : List α}
  {r : Except Failure β}

/-! ## Attempt by attempt -/

/-- How trying goes on with the attempt of a number, the number of retries left and the wait that is
next, if it exists: the waits that are taken and the result. -/
inductive Tries (pace : Pace α) (backoff : α) (retried : Failure → Bool)
    (result : Nat → Except Failure β) :
    Nat → Except Failure α → Nat → List α → Except Failure β → Prop
  | settled {left next k b} (h : result k = .ok b) :
    Tries pace backoff retried result left next k [] (.ok b)
  | escaped {left next k f} (h : result k = .error f) (hf : retried f = false) :
    Tries pace backoff retried result left next k [] (.error f)
  | unpaced {left e k f} (h : result k = .error f) (hf : retried f = true) :
    Tries pace backoff retried result left (.error e) k [] (.error e)
  | exhausted {wait k f} (h : result k = .error f) (hf : retried f = true) :
    Tries pace backoff retried result 0 (.ok wait) k [] (.error (.retriesExhausted k f))
  | absent {left wait k f} (h : result k = .error f) (hf : retried f = true)
    (hw : pace.isAbsent wait = true) :
    Tries pace backoff retried result (left + 1) (.ok wait) k [] (.error (.retriesExhausted k f))
  | again {left wait k f waits r} (h : result k = .error f) (hf : retried f = true)
    (hw : pace.isAbsent wait = false)
    (hrest : Tries pace backoff retried result left (pace.times wait backoff) (k + 1) waits r) :
    Tries pace backoff retried result (left + 1) (.ok wait) k (wait :: waits) r

/-- Trying comes to an end. -/
theorem exists_tries (pace : Pace α) (backoff : α) (retried : Failure → Bool)
    (result : Nat → Except Failure β) (left : Nat) (next : Except Failure α) (k : Nat) :
    ∃ waits r, Tries pace backoff retried result left next k waits r := by
  induction left generalizing next k with
  | zero =>
    cases h : result k with
    | ok b => exact ⟨_, _, .settled h⟩
    | error f =>
      cases hf : retried f with
      | false => exact ⟨_, _, .escaped h hf⟩
      | true =>
        cases next with
        | error e => exact ⟨_, _, .unpaced h hf⟩
        | ok wait => exact ⟨_, _, .exhausted h hf⟩
  | succ left ih =>
    cases h : result k with
    | ok b => exact ⟨_, _, .settled h⟩
    | error f =>
      cases hf : retried f with
      | false => exact ⟨_, _, .escaped h hf⟩
      | true =>
        cases next with
        | error e => exact ⟨_, _, .unpaced h hf⟩
        | ok wait =>
          cases hw : pace.isAbsent wait with
          | true => exact ⟨_, _, .absent h hf hw⟩
          | false =>
            obtain ⟨waits, r, hrest⟩ := ih (pace.times wait backoff) (k + 1)
            exact ⟨_, _, .again h hf hw hrest⟩

/-- The wait after a number of products, if they all exist. -/
def waitAfter (pace : Pace α) (backoff : α) : Nat → Except Failure α → Except Failure α
  | 0, next => next
  | n + 1, next => waitAfter pace backoff n (next >>= fun wait => pace.times wait backoff)

theorem waitAfter_succ (n : Nat) (wait : α) :
    waitAfter pace backoff (n + 1) (.ok wait)
      = waitAfter pace backoff n (pace.times wait backoff) := rfl

namespace Tries

/-- There are no more waits than retries. -/
theorem length_le (h : Tries pace backoff retried result left next k waits r) :
    waits.length ≤ left := by
  induction h with
  | again _ _ _ _ ih => simpa using ih
  | _ => simp

/-- Every attempt that a wait follows failed, and in a way that is retried. -/
theorem failed (h : Tries pace backoff retried result left next k waits r) {i : Nat}
    (hi : i < waits.length) : ∃ f, result (k + i) = .error f ∧ retried f = true := by
  induction h generalizing i with
  | again h hf _ _ ih =>
    cases i with
    | zero => exact ⟨_, h, hf⟩
    | succ i =>
      obtain ⟨f, hi, hf⟩ := ih (Nat.lt_of_succ_lt_succ hi)
      exact ⟨f, by rwa [Nat.add_assoc, Nat.add_comm 1] at hi, hf⟩
  | _ => simp at hi

/-- The waits are the first one and its products. -/
theorem paced (h : Tries pace backoff retried result left next k waits r) {i : Nat} {wait : α}
    (hi : waits[i]? = some wait) :
    waitAfter pace backoff i next = .ok wait ∧ pace.isAbsent wait = false := by
  induction h generalizing i with
  | again _ _ hw _ ih =>
    cases i with
    | zero => obtain rfl := Option.some.inj hi; exact ⟨rfl, hw⟩
    | succ i => exact ih hi
  | _ => simp at hi

/-- The last attempt decides: its success or a failure that is not retried is the result; otherwise
the wait after it does not exist, or none is left to be taken. -/
theorem ending (h : Tries pace backoff retried result left next k waits r) :
    (∃ b, result (k + waits.length) = .ok b ∧ r = .ok b) ∨
    ∃ f, result (k + waits.length) = .error f ∧
      (retried f = false ∧ r = .error f ∨
        retried f = true ∧
          ((∃ e, waitAfter pace backoff waits.length next = .error e ∧ r = .error e) ∨
            ∃ wait, waitAfter pace backoff waits.length next = .ok wait ∧
              (waits.length = left ∨ pace.isAbsent wait = true) ∧
              r = .error (.retriesExhausted (k + waits.length) f))) := by
  induction h with
  | settled h => exact .inl ⟨_, h, rfl⟩
  | escaped h hf => exact .inr ⟨_, h, .inl ⟨hf, rfl⟩⟩
  | unpaced h hf => exact .inr ⟨_, h, .inr ⟨hf, .inl ⟨_, rfl, rfl⟩⟩⟩
  | exhausted h hf => exact .inr ⟨_, h, .inr ⟨hf, .inr ⟨_, rfl, .inl rfl, rfl⟩⟩⟩
  | absent h hf hw => exact .inr ⟨_, h, .inr ⟨hf, .inr ⟨_, rfl, .inr hw, rfl⟩⟩⟩
  | @again left wait k f waits r h hf hw hrest ih =>
    rw [show k + (wait :: waits).length = k + 1 + waits.length by simp; omega]
    simpa [waitAfter_succ] using ih

end Tries

/-! ## The run of an operation -/

/-- The calls of the attempts from a number on, with the given waits between them. -/
def trace (calls : Nat → List Call) : List Value → Nat → List Call
  | [], k => calls k
  | wait :: waits, k => calls k ++ .sleep wait :: trace calls waits (k + 1)

section Run

variable {pace : Pace Value} {backoff : Value} {next : Except Failure Value} {waits : List Value}
  (sleep : Sleep) (description : String) (kinds : List FailureKind) (attempt : Nat → Reply β)

theorem attempt_gives {x : Except Failure β} (h : (attempt k).outcome = x) :
    ((operation sleep description kinds attempt).attempt k).Gives (attempt k).journal.calls
      (.ok x) :=
  ⟨rfl, congrArg Except.ok h⟩

theorem settled_gives (k : Nat) :
    ((operation sleep description kinds attempt).settled k).Gives [] (.ok ()) := by
  show (if 1 < k then _ else _ : Reply Unit).Gives [] (.ok ())
  split
  · exact .log ..
  · exact .pure ()

/-- A pause writes the wait down, whether or not it can be slept. -/
theorem pause_gives (k : Nat) (wait : Value) (f : Failure) :
    ((operation sleep description kinds attempt).pause k wait f).Gives [.sleep wait] (sleep wait) :=
  .bind (.log ..) (by
    refine .bind_silent (.call _) ⟨?_, Reply.outcome_ofResult _⟩
    rw [Reply.journal_ofResult])

/-- Going on with an attempt makes the calls of that attempt and of those that follow it, if all
waits can be slept. -/
theorem callFrom_gives
    (h : Tries pace backoff (operation sleep description kinds attempt).retried
      (fun k => (attempt k).outcome) left next k waits r)
    (hsleep : ∀ wait ∈ waits, sleep wait = .ok ()) :
    (callFrom pace backoff (operation sleep description kinds attempt) left next k).Gives
      (trace (fun k => (attempt k).journal.calls) waits k) (.ok r) := by
  induction h with
  | settled h =>
    unfold callFrom
    refine .bind_silent (attempt_gives sleep description kinds attempt h) ?_
    exact .bind (settled_gives ..) (.pure _)
  | escaped h hf =>
    unfold callFrom
    refine .bind_silent (attempt_gives sleep description kinds attempt h) ?_
    dsimp only
    rw [if_neg (by simp [hf])]
    exact .pure _
  | unpaced h hf =>
    unfold callFrom
    refine .bind_silent (attempt_gives sleep description kinds attempt h) ?_
    dsimp only
    rw [if_pos hf]
    exact .pure _
  | exhausted h hf =>
    unfold callFrom
    refine .bind_silent (attempt_gives sleep description kinds attempt h) ?_
    dsimp only
    rw [if_pos hf]
    exact .pure _
  | absent h hf hw =>
    unfold callFrom
    refine .bind_silent (attempt_gives sleep description kinds attempt h) ?_
    dsimp only
    rw [if_pos hf, if_pos hw]
    exact .pure _
  | @again left wait k f waits r h hf hw hrest ih =>
    unfold callFrom
    refine .bind (attempt_gives sleep description kinds attempt h) ?_
    dsimp only
    rw [if_pos hf, if_neg (by simp [hw])]
    obtain ⟨hslept, hsleep⟩ := List.forall_mem_cons.1 hsleep
    have hpause := pause_gives sleep description kinds attempt k wait f
    rw [hslept] at hpause
    exact .bind hpause (ih hsleep)

/-- A wait that cannot be slept ends the run. -/
theorem callFrom_refused {wait : Value} {f e : Failure} (h : (attempt k).outcome = .error f)
    (hf : (operation sleep description kinds attempt).retried f = true)
    (hw : pace.isAbsent wait = false) (hsleep : sleep wait = .error e) :
    (callFrom pace backoff (operation sleep description kinds attempt) (left + 1) (.ok wait)
      k).Gives ((attempt k).journal.calls ++ [.sleep wait]) (.error e) := by
  unfold callFrom
  refine .bind (attempt_gives sleep description kinds attempt h) ?_
  dsimp only
  rw [if_pos hf, if_neg (by simp [hw])]
  have hpause := pause_gives sleep description kinds attempt k wait f
  rw [hsleep] at hpause
  exact .bind_error hpause

/-- A call of a run is one of an attempt, or a wait. -/
theorem mem_trace {calls : Nat → List Call} {c : Call} (h : c ∈ trace calls waits k) :
    (∃ j, c ∈ calls j) ∨ ∃ wait ∈ waits, c = .sleep wait := by
  induction waits generalizing k with
  | nil => exact .inl ⟨k, h⟩
  | cons wait waits ih =>
    rw [trace, List.mem_append, List.mem_cons] at h
    rcases h with h | rfl | h
    · exact .inl ⟨k, h⟩
    · exact .inr ⟨_, List.mem_cons_self, rfl⟩
    · rcases ih h with h | ⟨w, hw, rfl⟩
      · exact .inl h
      · exact .inr ⟨w, List.mem_cons_of_mem _ hw, rfl⟩

/-- A call that is no wait of a list of values is seen in the end as it was. -/
theorem seenCall_eq_self {c : Call} (h : ∀ xs, c ≠ .sleep (.list xs)) (final : Value) :
    seenCall final c = c := by
  cases c with
  | sleep wait =>
    cases wait with
    | list xs => exact absurd rfl (h xs)
    | _ => rfl
  | _ => rfl

/-- Running an operation makes the calls that calling it makes, unless a wait is a list. -/
theorem runWith_gives {p : RetryPolicy Value} {cs : List Call}
    {x : Except Failure (Except Failure β)}
    (h : (p.call RetryPolicy.pace (operation sleep description kinds attempt)).Gives cs x)
    (hcs : ∀ c ∈ cs, ∀ xs, c ≠ .sleep (.list xs)) :
    (p.runWith sleep description kinds attempt).Gives cs (x >>= id) := by
  unfold runWith
  dsimp only
  refine .retold ?_ fun c hc => seenCall_eq_self (hcs c hc) _
  match x, h with
  | .error e, h => exact .bind_error h
  | .ok (.ok b), h => exact h.bind_silent (.pure b)
  | .ok (.error f), h => exact h.bind_silent (.throw f)

/-- An operation that is run under a policy makes the calls of its attempts with waits between them,
if all waits can be slept and none is a list. -/
theorem run_gives {p : RetryPolicy Value}
    (h : Tries RetryPolicy.pace p.backoff (operation sleep description kinds attempt).retried
      (fun k => (attempt k).outcome) (p.attempts - 1) (.ok p.waitSeconds) 1 waits r)
    (hattempt : ∀ k, ∀ c ∈ (attempt k).journal.calls, ∀ xs, c ≠ .sleep (.list xs))
    (hsleep : ∀ wait ∈ waits, sleep wait = .ok ())
    (hwaits : ∀ wait ∈ waits, wait.isList = false) :
    (p.runWith sleep description kinds attempt).Gives
      (trace (fun k => (attempt k).journal.calls) waits 1) r := by
  refine runWith_gives sleep description kinds attempt
    (callFrom_gives sleep description kinds attempt h hsleep) fun c hc xs => ?_
  rcases mem_trace hc with ⟨j, hj⟩ | ⟨wait, hwait, rfl⟩
  · exact hattempt j c hj xs
  · intro h
    obtain rfl := Call.sleep.inj h
    cases hwaits _ hwait

end Run

end RetryPolicy

/-! ## A policy without backoff -/

namespace RetryPolicy

variable {β : Type} {wait : Number} {waits : List Value} {retried : Failure → Bool}
  {result : Nat → Except Failure β} {left k : Nat} {r : Except Failure β}

theorem times_eq_ok {a b c : Number} (h : a.mul b = some c) :
    pace.times (.number a) (.number b) = .ok (.number c) := by
  show (Value.number a).times (.number b) = _
  unfold Value.times
  dsimp only [Scalar.number?]
  rw [h]

/-- A wait that has a binary64 value stays as long as it is. -/
theorem waitAfter_exact (hwait : wait.IsExact) (i : Nat) :
    ∃ w, waitAfter pace (.number (.real 1)) i (.ok (.number wait)) = .ok (.number w) ∧
      w.toRat = wait.toRat := by
  induction i generalizing wait with
  | zero => exact ⟨wait, rfl, rfl⟩
  | succ i ih =>
    obtain ⟨next, hmul, hsame, hnext⟩ := hwait.times_one
    obtain ⟨w, hw, hrat⟩ := ih hnext
    exact ⟨w, by rw [waitAfter_succ, times_eq_ok hmul, hw], hrat.trans hsame⟩

namespace Tries

/-- All waits are equally long. -/
theorem even (h : Tries pace (.number (.real 1)) retried result left (.ok (.number wait)) k waits r)
    (hwait : wait.IsExact) {v : Value} (hv : v ∈ waits) :
    ∃ w, v = .number w ∧ w.toRat = wait.toRat := by
  obtain ⟨i, hi⟩ := List.getElem?_of_mem hv
  obtain ⟨w, hw, hrat⟩ := waitAfter_exact hwait i
  exact ⟨w, Except.ok.inj ((h.paced hi).1.symm.trans hw), hrat⟩

/-- The last attempt decides, unless the retries are used up. -/
theorem ending_even
    (h : Tries pace (.number (.real 1)) retried result left (.ok (.number wait)) k waits r)
    (hwait : wait.IsExact) :
    (∃ b, result (k + waits.length) = .ok b ∧ r = .ok b) ∨
    ∃ f, result (k + waits.length) = .error f ∧
      (retried f = false ∧ r = .error f ∨
        retried f = true ∧ waits.length = left ∧
          r = .error (.retriesExhausted (k + waits.length) f)) := by
  rcases h.ending with hok | ⟨f, hf, hend | ⟨hretried, hend⟩⟩
  · exact .inl hok
  · exact .inr ⟨f, hf, .inl hend⟩
  obtain ⟨w, hw, -⟩ := waitAfter_exact hwait waits.length
  rcases hend with ⟨e, he, -⟩ | ⟨v, hv, hlast, rfl⟩
  · cases hw.symm.trans he
  · obtain rfl := Except.ok.inj (hw.symm.trans hv)
    exact .inr ⟨f, hf, .inr ⟨hretried, hlast.resolve_right Bool.false_ne_true, rfl⟩⟩

end Tries

end RetryPolicy

/-! ## Waits that the clock can sleep -/

namespace Sleep

variable {wait w : Number}

theorem timed_number (wait : Number) : timed (.number wait) =
    if nanoseconds wait.toRat < -bound ∨ bound ≤ nanoseconds wait.toRat then .error .waitTooLong
    else if nanoseconds wait.toRat < 0 then .error .negativeWait else .ok () := rfl

/-- Whether a wait can be slept depends on how long it is. -/
theorem timed_congr (h : w.toRat = wait.toRat) : timed (.number w) = timed (.number wait) := by
  rw [timed_number, timed_number, h]

/-- A wait that is not negative can be slept if its nanoseconds can be counted. -/
theorem timed_eq_ok (hwait : 0 ≤ wait) (hshort : nanoseconds wait.toRat < bound) :
    timed (.number wait) = .ok () := by
  have hnonneg : 0 ≤ nanoseconds wait.toRat := mul_nonneg (Number.le_iff.1 hwait) (by norm_num)
  have hlow : -bound ≤ nanoseconds wait.toRat := le_trans (by norm_num [bound]) hnonneg
  rw [timed_number, if_neg (by simp [hlow, hshort]), if_neg (not_lt.2 hnonneg)]

theorem timed_eq_error (hlong : bound ≤ nanoseconds wait.toRat) :
    timed (.number wait) = .error .waitTooLong := by
  rw [timed_number, if_pos (.inr hlong)]

/-- A wait whose nanoseconds can be counted has a binary64 value. -/
theorem isExact_of_short (hwait : 0 ≤ wait) (hproper : wait.Proper)
    (hshort : nanoseconds wait.toRat < bound) : wait.IsExact := by
  refine Number.isExact_of_lt ?_ hproper
  have hscaled : nanoseconds wait.toRat < nanoseconds (2 ^ 53) :=
    lt_of_lt_of_le hshort (by norm_num [bound, nanoseconds])
  rw [abs_of_nonneg (Number.le_iff.1 hwait)]
  exact lt_of_mul_lt_mul_right hscaled (by norm_num)

end Sleep

end Roster
