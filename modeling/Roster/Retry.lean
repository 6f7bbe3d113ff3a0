import Roster.Failure

/-!
# Retries

An operation that fails is tried again after a wait, up to a number of times; each wait is the one
before it times a factor. Waits are of any type with a product, which may fail (`Pace`), so the rule
can be studied over exact numbers and run over the values of a document. A product is taken as soon
as the wait after it is asked for, even where no retry is left for it.

* `RetryPolicy.waits`: the waits, one per retry.
* `RetryPolicy.call`: tries until an attempt succeeds, fails for a reason that is not retried, or
  the retries are used up.
-/

namespace Roster

/-- How often and how long to wait when an operation keeps failing. -/
structure RetryPolicy (α : Type) where
  /-- Attempts made after the first failure. -/
  maxRetries : Int
  /-- The wait before the first retry. -/
  waitSeconds : α
  /-- The factor from one wait to the next. -/
  backoff : α

/-- How waits follow each other. -/
structure Pace (α : Type) where
  /-- The product of a wait and a factor. -/
  times : α → α → Except Failure α
  /-- Whether a wait is none at all; then nothing is tried again. -/
  isAbsent : α → Bool

/-- The pace of exact numbers. -/
def Pace.exact {α : Type} [Mul α] : Pace α := ⟨fun a b => .ok (a * b), fun _ => false⟩

namespace RetryPolicy

variable {α β : Type} {m : Type → Type}

/-- The number of attempts in all. -/
def attempts (p : RetryPolicy α) : Nat := p.maxRetries.toNat + 1

/-- `n` waits, the first of them given. -/
def waitsFrom (pace : Pace α) (backoff : α) : Nat → α → Except Failure (List α)
  | 0, _ => .ok []
  | n + 1, wait => do return wait :: (← waitsFrom pace backoff n (← pace.times wait backoff))

/-- The wait before each retry. -/
def waits (pace : Pace α) (p : RetryPolicy α) : Except Failure (List α) :=
  waitsFrom pace p.backoff (p.attempts - 1) p.waitSeconds

theorem length_waitsFrom {pace : Pace α} {backoff wait : α} {n : Nat} {ws : List α}
    (h : waitsFrom pace backoff n wait = .ok ws) : ws.length = n := by
  induction n generalizing wait ws with
  | zero => cases h; rfl
  | succ n ih =>
    rw [waitsFrom] at h
    cases ht : pace.times wait backoff with
    | error e => simp [ht, bind, Except.bind] at h
    | ok next =>
      cases hw : waitsFrom pace backoff n next with
      | error e => simp [ht, hw, bind, Except.bind] at h
      | ok rest =>
        simp only [ht, hw, bind, Except.bind, pure, Except.pure, Except.ok.injEq] at h
        subst h
        simp [ih hw]

/-- There is one wait less than there are attempts. -/
theorem length_waits {pace : Pace α} {p : RetryPolicy α} {ws : List α}
    (h : p.waits pace = .ok ws) : ws.length + 1 = p.attempts := by
  simp [length_waitsFrom h, attempts]

/-- What is retried, and what happens around it. -/
structure Operation (m : Type → Type) (α β : Type) where
  /-- The attempt with the given number, from one on. -/
  attempt : Nat → m (Except Failure β)
  /-- Whether a failure leads to another attempt. -/
  retried : Failure → Bool
  /-- Waits after the failed attempt with the given number. -/
  pause : Nat → α → Failure → m Unit
  /-- Takes note of the attempt that succeeded. -/
  settled : Nat → m Unit

/-- Goes on with attempt `k`, with `left` retries left and the wait that is next, if it exists. -/
def callFrom [Monad m] (pace : Pace α) (backoff : α) (op : Operation m α β) :
    Nat → Except Failure α → Nat → m (Except Failure β)
  | left, next, k => do
    match ← op.attempt k with
    | .ok b =>
      op.settled k
      return .ok b
    | .error f =>
      if op.retried f then
        match next, left with
        | .error e, _ => return .error e
        | .ok _, 0 => return .error (.retriesExhausted k f)
        | .ok wait, left + 1 =>
          if pace.isAbsent wait then return .error (.retriesExhausted k f)
          else
            op.pause k wait f
            callFrom pace backoff op left (pace.times wait backoff) (k + 1)
      else return .error f

/-- Tries an operation as often as the policy allows. -/
def call [Monad m] (pace : Pace α) (p : RetryPolicy α) (op : Operation m α β) :
    m (Except Failure β) :=
  callFrom pace p.backoff op (p.attempts - 1) (.ok p.waitSeconds) 1

end RetryPolicy

end Roster
