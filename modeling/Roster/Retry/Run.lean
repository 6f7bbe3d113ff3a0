import Roster.Journal
import Roster.Value.Convert
import Roster.Retry

/-!
# Retries in a journal

The operation that is retried answers with a reply. Every failed attempt that leads to another one
is logged with the wait before it, and so is a success that was not the first attempt's.

A wait is slept by a `Sleep`, and if that fails the run ends in its failure. The clock's sleep
(`Sleep.timed`) fails for a wait that is no number, for a negative one and for one of 2 ^ 63
nanoseconds or more. Where the clock does not matter waits are skipped (`Sleep.skipped`): they are
written down like any other, and none of them fails.

A wait that is a list is one list throughout: each product makes it grow in its place, so that in
the end it is seen at its full length wherever it was seen before (`RetryPolicy.seen`). Log lines
tell its length at the time.
-/

namespace Roster

/-- How waits are slept: each is a number of seconds, if it can be slept at all. -/
abbrev Sleep := Value → Except Failure Unit

namespace Sleep

/-- Passes over every wait. -/
def skipped : Sleep := fun _ => .ok ()

/-- How many nanoseconds the seconds have. -/
def nanoseconds (seconds : Rat) : Rat := seconds * (Nat.pow 10 9 : Nat)

/-- How many nanoseconds can be counted, with one bit of 64 for the sign. -/
def bound : Rat := (Nat.pow 2 63 : Nat)

/-- Sleeps by the clock, which counts nanoseconds. A wait that it cannot count fails before it is
known to be negative. -/
def timed : Sleep := fun wait =>
  match wait.number? with
  | none => .error .malformed
  | some seconds =>
    let length := nanoseconds seconds.toRat
    if length < -bound ∨ bound ≤ length then .error .waitTooLong
    else if length < 0 then .error .negativeWait
    else .ok ()

end Sleep

namespace RetryPolicy

variable {β : Type}

/-- Where log lines of this part come from. -/
def source : String := "retry"

/-- The pace of the values of a document. -/
def pace : Pace Value where
  times := Value.times
  isAbsent wait := wait matches .null

/-- The operation with the given attempts, failures of the given kinds leading to a retry. -/
def operation (sleep : Sleep) (description : String) (kinds : List FailureKind)
    (attempt : Nat → Reply β) : Operation Reply Value β where
  attempt k := ⟨.ok (attempt k).outcome, (attempt k).journal⟩
  retried f := kinds.any f.isA
  pause k wait f := do
    Reply.log .warning source
      (s!"{description} failed on attempt {k}, retrying in {wait}s: "
        ++ f.kind.name ++ ": " ++ f.text)
    Reply.call (.sleep wait)
    Reply.ofResult (sleep wait)
  settled k :=
    if 1 < k then Reply.log .info source s!"{description} succeeded on attempt {k}" else pure ()

/-- What becomes of a wait by a number of products; one that fails is the last. -/
def grown (backoff : Value) : Nat → Value → Value
  | 0, wait => wait
  | n + 1, wait =>
    match wait.times backoff with
    | .ok next => grown backoff n next
    | .error _ => wait

/-- A wait as it is seen in the end. -/
def seen (final wait : Value) : Value := if wait.isList then final else wait

/-- The policy after a number of products. -/
def after (p : RetryPolicy Value) (products : Nat) : RetryPolicy Value :=
  { p with waitSeconds := seen (grown p.backoff products p.waitSeconds) p.waitSeconds }

/-- How many products a run took: one for each wait but the first, and one for the wait that there
was none for. -/
def products (r : Reply β) : Nat :=
  let pauses := r.journal.calls.countP fun c => c matches .sleep _
  match r.outcome with
  | .error (.retriesExhausted _ _) => pauses
  | _ => pauses - 1

/-- A call as it is seen in the end. -/
def seenCall (final : Value) : Call → Call
  | .sleep wait => .sleep (seen final wait)
  | c => c

/-- Runs an operation under a policy, with waits that are slept in the given way. -/
def runWith (sleep : Sleep) (p : RetryPolicy Value) (description : String)
    (kinds : List FailureKind) (attempt : Nat → Reply β) : Reply β :=
  let r : Reply β := do
    match ← p.call pace (operation sleep description kinds attempt) with
    | .ok b => return b
    | .error f => throw f
  let final := (p.after (products r)).waitSeconds
  { r with journal := { r.journal with calls := r.journal.calls.map (seenCall final) } }

/-- Runs an operation under a policy. Waits are skipped. -/
def run (p : RetryPolicy Value) (description : String) (kinds : List FailureKind)
    (attempt : Nat → Reply β) : Reply β :=
  p.runWith Sleep.skipped description kinds attempt

/-- The standard policy of a connection. -/
def standard : RetryPolicy Value := ⟨3, .int 5, .number (.real 1)⟩

/-- A number of retries: a whole number, or any number that asks for none. -/
def retriesOf (v : Value) : Except Failure Int :=
  match v.number? with
  | some (.int n) => .ok n
  | some x => if 0 < x then .error .malformed else .ok 0
  | none => .error .malformed

/-- The policy with the given number of retries, where it is one. -/
def ofValues (retries wait backoff : Value) : Except Failure (RetryPolicy Value) := do
  return ⟨← retriesOf retries, wait, backoff⟩

/-- The names of the fields of a policy. -/
def fieldNames : List Scalar := ["max_retries", "wait_seconds", "backoff"]

/-- The policy with the given fields, the standard ones for what they leave out. A policy has no
other fields. -/
def ofFields (fields : Fields) : Except Failure (RetryPolicy Value) :=
  if (Assoc.keys fields).all fieldNames.contains then
    let value (key : String) (other : Value) : Value := (fields.lookup (.text key)).getD other
    ofValues (value "max_retries" (.int standard.maxRetries))
      (value "wait_seconds" standard.waitSeconds) (value "backoff" standard.backoff)
  else .error .malformed

/-- The kinds of failure that a list names; a name that is not known is missing. -/
def kindsOf (names : Value) : Except Failure (List FailureKind) := do
  (← names.toItems).mapM fun name => do
    let s ← name.toScalar
    match s.text?.bind FailureKind.ofName? with
    | some kind => return kind
    | none => throw (.raised .missingKey name)

/-- Runs an operation under a policy that may turn out to be none; that shows when it is needed,
after the first attempt that failed. -/
def runUnder (sleep : Sleep) (p : Except Failure (RetryPolicy Value)) (description : String)
    (kinds : List FailureKind) (attempt : Nat → Reply β) : Reply β :=
  match p with
  | .ok p => p.runWith sleep description kinds attempt
  | .error e => do
    try run { standard with maxRetries := 0 } description kinds attempt
    catch f => match f with
      | .retriesExhausted _ _ => throw e
      | f => throw f

/-- What a policy comes to: its waits, and what became of an operation under it. -/
structure Trial (β : Type) where
  waits : List Value
  reply : Option (Reply β)

/-- Runs an operation whose outcomes are given in advance; each call that there is an outcome for is
written down. -/
def replay (p : RetryPolicy Value) (description : String) (kinds : List FailureKind)
    (outcomes : List (Except Failure β)) : Reply β :=
  p.run description kinds fun k => do
    let some outcome := outcomes[k - 1]? | throw .noOutcomeLeft
    Reply.call .operation
    Reply.ofResult outcome

/-- Lists the waits of a policy and then tries it on an operation, if there is one. -/
def trial (p : RetryPolicy Value) (description : String) (kinds : List FailureKind)
    (outcomes : Option (List (Except Failure β))) : Except Failure (Trial β) := do
  let waits ← p.waits pace
  let p := p.after waits.length
  let reply := outcomes.map fun outcomes => p.replay description kinds outcomes
  let final := (p.after ((reply.map products).getD 0)).waitSeconds
  return { waits := waits.map (seen final), reply }

end RetryPolicy

end Roster
