import Roster.Failure
import Roster.Ref

/-!
# Journal

What a run does besides changing the store is written down in order: log lines, and calls to the
identity provider and its directory. A `Reply` is an answer that comes with such a trace; the
functions of a provider return replies and so cannot touch anything else.
-/

namespace Roster

/-- Severity of a log line. -/
inductive Level where
  | debug
  | info
  | warning
  | error
  | critical
deriving DecidableEq, Inhabited

namespace Level

/-- The number that levels are compared by. -/
def rank : Level → Nat
  | debug => 10
  | info => 20
  | warning => 30
  | error => 40
  | critical => 50

/-- The name of a level in log lines. -/
def name : Level → String
  | debug => "DEBUG"
  | info => "INFO"
  | warning => "WARNING"
  | error => "ERROR"
  | critical => "CRITICAL"

/-- All levels, rising. -/
def all : List Level := [debug, info, warning, error, critical]

end Level

/-- A log line: what part of the program wrote it, how severe it is, what it says. -/
structure Line where
  level : Level
  source : String
  text : String
deriving DecidableEq

/-- The audit trail is written by this source. -/
def auditSource : String := "audit"

/-- How deep a directory search goes. -/
inductive Scope where
  | base
  | subtree
deriving DecidableEq

/-- An option of a secure channel: a text, or a temporary file with its content and access mode. -/
inductive TlsOption where
  | value (v : Value)
  | file (content mode : String)

/-- A call to the outside. -/
inductive Call where
  | resolve (ref : Option Ref)
  | direct (ref : Option Ref)
  | search (base : Value) (filter : String) (scope : Scope) (attributes : List Value)
  | pagedSearch (base filter : Value) (scope : Scope) (attributes : List Value) (size : Value)
  | server (url : String) (ssl timeout : Value) (tls : Bool)
  | tls (options : List (String × TlsOption))
  | keystore (content : String) (password : Option String)
  | connection (user password timeout : Value)
  | openConnection
  | startTls
  | bind
  | unbind
  | operation
  | sleep (seconds : Value)

/-- Log lines and calls, each in order. -/
structure Journal where
  lines : List Line := []
  calls : List Call := []

namespace Journal

/-- One journal after another. -/
def append (a b : Journal) : Journal := ⟨a.lines ++ b.lines, a.calls ++ b.calls⟩

instance : Append Journal := ⟨append⟩

theorem append_assoc (a b c : Journal) : a ++ b ++ c = a ++ (b ++ c) := by
  show append (append a b) c = append a (append b c)
  simp [append, List.append_assoc]

theorem append_empty (a : Journal) : a ++ ({} : Journal) = a := by
  show append a {} = a
  simp [append]

end Journal

/-- An answer, or the failure to give one, with what was written down on the way. -/
structure Reply (α : Type) where
  outcome : Except Failure α
  journal : Journal := {}

namespace Reply

variable {α β : Type}

/-- An answer without a trace. -/
def ok (a : α) : Reply α := ⟨.ok a, {}⟩

/-- A failure without a trace. -/
def fail (f : Failure) : Reply α := ⟨.error f, {}⟩

/-- A result as a reply without a trace. -/
def ofResult : Except Failure α → Reply α
  | .ok a => ok a
  | .error f => fail f

/-- Goes on with the answer, after what was written so far; a failure ends the reply. -/
def bind (r : Reply α) (f : α → Reply β) : Reply β :=
  match r.outcome with
  | .ok a => ⟨(f a).outcome, r.journal ++ (f a).journal⟩
  | .error e => ⟨.error e, r.journal⟩

instance : Monad Reply where
  pure := ok
  bind := bind

instance : MonadExceptOf Failure Reply where
  throw := fail
  tryCatch r handle :=
    match r.outcome with
    | .ok _ => r
    | .error e => ⟨(handle e).outcome, r.journal ++ (handle e).journal⟩

/-- Writes a log line. -/
def log (level : Level) (source text : String) : Reply Unit :=
  ⟨.ok (), ⟨[⟨level, source, text⟩], []⟩⟩

/-- Writes a call down. -/
def call (c : Call) : Reply Unit := ⟨.ok (), ⟨[], [c]⟩⟩

theorem outcome_ofResult (r : Except Failure α) : (ofResult r).outcome = r := by cases r <;> rfl

theorem journal_ofResult (r : Except Failure α) : (ofResult r).journal = {} := by cases r <;> rfl

@[simp] theorem outcome_pure (a : α) : (pure a : Reply α).outcome = .ok a := rfl

@[simp] theorem outcome_bind (r : Reply α) (f : α → Reply β) :
    (r >>= f).outcome = r.outcome >>= fun a => (f a).outcome := by
  obtain ⟨outcome, journal⟩ := r
  cases outcome <;> rfl

end Reply

end Roster
