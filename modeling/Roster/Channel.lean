import Roster.Journal
import Roster.Value.Convert

/-!
# Channels

A channel is where a part of the program writes its log lines. The channel of one synchronisation
marks every line with the run and the identity it is about.
-/

namespace Roster

/-- Where log lines go, and what they are about. -/
structure Channel where
  source : String
  /-- The run and the identity, on the channel of one synchronisation. -/
  scope : Option (Value × Value) := none

/-- The name of a run that was given none. -/
def standardRun : Value := .text "00000000"

namespace Channel

/-- The channel of one synchronisation; a name of the run that counts as false is none. -/
def ofRun (source : String) (run identity : Value) : Channel :=
  ⟨source, some (run.orElse standardRun, identity)⟩

/-- A text as it is written to the channel. -/
def message (c : Channel) (text : String) : String :=
  match c.scope with
  | none => text
  | some (run, identity) => s!"[{run}:{identity}] {text}"

/-- The facts attached to a line: those given, and what the channel is about. -/
def facts (c : Channel) (given : Value) : Except Failure Fields := do
  let given ← (given.orElse (.mapping [])).toMapping
  match c.scope with
  | none => return given
  | some (run, identity) =>
    return (given.set (.text "sync_run") run).set (.text "sync_identity") identity

end Channel

end Roster
