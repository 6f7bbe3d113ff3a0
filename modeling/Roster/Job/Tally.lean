import Roster.Sync.Result

/-!
# Tallies

A job counts what it did: how many identities were processed, with which outcomes, how many records
were converted, and what failed.
-/

namespace Roster

/-- What a job has done so far. -/
structure Tally where
  processed : Nat := 0
  /-- The number of identities that failed. -/
  failed : Nat := 0
  converted : Nat := 0
  /-- The outcomes, in order. -/
  statuses : List Status := []
  /-- What failed, in order and in words. -/
  failures : List String := []

namespace Tally

/-- How often an identity was given a status. -/
def count (t : Tally) (s : Status) : Nat := t.statuses.count s

/-- Counts the outcome of an identity. -/
def add (t : Tally) (s : Status) : Tally :=
  { t with processed := t.processed + 1, statuses := t.statuses ++ [s] }

/-- Counts a record that was looked at for conversion. -/
def addConversion (t : Tally) (converted : Bool) : Tally :=
  { t with
    processed := t.processed + 1
    converted := if converted then t.converted + 1 else t.converted }

/-- Counts a failure. -/
def fail (t : Tally) (text : String) : Tally :=
  { t with failed := t.failed + 1, failures := t.failures ++ [text] }

/-- The outcomes that occurred, with their counts. -/
def outcomesText (t : Tally) : String :=
  let counted := Status.all.filterMap fun s =>
    if t.count s = 0 then none else some (s.name ++ "=" ++ toString (t.count s))
  if counted.isEmpty then "none" else ", ".intercalate counted

end Tally

end Roster
