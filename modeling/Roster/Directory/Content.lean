import Roster.Journal

/-!
# What a directory holds

A directory holds entries under their distinguished names. It answers searches: for the entry with
a name, or for the entries that match a filter; which entries match a filter is part of the
content. A search can break, or be answered by a result that says why it failed.
-/

namespace Roster

/-- An entry of a directory. Besides entries of their own, directories return pointers to other
directories; the kind tells them apart. -/
structure Entry where
  name : Value
  kind : Value := .text "searchResEntry"
  attributes : Option Value := none

/-- Whether an entry is one of the directory's own. -/
def Entry.isOwn (e : Entry) : Bool := e.kind == .text "searchResEntry"

/-- Why a search gives no entries. -/
inductive SearchFault where
  /-- The search could not be carried out. -/
  | broken (reason : String)
  /-- The directory answered that it failed. -/
  | answered (result : DirectoryResult)

/-- What a directory holds, and which of its searches fail. -/
structure Content where
  entries : List Entry := []
  /-- The names of the entries that match a filter. -/
  matching : Assoc String (List Value) := []
  /-- The faults of searches below a name, and of reaching the entry with a name. -/
  faults : Assoc String SearchFault := []

namespace Content

/-- The entries with a name. -/
def named (c : Content) (name : Value) : List Entry := c.entries.filter fun e => e.name == name

/-- The entries that a filter matches. -/
def matched (c : Content) (filter : String) : List Entry :=
  ((c.matching.lookup filter).getD []).flatMap c.named

/-- The entries that a search gives. Faults are those of names that are texts. -/
def search (c : Content) (base : Value) (filter : String) (scope : Scope) :
    Except SearchFault (List Entry) :=
  match (base.text?.bind fun name => c.faults.lookup name), scope with
  | some fault, _ => .error fault
  | none, .base =>
    match c.named base with
    | [] => .error (.answered .noSuchObject)
    | found => .ok found
  | none, .subtree => .ok (c.matched filter)

/-- The entries that a filter matches, one after the other; each may turn out to be unreachable. -/
def listing (c : Content) (filter : Value) : List (Except String Entry) :=
  ((filter.text?.bind fun text => c.matching.lookup text).getD []).flatMap fun name =>
    match name.text?.bind fun name => c.faults.lookup name with
    | some (.broken reason) => [.error reason]
    | _ => (c.named name).map .ok

end Content

end Roster
