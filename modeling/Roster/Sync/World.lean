import Roster.Channel
import Roster.Store.Snapshot

/-!
# What a synchronisation works on

A synchronisation runs in a world: the local store, the clock, the journal it writes and the
failures that are planned for it. A step (`Sync`) gives a value or a failure and the world that it
leaves; a failed step keeps what it changed before it failed.

A caller may hold on to a record that has left the store. Such a record is no longer part of the
store but can still be read and changed; a `Subject` is a record of either kind.

Every operation of the store that a step performs is announced here, so that the failures planned
for it strike before it does anything (`Sync.allow`). Failures are planned for what is looked up or
changed, and for the turns of calls (`Faults.turns`). Since a run depends on nothing but its world,
any pattern in which its calls can fail is planned by their turns.
-/

namespace Roster

/-- The failures planned for a run. A call fails if a failure is planned for what it is about or for
its turn. -/
structure Faults where
  /-- External ids that cannot be looked up. -/
  resolve : List Value := []
  /-- How many lookups succeed before every further one fails. -/
  resolveAfter : Option Number := none
  /-- External ids that cannot be mapped to a principal name. -/
  direct : List Value := []
  /-- Record ids for which an operation of the store fails. -/
  store : List (StoreOperation × List Value) := []
  /-- Whether the call with a number fails. Lookups, mappings and operations of the store are
  numbered together, in the order in which they are made. -/
  turns : Nat → Bool := fun _ => false

/-- A record that a step works on: one of the store, or one that has left it. -/
inductive Subject where
  | stored (k : Key)
  | detached (n : Nat)
deriving DecidableEq

/-- The properties of a record that was shown to someone. They keep up with the record's for as long
as these are changed one by one, and stay as they are once these are replaced as a whole. -/
structure Showing where
  following : Option Subject
  properties : Value

/-- The world of a synchronisation. -/
structure World where
  store : Store := {}
  /-- How often the store was replaced by another one. -/
  generation : Nat := 0
  /-- Records that have left the store and are still held by someone. -/
  detached : List (Nat × Record) := []
  /-- What was shown of records, in order. -/
  shown : List Showing := []
  clock : Value := .int 1000
  /-- The mark of the run on the lines of its synchronisations. -/
  run : Value := standardRun
  faults : Faults := {}
  /-- How many lookups were made since the failures were planned. -/
  lookups : Nat := 0
  /-- How many calls that can be planned to fail were made since then. -/
  turn : Nat := 0
  /-- What was written down, the latest first. -/
  notes : List Journal := []

/-- A step of a synchronisation. -/
def Sync (α : Type) : Type := World → Except Failure α × World

namespace Sync

variable {α β : Type}

/-- Gives a value and leaves the world as it is. -/
def give (a : α) : Sync α := fun w => (.ok a, w)

/-- One step after the other; a failure ends the run in the world it left. -/
def next (x : Sync α) (f : α → Sync β) : Sync β := fun w =>
  match x w with
  | (.ok a, w') => f a w'
  | (.error e, w') => (.error e, w')

instance : Monad Sync where
  pure := give
  bind := next

instance : MonadExceptOf Failure Sync where
  throw f := fun w => (.error f, w)
  tryCatch x handle := fun w =>
    match x w with
    | (.ok a, w') => (.ok a, w')
    | (.error e, w') => handle e w'

instance : MonadStateOf World Sync where
  get := fun w => (.ok w, w)
  set w := fun _ => (.ok (), w)
  modifyGet f := fun w => (.ok (f w).1, (f w).2)

@[simp] theorem pure_apply (a : α) (w : World) : (pure a : Sync α) w = (.ok a, w) := rfl

theorem bind_apply (x : Sync α) (f : α → Sync β) (w : World) :
    (x >>= f) w = match x w with
      | (.ok a, w') => f a w'
      | (.error e, w') => (.error e, w') := rfl

theorem bind_apply_ok {x : Sync α} {f : α → Sync β} {w w' : World} {a : α}
    (h : x w = (.ok a, w')) : (x >>= f) w = f a w' := by
  rw [bind_apply, h]

theorem bind_apply_error {x : Sync α} {f : α → Sync β} {w w' : World} {e : Failure}
    (h : x w = (.error e, w')) : (x >>= f) w = (.error e, w') := by
  rw [bind_apply, h]

@[simp] theorem throw_apply (e : Failure) (w : World) : (throw e : Sync α) w = (.error e, w) := rfl

@[simp] theorem get_apply (w : World) : (get : Sync World) w = (.ok w, w) := rfl

@[simp] theorem modify_apply (f : World → World) (w : World) :
    (modify f : Sync Unit) w = (.ok (), f w) := rfl

instance : LawfulMonad Sync := LawfulMonad.mk' Sync
  (fun x => by
    funext w
    show next x (fun a => give a) w = x w
    unfold next give
    rcases x w with ⟨a | a, w'⟩ <;> rfl)
  (fun _ _ => rfl)
  (fun x f g => by
    funext w
    show next (next x f) g w = next x (fun a => next (f a) g) w
    unfold next
    rcases x w with ⟨a | a, w'⟩ <;> rfl)

end Sync

namespace World

/-- The record of a subject. -/
def record? (w : World) : Subject → Option Record
  | .stored k => w.store.find? k
  | .detached n => w.detached.lookup n

/-- Changes the record of a subject. -/
def update (w : World) (f : Record → Record) : Subject → World
  | .stored k => { w with store := w.store.modify k f }
  | .detached n =>
    { w with detached := w.detached.map fun (k, r) => if k == n then (k, f r) else (k, r) }

/-- Gives a record other properties. What was shown of it stays as it is. -/
def replaceProperties (w : World) (x : Subject) (properties : Value) : World :=
  let w := w.update (fun r => { r with properties }) x
  { w with shown := w.shown.map fun s =>
      if s.following = some x then { s with following := none } else s }

/-- Changes the properties of a record to the given ones, in what was shown of it too. -/
def editProperties (w : World) (x : Subject) (properties : Fields) : World :=
  let w := w.update (fun r => { r with properties := .mapping properties }) x
  { w with shown := w.shown.map fun s =>
      if s.following = some x then { s with properties := .mapping properties } else s }

theorem store_replaceProperties (w : World) (x : Subject) (properties : Value) :
    (w.replaceProperties x properties).store
      = (w.update (fun r => { r with properties }) x).store := rfl

theorem store_editProperties (w : World) (x : Subject) (properties : Fields) :
    (w.editProperties x properties).store
      = (w.update (fun r => { r with properties := .mapping properties }) x).store := rfl

/-- What was written down, in order. -/
def journal (w : World) : Journal := w.notes.foldl (fun later earlier => earlier ++ later) {}

/-- Writes a journal to the end of the one of the world. -/
def note (w : World) (j : Journal) : World := { w with notes := j :: w.notes }

theorem journal_note (w : World) (j : Journal) : (w.note j).journal = w.journal ++ j := by
  have fold (ns : List Journal) (later : Journal) :
      ns.foldl (fun later earlier => earlier ++ later) later
        = ns.foldl (fun later earlier => earlier ++ later) {} ++ later := by
    induction ns generalizing later with
    | nil => rfl
    | cons n ns ih =>
      rw [List.foldl_cons, List.foldl_cons, ih, ih (n ++ {}), Journal.append_assoc,
        Journal.append_empty]
  rw [journal, note, List.foldl_cons, Journal.append_empty, fold, journal]

theorem store_update_stored (w : World) (f : Record → Record) (k : Key) :
    (w.update f (.stored k)).store = w.store.modify k f := rfl

end World

namespace Sync

variable {α : Type}

/-- Writes a log line to a channel. -/
def log (c : Channel) (level : Level) (text : String) : Sync Unit :=
  modify fun w => w.note ⟨[⟨level, c.source, c.message text⟩], []⟩

/-- Writes a line of the audit trail. -/
def audit (text : String) : Sync Unit :=
  modify fun w => w.note ⟨[⟨.info, auditSource, text⟩], []⟩

/-- Writes a call down. -/
def call (c : Call) : Sync Unit := modify fun w => w.note ⟨[], [c]⟩

/-- Takes a reply in: its journal and its outcome. -/
def reply (r : Reply α) : Sync α := fun w => (r.outcome, w.note r.journal)

/-- The record of a subject. -/
def record (x : Subject) : Sync Record := do
  match (← get).record? x with
  | some r => return r
  | none => throw .malformed

/-- Changes the record of a subject. -/
def update (x : Subject) (f : Record → Record) : Sync Unit := modify fun w => w.update f x

/-- Takes the turn of a call; the answer says whether a failure is planned for it. -/
def takeTurn : Sync Bool :=
  modifyGet fun w => (w.faults.turns w.turn, { w with turn := w.turn + 1 })

theorem takeTurn_apply (w : World) :
    takeTurn w = (.ok (w.faults.turns w.turn), { w with turn := w.turn + 1 }) := rfl

/-- Fails if a failure is planned for the operation on the id, or for its turn. -/
def allow (op : StoreOperation) (id : Value) : Sync Unit := do
  let struck ← takeTurn
  let planned := (← get).faults.store
  if struck || planned.any fun p => p.1 = op && p.2.contains id then throw (.refused op id)

/-- Fails if a failure is planned for the operation on the id that it is given, or for its turn.
The store itself takes any id. But what plans the failures of its operations stands in front of it and
reads off the argument whom an operation is about: a text is an id, and anything else is taken for a
record, which has one. So an id that is no text fails here, whether or not failures are planned. -/
def allowById (op : StoreOperation) (id : Value) : Sync Unit := do
  match id with
  | .text _ => allow op id
  | _ => throw .malformed

/-- Takes a result in. -/
def result (r : Except Failure α) : Sync α := fun w => (r, w)

/-- The words for a reference in messages; a reference that has none is a failure. -/
def shown (r : Option Ref) : Sync String :=
  match r with
  | none => return "None"
  | some r =>
    match r.shown? with
    | some text => return text
    | none => throw .malformed

/-- The record with an id and its subject. -/
def lookUp (id : Value) : Sync (Option (Subject × Record)) := do
  let k ← result id.toKey
  return ((← get).store.find? k).map fun r => (.stored k, r)

/-- The channel of the store. -/
def storeChannel : Channel := ⟨"store", none⟩

/-- Says that a record was created. -/
def createdText (r : Record) : String :=
  let kind := if r.isGroup then "group" else "user"
  s!"Created {kind} record {r.id}"

/-- Performs an operation of the store. -/
def onStore (f : Store → Except Failure (α × Store)) : Sync α := fun w =>
  match f w.store with
  | .ok (a, s) => (.ok a, { w with store := s })
  | .error e => (.error e, w)

/-- Creates a record. -/
def create (r : Record) : Sync Subject := do
  allowById (if r.isGroup then .createGroup else .createUser) r.id
  onStore fun s => (s.create r).map fun s' => ((), s')
  log storeChannel .debug (createdText r)
  return .stored (← result r.id.toKey)

/-- Removes a record from the store. -/
def remove (id : Value) : Sync Unit := do
  allowById .removeRecord id
  onStore fun s => (s.remove id).map fun s' => ((), s')
  log storeChannel .debug s!"Removed record {id}"

/-- Makes a record a direct member of a group. -/
def addMember (g : Record) (id : Value) : Sync Bool := do
  allow .addMember g.id
  onStore fun s => s.addMember g id

/-- Ends a direct membership. -/
def removeMember (g : Record) (id : Value) : Sync Bool := do
  allow .removeMember g.id
  onStore fun s => s.removeMember g id

/-- Sets the names of a record, which has to be in dynamic mode. -/
def setNames (x : Subject) (names : Except Failure NameSet) : Sync Unit := do
  let r ← record x
  allow .setNames r.id
  if r.isLegacy then throw (.namesOfLegacy r.id)
  let names ← result names
  update x fun r => { r with names := some (.set names) }

/-- Converts a record of the legacy mode. -/
def convert (x : Subject) (names : Except Failure NameSet) : Sync Unit := do
  let r ← record x
  allow .convert r.id
  let names ← result names
  if !r.isLegacy then throw (.notLegacy r.id)
  update x fun r => r.toDynamic names

/-! ## Snapshots and transactions -/

/-- Logs the creation of every record of a store that was built from a snapshot. -/
def logCreated (s : Store) : Sync Unit :=
  s.all.forM fun r => log storeChannel .debug (createdText r)

/-- The store that a document describes, each of its records logged. -/
def build (document : Value) : Sync Store := do
  match Store.read document with
  | .ok s =>
    logCreated s
    return s
  | .error (f, s) =>
    logCreated s
    throw f

/-- Replaces the store by another one. -/
def replaceStore (s : Store) : Sync Unit :=
  modify fun w => { w with store := s, generation := w.generation + 1 }

/-- Goes back to the store of a snapshot. A store that was replaced in the meantime by another one
is not the one that goes back. -/
def rollBack (generation : Nat) (snapshot : Value) : Sync Unit := do
  let s ← build snapshot
  modify fun w => if w.generation = generation then { w with store := s } else w
  let count := s.records.length
  log storeChannel .debug s!"Rolled back store to {count} records"

/-- Runs a step as one unit: if it fails, the store goes back to what it was before. -/
def transaction (x : Sync α) : Sync α := do
  let w ← get
  let snapshot ← result w.store.snapshot
  try x
  catch f =>
    rollBack w.generation snapshot
    throw f

end Sync

end Roster
