import Roster.Store
import Roster.Value.Convert

/-!
# Store snapshots

A store is saved as a document with the list of its records and the mapping of its member lists;
fields without content and empty member lists are left out. Reading builds the store record by
record and membership by membership. A record without a mode was written before there were modes:
with a synchronisation time and no names it is a legacy record.

A reading that fails still says which records were created before (`Reading`), because their
creation is logged.
-/

namespace Roster

namespace Store

/-! ## Writing -/

/-- The names of a record in increasing order; names without a common order are a failure. -/
def orderedNames (names : NameSet) : Except Failure (List Scalar) :=
  match names.inOrder? with
  | some ns => .ok ns
  | none => .error .malformed

/-- The names on a record in increasing order. -/
def namesInOrder : Names → Except Failure (List Value)
  | .set names => do return (← orderedNames names).map .scalar
  | .value v => do Value.ascending (← v.toItems)

/-- A record as an entry of a snapshot. -/
def entry (r : Record) : Except Failure Value := do
  let some mode := r.mode | throw .malformed
  let names := (← r.names.mapM namesInOrder).map Value.list
  let properties ←
    if r.properties.truthy then (some ∘ .mapping) <$> r.properties.toMapping else pure none
  let always : Fields :=
    [("id", r.id), ("group", r.group), ("principal_name", r.principalName),
      ("mode", .text mode.name)]
  let ref : Option Value := r.ref.map Ref.written
  let time := if r.lastSynced matches .null then none else some r.lastSynced
  return .mapping (always ++
    [("external_id", ref), ("last_synced", time), ("external_principal_names", names),
      ("properties", properties)].filterMap fun (key, v) => v.map fun v => (Scalar.text key, v))

/-- The member lists that are not empty. -/
def memberships (s : Store) : Assoc Scalar (List Scalar) :=
  s.members.filter fun p => !p.2.isEmpty

/-- The store as a document. -/
def snapshot (s : Store) : Except Failure Value := do
  let records ← s.all.mapM entry
  let lists := s.memberships.map fun (g, ms) => (g, Value.list (ms.map .scalar))
  let fields : Fields := [("records", .list records), ("memberships", .mapping lists)]
  return .mapping fields

/-! ## Reading -/

/-- The store read, or the failure with the store as far as it was read. -/
abbrev Reading := Except (Failure × Store) Store

/-- A field of an entry, null where it is absent. -/
def entryField (fields : Fields) (key : String) : Value := (fields.lookup (.text key)).getD .null

/-- The mode that a value names. -/
def modeOf (v : Value) : Except Failure Mode :=
  match v.text?.bind Mode.ofName? with
  | some m => .ok m
  | none => .error (.unknownMode v.inner)

/-- The mode of an entry, stated or told from its other fields. -/
def entryMode (fields : Fields) : Except Failure Mode :=
  match fields.lookup (.text "mode") with
  | some v => modeOf v
  | none =>
    match entryField fields "last_synced", entryField fields "external_principal_names" with
    | .null, _ => .ok .dynamic
    | _, .null => .ok .legacy
    | _, _ => .ok .dynamic

/-- The reference of an entry; a value that counts as false is none. -/
def entryRef (v : Value) : Except Failure (Option Ref) :=
  if v.truthy then
    match v with
    | .text s => .ok (some (.parse s))
    | _ => .error .malformed
  else .ok none

/-- What an entry says about the record before it is created. -/
def entryRecord (entry : Value) : Except Failure (Fields × Record) := do
  let some fields := entry.mapping? | throw .malformed
  let mode ← entryMode fields
  let some id := fields.lookup (.text "id") | throw (.missingKey "id")
  let principalName := (fields.lookup (.text "principal_name")).getD id
  let ref ← entryRef (entryField fields "external_id")
  let group := Value.bool (entryField fields "group").truthy
  return (fields, { id, group, principalName, ref, mode })

/-- The record of an entry with everything the entry says. -/
def entryDetails (fields : Fields) (r : Record) : Except Failure Record := do
  let names ← match entryField fields "external_principal_names" with
    | .null => pure none
    | v => v.toNames.map (some ∘ .set)
  let properties ← ((entryField fields "properties").orElse (.mapping [])).toMapping
  return { r with
    lastSynced := entryField fields "last_synced", names, properties := .mapping properties }

/-- Marks a failure with the store as far as it was read. -/
def upTo {α : Type} (s : Store) : Except Failure α → Except (Failure × Store) α
  | .ok a => .ok a
  | .error f => .error (f, s)

/-- Reads one entry. -/
def readEntry (s : Store) (entry : Value) : Reading := do
  let (fields, r) ← upTo s (entryRecord entry)
  let k ← upTo s r.id.toKey
  let s ← upTo s (s.create r)
  let r ← upTo s (entryDetails fields r)
  return s.modify k fun _ => r

/-- Reads one member of a group. -/
def readMember (g : Record) (s : Store) (member : Value) : Reading := do
  let some r ← upTo s (s.get member) | throw (.unknownMember member, s)
  let (_, s) ← upTo s (s.addMember g r.id)
  return s

/-- Reads one member list. -/
def readMembership (s : Store) (list : Scalar × Value) : Reading := do
  let some g := s.find? list.1.key | throw (.unknownGroup (.scalar list.1), s)
  (← upTo s list.2.toItems).foldlM (readMember g) s

/-- The store that a document describes. -/
def read (document : Value) : Reading := do
  let some fields := document.mapping? | throw (.malformed, {})
  let records ← upTo {} ((entryField fields "records").orElse (.list [])).toItems
  let s ← records.foldlM readEntry {}
  let some lists := ((entryField fields "memberships").orElse (.mapping [])).mapping?
    | throw (.malformed, s)
  lists.foldlM readMembership s

/-- The store that a document describes, with a bare failure. -/
def ofSnapshot (document : Value) : Except Failure Store :=
  match read document with
  | .ok s => .ok s
  | .error (f, _) => .error f

end Store

end Roster
