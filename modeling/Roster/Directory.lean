import Roster.Directory.Content
import Roster.Directory.Filter
import Roster.Directory.Settings
import Roster.Provider

/-!
# Providers in a directory

A provider whose identities are the entries of a directory. A reference carries the distinguished
name of an entry; the groups of an identity are read from one of its attributes. An entry is a group
if it has one of the object classes of groups, and a user otherwise.

The first component of a group's distinguished name usually tells what the group is called, so that
references to groups can be mapped to principal names without a search. Where the component is of
another attribute the reference does not tell the name.

A search needs a connection (`Directory.link`).
-/

namespace Roster

/-- How a step of opening or closing a connection ends. -/
inductive LinkOutcome where
  | done
  | refused
  | broken (reason : String)

/-- What the other side does with the steps of one connection. -/
structure Link where
  opening : LinkOutcome := .done
  securing : LinkOutcome := .done
  binding : LinkOutcome := .done
  unbinding : LinkOutcome := .done
  /-- The answer that comes with a refusal. -/
  result : DirectoryResult := .invalidCredentials

/-- A provider whose identities are entries of a directory. -/
structure Directory where
  name : Value
  settings : Settings
  content : Content
  /-- The connection, while there is one. -/
  link : Option Link := none

/-- The values of an attribute, whose name may differ in case; a single value counts as a list.
Where there are attributes at all, what is asked for has to be a text. -/
def attributeValues (attributes : Fields) (key : Value) : Except Failure (List Value) :=
  match attributes, key with
  | [], _ => .ok []
  | fields, .text key =>
    match fields.find? fun f => f.1.text?.any (lowercase · == lowercase key) with
    | none => .ok []
    | some (_, .null) => .ok []
    | some (_, .list vs) => .ok vs
    | some (_, v) => .ok [v]
  | _, _ => .error .malformed

namespace Directory

/-- Where log lines of this part come from. -/
def source : String := "providers.ldap_provider"

/-- A reference into the directory. -/
def ref (d : Directory) (name : Value) : Ref := ⟨name, d.name⟩

/-- Fails without a connection. -/
def requireLink (d : Directory) : Reply Unit :=
  match d.link with
  | some _ => .ok ()
  | none => .fail .notConnected

/-- Searches the directory; an entry that does not exist is no failure. -/
def search (d : Directory) (base : Value) (filter : String) (scope : Scope) :
    Reply (List Entry) := do
  d.requireLink
  Reply.log .debug source s!"Searching with filter: {filter} in base: {base}"
  Reply.call (.search base filter scope (← Reply.ofResult d.settings.requested))
  let _ ← Reply.ofResult base.toScalar
  match d.content.search base filter scope with
  | .ok entries => return entries.filter (·.isOwn)
  | .error (.broken reason) => throw (.queryFailed base reason)
  | .error (.answered result) =>
    match result.isNoSuchObject? with
    | some true => return []
    | some false => throw (.searchFailed base result)
    | none => throw .malformed

/-- Whether an entry with the given attributes is a group. -/
def isGroup (d : Directory) (attributes : Fields) : Except Failure Bool := do
  return (← attributeValues attributes (.text "objectClass")).any fun v =>
    d.settings.groupClasses.contains (lowercase v.display)

/-- Adds what the values of an attribute give as a property: a single value as it is, several as a
list. -/
def addProperty (attributes properties : Fields) (key : Value) : Except Failure Fields := do
  match ← attributeValues attributes key with
  | [] => return properties
  | [v] => return properties.set (← key.toScalar) v
  | vs => return properties.set (← key.toScalar) (.list vs)

/-- The identity with an identifier that the attributes of an entry describe. -/
def identityOf (d : Directory) (name : Value) (attributes : Fields) (isGroup : Bool) (id : Value) :
    Except Failure Identity := do
  let keys ← d.settings.propertyKeys
  let properties ← keys.foldlM (addProperty attributes) []
  let groups ← attributeValues attributes d.settings.memberOfKey
  return {
    id := .text id.display
    principalName := .text id.display
    ref := some (d.ref name)
    kind := if isGroup then .group else .user
    groups := groups.map fun g => some (d.ref (.text g.display))
    properties := .mapping properties }

/-- The identity that an entry describes, if it has an identifier. -/
def identity (d : Directory) (e : Entry) : Reply (Option Identity) := do
  let some value := e.attributes | throw (.missingKey "attributes")
  let some attributes := value.mapping? | throw .malformed
  let isGroup ← Reply.ofResult (d.isGroup attributes)
  let key := if isGroup then d.settings.groupKey else d.settings.userKey
  match ← Reply.ofResult (attributeValues attributes key) with
  | [] =>
    let name := e.name
    Reply.log .warning source s!"Entry has no identifier: {name}"
    return none
  | id :: _ => return some (← Reply.ofResult (d.identityOf e.name attributes isGroup id))

/-- The identity behind a reference. -/
def resolve (d : Directory) (r : Ref) : Reply (Option Identity) := do
  if r.provider != d.name then return none
  match ← d.search r.id "(objectClass=*)" .base with
  | [] => return none
  | e :: _ => d.identity e

/-- The first identity that a filter matches. -/
def findOne (d : Directory) (base : Value) (filter : String) : Reply (Option Identity) := do
  match ← d.search base filter .subtree with
  | [] => return none
  | [e] => d.identity e
  | e :: more =>
    let count := more.length + 1
    Reply.log .warning source s!"Filter {filter} matched {count} entries, using the first"
    d.identity e

/-- A user by its id. -/
def user (d : Directory) (id : Value) : Reply (Option Identity) := do
  let s := d.settings
  d.findOne s.userBase (← Reply.ofResult (filterBy s.userFilter s.userKey id))

/-- A group by its name. -/
def group (d : Directory) (name : Value) : Reply (Option Identity) := do
  let s := d.settings
  d.findOne s.groupBase (← Reply.ofResult (filterBy s.groupFilter s.groupKey name))

/-- One entry of a listing of users. -/
def listed (d : Directory) : Except String Entry → Reply (Option Identity)
  | .error reason => .fail (.listingFailed reason)
  | .ok e => if e.isOwn then d.identity e else .ok none

/-- Starts a listing of users. -/
def startListing (d : Directory) : Reply (Option Identity) := do
  d.requireLink
  let s := d.settings
  let keys ← Reply.ofResult s.requested
  Reply.call (.pagedSearch s.userBase s.userFilter .subtree keys s.pageSize)
  let _ ← Reply.ofResult s.userFilter.toScalar
  return none

/-- All users, page by page. -/
def users (d : Directory) : List (Reply (Option Identity)) :=
  d.startListing :: (d.content.listing d.settings.userFilter).map d.listed

/-- The components of the distinguished name that a value is; one that counts as false is an empty
name. -/
def components (name : Value) : Except Failure (List Component) :=
  match name with
  | .text s =>
    match DistinguishedName.parse s with
    | .ok [] => .error (.invalidGroupName name .empty)
    | .ok cs => .ok cs
    | .error fault => .error (.invalidGroupName name fault)
  | v => .error (if v.truthy then .malformed else .invalidGroupName v .empty)

/-- The principal name of a group, if the first component of its distinguished name tells it. -/
def nameOf (d : Directory) (r : Ref) : Reply (Option Value) := do
  match ← Reply.ofResult (components r.id) with
  | [] => return none
  | c :: _ =>
    let wanted := d.settings.groupKey
    let some key := wanted.text? | throw .malformed
    if lowercase c.key == lowercase key then return some (.text c.value)
    let (found, name) := (c.key, r.id)
    Reply.log .debug source s!"RDN attribute {found} of {name} is not {wanted}, fetching the group"
    return none

/-- The provider that answers from the directory. -/
def provider (d : Directory) : Provider where
  name := d.name
  direct := d.settings.direct
  lookup := d.resolve
  nameOf := d.nameOf
  user := d.user
  group := d.group
  users := d.users

end Directory

end Roster
