import Roster.Record
import Roster.Value.Convert

/-!
# The local store

The store holds the local records by what their ids stand for and, for every group record, the list
of its direct members. Both keep insertion order. A member list keeps the ids in the form in which
they were entered, whatever becomes of the ids of the records. Each operation is a function from a
store to a store; it fails with the store unchanged, also where an id cannot be a key. The equations
below say what an operation does to `find?`, the view of the records.

* `Store.WellFormed`: records are kept under their own ids, ids are unique, exactly the groups have
  member lists, in record order, and a member list names existing records without repetition.
-/

namespace Roster

/-- Local records and direct memberships. -/
structure Store where
  /-- The records in the order of their creation. -/
  records : Assoc Key Record := []
  /-- The members of every group, in the order in which they were added. -/
  members : Assoc Scalar (List Scalar) := []
deriving Inhabited

namespace Store

/-- The record under a key. -/
def find? (s : Store) (k : Key) : Option Record := s.records.lookup k

/-- Whether there is a record under a key. -/
def has (s : Store) (k : Key) : Bool := (s.find? k).isSome

/-- The record with an id. -/
def get (s : Store) (id : Value) : Except Failure (Option Record) := do
  return s.find? (← id.toKey)

/-- All records in order. -/
def all (s : Store) : List Record := s.records.map (·.2)

/-- The ids of the records. -/
def ids (s : Store) : List Value := s.all.map (·.id)

/-- Adds a new record; a group starts without members. -/
def create (s : Store) (r : Record) : Except Failure Store := do
  let id ← r.id.toScalar
  if s.has id.key then throw (.duplicateRecord r.id)
  return {
    records := s.records.set id.key r
    members := if r.isGroup then s.members.set id [] else s.members }

/-- The store without a record, its member list and its memberships. -/
def without (s : Store) (k : Key) : Store where
  records := s.records.erase k
  members := (s.members.filter fun p => p.1.key != k).map fun (g, ms) =>
    (g, ms.filter fun m => m.key != k)

/-- Removes a record together with all its memberships. -/
def remove (s : Store) (id : Value) : Except Failure Store := do
  let k ← id.toKey
  if s.has k then return s.without k else throw (.recordNotFound id)

/-- Changes the record under a key in its place. -/
def modify (s : Store) (k : Key) (f : Record → Record) : Store :=
  { s with records := s.records.map fun p => if p.1 = k then (p.1, f p.2) else p }

/-- The id of a group record and its members. -/
def groupMembers (s : Store) (g : Record) : Except Failure (Scalar × List Scalar) := do
  if !g.isGroup then throw (.notAGroup g.id)
  let group ← g.id.toScalar
  match s.members.lookup group with
  | some ms => return (group, ms)
  | none => throw (.notAGroup g.id)

/-- The groups that a record is a direct member of. -/
def memberOf (s : Store) (id : Value) : Except Failure (List Record) :=
  if s.members.isEmpty then .ok []
  else do
    let member ← id.toScalar
    return s.members.filterMap fun (g, ms) => if ms.contains member then s.find? g.key else none

/-- The direct members of a group. -/
def membersOf (s : Store) (g : Record) : Except Failure (List Record) := do
  return (← s.groupMembers g).2.filterMap fun m => s.find? m.key

/-- Makes a record a direct member of a group; the answer says whether it was not one yet. -/
def addMember (s : Store) (g : Record) (id : Value) : Except Failure (Bool × Store) := do
  let (group, ms) ← s.groupMembers g
  let member ← id.toScalar
  if !s.has member.key then throw (.recordNotFound id)
  if ms.contains member then return (false, s)
  return (true, { s with members := s.members.set group (ms ++ [member]) })

/-- Ends a direct membership; the answer says whether there was one. -/
def removeMember (s : Store) (g : Record) (id : Value) : Except Failure (Bool × Store) := do
  let (group, ms) ← s.groupMembers g
  let member ← id.toScalar
  if ms.contains member then
    return (true, { s with members := s.members.set group (ms.filter (· != member)) })
  return (false, s)

/-- Records under their own ids, unique ids, one duplicate-free list of existing members per group,
groups in record order. -/
structure WellFormed (s : Store) : Prop where
  own_keys : ∀ k r, (k, r) ∈ s.records → r.id.toKey = .ok k
  keys_nodup : s.records.keys.Nodup
  groups : s.members.keys.map Scalar.key = Assoc.keys (s.records.filter (·.2.isGroup))
  members_nodup : ∀ g ms, (g, ms) ∈ s.members → (ms.map Scalar.key).Nodup
  members_exist : ∀ g ms, (g, ms) ∈ s.members → ∀ m ∈ ms, m.key ∈ s.records.keys

theorem wellFormed_empty : WellFormed {} where
  own_keys := by simp
  keys_nodup := .nil
  groups := rfl
  members_nodup := by simp
  members_exist := by simp

/-! ## What the operations do to the view -/

theorem has_iff {s : Store} {k : Key} : s.has k = true ↔ ∃ r, s.find? k = some r :=
  Option.isSome_iff_exists

theorem find?_create {s s' : Store} {r : Record} {k : Key} (hk : r.id.toKey = .ok k)
    (h : s.create r = .ok s') (j : Key) :
    s'.find? j = if j = k then some r else s.find? j := by
  obtain ⟨id, hid, rfl⟩ := Value.toKey_eq_ok_iff.1 hk
  unfold create at h
  simp only [hid, bind, Except.bind, pure, Except.pure] at h
  split at h
  · cases h
  · cases h
    simp only [find?, Assoc.lookup_set, beq_iff_eq]

theorem find?_without (s : Store) (k j : Key) :
    (s.without k).find? j = if j = k then none else s.find? j := by
  simp only [find?, without, Assoc.lookup_erase, beq_iff_eq]

theorem find?_modify (s : Store) (k : Key) (f : Record → Record) (j : Key) :
    (s.modify k f).find? j = if j = k then (s.find? j).map f else s.find? j := by
  unfold find? modify
  generalize s.records = records
  induction records with
  | nil => simp
  | cons p rest ih =>
    obtain ⟨i, r⟩ := p
    by_cases hi : i = k
    · subst hi
      simp only [List.map_cons, if_true, Assoc.lookup_cons, beq_iff_eq, ih]
      split <;> simp_all
    · simp only [List.map_cons, if_neg hi, Assoc.lookup_cons, beq_iff_eq, ih]
      by_cases hj : j = i
      · subst hj; simp [hi]
      · simp [hj]

theorem records_addMember {s s' : Store} {g : Record} {id : Value} {b : Bool}
    (h : s.addMember g id = .ok (b, s')) : s'.records = s.records := by
  unfold addMember at h
  cases hg : s.groupMembers g with
  | error e => simp [hg, bind, Except.bind] at h
  | ok ms =>
    cases hm : id.toScalar with
    | error e => simp [hg, hm, bind, Except.bind] at h
    | ok m =>
      simp only [hg, hm, bind, Except.bind, pure, Except.pure] at h
      split at h
      · cases h
      · split at h <;> cases h <;> rfl

theorem records_removeMember {s s' : Store} {g : Record} {id : Value} {b : Bool}
    (h : s.removeMember g id = .ok (b, s')) : s'.records = s.records := by
  unfold removeMember at h
  cases hg : s.groupMembers g with
  | error e => simp [hg, bind, Except.bind] at h
  | ok ms =>
    cases hm : id.toScalar with
    | error e => simp [hg, hm, bind, Except.bind] at h
    | ok m =>
      simp only [hg, hm, bind, Except.bind, pure, Except.pure] at h
      split at h <;> cases h <;> rfl

end Store

end Roster
