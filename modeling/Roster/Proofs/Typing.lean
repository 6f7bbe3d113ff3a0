import Mathlib.Algebra.Group.Nat.Defs
import Roster.Provider.Memory
import Roster.Policy
import Roster.Store

/-!
# Typed data

Documents may hold any value anywhere, and most functions of this library take what they are given.
Data is *typed* if every field holds what it is meant for: ids and names are texts, a time is a
number that binary64 can hold, a set of names holds texts, and so on. The statements about
synchronisation, snapshots and jobs are about typed data, since everything else fails sooner or
later for a reason of its own.

* `Record.Typed`, `Identity.Typed`, `Policy.Typed`: one field of the structure for each field.
* `Store.Typed`: all records are typed. In a well-formed store member lists then hold texts too,
  since only a text stands for a text (`Scalar.eq_text_of_key`).
* `Memory.Typed`: what the operations that build a provider in memory lead to from typed data.
-/

namespace Roster

/-- The value is a text. -/
def Value.IsText (v : Value) : Prop := ∃ t, v = .text t

/-- The value is a number within the range of binary64. -/
def Value.IsTime (v : Value) : Prop := ∃ n : Number, v = .number n ∧ n.toReal?.isSome

/-- All members are texts. -/
def NameSet.Texts (s : NameSet) : Prop := ∀ x ∈ s.members, ∃ t, x = .text t

/-- The id is a text, and so is the provider if it is known. -/
structure Ref.Typed (r : Ref) : Prop where
  id : r.id.IsText
  provider : r.provider = .null ∨ r.provider.IsText

/-- Every field of a record holds what it is meant for. -/
structure Record.Typed (r : Record) : Prop where
  id : r.id.IsText
  group : ∃ b, r.group = .bool b
  principalName : r.principalName.IsText
  ref : ∀ q, r.ref = some q → q.Typed
  mode : ∃ m, r.mode = some m
  lastSynced : r.lastSynced = .null ∨ r.lastSynced.IsTime
  names : ∀ ns, r.names = some ns → ∃ s, ns = .set s ∧ s.Texts
  properties : ∃ fs, r.properties = .mapping fs

/-- All records are typed. -/
def Store.Typed (s : Store) : Prop := ∀ r ∈ s.all, r.Typed

theorem Store.typed_empty : Store.Typed {} := by
  intro r hr
  cases hr

/-- Every field of an identity holds what it is meant for, and the identity is a user or a group. -/
structure Identity.Typed (i : Identity) : Prop where
  id : i.id.IsText
  principalName : i.principalName.IsText
  ref : ∃ q, i.ref = some q ∧ q.Typed
  known : i.isKnown = true
  groups : ∀ g ∈ i.groups, ∃ q, g = some q ∧ q.Typed
  properties : ∃ fs, i.properties = .mapping fs

/-- Local property names are mapped to names. -/
def Fields.MapNames (fs : Fields) : Prop := ∀ p ∈ fs, p.2.IsText

/-- Every field of a policy holds what it is meant for. -/
structure Policy.Typed (p : Policy) : Prop where
  provider : p.provider.IsText
  userGroups : p.user.autoMembership.Texts
  userMapping : Fields.MapNames p.user.propertyMapping
  userExpiration : p.user.expirationTime.IsTime
  groupGroups : p.group.autoMembership.Texts
  groupMapping : Fields.MapNames p.group.propertyMapping
  groupExpiration : p.group.expirationTime.IsTime

/-- A provider in memory with a text for a name, whose identities are typed and stand under their
own ids with references into the provider. -/
structure Memory.Typed (m : Memory) : Prop where
  name : m.name.IsText
  identities : ∀ k i, (k, i) ∈ m.identities →
    i.Typed ∧ i.id.toKey = .ok k ∧ i.ref = some (m.ref i.id)

/-- Only a text stands for a text. -/
theorem Scalar.eq_text_of_key {x : Scalar} {t : String} (h : x.key = .text t) : x = .text t := by
  cases x with
  | text s => simpa [Scalar.key] using h
  | null => simp [Scalar.key] at h
  | bool b => simp [Scalar.key] at h
  | number n => simp [Scalar.key] at h

theorem NameSet.texts_empty : NameSet.Texts ∅ := fun _ hx => absurd hx List.not_mem_nil

theorem NameSet.Texts.insert {s : NameSet} {t : String} (h : s.Texts) :
    (s.insert (.text t)).Texts := by
  intro x hx
  have hk : x.key ∈ keysOf (insertName (.text t) s.members) := List.mem_map_of_mem hx
  rcases mem_keysOf_insertName.1 hk with he | hm
  · exact ⟨t, Scalar.eq_text_of_key he⟩
  · obtain ⟨y, hy, he⟩ := List.mem_map.1 hm
    obtain ⟨u, rfl⟩ := h y hy
    exact ⟨u, Scalar.eq_text_of_key he.symm⟩

namespace Value

theorem IsText.toKey {v : Value} (h : v.IsText) : ∃ t, v.toKey = .ok (.text t) := by
  obtain ⟨t, rfl⟩ := h
  exact ⟨t, rfl⟩

/-- Only scalars are equal to a scalar. -/
theorem exists_scalar_of_beq {a : Scalar} {v : Value} (h : (scalar a == v) = true) :
    ∃ b, v = scalar b ∧ a.key = b.key := by
  cases v with
  | scalar b => exact ⟨b, rfl, Scalar.beq_iff.1 (by rwa [scalar_beq_scalar] at h)⟩
  | list _ => cases h
  | mapping _ => cases h

theorem null_beq_iff {v : Value} : (null == v) = true ↔ v = null := by
  refine ⟨fun h => ?_, by rintro rfl; rfl⟩
  obtain ⟨b, rfl, hb⟩ := exists_scalar_of_beq h
  cases b <;> simp [Scalar.key] at hb ⊢

theorem text_beq_iff {v : Value} {t : String} : (text t == v) = true ↔ v = text t := by
  refine ⟨fun h => ?_, by rintro rfl; simp⟩
  obtain ⟨b, rfl, hb⟩ := exists_scalar_of_beq h
  rw [Scalar.eq_text_of_key hb.symm]

theorem beq_text_iff {v : Value} {t : String} : (v == text t) = true ↔ v = text t := by
  cases v with
  | scalar a =>
    rw [scalar_beq_scalar, Scalar.beq_iff]
    refine ⟨fun h => ?_, fun h => by rw [Value.scalar.inj h]⟩
    rw [Scalar.eq_text_of_key h]
  | list _ => exact iff_of_false nofun nofun
  | mapping _ => exact iff_of_false nofun nofun

theorem isTime_int {n : Int} (h : n.natAbs < 2 ^ 64) : (int n).IsTime := by
  have hb : (2 : Nat) ^ 64 ≤ Binary64.bound := by decide +kernel
  refine ⟨.int n, rfl, ?_⟩
  rw [Number.toReal?, if_pos (Nat.lt_of_lt_of_le h hb)]
  rfl

end Value

/-- A policy that names its provider and leaves everything else as it is by default. -/
theorem Policy.typed_default (p : String) : Policy.Typed { provider := .text p } where
  provider := ⟨p, rfl⟩
  userGroups := NameSet.texts_empty
  userMapping := fun _ hp => absurd hp List.not_mem_nil
  userExpiration := Value.isTime_int (by decide)
  groupGroups := NameSet.texts_empty
  groupMapping := fun _ hp => absurd hp List.not_mem_nil
  groupExpiration := Value.isTime_int (by decide)

end Roster
