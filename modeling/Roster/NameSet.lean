import Roster.Scalar

/-!
# Sets of names

The principal names a record carries form a set, and so do the groups that a policy names. Names are
mostly texts but may be any scalars, and of scalars that stand for the same thing a set holds the
one that came first. A set is kept as the list of its members, strictly increasing by key, so that
two sets with the same members have the same keys (`NameSet.ext_mem`) and writing a set of texts
needs no further order.
-/

namespace Roster

/-- Puts a name into an increasing list, unless it is there. -/
def insertName (x : Scalar) : List Scalar → List Scalar
  | [] => [x]
  | y :: ys =>
    if x.key < y.key then x :: y :: ys
    else if x.key = y.key then y :: ys
    else y :: insertName x ys

/-- The keys of a list of names. -/
def keysOf (l : List Scalar) : List Key := l.map Scalar.key

theorem mem_keysOf_insertName {x : Scalar} {k : Key} {l : List Scalar} :
    k ∈ keysOf (insertName x l) ↔ k = x.key ∨ k ∈ keysOf l := by
  induction l with
  | nil => simp [insertName, keysOf]
  | cons y ys ih =>
    rw [insertName]
    split
    · simp [keysOf]
    · split
      · next h => simp [keysOf, h]
      · simp only [keysOf, List.map_cons, List.mem_cons] at ih ⊢
        rw [ih]
        grind

theorem sorted_insertName {x : Scalar} {l : List Scalar} (h : (keysOf l).Pairwise (· < ·)) :
    (keysOf (insertName x l)).Pairwise (· < ·) := by
  induction l with
  | nil => simp [insertName, keysOf]
  | cons y ys ih =>
    have h' := List.pairwise_cons.1 h
    rw [insertName]
    split
    · next hxy =>
      refine List.pairwise_cons.2 ⟨fun z hz => ?_, h⟩
      rcases List.mem_cons.1 hz with rfl | hz
      · exact hxy
      · exact Key.lt_trans hxy (h'.1 z hz)
    · split
      · exact h
      · next h1 h2 =>
        refine List.pairwise_cons.2 ⟨fun z hz => ?_, ih h'.2⟩
        rcases mem_keysOf_insertName.1 hz with rfl | hz
        · rcases Key.lt_trichotomy x.key y.key with hlt | heq | hgt
          · exact absurd hlt h1
          · exact absurd heq h2
          · exact hgt
        · exact h'.1 z hz

/-- A finite set of names. -/
structure NameSet where
  members : List Scalar
  sorted : (keysOf members).Pairwise (· < ·)

namespace NameSet

/-- The set without members. -/
def empty : NameSet := ⟨[], .nil⟩

instance : Inhabited NameSet := ⟨empty⟩
instance : EmptyCollection NameSet := ⟨empty⟩

/-- What the members stand for. -/
def keys (s : NameSet) : List Key := keysOf s.members

instance : Membership Scalar NameSet := ⟨fun s x => x.key ∈ s.keys⟩

/-- Adds a name. -/
def insert (s : NameSet) (x : Scalar) : NameSet :=
  ⟨insertName x s.members, sorted_insertName s.sorted⟩

/-- The set of the names in a list. -/
def ofList (xs : List Scalar) : NameSet := xs.foldl insert empty

/-- The number of members. -/
def size (s : NameSet) : Nat := s.members.length

def contains (s : NameSet) (x : Scalar) : Bool := s.members.any (· == x)

/-- The members in increasing order, if they have a common order: texts with texts and numbers with
numbers. -/
def inOrder? (s : NameSet) : Option (List Scalar) :=
  if s.members.length ≤ 1 || s.members.all (·.text?.isSome) || s.members.all (·.number?.isSome)
  then some s.members else none

theorem mem_def {s : NameSet} {x : Scalar} : x ∈ s ↔ x.key ∈ s.keys := Iff.rfl

@[simp] theorem not_mem_empty (x : Scalar) : x ∉ (∅ : NameSet) := List.not_mem_nil

@[simp] theorem mem_insert {s : NameSet} {x y : Scalar} :
    y ∈ s.insert x ↔ y.key = x.key ∨ y ∈ s :=
  mem_keysOf_insertName

theorem contains_iff {s : NameSet} {x : Scalar} : s.contains x = true ↔ x ∈ s := by
  simp [contains, mem_def, keys, keysOf, Scalar.beq_iff]

theorem mem_foldl_insert {xs : List Scalar} {s : NameSet} {y : Scalar} :
    y ∈ xs.foldl insert s ↔ y.key ∈ keysOf xs ∨ y ∈ s := by
  induction xs generalizing s with
  | nil => simp [keysOf]
  | cons x xs ih =>
    rw [List.foldl_cons, ih, mem_insert, keysOf, keysOf, List.map_cons, List.mem_cons]
    grind

@[simp] theorem mem_ofList {xs : List Scalar} {y : Scalar} :
    y ∈ ofList xs ↔ y.key ∈ keysOf xs := by
  rw [ofList, mem_foldl_insert]
  exact or_iff_left (not_mem_empty y)

/-- Increasing lists with the same members are equal. -/
theorem sorted_ext {l₁ l₂ : List Key} (h₁ : l₁.Pairwise (· < ·)) (h₂ : l₂.Pairwise (· < ·))
    (h : ∀ x, x ∈ l₁ ↔ x ∈ l₂) : l₁ = l₂ := by
  induction l₁ generalizing l₂ with
  | nil =>
    cases l₂ with
    | nil => rfl
    | cons y ys => exact absurd ((h y).2 List.mem_cons_self) List.not_mem_nil
  | cons x xs ih =>
    cases l₂ with
    | nil => exact absurd ((h x).1 List.mem_cons_self) List.not_mem_nil
    | cons y ys =>
      rw [List.pairwise_cons] at h₁ h₂
      have hxy : x = y := by
        rcases List.mem_cons.1 ((h x).1 List.mem_cons_self) with e | hx
        · exact e
        · rcases List.mem_cons.1 ((h y).2 List.mem_cons_self) with e | hy
          · exact e.symm
          · exact absurd (h₁.1 y hy) (Key.lt_asymm (h₂.1 x hx))
      subst hxy
      refine congrArg (x :: ·) (ih h₁.2 h₂.2 fun z => ?_)
      have hz := h z
      simp only [List.mem_cons] at hz
      constructor
      · intro hm
        rcases hz.1 (.inr hm) with rfl | hm'
        · exact absurd (h₁.1 _ hm) (Key.lt_irrefl _)
        · exact hm'
      · intro hm
        rcases hz.2 (.inr hm) with rfl | hm'
        · exact absurd (h₂.1 _ hm) (Key.lt_irrefl _)
        · exact hm'

/-- A set is determined by its members, up to the form in which they are written. -/
theorem ext_mem {s t : NameSet} (h : ∀ x, x ∈ s ↔ x ∈ t) : s.keys = t.keys := by
  refine sorted_ext s.sorted t.sorted fun k => ?_
  constructor <;> intro hk
  · obtain ⟨x, hx, rfl⟩ := List.mem_map.1 hk
    exact (h x).1 hk
  · obtain ⟨x, hx, rfl⟩ := List.mem_map.1 hk
    exact (h x).2 hk

end NameSet

end Roster
