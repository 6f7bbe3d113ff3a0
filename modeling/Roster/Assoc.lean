/-!
# Associations in insertion order

A mapping of a document keeps its keys in the order in which they were first written. It is a list
of pairs with at most one pair per key; setting a key that exists keeps its place and its form, a
new key goes to the end. Keys are compared by `==`, which may take different forms of a key for
one. `List.lookup` is the view: `lookup_set` and `lookup_erase` say what each operation does to it.
-/

namespace Roster

/-- A mapping in insertion order. -/
abbrev Assoc (κ α : Type) := List (κ × α)

namespace Assoc

variable {κ α : Type} [BEq κ]

/-- Sets a key, in its place when it exists and at the end otherwise. -/
def set (k : κ) (v : α) : Assoc κ α → Assoc κ α
  | [] => [(k, v)]
  | (k', v') :: rest => if k' == k then (k', v) :: rest else (k', v') :: set k v rest

/-- Takes a key out. -/
def erase (k : κ) (m : Assoc κ α) : Assoc κ α := m.filter fun p => !(p.1 == k)

/-- The keys in insertion order. -/
def keys (m : Assoc κ α) : List κ := m.map (·.1)

/-- Whether a key is present. -/
def has (m : Assoc κ α) (k : κ) : Bool := m.any fun p => p.1 == k

/-- The pairs entered one after the other: the last value of a key wins, its first place stays. -/
def ofList (pairs : List (κ × α)) : Assoc κ α :=
  pairs.foldl (fun m p => set p.1 p.2 m) []

theorem lookup_cons (j k : κ) (v : α) (m : Assoc κ α) :
    List.lookup j ((k, v) :: m) = if j == k then some v else List.lookup j m := by
  show (match j == k with
    | true => some v
    | false => List.lookup j m) = _
  cases j == k <;> rfl

/-- A new key goes to the end. -/
theorem set_of_new {k : κ} {m : Assoc κ α} (h : ∀ p ∈ m, (p.1 == k) = false) (v : α) :
    set k v m = m ++ [(k, v)] := by
  induction m with
  | nil => rfl
  | cons p m ih =>
    have hp : ¬ (p.1 == k) = true := by simp [h p List.mem_cons_self]
    rw [set, if_neg hp, ih fun q hq => h q (List.mem_cons_of_mem _ hq), List.cons_append]

/-- A key that exists keeps its place. -/
theorem set_append_cons [ReflBEq κ] {k : κ} {m : Assoc κ α} (h : ∀ p ∈ m, (p.1 == k) = false)
    (u v : α) (m' : Assoc κ α) : set k v (m ++ (k, u) :: m') = m ++ (k, v) :: m' := by
  induction m with
  | nil => simp [set]
  | cons p m ih =>
    have hp : ¬ (p.1 == k) = true := by simp [h p List.mem_cons_self]
    rw [List.cons_append, set, if_neg hp, ih fun q hq => h q (List.mem_cons_of_mem _ hq),
      List.cons_append]

variable [EquivBEq κ]

theorem lookup_append_cons {k : κ} {m : Assoc κ α} (h : ∀ p ∈ m, (p.1 == k) = false)
    (v : α) (m' : Assoc κ α) : List.lookup k (m ++ (k, v) :: m') = some v := by
  have hn : List.lookup k m = none := by
    rw [List.lookup_eq_none_iff]
    intro p hp
    have : ¬ (k == p.1) = true := by
      rw [BEq.comm]
      simp [h p hp]
    simpa [bne] using this
  rw [List.lookup_append, hn, Option.none_or, lookup_cons, BEq.rfl, if_pos rfl]

theorem lookup_set (k j : κ) (v : α) (m : Assoc κ α) :
    List.lookup j (set k v m) = if j == k then some v else List.lookup j m := by
  induction m with
  | nil => rw [set, lookup_cons]
  | cons p rest ih =>
    obtain ⟨k', v'⟩ := p
    by_cases hk : (k' == k) = true
    · have hj : (j == k') = (j == k) := BEq.congr_right hk
      simp only [set, hk, if_true, lookup_cons, hj]
      split <;> rfl
    · simp only [set, hk, if_false, lookup_cons, ih, Bool.false_eq_true]
      by_cases h : (j == k') = true
      · have hj : (j == k) = false := by
          rw [BEq.congr_left h]
          simpa using hk
        simp [h, hj]
      · simp [h]

theorem lookup_erase (k j : κ) (m : Assoc κ α) :
    List.lookup j (erase k m) = if j == k then none else List.lookup j m := by
  induction m with
  | nil => simp [erase]
  | cons p rest ih =>
    obtain ⟨k', v'⟩ := p
    rw [erase] at ih ⊢
    by_cases hk : (k' == k) = true
    · have hj : (j == k') = (j == k) := BEq.congr_right hk
      simp only [List.filter_cons, hk, Bool.not_true, Bool.false_eq_true, if_false, ih, lookup_cons,
        hj]
      split <;> rfl
    · have hk' : (!(k' == k)) = true := by simpa using hk
      simp only [List.filter_cons, hk', if_true, lookup_cons, ih]
      by_cases h : (j == k') = true
      · have hj : (j == k) = false := by
          rw [BEq.congr_left h]
          simpa using hk
        simp [h, hj]
      · simp [h]

end Assoc

end Roster
