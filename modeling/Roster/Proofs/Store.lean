import Roster.Proofs.Typing

/-!
# Well-formed stores

In a well-formed store every record is found under the key of its id (`find?_eq_some_iff`), and the
member lists are those of the group records (`exists_group`, `exists_member`). A *sound* store is
well-formed and typed, with references that satisfy a predicate.
-/

namespace Roster

/-- The text that a key is of; null stands for a key of another kind. -/
def Key.asText : Key → Scalar
  | .text t => .text t
  | _ => .null

@[simp] theorem Key.asText_text (t : String) : (Key.text t).asText = .text t := rfl

/-- A well-formed store of typed records whose references satisfy a predicate. -/
structure Store.Sound (P : Ref → Prop) (s : Store) : Prop where
  wellFormed : s.WellFormed
  typed : s.Typed
  refs : ∀ r ∈ s.all, ∀ q, r.ref = some q → P q

namespace Assoc

variable {κ α : Type} [BEq κ] [LawfulBEq κ]

theorem lookup_eq_some_iff_mem {m : Assoc κ α} (h : (keys m).Nodup) {k : κ} {a : α} :
    List.lookup k m = some a ↔ (k, a) ∈ m := by
  induction m with
  | nil => simp
  | cons p m ih =>
    obtain ⟨k', a'⟩ := p
    obtain ⟨hk, hm⟩ := List.nodup_cons.1 h
    rw [lookup_cons]
    by_cases he : k = k'
    · subst he
      have hn : (k, a) ∉ m := fun hmem => hk (List.mem_map_of_mem (f := (·.1)) hmem)
      simp [hn, eq_comm]
    · simp [he, ih hm]

omit [BEq κ] [LawfulBEq κ] in
theorem keys_cons (k : κ) (v : α) (m : Assoc κ α) : keys ((k, v) :: m) = k :: keys m := rfl

/-- Setting a key that is absent puts it at the end; otherwise the keys stay. -/
theorem keys_set (k : κ) (v : α) (m : Assoc κ α) :
    keys (set k v m) = if k ∈ keys m then keys m else keys m ++ [k] := by
  induction m with
  | nil => rfl
  | cons p m ih =>
    obtain ⟨k', v'⟩ := p
    by_cases he : k' = k
    · subst he
      simp [set, keys_cons]
    · have hne : k ≠ k' := fun h => he h.symm
      rw [set, if_neg (by simpa using he), keys_cons, keys_cons, ih]
      simp only [List.mem_cons, hne, false_or]
      split <;> rfl

theorem mem_keys_set {k j : κ} {v : α} {m : Assoc κ α} :
    j ∈ keys (set k v m) ↔ j = k ∨ j ∈ keys m := by
  rw [keys_set]
  split
  · next h => exact ⟨.inr, fun hj => hj.elim (· ▸ h) id⟩
  · simp [or_comm]

theorem nodup_keys_set {k : κ} {v : α} {m : Assoc κ α} (h : (keys m).Nodup) :
    (keys (set k v m)).Nodup := by
  rw [keys_set]
  split
  · exact h
  · next hk =>
    refine List.nodup_append.2 ⟨h, by simp, fun a ha b hb he => ?_⟩
    obtain rfl : b = k := by simpa using hb
    exact hk (he ▸ ha)

theorem mem_of_mem_set {k : κ} {v : α} {m : Assoc κ α} {p : κ × α} (h : p ∈ set k v m) :
    p = (k, v) ∨ p ∈ m := by
  induction m with
  | nil => simpa [set] using h
  | cons q m ih =>
    obtain ⟨k', v'⟩ := q
    rw [set] at h
    split at h
    · next he =>
      obtain rfl : k' = k := by simpa using he
      rcases List.mem_cons.1 h with h | h
      · exact .inl h
      · exact .inr (List.mem_cons_of_mem _ h)
    · rcases List.mem_cons.1 h with h | h
      · exact .inr (h ▸ List.mem_cons_self)
      · exact (ih h).imp_right (List.mem_cons_of_mem _)

end Assoc

namespace Store

variable {s : Store}

theorem mem_all_of_find? {k : Key} {r : Record} (h : s.find? k = some r) : r ∈ s.all := by
  obtain ⟨l₁, l₂, he, -⟩ := List.lookup_eq_some_iff.1 h
  exact List.mem_map.2 ⟨(k, r), by rw [he]; simp, rfl⟩

namespace WellFormed

theorem find?_eq_some_iff (h : s.WellFormed) {k : Key} {r : Record} :
    s.find? k = some r ↔ (k, r) ∈ s.records :=
  Assoc.lookup_eq_some_iff_mem h.keys_nodup

theorem toKey_of_find? (h : s.WellFormed) {k : Key} {r : Record} (hf : s.find? k = some r) :
    r.id.toKey = .ok k :=
  h.own_keys k r (h.find?_eq_some_iff.1 hf)

/-- Every member list belongs to a group record. -/
theorem exists_group (h : s.WellFormed) {x : Scalar} {ms : List Scalar} (hm : (x, ms) ∈ s.members) :
    ∃ g, s.find? x.key = some g ∧ g.isGroup = true := by
  have hx : x.key ∈ s.members.keys.map Scalar.key :=
    List.mem_map_of_mem (List.mem_map_of_mem (f := (·.1)) hm)
  rw [h.groups] at hx
  obtain ⟨⟨k, g⟩, hg, he⟩ := List.mem_map.1 hx
  obtain ⟨hg, hgroup⟩ := List.mem_filter.1 hg
  obtain rfl : k = x.key := he
  exact ⟨g, h.find?_eq_some_iff.2 hg, hgroup⟩

/-- Every group record has a member list. -/
theorem exists_list (h : s.WellFormed) {k : Key} {g : Record} (hf : s.find? k = some g)
    (hg : g.isGroup = true) : ∃ x ms, (x, ms) ∈ s.members ∧ x.key = k := by
  have hk : k ∈ Assoc.keys (s.records.filter (·.2.isGroup)) :=
    List.mem_map_of_mem (f := (·.1))
      (List.mem_filter.2 ⟨h.find?_eq_some_iff.1 hf, by simpa using hg⟩)
  rw [← h.groups] at hk
  obtain ⟨x, hx, rfl⟩ := List.mem_map.1 hk
  obtain ⟨⟨x', ms⟩, hm, rfl⟩ := List.mem_map.1 hx
  exact ⟨x', ms, hm, rfl⟩

/-- Every member is a record. -/
theorem exists_member (h : s.WellFormed) {x m : Scalar} {ms : List Scalar}
    (hm : (x, ms) ∈ s.members) (hmem : m ∈ ms) : ∃ r, s.find? m.key = some r := by
  have := h.members_exist x ms hm m hmem
  obtain ⟨⟨k, r⟩, hr, he⟩ := List.mem_map.1 this
  obtain rfl : k = m.key := he
  exact ⟨r, h.find?_eq_some_iff.2 hr⟩

end WellFormed

/-- Well-formedness of a given store can be computed. -/
instance (s : Store) : Decidable s.WellFormed :=
  decidable_of_iff
    ((∀ p ∈ s.records, p.2.id.toKey.toOption = some p.1) ∧ s.records.keys.Nodup ∧
      s.members.keys.map Scalar.key = Assoc.keys (s.records.filter (·.2.isGroup)) ∧
      (∀ p ∈ s.members, (p.2.map Scalar.key).Nodup) ∧
      ∀ p ∈ s.members, ∀ m ∈ p.2, m.key ∈ s.records.keys) <| by
    have hkey (r : Record) (k : Key) : r.id.toKey.toOption = some k ↔ r.id.toKey = .ok k := by
      cases r.id.toKey <;> simp [Except.toOption]
    constructor
    · rintro ⟨h₁, h₂, h₃, h₄, h₅⟩
      exact ⟨fun k r hr => (hkey r k).1 (h₁ _ hr), h₂, h₃, fun g ms hm => h₄ _ hm,
        fun g ms hm => h₅ _ hm⟩
    · rintro ⟨h₁, h₂, h₃, h₄, h₅⟩
      exact ⟨fun p hp => (hkey p.2 p.1).2 (h₁ _ _ hp), h₂, h₃, fun p hp => h₄ _ _ hp,
        fun p hp => h₅ _ _ hp⟩

/-- The id of a typed record is the text it is kept under. -/
theorem Typed.id_of_find? (ht : s.Typed) (h : s.WellFormed) {x : Scalar} {r : Record}
    (hf : s.find? x.key = some r) : r.id = .scalar x := by
  obtain ⟨t, hid⟩ := (ht r (mem_all_of_find? hf)).id
  have hk := h.toKey_of_find? hf
  rw [hid, Value.toKey_text] at hk
  have hx : x.key = .text t := by simpa using hk.symm
  rw [hid, Scalar.eq_text_of_key hx]

/-- The id that a record is found under is its own. -/
theorem Typed.id_eq_of_find? (ht : s.Typed) (h : s.WellFormed) {id : Value} {k : Key} {r : Record}
    (hid : id.toKey = .ok k) (hk : s.find? k = some r) : r.id = id := by
  obtain ⟨x, hx, rfl⟩ := Value.toKey_eq_ok_iff.1 hid
  rw [ht.id_of_find? h hk]
  cases id with
  | scalar y => rw [Except.ok.inj hx]
  | list _ => cases hx
  | mapping _ => cases hx

end Store

end Roster
