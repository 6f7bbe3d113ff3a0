import Roster.Proofs.Changes
import Roster.Proofs.Loading
import Roster.Proofs.Typing

/-!
# Completing a configuration

Completing a document adds what it lacks of the defaults. What the document says stays, with one
exception: at a place where the defaults have a section only a mapping is left as it is. Anything
else there, be it null, a text or a list, gives way to the section of the defaults, and an override
from the environment does the same at the place of its section. A text in the place of the section
for the store is accepted and forgotten.

* `lookup_complete`: what becomes of each field.
* `keeps_complete`: completing keeps a document that has mappings where the defaults have sections.
* `load_keeps_iff`: which documents are kept when they are loaded.
-/

namespace Roster

namespace Assoc

variable {κ α : Type} [BEq κ]

/-- Setting a key keeps the keys that are there, in their order. -/
theorem keys_prefix_keys_set (k : κ) (v : α) (m : Assoc κ α) : keys m <+: keys (set k v m) := by
  induction m with
  | nil => exact List.nil_prefix
  | cons p m ih =>
    obtain ⟨k', v'⟩ := p
    rw [set]
    split
    · exact List.prefix_rfl
    · exact List.cons_prefix_cons.2 ⟨rfl, ih⟩

variable [EquivBEq κ]

/-- Forms of one key lead to the same value. -/
theorem lookup_congr {j k : κ} (h : (j == k) = true) (m : Assoc κ α) :
    List.lookup j m = List.lookup k m := by
  induction m with
  | nil => rfl
  | cons p m ih => rw [lookup_cons, lookup_cons, ih, BEq.congr_left h]

theorem has_eq_isSome (m : Assoc κ α) (k : κ) : m.has k = (m.lookup k).isSome := by
  induction m with
  | nil => rfl
  | cons p m ih =>
    obtain ⟨j, v⟩ := p
    rw [lookup_cons, BEq.comm]
    show ((j == k) || has m k) = _
    rw [ih]
    cases j == k <;> rfl

/-- What is at a key after it was set where it was missing. -/
theorem lookup_set_of_missing (j k : κ) (v : α) (m : Assoc κ α) :
    List.lookup k (if m.has j then m else set j v m)
      = if k == j then some ((m.lookup k).getD v) else m.lookup k := by
  rw [has_eq_isSome]
  by_cases hk : (k == j) = true
  · rw [if_pos hk, lookup_congr hk m]
    cases hj : m.lookup j with
    | none => exact (lookup_set j k v m).trans (if_pos hk)
    | some u => exact (lookup_congr hk m).trans hj
  · rw [if_neg hk]
    split
    · rfl
    · exact (lookup_set j k v m).trans (if_neg hk)

end Assoc

/-- No section names a key twice. -/
inductive Fields.WellKeyed : Fields → Prop
  | intro {fs : Fields} (keys : fs.Pairwise fun p q => (p.1 == q.1) = false)
    (sections : ∀ k inner, (k, Value.mapping inner) ∈ fs → WellKeyed inner) : WellKeyed fs

theorem Fields.WellKeyed.inner {ds inner : Fields} {k : Scalar} (hd : ds.WellKeyed)
    (hk : ds.lookup k = some (.mapping inner)) : inner.WellKeyed := by
  obtain ⟨-, hsections⟩ := hd
  obtain ⟨j, hj, -⟩ := Assoc.exists_mem_of_lookup hk
  exact hsections j inner hj

namespace Config

variable {target ds : Fields}

/-! ## Fields -/

/-- What is in the place of a section; anything but a mapping counts as an empty one. -/
def sectionIn : Option Value → Fields
  | some (.mapping fs) => fs
  | _ => []

/-- What becomes of a field, given its default. -/
def filledIn (x : Option Value) : Option Value → Option Value
  | none => x
  | some (.mapping inner) => some (.mapping (complete (sectionIn x) inner))
  | some v => some (x.getD v)

theorem sectionOf_eq (target : Fields) (k : Scalar) :
    sectionOf target k = sectionIn (target.lookup k) := rfl

/-- The target with one field filled in. -/
def fill (target : Fields) (k : Scalar) : Value → Fields
  | .mapping inner => target.set k (.mapping (complete (sectionOf target k) inner))
  | v => if target.has k then target else target.set k v

theorem complete_cons (target : Fields) (k : Scalar) (v : Value) (ds : List (Scalar × Value)) :
    complete target ((k, v) :: ds) = complete (fill target k v) ds := by
  cases v with
  | mapping inner =>
    rw [complete]
    rfl
  | scalar s =>
    rw [complete]
    · rfl
    · intro _ h
      cases h
  | list xs =>
    rw [complete]
    · rfl
    · intro _ h
      cases h

theorem lookup_fill (target : Fields) (j k : Scalar) (v : Value) :
    (fill target j v).lookup k
      = if k == j then filledIn (target.lookup k) (some v) else target.lookup k := by
  cases v with
  | mapping inner =>
    rw [fill, Assoc.lookup_set, sectionOf_eq]
    split
    · next hk => rw [← Assoc.lookup_congr hk target]; rfl
    · rfl
  | scalar s => exact Assoc.lookup_set_of_missing j k _ target
  | list xs => exact Assoc.lookup_set_of_missing j k _ target

/-- What becomes of each field. -/
theorem lookup_complete (hd : ds.WellKeyed) (target : Fields) (k : Scalar) :
    (complete target ds).lookup k = filledIn (target.lookup k) (ds.lookup k) := by
  obtain ⟨hkeys, -⟩ := hd
  induction ds generalizing target with
  | nil => rw [complete]; rfl
  | cons d ds ih =>
    obtain ⟨j, v⟩ := d
    obtain ⟨hj, hkeys⟩ := List.pairwise_cons.1 hkeys
    rw [complete_cons, ih _ hkeys, lookup_fill, Assoc.lookup_cons]
    by_cases hk : (k == j) = true
    · rw [if_pos hk, if_pos hk]
      have hnone : ds.lookup k = none := by
        refine List.lookup_eq_none_iff.2 fun p hp => ?_
        rw [bne, BEq.congr_left hk, hj p hp]
        rfl
      rw [hnone]
      rfl
    · rw [if_neg hk, if_neg hk]

/-- Completing keeps the keys that are there, in their order. -/
theorem keys_prefix_keys_complete (target ds : Fields) :
    Assoc.keys target <+: Assoc.keys (complete target ds) := by
  induction ds generalizing target with
  | nil => simp only [complete, List.prefix_rfl]
  | cons d ds ih =>
    obtain ⟨k, v⟩ := d
    have hmissing (w : Value) :
        Assoc.keys target <+: Assoc.keys (if target.has k then target else target.set k w) := by
      split
      · exact List.prefix_rfl
      · exact Assoc.keys_prefix_keys_set k w target
    have hfill : Assoc.keys target <+: Assoc.keys (fill target k v) := by
      cases v with
      | mapping inner => exact Assoc.keys_prefix_keys_set k _ target
      | scalar _ => exact hmissing _
      | list _ => exact hmissing _
    rw [complete_cons]
    exact hfill.trans (ih _)

end Config

/-! ## Paths -/

namespace Value

variable {v v' v'' u : Value} {lost lost' vacant vacant' : List Scalar → Prop}

/-- The value that a path of keys leads to. -/
def at? : Value → List Scalar → Option Value
  | v, [] => some v
  | v, k :: path => (v.mapping?.bind fun fs => fs.lookup k).bind fun w => w.at? path

theorem at?_mapping_cons (fs : Fields) (k : Scalar) (path : List Scalar) :
    (mapping fs).at? (k :: path) = (fs.lookup k).bind fun w => w.at? path := rfl

theorem at?_append (v : Value) (path path' : List Scalar) :
    v.at? (path ++ path') = (v.at? path).bind fun w => w.at? path' := by
  induction path generalizing v with
  | nil => rfl
  | cons k path ih =>
    simp only [List.cons_append, at?, Option.bind_assoc, ih]

/-- A value beside the same, or a section beside one that goes on from it. -/
inductive Extends : Value → Value → Prop
  | same (v : Value) : Extends v v
  | more {fs fs' : Fields} (h : Assoc.keys fs <+: Assoc.keys fs') :
    Extends (mapping fs) (mapping fs')

theorem Extends.trans (h : v.Extends v') (h' : v'.Extends v'') : v.Extends v'' := by
  cases h with
  | same => exact h'
  | more hkeys =>
    cases h' with
    | same => exact .more hkeys
    | more hkeys' => exact .more (hkeys.trans hkeys')

/-- Only a section goes on from a section. -/
theorem Extends.of_mapping {fs : Fields} (h : (mapping fs).Extends v) : ∃ fs', v = mapping fs' := by
  cases h with
  | same => exact ⟨fs, rfl⟩
  | more => exact ⟨_, rfl⟩

/-- A section goes on from nothing but a section. -/
theorem Extends.mapping_of {fs' : Fields} (h : v.Extends (mapping fs')) :
    ∃ fs, v = mapping fs := by
  cases h with
  | same => exact ⟨fs', rfl⟩
  | more => exact ⟨_, rfl⟩

/-- Whatever a path leads to in the one value it also leads to in the other, where a section may
have gone on. Paths that are `lost` are excepted, and null may be replaced at `vacant` ones. -/
def Keeps (lost vacant : List Scalar → Prop) (v v' : Value) : Prop :=
  ∀ path u, v.at? path = some u → ¬ lost path →
    ∃ u', v'.at? path = some u' ∧ (u.Extends u' ∨ u = null ∧ vacant path)

/-- There is a mapping at these paths, or null or nothing. -/
def Shapely (places : List Scalar → Prop) (v : Value) : Prop :=
  ∀ path u, places path → v.at? path = some u → u = null ∨ ∃ fs, u = mapping fs

namespace Keeps

theorem refl (v : Value) : Keeps lost vacant v v :=
  fun _ u hu _ => ⟨u, hu, .inl (.same u)⟩

theorem trans (h : Keeps lost vacant v v') (h' : Keeps lost vacant v' v'') :
    Keeps lost vacant v v'' := by
  intro path u hu hlost
  obtain ⟨u', hu', hext⟩ := h path u hu hlost
  obtain ⟨u'', hu'', hext'⟩ := h' path u' hu' hlost
  refine ⟨u'', hu'', ?_⟩
  rcases hext with hext | hnull
  · rcases hext' with hext' | ⟨rfl, hvacant⟩
    · exact .inl (hext.trans hext')
    · cases hext
      exact .inr ⟨rfl, hvacant⟩
  · exact .inr hnull

theorem mono (h : Keeps lost vacant v v') (hlost : ∀ path, lost path → lost' path)
    (hvacant : ∀ path, v.at? path = some null → vacant path → vacant' path) :
    Keeps lost' vacant' v v' := by
  intro path u hu hl
  obtain ⟨u', hu', hext⟩ := h path u hu fun hp => hl (hlost path hp)
  refine ⟨u', hu', hext.imp_right ?_⟩
  rintro ⟨rfl, hp⟩
  exact ⟨rfl, hvacant path hu hp⟩

/-- A section stays one. -/
theorem mapping_at {path : List Scalar} {fs : Fields} (h : Keeps lost vacant v v')
    (hv : v.at? path = some (mapping fs)) (hlost : ¬ lost path) :
    ∃ fs', v'.at? path = some (mapping fs') := by
  obtain ⟨u', hu', hext | ⟨hnull, -⟩⟩ := h path _ hv hlost
  · obtain ⟨fs', rfl⟩ := hext.of_mapping
    exact ⟨fs', hu'⟩
  · cases hnull

/-- Keeping a document is keeping the keys and what is in each field. -/
theorem of_fields {fs fs' : Fields} (hkeys : Assoc.keys fs <+: Assoc.keys fs')
    (h : ∀ k u, fs.lookup k = some u → ∃ u', fs'.lookup k = some u' ∧
      (u = null ∧ vacant [k] ∨
        Keeps (fun path => lost (k :: path)) (fun path => vacant (k :: path)) u u')) :
    Keeps lost vacant (mapping fs) (mapping fs') := by
  intro path u hu hlost
  cases path with
  | nil =>
    obtain rfl := Option.some.inj hu
    exact ⟨_, rfl, .inl (.more hkeys)⟩
  | cons k path =>
    rw [at?_mapping_cons, Option.bind_eq_some_iff] at hu
    obtain ⟨w, hw, hu⟩ := hu
    obtain ⟨w', hw', ⟨rfl, hvacant⟩ | hkeeps⟩ := h k w hw
    · rw [at?_mapping_cons, hw', Option.bind_some]
      cases path with
      | nil =>
        obtain rfl := Option.some.inj hu
        exact ⟨w', rfl, .inr ⟨rfl, hvacant⟩⟩
      | cons j path => cases hu
    · rw [at?_mapping_cons, hw', Option.bind_some]
      exact hkeeps path u hu hlost

/-- Setting a field keeps the others. -/
theorem of_set {fs : Fields} {key : String} {w : Value}
    (h : ∀ u, fs.lookup (.text key) = some u →
      u = null ∧ vacant [.text key] ∨ Keeps (fun path => lost (.text key :: path))
        (fun path => vacant (.text key :: path)) u w) :
    Keeps lost vacant (mapping fs) (mapping (fs.set (.text key) w)) := by
  refine of_fields (Assoc.keys_prefix_keys_set _ w fs) fun k u hu => ?_
  rw [Assoc.lookup_set]
  by_cases hk : (k == .text key) = true
  · rw [if_pos hk]
    obtain rfl : k = .text key := Scalar.eq_text_of_key (Scalar.beq_iff.1 hk)
    exact ⟨w, rfl, h u hu⟩
  · rw [if_neg hk]
    exact ⟨u, hu, .inr (refl u)⟩

end Keeps

end Value

/-! ## Sections -/

namespace Config

open Value (Keeps Shapely)

variable {target ds inner fields config config' : Fields} {path : List Scalar} {k : Scalar}
  {env : Environment} {os : List (String × String × String)} {pathValue : Value} {p : String}
  {loaded : Fields}

/-- The path leads to a section. -/
def HasSection (ds : Fields) (path : List Scalar) : Prop :=
  ∃ inner, (Value.mapping ds).at? path = some (.mapping inner)

theorem hasSection_cons :
    HasSection ds (k :: path) ↔
      ∃ inner, ds.lookup k = some (.mapping inner) ∧ HasSection inner path := by
  constructor
  · rintro ⟨fs, hfs⟩
    rw [Value.at?_mapping_cons, Option.bind_eq_some_iff] at hfs
    obtain ⟨w, hw, hfs⟩ := hfs
    cases w with
    | mapping inner => exact ⟨inner, hw, fs, hfs⟩
    | scalar _ => cases path <;> cases hfs
    | list _ => cases path <;> cases hfs
  · rintro ⟨inner, hk, fs, hfs⟩
    exact ⟨fs, by rw [Value.at?_mapping_cons, hk]; exact hfs⟩

theorem wellKeyed_of_section (hd : ds.WellKeyed)
    (h : (Value.mapping ds).at? path = some (.mapping inner)) : inner.WellKeyed := by
  induction path generalizing ds with
  | nil =>
    obtain rfl := Value.mapping.inj (Option.some.inj h)
    exact hd
  | cons k path ih =>
    obtain ⟨outer, hk, -⟩ := hasSection_cons.1 ⟨inner, h⟩
    rw [Value.at?_mapping_cons, hk] at h
    exact ih (hd.inner hk) h

/-- The shape of a document is that of its fields. -/
theorem shapely_iff {fs : Fields} :
    Shapely (HasSection ds) (.mapping fs) ↔
      ∀ k inner u, ds.lookup k = some (.mapping inner) → fs.lookup k = some u →
        u = .null ∨ ∃ part, u = .mapping part ∧ Shapely (HasSection inner) (.mapping part) := by
  constructor
  · intro h k inner u hk hu
    have hplace {path} (hp : HasSection inner path) : HasSection ds (k :: path) :=
      hasSection_cons.2 ⟨inner, hk, hp⟩
    refine (h [k] u (hplace ⟨_, rfl⟩) (by rw [Value.at?_mapping_cons, hu]; rfl)).imp_right ?_
    rintro ⟨part, rfl⟩
    refine ⟨part, rfl, fun path w hp hw => ?_⟩
    exact h (k :: path) w (hplace hp) (by rw [Value.at?_mapping_cons, hu]; exact hw)
  · intro h path u hp hu
    cases path with
    | nil => exact .inr ⟨fs, (Option.some.inj hu).symm⟩
    | cons k path =>
      obtain ⟨inner, hk, hinner⟩ := hasSection_cons.1 hp
      rw [Value.at?_mapping_cons, Option.bind_eq_some_iff] at hu
      obtain ⟨w, hw, hu⟩ := hu
      rcases h k inner w hk hw with rfl | ⟨part, rfl, hpart⟩
      · cases path with
        | nil => exact .inl (Option.some.inj hu).symm
        | cons j path => cases hu
      · exact hpart path u hinner hu

theorem shapely_of_mem {fs : Fields}
    (h : ∀ p ∈ fs, ∀ inner, ds.lookup p.1 = some (.mapping inner) →
      p.2 = .null ∨ ∃ part, p.2 = .mapping part ∧ Shapely (HasSection inner) (.mapping part)) :
    Shapely (HasSection ds) (.mapping fs) := by
  refine shapely_iff.2 fun k inner u hk hu => ?_
  obtain ⟨j, hj, he⟩ := Assoc.exists_mem_of_lookup hu
  exact h (j, u) hj inner ((Assoc.lookup_congr he ds).symm.trans hk)

/-- What is in the place of a section is found from what is in the place of one around it. -/
theorem sectionIn_at? (o : Option Value) (path : List Scalar) :
    sectionIn ((Value.mapping (sectionIn o)).at? path)
      = sectionIn (o.bind fun v => v.at? path) := by
  cases o with
  | none => cases path <;> rfl
  | some v =>
    cases v with
    | mapping fs => rfl
    | scalar _ => cases path <;> rfl
    | list _ => cases path <;> rfl

theorem at?_concat (v : Value) (path : List Scalar) (k : Scalar) :
    v.at? (path ++ [k]) = (sectionIn (v.at? path)).lookup k := by
  rw [Value.at?_append]
  cases v.at? path with
  | none => rfl
  | some w =>
    cases w with
    | mapping fs =>
      show ((fs.lookup k).bind fun u => u.at? []) = fs.lookup k
      cases fs.lookup k <;> rfl
    | scalar _ => rfl
    | list _ => rfl

/-- Where the defaults have a section what is in its place is completed by it. -/
theorem at?_complete (hd : ds.WellKeyed) (h : (Value.mapping ds).at? path = some (.mapping inner))
    (target : Fields) :
    (Value.mapping (complete target ds)).at? path
      = some (.mapping (complete (sectionIn ((Value.mapping target).at? path)) inner)) := by
  induction path generalizing target ds with
  | nil =>
    obtain rfl := Value.mapping.inj (Option.some.inj h)
    rfl
  | cons k path ih =>
    obtain ⟨outer, hk, -⟩ := hasSection_cons.1 ⟨inner, h⟩
    rw [Value.at?_mapping_cons, hk] at h
    rw [Value.at?_mapping_cons, lookup_complete hd, hk]
    refine (ih (hd.inner hk) h (sectionIn (target.lookup k))).trans ?_
    rw [sectionIn_at?]
    rfl

/-- Completing keeps a document that has mappings where the defaults have sections. -/
theorem keeps_complete (hd : ds.WellKeyed) (hshape : Shapely (HasSection ds) (.mapping target)) :
    Keeps (fun _ => False) (HasSection ds) (.mapping target) (.mapping (complete target ds)) := by
  induction hd generalizing target with
  | @intro ds hkeys hsections ih =>
  have hd := Fields.WellKeyed.intro hkeys hsections
  refine .of_fields (keys_prefix_keys_complete target ds) fun k u hu => ?_
  rw [lookup_complete hd, hu]
  cases hk : ds.lookup k with
  | none => exact ⟨u, rfl, .inr (.refl u)⟩
  | some d =>
    cases d with
    | scalar _ => exact ⟨u, rfl, .inr (.refl u)⟩
    | list _ => exact ⟨u, rfl, .inr (.refl u)⟩
    | mapping inner =>
      have hplace (path) (h : HasSection inner path) : HasSection ds (k :: path) :=
        hasSection_cons.2 ⟨inner, hk, h⟩
      refine ⟨_, rfl, ?_⟩
      rcases shapely_iff.1 hshape k inner u hk hu with rfl | ⟨part, rfl, hpart⟩
      · exact .inl ⟨rfl, hplace [] ⟨_, rfl⟩⟩
      · obtain ⟨j, hj, -⟩ := Assoc.exists_mem_of_lookup hk
        exact .inr ((ih j inner hj hpart).mono (fun _ => id) fun path _ => hplace path)

/-! ## Overrides -/

/-- An override changes its field, and its section where there is none. -/
theorem keeps_override {o : String × String × String}
    (hshape : Sets env o → ∀ u, config.lookup (.text o.1) = some u →
      u = .null ∨ ∃ fs, u = .mapping fs)
    (hrun : (override env config o).outcome = .ok config') :
    Keeps (fun path => Sets env o ∧ [.text o.1, .text o.2.1] <+: path)
      (fun path => Sets env o ∧ path = [.text o.1]) (.mapping config) (.mapping config') := by
  obtain ⟨config'', hrun', hstep⟩ := override_outcome env config o
  obtain rfl := Except.ok.inj (hrun'.symm.trans hrun)
  rcases hstep with ⟨hset, secret, rfl⟩ | ⟨-, rfl⟩
  · refine .of_set fun u hu => ?_
    rcases hshape hset u hu with rfl | ⟨fs, rfl⟩
    · exact .inl ⟨rfl, hset, rfl⟩
    · rw [sectionOf_eq, hu]
      refine .inr (.of_fields (Assoc.keys_prefix_keys_set _ _ fs) fun k w hw => ?_)
      rw [Assoc.lookup_set]
      by_cases hk : (k == .text o.2.1) = true
      · -- the path of the field is lost, with all that goes on from it
        obtain rfl : k = .text o.2.1 := Scalar.eq_text_of_key (Scalar.beq_iff.1 hk)
        rw [if_pos hk]
        exact ⟨_, rfl, .inr fun path _ _ hlost => absurd ⟨hset, path, rfl⟩ hlost⟩
      · rw [if_neg hk]
        exact ⟨w, hw, .inr (.refl w)⟩
  · exact .refl _

/-- Overrides change their fields, and their sections where there are none. -/
theorem keeps_overrides
    (hshape : ∀ o ∈ os, Sets env o → ∀ u, config.lookup (.text o.1) = some u →
      u = .null ∨ ∃ fs, u = .mapping fs)
    (hrun : (os.foldlM (override env) config).outcome = .ok config') :
    Keeps (fun path => ∃ o ∈ os, Sets env o ∧ [.text o.1, .text o.2.1] <+: path)
      (fun path => ∃ o ∈ os, Sets env o ∧ path = [.text o.1])
      (.mapping config) (.mapping config') := by
  induction os generalizing config with
  | nil =>
    obtain rfl := Except.ok.inj hrun
    exact .refl _
  | cons o os ih =>
    obtain ⟨config₁, hfirst, hstep⟩ := override_outcome env config o
    rw [List.foldlM_cons, Reply.outcome_bind, hfirst] at hrun
    refine .trans ((keeps_override (hshape o List.mem_cons_self) hfirst).mono
      (fun _ h => ⟨o, List.mem_cons_self, h⟩) fun _ _ h => ⟨o, List.mem_cons_self, h⟩)
      ((ih (fun q hq hset u hu => ?_) hrun).mono ?_ ?_)
    · -- the first override leaves the place of a later one as it was, or with a mapping
      rcases hstep with ⟨-, secret, rfl⟩ | ⟨-, rfl⟩
      · rw [Assoc.lookup_set] at hu
        split at hu
        · exact .inr ⟨_, (Option.some.inj hu).symm⟩
        · exact hshape q (List.mem_cons_of_mem _ hq) hset u hu
      · exact hshape q (List.mem_cons_of_mem _ hq) hset u hu
    · rintro path ⟨q, hq, h⟩
      exact ⟨q, List.mem_cons_of_mem _ hq, h⟩
    · rintro path - ⟨q, hq, h⟩
      exact ⟨q, List.mem_cons_of_mem _ hq, h⟩

/-! ## Defaults -/

theorem wellKeyed_of_flat (hkeys : ds.Pairwise fun p q => (p.1 == q.1) = false)
    (hflat : ds.all (fun d => !d.2.isMapping) = true) : ds.WellKeyed := by
  refine .intro hkeys fun k inner h => ?_
  cases List.all_eq_true.1 hflat _ h

theorem wellKeyed_directoryDefaults : Fields.WellKeyed directoryDefaults :=
  wellKeyed_of_flat (by decide) rfl

theorem wellKeyed_defaults : Fields.WellKeyed defaults := by
  refine .intro (by decide) fun k inner h => ?_
  simp only [defaults, List.mem_cons, List.not_mem_nil, or_false, Prod.mk.injEq,
    Value.mapping.injEq, reduceCtorEq, and_false, false_or] at h
  rcases h with ⟨-, rfl⟩ | ⟨-, rfl⟩ | ⟨-, rfl⟩ | ⟨-, rfl⟩
  · refine .intro (by decide) fun k inner h => ?_
    simp only [List.mem_cons, List.not_mem_nil, or_false, Prod.mk.injEq,
      Value.mapping.injEq] at h
    rcases h with ⟨-, rfl⟩ | ⟨-, rfl⟩
    all_goals
      refine .intro (by decide) fun k inner h => ?_
      simp only [List.mem_cons, List.not_mem_nil, or_false, Prod.mk.injEq, Value.int,
        Value.mapping.injEq, reduceCtorEq, and_false, false_or] at h
      obtain ⟨-, rfl⟩ := h
      exact wellKeyed_of_flat .nil rfl
  · exact wellKeyed_of_flat (by decide) rfl
  · exact wellKeyed_of_flat (by decide) rfl
  · exact wellKeyed_of_flat (by decide) rfl

theorem text_of_default {d : Value} (h : defaults.lookup k = some d) : ∃ key, k = .text key := by
  obtain ⟨j, hj, hk⟩ := Assoc.exists_mem_of_lookup h
  have htext := List.all_eq_true.1 (rfl : defaults.all (fun d => d.1.text?.isSome) = true) _ hj
  cases j with
  | text key => exact ⟨key, Scalar.eq_text_of_key (Scalar.beq_iff.1 hk)⟩
  | null => cases htext
  | bool _ => cases htext
  | number _ => cases htext

/-- No override is about a section that the defaults name. -/
theorem not_overridden_of_default {key : String} {d : Value}
    (h : defaults.lookup (.text key) = some d) : ¬ Overridden env overrides key := by
  rintro ⟨o, ho, rfl, -⟩
  simp only [overrides, List.mem_cons, List.not_mem_nil, or_false] at ho
  rcases ho with rfl | rfl <;> cases h

/-! ## Loading -/

/-- What overrides set, and what is in it. -/
def SetBy (env : Environment) (path : List Scalar) : Prop :=
  ∃ o ∈ overrides, Sets env o ∧ [.text o.1, .text o.2.1] <+: path

/-- The places of sections: those of the defaults, and those that overrides put a secret into. -/
def IsPlace (env : Environment) (path : List Scalar) : Prop :=
  HasSection defaults path ∨ ∃ o ∈ overrides, Sets env o ∧ path = [.text o.1]

theorem not_setBy_of_place (h : IsPlace env path) : ¬ SetBy env path := by
  rintro ⟨o, ho, hset, rest, hrest⟩
  rcases h with hsection | ⟨q, -, -, rfl⟩
  · rw [← hrest] at hsection
    obtain ⟨d, hd, -⟩ := hasSection_cons.1 hsection
    exact not_overridden_of_default hd ⟨o, ho, rfl, hset⟩
  · cases (List.cons.inj hrest).2

/-- Putting the defaults of a directory in changes nothing that is there. -/
theorem keeps_completed (config : Fields) :
    Keeps (fun _ => False) (fun _ => False) (.mapping (complete config defaults))
      (.mapping (completed config)) := by
  unfold completed
  dsimp only
  split
  · next fields _ hfields =>
    refine .of_set fun u hu => .inr ?_
    obtain rfl := Option.some.inj (hfields.symm.trans hu)
    have hflat (path) (h : HasSection directoryDefaults path) : path = [] := by
      cases path with
      | nil => rfl
      | cons k path =>
        obtain ⟨inner, hk, -⟩ := hasSection_cons.1 h
        obtain ⟨j, hj, -⟩ := Assoc.exists_mem_of_lookup hk
        simp [directoryDefaults, Value.texts] at hj
    refine (keeps_complete wellKeyed_directoryDefaults ?_).mono (fun _ => id) ?_
    · intro path u hp hu
      rw [hflat path hp] at hu
      exact .inr ⟨fields, (Option.some.inj hu).symm⟩
    · intro path hnull hp
      rw [hflat path hp] at hnull
      cases hnull
  · exact .refl _

/-- Outside of the directory section only the defaults are put in. -/
theorem lookup_completed (config : Fields) {key : String} (hkey : key ≠ "ldap") :
    (completed config).lookup (.text key)
      = filledIn (config.lookup (.text key)) (defaults.lookup (.text key)) := by
  rw [← lookup_complete wellKeyed_defaults]
  unfold completed
  dsimp only
  split
  · rw [Assoc.lookup_set, if_neg]
    simpa [Scalar.beq_iff, Scalar.key] using hkey
  · rfl

theorem at?_completed (config : Fields) {key : String}
    (h : (Value.mapping defaults).at? (.text key :: path) = some (.mapping inner)) :
    (Value.mapping (completed config)).at? (.text key :: path) = some
      (.mapping (complete (sectionIn ((Value.mapping config).at? (.text key :: path))) inner)) := by
  have hkey : key ≠ "ldap" := by
    rintro rfl
    cases h
  rw [Value.at?_mapping_cons, lookup_completed config hkey, ← lookup_complete wellKeyed_defaults,
    ← Value.at?_mapping_cons]
  exact at?_complete wellKeyed_defaults h config

/-- Completing a configuration leaves the name of the provider. -/
theorem lookup_provider_completed {sync : Fields}
    (hsync : config.lookup (.text "sync") = some (.mapping sync)) :
    ∃ sync', (completed config).lookup (.text "sync") = some (.mapping sync') ∧
      sync'.lookup (.text "provider") = sync.lookup (.text "provider") := by
  have hinner : defaults.lookup (.text "sync") = some (.mapping _) := rfl
  refine ⟨_, by rw [lookup_completed config (by decide), hsync, hinner]; rfl, ?_⟩
  rw [lookup_complete (wellKeyed_defaults.inner hinner)]
  rfl

/-- The configuration has a section at every place. -/
theorem mapping_at_place (hover : (applyOverrides env fields).outcome = .ok config)
    (hplace : IsPlace env path) :
    ∃ fs, (Value.mapping (completed config)).at? path = some (.mapping fs) := by
  rcases hplace with hsection | ⟨o, ho, hset, rfl⟩
  · obtain ⟨inner, hinner⟩ := hsection
    exact (keeps_completed config).mapping_at (at?_complete wellKeyed_defaults hinner config) id
  · obtain ⟨config', hrun, hkeys⟩ := foldlM_override_outcome env overrides fields
    obtain rfl := Except.ok.inj (hrun.symm.trans hover)
    have hover' : Overridden env overrides o.1 := ⟨o, ho, rfl, hset⟩
    obtain ⟨-, part, hpart⟩ := (hkeys o.1).resolve_right fun h => h.1 hover'
    have hnone : defaults.lookup (.text o.1) = none := by
      cases hd : defaults.lookup (.text o.1) with
      | none => rfl
      | some d => exact absurd hover' (not_overridden_of_default hd)
    have hmapping : (Value.mapping (complete config' defaults)).at? [.text o.1]
        = some (.mapping part) := by
      rw [Value.at?_mapping_cons, lookup_complete wellKeyed_defaults, hnone, hpart]
      rfl
    exact (keeps_completed config').mapping_at hmapping id

theorem keeps_of_shapely (hover : (applyOverrides env fields).outcome = .ok config)
    (hshape : Shapely (IsPlace env) (.mapping fields)) :
    Keeps (SetBy env) (IsPlace env) (.mapping fields) (.mapping (completed config)) := by
  have hfirst := keeps_overrides (fun o ho hset u hu =>
    hshape [.text o.1] u (.inr ⟨o, ho, hset, rfl⟩) (by rw [Value.at?_mapping_cons, hu]; rfl)) hover
  obtain ⟨config', hrun, hkeys⟩ := foldlM_override_outcome env overrides fields
  obtain rfl := Except.ok.inj (hrun.symm.trans hover)
  have hsecond : Shapely (HasSection defaults) (.mapping config') := by
    refine shapely_iff.2 fun k inner u hk hu => ?_
    obtain ⟨key, rfl⟩ := text_of_default hk
    obtain ⟨-, hsame⟩ := (hkeys key).resolve_left fun h => not_overridden_of_default hk h.1
    rw [hsame] at hu
    exact shapely_iff.1 (fun path w hp => hshape path w (.inl hp)) _ inner u hk hu
  exact ((hfirst.mono (fun _ => id) fun _ _ => .inr).trans
    ((keeps_complete wellKeyed_defaults hsecond).mono (fun _ => False.elim)
      fun _ _ => .inl)).trans
    ((keeps_completed config').mono (fun _ => False.elim) fun _ _ => False.elim)

theorem problems_eq_ok_nil_iff :
    problems config = .ok [] ↔ syncProblems config = [] ∧ providerProblems config = .ok [] := by
  unfold problems
  cases providerProblems config with
  | error f => exact iff_of_false nofun nofun
  | ok ps => simp [Except.map]

/-- A configuration without problems is completed. -/
theorem check_eq_ok_iff :
    check config = .ok fields ↔ problems config = .ok [] ∧ fields = completed config := by
  unfold check
  constructor
  · intro h
    split at h
    · cases h
    · next hnone => exact ⟨hnone, (Except.ok.inj h).symm⟩
    · cases h
  · rintro ⟨hnone, rfl⟩
    rw [hnone]

theorem check_eq_ok (h : check config = .ok fields) :
    fields = completed config ∧ syncProblems config = [] := by
  obtain ⟨hnone, hfields⟩ := check_eq_ok_iff.1 h
  exact ⟨hfields, (problems_eq_ok_nil_iff.1 hnone).1⟩

theorem eq_true_of_no_problem {b : Bool} {problem : String}
    (h : (if b then [] else [problem]) = []) : b = true := by
  cases b with
  | true => rfl
  | false => cases h

/-- Without problems there is a section that names a provider and has two parts. -/
theorem section_of_syncProblems (h : syncProblems config = []) :
    ∃ sync, config.lookup (.text "sync") = some (.mapping sync) ∧
      (fieldOr sync "provider" .null).truthy = true ∧
      partProblems sync "user" = [] ∧ partProblems sync "group" = [] := by
  unfold syncProblems at h
  split at h
  · next sync hsync =>
    obtain ⟨h, hgroup⟩ := List.append_eq_nil_iff.1 h
    obtain ⟨hprovider, huser⟩ := List.append_eq_nil_iff.1 h
    exact ⟨sync, hsync, eq_true_of_no_problem hprovider, huser, hgroup⟩
  · cases h

theorem check_of_load {files : Files} (h : (load files pathValue env).outcome = .ok fields) :
    ∃ p fields₀ config, pathText (pathFor pathValue env) = .ok p ∧
      fileFields files p = .ok fields₀ ∧ (applyOverrides env fields₀).outcome = .ok config ∧
      check config = .ok fields := by
  unfold load at h
  simp only [Reply.outcome_bind, Reply.outcome_ofResult] at h
  obtain ⟨p, hpath, h⟩ := bind_eq_ok.1 h
  obtain ⟨fields₀, hfile, h⟩ := bind_eq_ok.1 h
  obtain ⟨config, hover, h⟩ := bind_eq_ok.1 h
  obtain ⟨fields', hcheck, h⟩ := bind_eq_ok.1 h
  obtain ⟨_, -, h⟩ := bind_eq_ok.1 h
  obtain rfl : fields' = fields := Except.ok.inj h
  exact ⟨p, fields₀, config, hpath, hfile, hover, hcheck⟩

/-- What a document that counts as an empty mapping becomes is not accepted. -/
theorem ne_nil_of_check (hover : (applyOverrides env fields).outcome = .ok config)
    (hcheck : check config = .ok loaded) : fields ≠ [] := by
  rintro rfl
  obtain ⟨sync, hsync, -⟩ := section_of_syncProblems (check_eq_ok hcheck).2
  obtain ⟨config', hrun, hkeys⟩ := foldlM_override_outcome env overrides []
  obtain rfl := Except.ok.inj (hrun.symm.trans hover)
  obtain ⟨-, hsame⟩ := (hkeys "sync").resolve_left fun h => not_overridden_of_default rfl h.1
  cases hsync.symm.trans hsame

/-- A configuration is loaded from a mapping that has no problems with its overrides put in. -/
theorem load_eq_ok {files : Files} {v : Value} (hpath : pathText (pathFor pathValue env) = .ok p)
    (hdoc : files.read p = .ok (.document v))
    (hload : (load files pathValue env).outcome = .ok loaded) :
    ∃ fields config, v = .mapping fields ∧ (applyOverrides env fields).outcome = .ok config ∧
      loaded = completed config := by
  obtain ⟨p', fields, config, hpath', hfile, hover, hcheck⟩ := check_of_load hload
  obtain rfl := Except.ok.inj (hpath'.symm.trans hpath)
  refine ⟨fields, config, ?_, hover, (check_eq_ok hcheck).1⟩
  have hfields : v.orElse (.mapping []) = .mapping fields := by
    cases hv : v.orElse (.mapping []) with
    | mapping fs =>
      rw [fileFields_of_document hdoc hv] at hfile
      exact congrArg Value.mapping (Except.ok.inj hfile)
    | scalar _ => cases (fileFields_of_other hdoc (by rw [hv]; rfl)).symm.trans hfile
    | list _ => cases (fileFields_of_other hdoc (by rw [hv]; rfl)).symm.trans hfile
  rw [Value.orElse] at hfields
  split at hfields
  · exact hfields
  · exact absurd (Value.mapping.inj hfields).symm (ne_nil_of_check hover hcheck)

/-- A document is kept when it is loaded, except for what overrides set in it, exactly if it has a
mapping, null or nothing at each place of a section. -/
theorem load_keeps_iff {files : Files} {v : Value}
    (hpath : pathText (pathFor pathValue env) = .ok p)
    (hdoc : files.read p = .ok (.document v))
    (hload : (load files pathValue env).outcome = .ok loaded) :
    Keeps (SetBy env) (IsPlace env) v (.mapping loaded) ↔ Shapely (IsPlace env) v := by
  obtain ⟨fields, config, rfl, hover, rfl⟩ := load_eq_ok hpath hdoc hload
  refine ⟨fun h path u hplace hu => ?_, keeps_of_shapely hover⟩
  obtain ⟨fs, hfs⟩ := mapping_at_place hover hplace
  obtain ⟨u', hu', hext | ⟨hnull, -⟩⟩ := h path u hu (not_setBy_of_place hplace)
  · obtain rfl := Option.some.inj (hfs.symm.trans hu')
    exact .inr hext.mapping_of
  · exact .inl hnull

/-- A document with a mapping for the store and null for the users. -/
def settled : Fields := [
  ("provider_type", .text "memory"),
  ("sync", .mapping [("provider", .text "P"), ("user", .null)]),
  ("store", .mapping [("path", .text "data.yaml")])]

theorem shapely_settled : Shapely (IsPlace []) (.mapping settled) := by
  rintro path u (hsection | ⟨o, -, ⟨secret, hsecret, -⟩, -⟩) hu
  · refine shapely_of_mem ?_ path u hsection hu
    simp only [settled, List.forall_mem_cons]
    refine ⟨nofun, fun inner h => .inr ⟨_, rfl, ?_⟩, fun inner h => .inr ⟨_, rfl, ?_⟩, nofun⟩
    all_goals obtain rfl := Value.mapping.inj (Option.some.inj h)
    · refine shapely_of_mem ?_
      simp only [List.forall_mem_cons]
      exact ⟨nofun, fun _ _ => .inl trivial, nofun⟩
    · refine shapely_of_mem ?_
      simp only [List.forall_mem_cons]
      exact ⟨nofun, nofun⟩
  · cases hsecret

/-- Nothing of it is lost. -/
theorem load_keeps_settled :
    ∃ loaded, (load (folderOf (.document (.mapping settled))) (.text "c") []).outcome = .ok loaded ∧
      Keeps (SetBy []) (IsPlace []) (.mapping settled) (.mapping loaded) := by
  have hread := read_folderOf (.document (.mapping settled))
  have hload : (load (folderOf (.document (.mapping settled))) (.text "c") []).outcome
      = .ok (completed settled) :=
    (outcome_load_of_file rfl (fileFields_of_mapping hread) rfl).trans rfl
  exact ⟨_, hload, (load_keeps_iff rfl hread hload).2 shapely_settled⟩

/-- A document with a text in the place of the section for the store. -/
def misplaced : Fields := [
  ("provider_type", .text "memory"),
  ("sync", .mapping [("provider", .text "P")]),
  ("store", .text "data.yaml")]

/-- It is accepted, and the text is lost. -/
theorem load_loses_misplaced :
    ∃ loaded, (load (folderOf (.document (.mapping misplaced))) (.text "c") []).outcome
        = .ok loaded ∧
      (Value.mapping misplaced).at? [.text "store"] = some (.text "data.yaml") ∧
      (Value.mapping loaded).at? [.text "store"]
        = some (.mapping [("path", .text "store.yaml")]) ∧
      ¬ Keeps (SetBy []) (IsPlace []) (.mapping misplaced) (.mapping loaded) := by
  have hread := read_folderOf (.document (.mapping misplaced))
  have hstore : (Value.mapping (completed misplaced)).at? [.text "store"]
      = some (.mapping [("path", .text "store.yaml")]) := by
    rw [Value.at?_mapping_cons, lookup_completed misplaced (by decide)]
    show some (Value.mapping (complete [] [("path", .text "store.yaml")])) = _
    simp only [complete_cons, complete]
    rfl
  refine ⟨completed misplaced, ?_, rfl, hstore, fun h => ?_⟩
  · exact (outcome_load_of_file rfl (fileFields_of_mapping hread) rfl).trans rfl
  · obtain ⟨u, hu, hext | ⟨hnull, -⟩⟩ := h [.text "store"] (.text "data.yaml") rfl
      (not_setBy_of_place (.inl ⟨_, rfl⟩))
    · cases hext
      cases hstore.symm.trans hu
    · cases hnull

end Config

end Roster
