import Roster.Proofs.Reference
import Roster.Proofs.Store

/-!
# Snapshots read back

Writing a well-formed store of typed records never fails. Reading the snapshot gives the store back
with every reference replaced by what its written form stands for, and with everything else as it
was: all fields, the order of the records and that of every member list. So the store itself is read
back exactly if all its references are stable (`ofSnapshot_snapshot_eq_iff`).
-/

namespace Roster

/-! ## Names -/

theorem insertName_append {x : Scalar} {l : List Scalar} (h : ∀ y ∈ l, y.key < x.key) :
    insertName x l = l ++ [x] := by
  induction l with
  | nil => rfl
  | cons y ys ih =>
    have hy : y.key < x.key := h y List.mem_cons_self
    have hne : x.key ≠ y.key := by
      intro he
      rw [he] at hy
      exact Key.lt_irrefl _ hy
    rw [insertName, if_neg (Key.lt_asymm hy), if_neg hne,
      ih fun z hz => h z (List.mem_cons_of_mem _ hz), List.cons_append]

namespace NameSet

theorem ext_members {s t : NameSet} (h : s.members = t.members) : s = t := by
  obtain ⟨ms, hs⟩ := s
  obtain ⟨ns, ht⟩ := t
  obtain rfl : ms = ns := h
  rfl

theorem members_foldl_insert {xs : List Scalar} {s : NameSet}
    (h : (keysOf (s.members ++ xs)).Pairwise (· < ·)) :
    (xs.foldl insert s).members = s.members ++ xs := by
  induction xs generalizing s with
  | nil => simp
  | cons x xs ih =>
    have hlt : ∀ y ∈ s.members, y.key < x.key := by
      intro y hy
      rw [keysOf, List.map_append, List.pairwise_append] at h
      exact h.2.2 y.key (List.mem_map_of_mem hy) x.key (by simp)
    have hm : (s.insert x).members = s.members ++ [x] := insertName_append hlt
    rw [List.foldl_cons, ih (by rw [hm, List.append_assoc]; exact h), hm, List.append_assoc]
    rfl

/-- A set is the set of the members it lists, in the forms in which it lists them. -/
theorem ofList_members (s : NameSet) : ofList s.members = s :=
  ext_members (by
    rw [ofList, members_foldl_insert (s := empty) (by simpa [empty] using s.sorted)]
    rfl)

/-- Sets of texts with the same members are equal. -/
theorem Texts.ext {a b : NameSet} (ha : a.Texts) (hb : b.Texts)
    (h : ∀ n, n ∈ a.keys ↔ n ∈ b.keys) : a = b := by
  have hid {l : List Scalar} (hl : ∀ x ∈ l, ∃ t, x = .text t) : (keysOf l).map Key.asText = l := by
    rw [keysOf, List.map_map]
    refine (List.map_congr_left fun x hx => ?_).trans (List.map_id l)
    obtain ⟨t, rfl⟩ := hl x hx
    rfl
  refine ext_members ?_
  rw [← hid ha, ← hid hb]
  exact congrArg _ (sorted_ext a.sorted b.sorted h)

theorem Texts.inOrder? {s : NameSet} (h : s.Texts) : s.inOrder? = some s.members := by
  have ht : s.members.all (·.text?.isSome) = true := by
    rw [List.all_eq_true]
    intro x hx
    obtain ⟨t, rfl⟩ := h x hx
    rfl
  simp [NameSet.inOrder?, ht]

end NameSet

namespace Value

theorem mapM_toScalar (xs : List Scalar) : (xs.map scalar).mapM toScalar = .ok xs := by
  induction xs with
  | nil => rfl
  | cons x xs ih =>
    rw [List.map_cons, List.mapM_cons, ih]
    rfl

theorem toNames_list (xs : List Scalar) :
    (list (xs.map scalar)).toNames = .ok (NameSet.ofList xs) := by
  show (do
    let scalars ← (xs.map scalar).mapM toScalar
    return NameSet.ofList scalars : Except Failure NameSet) = _
  rw [mapM_toScalar]
  rfl

end Value

namespace Store

/-! ## One record -/

theorem namesInOrder_texts {s : NameSet} (h : s.Texts) :
    namesInOrder (.set s) = .ok (s.members.map .scalar) := by
  simp [namesInOrder, orderedNames, h.inOrder?, bind, Except.bind, pure, Except.pure]

/-- The names of a record as they are written. -/
def writtenNames : Names → Value
  | .set s => .list (s.members.map .scalar)
  | .value _ => .null

/-- The fields that have something in them. -/
def optionalFields (fs : List (String × Option Value)) : Fields :=
  fs.filterMap fun (key, v) => v.map fun v => (Scalar.text key, v)

theorem lookup_optionalFields (key : String) {fs : List (String × Option Value)}
    (h : (fs.map (·.1)).Nodup) :
    (optionalFields fs).lookup (.text key) = (fs.lookup key).getD none := by
  induction fs with
  | nil => rfl
  | cons f fs ih =>
    obtain ⟨k, v⟩ := f
    obtain ⟨hk, hfs⟩ := List.nodup_cons.1 h
    have ih := ih hfs
    by_cases he : key = k
    · subst he
      cases v with
      | some v => simp [optionalFields]
      | none =>
        have hn : fs.lookup key = none := by
          rw [List.lookup_eq_none_iff]
          rintro ⟨k, v⟩ hp
          rw [bne_iff_ne]
          rintro rfl
          exact hk (List.mem_map_of_mem (f := (·.1)) hp)
        rw [hn] at ih
        simpa [optionalFields] using ih
    · have hb : (key == k) = false := by simpa using he
      cases v with
      | none => simpa [optionalFields, List.lookup_cons, hb] using ih
      | some v => simpa [optionalFields, List.lookup_cons, hb] using ih

/-- The fields that every entry has. -/
def alwaysFields (r : Record) (mode : Mode) : Fields :=
  [("id", r.id), ("group", r.group), ("principal_name", r.principalName),
    ("mode", .text mode.name)]

/-- The fields that an entry has where there is something to write. -/
def furtherFields (r : Record) : List (String × Option Value) :=
  [("external_id", r.ref.map Ref.written),
    ("last_synced", if r.lastSynced matches .null then none else some r.lastSynced),
    ("external_principal_names", r.names.map writtenNames),
    ("properties", if r.properties.truthy then some r.properties else none)]

/-- The fields of the entry of a typed record. -/
def writtenFields (r : Record) (mode : Mode) : Fields :=
  alwaysFields r mode ++ optionalFields (furtherFields r)

theorem entryField_written {r : Record} {mode : Mode} (key : String) {v : Option Value}
    (hn : (alwaysFields r mode).lookup (.text key) = none)
    (hv : (furtherFields r).lookup key = some v) :
    entryField (writtenFields r mode) key = v.getD .null := by
  have hd : ((furtherFields r).map (·.1)).Nodup := by
    show ["external_id", "last_synced", "external_principal_names", "properties"].Nodup
    decide
  rw [entryField, writtenFields, List.lookup_append, hn, Option.none_or,
    lookup_optionalFields key hd, hv, Option.getD_some]

theorem mapM_namesInOrder {names : Option Names}
    (h : ∀ ns, names = some ns → ∃ s, ns = .set s ∧ s.Texts) :
    ∃ found, names.mapM namesInOrder = .ok found ∧
      found.map Value.list = names.map writtenNames := by
  cases names with
  | none => exact ⟨none, rfl, rfl⟩
  | some ns =>
    obtain ⟨s, rfl, hs⟩ := h ns rfl
    have hsome : (some (Names.set s)).mapM namesInOrder = some <$> namesInOrder (.set s) := rfl
    exact ⟨some (s.members.map .scalar), by rw [hsome, namesInOrder_texts hs]; rfl, rfl⟩

theorem entry_eq {r : Record} {mode : Mode} (h : r.Typed) (hm : r.mode = some mode) :
    entry r = .ok (.mapping (writtenFields r mode)) := by
  obtain ⟨found, hf, hn⟩ := mapM_namesInOrder h.names
  obtain ⟨fs, hp⟩ := h.properties
  unfold entry
  simp only [hm, hf, hp, bind, Except.bind, pure, Except.pure, Functor.map, Except.map,
    Value.toMapping_mapping, Function.comp_def, hn, writtenFields, alwaysFields, furtherFields,
    optionalFields]
  split <;> rfl

end Store

namespace Record

/-- The record as it is read back: with the reference that its written form stands for. -/
def reread (r : Record) : Record :=
  { r with ref := r.ref.bind fun q => (Store.entryRef q.written).toOption.join }

/-- A record is read back as itself exactly if its reference is stable. -/
theorem reread_eq_iff {r : Record} (h : r.Typed) :
    r.reread = r ↔ ∀ q, r.ref = some q → q.Stable := by
  have hr : r.reread = r ↔
      (r.ref.bind fun q => (Store.entryRef q.written).toOption.join) = r.ref := by
    constructor
    · exact fun he => congrArg Record.ref he
    · intro he
      unfold reread
      rw [he]
  rw [hr]
  cases hq : r.ref with
  | none => simp
  | some q =>
    obtain ⟨q', he, hs⟩ := Store.entryRef_written (h.ref q hq)
    simpa [he, Except.toOption] using hs

theorem Typed.reread {r : Record} (h : r.Typed) : r.reread.Typed :=
  { h with
    ref := by
      intro q' hq'
      obtain ⟨q, hq, he⟩ := Option.bind_eq_some_iff.1 hq'
      obtain ⟨t, ht⟩ := (h.ref q hq).written
      rw [ht, Store.entryRef_text] at he
      split at he
      · cases he
      · obtain rfl := Option.some.inj he
        exact Ref.typed_parse t }

end Record

namespace Store

theorem entryRef_typed {ref : Option Ref} (h : ∀ q, ref = some q → q.Typed) :
    entryRef ((ref.map Ref.written).getD .null)
      = .ok (ref.bind fun q => (entryRef q.written).toOption.join) := by
  cases ref with
  | none => rfl
  | some q =>
    obtain ⟨q', he, -⟩ := entryRef_written (h q rfl)
    simp [he, Except.toOption]

theorem entryMode_written (r : Record) (mode : Mode) :
    entryMode (writtenFields r mode) = .ok mode := by
  have hl : (writtenFields r mode).lookup (.text "mode") = some (.text mode.name) := by
    rw [writtenFields, List.lookup_append]
    rfl
  simp [entryMode, hl, modeOf, Value.text?, Mode.ofName?_name]

/-- What an entry says before the record is created. -/
theorem entryRecord_written {r : Record} {mode : Mode} (h : r.Typed) :
    entryRecord (.mapping (writtenFields r mode))
      = .ok (writtenFields r mode,
          { id := r.id, group := r.group, principalName := r.principalName,
            ref := r.reread.ref, mode := some mode }) := by
  have hid : (writtenFields r mode).lookup (.text "id") = some r.id := by
    rw [writtenFields, List.lookup_append]
    rfl
  have hname : (writtenFields r mode).lookup (.text "principal_name") = some r.principalName := by
    rw [writtenFields, List.lookup_append]
    rfl
  have hgroup : entryField (writtenFields r mode) "group" = r.group := by
    rw [entryField, writtenFields, List.lookup_append]
    rfl
  have href : entryField (writtenFields r mode) "external_id" = (r.ref.map Ref.written).getD .null :=
    entryField_written "external_id" rfl rfl
  obtain ⟨b, hb⟩ := h.group
  have htruthy : Value.bool r.group.truthy = r.group := by rw [hb]; rfl
  simp only [entryRecord, Value.mapping?, entryMode_written, hid, hname, hgroup, href, htruthy,
    entryRef_typed h.ref, bind, Except.bind, pure, Except.pure, Option.getD_some, Record.reread]

/-- What an entry says about the record once it is created. -/
theorem entryDetails_written {r q : Record} {mode : Mode} (h : r.Typed) :
    entryDetails (writtenFields r mode) q
      = .ok { q with lastSynced := r.lastSynced, names := r.names, properties := r.properties } := by
  have htime : entryField (writtenFields r mode) "last_synced" = r.lastSynced := by
    rw [entryField_written "last_synced" rfl rfl]
    split
    · split at * <;> simp_all
    · rfl
  have hnames : entryField (writtenFields r mode) "external_principal_names"
      = (r.names.map writtenNames).getD .null :=
    entryField_written "external_principal_names" rfl rfl
  have hprops : (entryField (writtenFields r mode) "properties").orElse (.mapping [])
      = r.properties := by
    rw [entryField_written "properties" rfl rfl]
    obtain ⟨fs, hp⟩ := h.properties
    rw [hp]
    cases fs <;> rfl
  obtain ⟨fs, hp⟩ := h.properties
  unfold entryDetails
  rw [htime, hnames, hprops, hp]
  cases hns : r.names with
  | none => rfl
  | some ns =>
    obtain ⟨s, rfl, -⟩ := h.names ns hns
    simp only [Option.map_some, Option.getD_some, writtenNames, Value.toNames_list,
      NameSet.ofList_members]
    rfl

/-! ## All records -/

theorem has_eq_false_iff {s : Store} {k : Key} :
    s.has k = false ↔ ∀ p ∈ s.records, (p.1 == k) = false := by
  rw [← Bool.not_eq_true, has_iff, not_exists]
  simp only [find?, List.lookup_eq_some_iff]
  constructor
  · intro h p hp
    rw [beq_eq_false_iff_ne]
    rintro rfl
    have hs : (s.records.lookup p.1).isSome := List.lookup_isSome_iff.2 ⟨p, hp, by simp⟩
    obtain ⟨r, hr⟩ := Option.isSome_iff_exists.1 hs
    exact h r (List.lookup_eq_some_iff.1 hr)
  · rintro h r ⟨l₁, l₂, he, -⟩
    have := h (k, r) (by rw [he]; simp)
    simp at this

/-- Reading the entry of a record that is not there yet adds the record at the end, and a group
without members. -/
theorem readEntry_written {s : Store} {r : Record} {mode : Mode} {x : Scalar} (h : r.Typed)
    (hm : r.mode = some mode) (hid : r.id = .scalar x) (hr : ∀ p ∈ s.records, (p.1 == x.key) = false)
    (hg : ∀ p ∈ s.members, (p.1 == x) = false) :
    readEntry s (.mapping (writtenFields r mode))
      = .ok { records := s.records ++ [(x.key, r.reread)]
              members := if r.isGroup then s.members ++ [(x, [])] else s.members } := by
  have hnew : s.has x.key = false := has_eq_false_iff.2 hr
  have hrest (q : Record) :
      s.records.map (fun p => if p.1 = x.key then (p.1, q) else p) = s.records := by
    rw [List.map_congr_left (g := id), List.map_id]
    intro p hp
    have : p.1 ≠ x.key := by simpa using hr p hp
    simp [this]
  simp only [readEntry, entryRecord_written h, upTo, hid, Value.toKey, create, Value.toScalar,
    hnew, Record.isGroup, entryDetails_written h, modify, Assoc.set_of_new hr, Assoc.set_of_new hg,
    bind, Except.bind, pure, Except.pure, Bool.false_eq_true, if_false, List.map_append,
    List.map_cons, List.map_nil, if_true]
  rw [hrest, ← hid, ← hm]
  rfl

/-- A typed record as an entry of a snapshot. -/
def writtenEntry (r : Record) : Value := .mapping (writtenFields r (r.mode.getD default))

theorem entry_typed {r : Record} (h : r.Typed) : entry r = .ok (writtenEntry r) := by
  obtain ⟨mode, hm⟩ := h.mode
  rw [entry_eq h hm, writtenEntry, hm, Option.getD_some]

theorem mapM_entry {rs : List Record} (h : ∀ r ∈ rs, r.Typed) :
    rs.mapM entry = .ok (rs.map writtenEntry) := by
  induction rs with
  | nil => rfl
  | cons r rs ih =>
    rw [List.mapM_cons, entry_typed (h r List.mem_cons_self),
      ih fun q hq => h q (List.mem_cons_of_mem _ hq)]
    rfl

/-- A snapshot can be taken of every store of typed records. -/
theorem snapshot_eq {s : Store} (h : s.Typed) :
    s.snapshot = .ok (.mapping [("records", .list (s.all.map writtenEntry)),
      ("memberships",
        .mapping (s.memberships.map fun p => (p.1, Value.list (p.2.map .scalar))))]) := by
  rw [snapshot, mapM_entry h]
  rfl

/-- The id of a record as a scalar. -/
def idOf (r : Record) : Scalar := r.id.scalar?.getD .null

/-- The records of a list, read back, and their groups without members. -/
def blank (rs : Assoc Key Record) : Store where
  records := rs.map fun p => (p.1, p.2.reread)
  members := (rs.filter (·.2.isGroup)).map fun p => (idOf p.2, [])

theorem key_idOf {r : Record} {k : Key} (h : r.id.toKey = .ok k) :
    r.id = .scalar (idOf r) ∧ (idOf r).key = k := by
  obtain ⟨x, hx, rfl⟩ := Value.toKey_eq_ok_iff.1 h
  cases hid : r.id with
  | scalar y =>
    rw [hid] at hx
    cases hx
    simp [idOf, hid, Value.scalar?]
  | list _ => rw [hid] at hx; cases hx
  | mapping _ => rw [hid] at hx; cases hx

/-- Reading entries one after the other adds their records in order. -/
theorem foldlM_readEntry (done rs : Assoc Key Record) (ht : ∀ p ∈ done ++ rs, p.2.Typed)
    (hk : ∀ p ∈ done ++ rs, p.2.id.toKey = .ok p.1) (hd : (Assoc.keys (done ++ rs)).Nodup) :
    (rs.map fun p => writtenEntry p.2).foldlM readEntry (blank done) = .ok (blank (done ++ rs)) := by
  induction rs generalizing done with
  | nil => simp [pure, Except.pure]
  | cons p rs ih =>
    have hmem : p ∈ done ++ p :: rs := by simp
    obtain ⟨mode, hm⟩ := (ht p hmem).mode
    obtain ⟨hid, hkey⟩ := key_idOf (hk p hmem)
    have hnew : ∀ q ∈ done, q.1 ≠ p.1 := by
      intro q hq he
      rw [Assoc.keys, List.map_append, List.nodup_append] at hd
      exact hd.2.2 q.1 (List.mem_map_of_mem hq) p.1 (by simp) he
    have hr : ∀ q ∈ (blank done).records, (q.1 == (idOf p.2).key) = false := by
      intro q hq
      obtain ⟨q', hq', rfl⟩ := List.mem_map.1 hq
      rw [hkey, beq_eq_false_iff_ne]
      exact hnew q' hq'
    have hg : ∀ q ∈ (blank done).members, (q.1 == idOf p.2) = false := by
      intro q hq
      obtain ⟨q', hq', rfl⟩ := List.mem_map.1 hq
      have hq'' := (List.mem_filter.1 hq').1
      rw [← Bool.not_eq_true, Scalar.beq_iff, hkey,
        (key_idOf (hk q' (List.mem_append_left _ hq''))).2]
      exact hnew q' hq''
    have hstep : readEntry (blank done) (writtenEntry p.2) = .ok (blank (done ++ [p])) := by
      rw [writtenEntry, hm, Option.getD_some, readEntry_written (ht p hmem) hm hid hr hg, hkey]
      cases hgrp : p.2.isGroup <;> simp [blank, hgrp]
    rw [List.map_cons, List.foldlM_cons, hstep]
    have happ : done ++ p :: rs = (done ++ [p]) ++ rs := by simp
    rw [happ] at ht hk hd ⊢
    exact ih _ ht hk hd

/-! ## All member lists -/

/-- Reading a member that a group does not have yet adds it at the end of the list. -/
theorem readMember_new {s : Store} {g r : Record} {x m : Scalar} {ms : List Scalar}
    {before after : Assoc Scalar (List Scalar)} (hs : s.members = before ++ (x, ms) :: after)
    (hb : ∀ p ∈ before, (p.1 == x) = false) (hx : g.id = .scalar x) (hg : g.isGroup = true)
    (hr : s.find? m.key = some r) (hm : r.id = .scalar m) (hnew : ms.contains m = false) :
    readMember g s (.scalar m) = .ok { s with members := before ++ (x, ms ++ [m]) :: after } := by
  have hl : s.members.lookup x = some ms := by rw [hs, Assoc.lookup_append_cons hb]
  have hset : s.members.set x (ms ++ [m]) = before ++ (x, ms ++ [m]) :: after := by
    rw [hs, Assoc.set_append_cons hb]
  have hhas : s.has m.key = true := has_iff.2 ⟨r, hr⟩
  simp only [readMember, get, Value.toKey, hr, upTo, addMember, groupMembers, hg, hx, hm,
    Value.toScalar, hl, hhas, hnew, hset, bind, Except.bind, pure, Except.pure, Bool.not_true,
    Bool.false_eq_true, if_false]

/-- Reading members one after the other adds them in order. -/
theorem foldlM_readMember {s : Store} {g : Record} {x : Scalar} (done : List Scalar)
    {ms : List Scalar} {before after : Assoc Scalar (List Scalar)}
    (hs : s.members = before ++ (x, done) :: after)
    (hb : ∀ p ∈ before, (p.1 == x) = false) (hx : g.id = .scalar x) (hg : g.isGroup = true)
    (hm : ∀ m ∈ ms, ∃ r, s.find? m.key = some r ∧ r.id = .scalar m)
    (hd : ((done ++ ms).map Scalar.key).Nodup) :
    (ms.map Value.scalar).foldlM (readMember g) s
      = .ok { s with members := before ++ (x, done ++ ms) :: after } := by
  induction ms generalizing s done with
  | nil => simp [pure, Except.pure, ← hs]
  | cons m ms ih =>
    obtain ⟨r, hr, hid⟩ := hm m List.mem_cons_self
    have hnew : done.contains m = false := by
      rw [← Bool.not_eq_true, List.contains_iff_exists_mem_beq]
      rintro ⟨y, hy, he⟩
      rw [List.map_append, List.nodup_append] at hd
      exact hd.2.2 y.key (List.mem_map_of_mem hy) m.key (by simp) (Scalar.beq_iff.1 he).symm
    have happ : done ++ m :: ms = (done ++ [m]) ++ ms := by simp
    rw [List.map_cons, List.foldlM_cons, readMember_new hs hb hx hg hr hid hnew]
    rw [happ] at hd ⊢
    exact ih _ rfl (fun m' hm' => hm m' (List.mem_cons_of_mem _ hm')) hd

theorem readMembership_written {s : Store} {g : Record} {x : Scalar} {ms : List Scalar}
    {before after : Assoc Scalar (List Scalar)} (hs : s.members = before ++ (x, []) :: after)
    (hb : ∀ p ∈ before, (p.1 == x) = false) (hf : s.find? x.key = some g)
    (hx : g.id = .scalar x) (hg : g.isGroup = true)
    (hm : ∀ m ∈ ms, ∃ r, s.find? m.key = some r ∧ r.id = .scalar m)
    (hd : (ms.map Scalar.key).Nodup) :
    readMembership s (x, .list (ms.map .scalar))
      = .ok { s with members := before ++ (x, ms) :: after } := by
  have hfold := foldlM_readMember [] hs hb hx hg hm hd
  simp only [readMembership, hf, Value.toItems, Value.items?, upTo, bind, Except.bind]
  exact hfold

/-- What the reading of member lists needs of the groups: each is a record of the store under its
own id, with members that are records under their own ids. -/
structure Listed (s : Store) (p : Scalar × List Scalar) : Prop where
  group : ∃ g, s.find? p.1.key = some g ∧ g.id = .scalar p.1 ∧ g.isGroup = true
  members : ∀ m ∈ p.2, ∃ r, s.find? m.key = some r ∧ r.id = .scalar m
  nodup : (p.2.map Scalar.key).Nodup

theorem Listed.of_records {s s' : Store} {p : Scalar × List Scalar} (h : s.Listed p)
    (hr : s'.records = s.records) : s'.Listed p := by
  have hf (k : Key) : s'.find? k = s.find? k := by rw [find?, find?, hr]
  exact ⟨by simpa [hf] using h.group, by simpa [hf] using h.members, h.nodup⟩

/-- Reading the member lists of groups that have no members yet fills them in order; a list that is
empty need not be read. -/
theorem foldlM_readMembership {s : Store} (done todo : Assoc Scalar (List Scalar))
    (hs : s.members = done ++ todo.map fun p => (p.1, []))
    (hl : ∀ p ∈ todo, s.Listed p) (hd : ((done ++ todo).map (·.1.key)).Nodup) :
    ((todo.filter fun p => !p.2.isEmpty).map fun p =>
        (p.1, Value.list (p.2.map .scalar))).foldlM readMembership s
      = .ok { s with members := done ++ todo } := by
  induction todo generalizing s done with
  | nil =>
    obtain rfl : s.members = done := by simpa using hs
    simp [pure, Except.pure]
  | cons p todo ih =>
    obtain ⟨x, ms⟩ := p
    have happ : done ++ (x, ms) :: todo = (done ++ [(x, ms)]) ++ todo := by simp
    have hb : ∀ q ∈ done, (q.1 == x) = false := by
      intro q hq
      rw [← Bool.not_eq_true, Scalar.beq_iff]
      rw [List.map_append, List.nodup_append] at hd
      exact hd.2.2 q.1.key (List.mem_map_of_mem (f := (·.1.key)) hq) x.key (by simp)
    have hrest : ∀ p ∈ todo, s.Listed p := fun p hp => hl p (List.mem_cons_of_mem _ hp)
    rw [happ] at hd ⊢
    cases ms with
    | nil =>
      have hs' : s.members = (done ++ [(x, [])]) ++ todo.map fun p => (p.1, []) := by
        rw [hs, List.map_cons, List.append_assoc]
        rfl
      have := ih _ hs' hrest hd
      simpa using this
    | cons m ms =>
      obtain ⟨⟨g, hf, hx, hg⟩, hm, hn⟩ := hl _ List.mem_cons_self
      have hread := readMembership_written hs hb hf hx hg hm hn
      have hfilter : ((x, m :: ms) :: todo).filter (fun p => !p.2.isEmpty)
          = (x, m :: ms) :: todo.filter fun p => !p.2.isEmpty := by simp
      rw [hfilter, List.map_cons, List.foldlM_cons, hread]
      exact ih _ (by simp) (fun p hp => (hrest p hp).of_records rfl) hd

/-! ## The whole store -/

/-- The store as it is read back. -/
def reread (s : Store) : Store := { s with records := s.records.map fun p => (p.1, p.2.reread) }

theorem find?_reread (s : Store) (k : Key) : s.reread.find? k = (s.find? k).map Record.reread := by
  show List.lookup k (s.records.map fun p => (p.1, p.2.reread)) = (s.records.lookup k).map _
  induction s.records with
  | nil => rfl
  | cons p records ih =>
    obtain ⟨k', r⟩ := p
    simp only [List.map_cons, Assoc.lookup_cons, ih]
    split <;> rfl

theorem Typed.reread {s : Store} (h : s.Typed) : s.reread.Typed := by
  intro r hr
  obtain ⟨q, hq, rfl⟩ := List.mem_map.1 hr
  obtain ⟨p, hp, rfl⟩ := List.mem_map.1 hq
  exact (h p.2 (List.mem_map_of_mem hp)).reread

theorem WellFormed.reread {s : Store} (h : s.WellFormed) : s.reread.WellFormed where
  own_keys := by
    intro k r hr
    obtain ⟨p, hp, he⟩ := List.mem_map.1 hr
    obtain ⟨rfl, rfl⟩ := Prod.mk.inj he
    exact h.own_keys p.1 p.2 hp
  keys_nodup := by
    have hk : s.reread.records.keys = s.records.keys := by
      rw [Store.reread, Assoc.keys, List.map_map]
      rfl
    rw [hk]
    exact h.keys_nodup
  groups := by
    have hgroups : Assoc.keys (s.reread.records.filter (·.2.isGroup))
        = Assoc.keys (s.records.filter (·.2.isGroup)) := by
      rw [Store.reread, List.filter_map, Assoc.keys, List.map_map]
      rfl
    rw [hgroups]
    exact h.groups
  members_nodup := h.members_nodup
  members_exist := by
    intro g ms hm m hmem
    obtain ⟨p, hp, he⟩ := List.mem_map.1 (h.members_exist g ms hm m hmem)
    exact List.mem_map.2 ⟨_, List.mem_map_of_mem hp, he⟩

theorem Listed.of_mem {s : Store} (h : s.WellFormed) (ht : s.Typed) {p : Scalar × List Scalar}
    (hp : p ∈ s.members) : s.reread.Listed p where
  group := by
    obtain ⟨g, hf, hg⟩ := h.exists_group hp
    have hid : g.id = .scalar p.1 := ht.id_of_find? h hf
    exact ⟨g.reread, by rw [find?_reread, hf, Option.map_some], hid, hg⟩
  members := by
    intro m hm
    obtain ⟨r, hf⟩ := h.exists_member hp hm
    have hid : r.id = .scalar m := ht.id_of_find? h hf
    exact ⟨r.reread, by rw [find?_reread, hf, Option.map_some], hid⟩
  nodup := h.members_nodup p.1 p.2 hp

/-- The groups of the records, in their order, are those that have member lists. -/
theorem members_blank {s : Store} (h : s.WellFormed) (ht : s.Typed) :
    (blank s.records).members = s.members.map fun p => (p.1, []) := by
  -- a text is told by its key, so that lists of texts are equal if their keys are
  have hgroups : (s.records.filter (·.2.isGroup)).map (fun p => (idOf p.2, ([] : List Scalar)))
      = (Assoc.keys (s.records.filter (·.2.isGroup))).map fun k => (k.asText, []) := by
    rw [Assoc.keys, List.map_map]
    refine List.map_congr_left fun p hp => ?_
    obtain ⟨hp, -⟩ := List.mem_filter.1 hp
    obtain ⟨hid, hk⟩ := key_idOf (h.own_keys p.1 p.2 hp)
    obtain ⟨t, ht⟩ := (ht p.2 (List.mem_map_of_mem hp)).id
    have hx : idOf p.2 = .text t := by simp [idOf, ht, Value.scalar?]
    have hk : p.1 = .text t := by rw [← hk, hx]; rfl
    simp [Function.comp, hx, hk]
  have hlists : s.members.map (fun p => (p.1, ([] : List Scalar)))
      = (s.members.keys.map Scalar.key).map fun k => (k.asText, []) := by
    rw [Assoc.keys, List.map_map, List.map_map]
    refine List.map_congr_left fun p hp => ?_
    obtain ⟨g, hf, -⟩ := h.exists_group hp
    obtain ⟨t, hid⟩ := (ht g (mem_all_of_find? hf)).id
    have hx := ht.id_of_find? h hf
    rw [hid] at hx
    obtain hx : p.1 = .text t := by simpa using hx.symm
    simp [Function.comp, hx, Scalar.key]
  rw [hlists, h.groups]
  exact hgroups

/-- A snapshot is read as the store with its references read back. -/
theorem read_snapshot {s : Store} (h : s.WellFormed) (ht : s.Typed) :
    ∃ document, s.snapshot = .ok document ∧ Store.read document = .ok s.reread := by
  refine ⟨_, snapshot_eq ht, ?_⟩
  have hrecords : (s.all.map writtenEntry).foldlM readEntry {} = .ok (blank s.records) := by
    have := foldlM_readEntry [] s.records
      (fun p hp => ht p.2 (List.mem_map_of_mem hp)) (fun p hp => h.own_keys p.1 p.2 hp) h.keys_nodup
    rw [List.nil_append] at this
    rw [all, List.map_map]
    exact this
  have hlists := foldlM_readMembership [] s.members (s := blank s.records)
    (members_blank h ht) (fun p hp => (Listed.of_mem h ht hp).of_records rfl) (by
      rw [List.nil_append]
      have hd := h.keys_nodup
      have hsub : (Assoc.keys (s.records.filter (·.2.isGroup))).Nodup :=
        List.Nodup.sublist (List.Sublist.map _ List.filter_sublist) hd
      rw [← h.groups, Assoc.keys, List.map_map] at hsub
      exact hsub)
  have hitems (xs : List Value) : ((Value.list xs).orElse (.list [])).toItems = .ok xs := by
    cases xs <;> rfl
  have hmapping (fs : Fields) : ((Value.mapping fs).orElse (.mapping [])).mapping? = some fs := by
    cases fs <;> rfl
  have hfields (fs : Fields) : (Value.mapping fs).mapping? = some fs := rfl
  have hr (vs ms : Value) : entryField [("records", vs), ("memberships", ms)] "records" = vs := rfl
  have hm (vs ms : Value) :
      entryField [("records", vs), ("memberships", ms)] "memberships" = ms := rfl
  simp only [read, hfields, hr, hm, hitems, hmapping, upTo, hrecords, bind, Except.bind]
  exact hlists

/-- The references of a store survive a snapshot exactly if all of them are stable. -/
theorem reread_eq_iff {s : Store} (ht : s.Typed) :
    s.reread = s ↔ ∀ r ∈ s.all, ∀ q, r.ref = some q → q.Stable := by
  have hself : s.reread = s ↔ ∀ r ∈ s.all, r.reread = r := by
    constructor
    · intro he r hm
      obtain ⟨⟨k, r'⟩, hp, rfl⟩ := List.mem_map.1 hm
      have hrecs : s.records.map (fun p => (p.1, p.2.reread)) = s.records.map id := by
        rw [List.map_id]
        exact congrArg Store.records he
      exact congrArg Prod.snd (List.map_inj_left.1 hrecs (k, r') hp)
    · intro he
      have hrecs : s.records.map (fun p => (p.1, p.2.reread)) = s.records := by
        rw [List.map_congr_left (g := id), List.map_id]
        intro p hp
        rw [he p.2 (List.mem_map_of_mem hp)]
        rfl
      rw [reread, hrecs]
  rw [hself]
  exact forall₂_congr fun r hm => Record.reread_eq_iff (ht r hm)

/-- Reading back what was written gives the very same store exactly if all references are
stable. -/
theorem ofSnapshot_snapshot_eq_iff {s : Store} (h : s.WellFormed) (ht : s.Typed) :
    (∃ document, s.snapshot = .ok document ∧ ofSnapshot document = .ok s) ↔
      ∀ r ∈ s.all, ∀ q, r.ref = some q → q.Stable := by
  obtain ⟨document, hd, hr⟩ := read_snapshot h ht
  have hof : ofSnapshot document = .ok s.reread := by rw [ofSnapshot, hr]
  rw [← reread_eq_iff ht]
  constructor
  · rintro ⟨document', hd', hof'⟩
    obtain rfl : document = document' := Except.ok.inj (hd.symm.trans hd')
    exact Except.ok.inj (hof.symm.trans hof')
  · intro he
    exact ⟨document, hd, by rw [hof, he]⟩

end Store

end Roster
