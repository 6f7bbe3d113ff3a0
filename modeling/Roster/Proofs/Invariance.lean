import Roster.Proofs.Outcomes
import Roster.Proofs.Snapshot
import Roster.Sync.Persistence

/-!
# The invariant of the store

A store is well-formed after anything that can be done with it, whether that succeeds or fails: the
operations of the store, synchronisations and conversions of either kind of context under any
policy, failures of the provider and of the store, blocks that are rolled back, and snapshots read
back. If no record of the legacy mode had names in the beginning, none ever has.

* `Store.of_read`: a snapshot that can be read describes a well-formed store.
* `Deed`: what can be done, one thing after the other or in a block.
* `Deed.run_invariant`: the invariant, with what it says about memberships.
-/

namespace Roster

/-- A fold that succeeds keeps what each of its steps keeps. -/
theorem foldlM_keeps {ε α β : Type} {f : α → β → Except ε α} {I : α → Prop} {xs : List β} {a b : α}
    (hf : ∀ a x a', x ∈ xs → I a → f a x = .ok a' → I a') (h0 : I a)
    (h : xs.foldlM f a = .ok b) : I b := by
  induction xs generalizing a with
  | nil =>
    obtain rfl : a = b := Except.ok.inj h
    exact h0
  | cons x xs ih =>
    rw [List.foldlM_cons] at h
    obtain ⟨a', ha, h⟩ := bind_eq_ok.1 h
    refine ih (fun a y a' hy => hf a y a' (List.mem_cons_of_mem _ hy)) ?_ h
    exact hf a x a' List.mem_cons_self h0 ha

namespace Store

variable {s s' : Store} {document v : Value} {k : Key} {r : Record} {α : Type}

/-- No record of the legacy mode has names. -/
def Unmixed (s : Store) : Prop := ∀ r ∈ s.all, r.isLegacy = true → r.names = none

theorem WellFormed.mem_all_iff (h : s.WellFormed) : r ∈ s.all ↔ ∃ k, s.find? k = some r := by
  constructor
  · intro hr
    obtain ⟨⟨k, q⟩, hp, rfl⟩ := List.mem_map.1 hr
    exact ⟨k, h.find?_eq_some_iff.2 hp⟩
  · rintro ⟨k, hk⟩
    exact mem_all_of_find? hk

/-! ## Snapshots -/

theorem upTo_eq_ok {s : Store} {x : Except Failure α} {a : α} : upTo s x = .ok a ↔ x = .ok a := by
  cases x <;> simp [upTo]

/-- The record is what an entry says. -/
def Says (v : Value) (r : Record) : Prop :=
  ∃ fields r₀, entryRecord v = .ok (fields, r₀) ∧ entryDetails fields r₀ = .ok r

/-- What an entry says once the record is created leaves id, type, reference and mode. -/
theorem entryDetails_eq_ok {fields : Fields} {r₀ : Record} (h : entryDetails fields r₀ = .ok r) :
    (r.id = r₀.id ∧ r.group = r₀.group ∧ r.ref = r₀.ref ∧ r.mode = r₀.mode) ∧
      (entryField fields "external_principal_names" = .null → r.names = none) := by
  unfold entryDetails at h
  dsimp only at h
  split at h
  · next hnull =>
    obtain ⟨names, hn, h⟩ := bind_eq_ok.1 h
    obtain ⟨properties, -, h⟩ := bind_eq_ok.1 h
    obtain rfl := Except.ok.inj h
    obtain rfl := Except.ok.inj hn
    exact ⟨⟨rfl, rfl, rfl, rfl⟩, fun _ => rfl⟩
  · next hne =>
    obtain ⟨names, -, h⟩ := bind_eq_ok.1 h
    obtain ⟨properties, -, h⟩ := bind_eq_ok.1 h
    obtain rfl := Except.ok.inj h
    exact ⟨⟨rfl, rfl, rfl, rfl⟩, fun hnull => absurd hnull hne⟩

/-- Reading an entry adds the record that it speaks of. -/
theorem WellFormed.of_readEntry (hs : s.WellFormed) (h : readEntry s v = .ok s') :
    s'.WellFormed ∧ ∀ k r, s'.find? k = some r → s.find? k = some r ∨ Says v r := by
  unfold readEntry at h
  obtain ⟨⟨fields, r₀⟩, hv, h⟩ := bind_eq_ok.1 h
  obtain ⟨k, hk, h⟩ := bind_eq_ok.1 h
  obtain ⟨s₁, hs₁, h⟩ := bind_eq_ok.1 h
  obtain ⟨r, hr, h⟩ := bind_eq_ok.1 h
  obtain rfl := Except.ok.inj h
  rw [upTo_eq_ok] at hv hk hs₁ hr
  obtain ⟨⟨hid, hgroup, -⟩, -⟩ := entryDetails_eq_ok hr
  refine ⟨(hs.of_create hs₁).modify fun q hq => ?_, fun j q hq => ?_⟩
  · rw [find?_create hk hs₁, if_pos rfl] at hq
    obtain rfl := Option.some.inj hq
    exact ⟨hid, hgroup⟩
  · rw [find?_modify] at hq
    split at hq
    · obtain ⟨q', -, rfl⟩ := Option.map_eq_some_iff.1 hq
      exact .inr ⟨fields, r₀, hv, hr⟩
    · next hj =>
      rw [find?_create hk hs₁, if_neg hj] at hq
      exact .inl hq

/-- Reading a member list changes member lists only. -/
theorem WellFormed.of_readMembership {list : Scalar × Value} (hs : s.WellFormed)
    (h : readMembership s list = .ok s') : s'.WellFormed ∧ s'.records = s.records := by
  unfold readMembership at h
  split at h
  · next g _ =>
    obtain ⟨items, -, h⟩ := bind_eq_ok.1 h
    refine foldlM_keeps (I := fun t => t.WellFormed ∧ t.records = s.records) ?_ ⟨hs, rfl⟩ h
    rintro t m t' - ⟨ht, hr⟩ hm
    unfold readMember at hm
    obtain ⟨found, -, hm⟩ := bind_eq_ok.1 hm
    dsimp only at hm
    split at hm
    · next q =>
      obtain ⟨⟨b, t₁⟩, ht₁, hm⟩ := bind_eq_ok.1 hm
      obtain rfl := Except.ok.inj hm
      rw [upTo_eq_ok] at ht₁
      exact ⟨ht.of_addMember ht₁, (records_addMember ht₁).trans hr⟩
    · cases hm
  · cases h

/-- A snapshot that can be read describes a well-formed store, and every record of it is what one of
the entries says. -/
theorem of_read (h : read document = .ok s) : s.WellFormed ∧
    ∃ fields entries, document.mapping? = some fields ∧
      ((entryField fields "records").orElse (.list [])).toItems = .ok entries ∧
      ∀ k r, s.find? k = some r → ∃ v ∈ entries, Says v r := by
  unfold read at h
  split at h
  · next fields hfields =>
    obtain ⟨entries, hentries, h⟩ := bind_eq_ok.1 h
    obtain ⟨s₁, hs₁, h⟩ := bind_eq_ok.1 h
    have hrecords : s₁.WellFormed ∧ ∀ k r, s₁.find? k = some r → ∃ v ∈ entries, Says v r := by
      refine foldlM_keeps (I := fun t : Store => t.WellFormed ∧
        ∀ k r, t.find? k = some r → ∃ v ∈ entries, Says v r) ?_ ⟨wellFormed_empty, nofun⟩ hs₁
      rintro t v t' hv ⟨ht, hsays⟩ hread
      obtain ⟨ht', hadded⟩ := ht.of_readEntry hread
      refine ⟨ht', fun k r hr => ?_⟩
      rcases hadded k r hr with hold | hnew
      · exact hsays k r hold
      · exact ⟨v, hv, hnew⟩
    split at h
    · next lists _ =>
      have hlists := foldlM_keeps (I := fun t : Store => t.WellFormed ∧ t.records = s₁.records)
        (fun t p t' _ ⟨ht, hr⟩ hread => by
          obtain ⟨ht', hr'⟩ := ht.of_readMembership hread
          exact ⟨ht', hr'.trans hr⟩) ⟨hrecords.1, rfl⟩ h
      refine ⟨hlists.1, fields, entries, hfields, upTo_eq_ok.1 hentries, fun k r hr => ?_⟩
      refine hrecords.2 k r ?_
      rw [find?, ← hlists.2]
      exact hr
    · cases h
  · cases h

theorem WellFormed.of_ofSnapshot (h : ofSnapshot document = .ok s) : s.WellFormed := by
  unfold ofSnapshot at h
  split at h
  · next hr => exact (of_read (hr.trans (congrArg Except.ok (Except.ok.inj h)))).1
  · cases h

theorem entry_eq_ok (h : entry r = .ok v) : ∃ mode names time properties,
    r.mode = some mode ∧ r.names.mapM namesInOrder = .ok names ∧
      v = .mapping (alwaysFields r mode ++ optionalFields
        [("external_id", r.ref.map Ref.written), ("last_synced", time),
          ("external_principal_names", names.map Value.list), ("properties", properties)]) := by
  unfold entry at h
  split at h
  · next mode hm =>
    obtain ⟨names, hns, h⟩ := bind_eq_ok.1 h
    dsimp only at h
    split at h
    · obtain ⟨properties, -, h⟩ := bind_eq_ok.1 h
      exact ⟨mode, names, _, properties, hm, hns, (Except.ok.inj h).symm⟩
    · obtain ⟨properties, -, h⟩ := bind_eq_ok.1 h
      exact ⟨mode, names, _, properties, hm, hns, (Except.ok.inj h).symm⟩
  · cases h

theorem entryRecord_eq_ok {fields : Fields} {r₀ : Record} (h : entryRecord v = .ok (fields, r₀)) :
    ∃ mode, v = .mapping fields ∧ entryMode fields = .ok mode ∧ r₀.mode = some mode := by
  unfold entryRecord at h
  split at h
  · next fields' hfields =>
    obtain ⟨mode, hmode, h⟩ := bind_eq_ok.1 h
    split at h
    · obtain ⟨ref, -, h⟩ := bind_eq_ok.1 h
      obtain ⟨rfl, rfl⟩ := Prod.mk.inj (Except.ok.inj h)
      refine ⟨mode, ?_, hmode, rfl⟩
      cases v with
      | mapping fs => rw [Option.some.inj hfields]
      | scalar _ => cases hfields
      | list _ => cases hfields
    · cases h
  · cases h

/-- An entry that was written for a record says its mode, and no names if the record has none. -/
theorem Says.of_entry {r₁ : Record} (h : Says v r) (he : entry r₁ = .ok v) :
    r.mode = r₁.mode ∧ (r₁.names = none → r.names = none) := by
  obtain ⟨fields, r₀, hrecord, hdetails⟩ := h
  obtain ⟨⟨-, -, -, hmode⟩, hnames⟩ := entryDetails_eq_ok hdetails
  obtain ⟨mode, names, time, properties, hm, hns, hv⟩ := entry_eq_ok he
  obtain ⟨mode', rfl, hmode', hr₀⟩ := entryRecord_eq_ok hrecord
  obtain rfl := Value.mapping.inj hv
  have hmodes : mode' = mode := by
    refine Except.ok.inj (hmode'.symm.trans ?_)
    rw [entryMode, List.lookup_append]
    show modeOf (.text mode.name) = _
    simp [modeOf, Value.text?, Mode.ofName?_name]
  refine ⟨by rw [hmode, hr₀, hmodes, hm], fun hnone => hnames ?_⟩
  rw [hnone] at hns
  obtain rfl : names = none := (Except.ok.inj hns).symm
  rw [entryField, List.lookup_append, lookup_optionalFields _ (by simp)]
  rfl

/-- A record that is read back is what the entry of a record says. -/
theorem says_of_snapshot (hd : s.snapshot = .ok document) (hr : read document = .ok s')
    (hk : s'.find? k = some r) : ∃ r₁ ∈ s.all, ∃ v, entry r₁ = .ok v ∧ Says v r := by
  obtain ⟨-, fields, entries, hfields, hentries, hsays⟩ := of_read hr
  unfold snapshot at hd
  obtain ⟨vs, hvs, hd⟩ := bind_eq_ok.1 hd
  obtain rfl := Except.ok.inj hd
  obtain rfl := Option.some.inj hfields
  have hrecords : entries = vs := by
    have hl : ∀ l : List Value, ((Value.list l).orElse (.list [])).toItems = .ok l := by
      intro l
      cases l <;> rfl
    exact Except.ok.inj (hentries.symm.trans (hl vs))
  subst hrecords
  obtain ⟨v, hv, hsaid⟩ := hsays k r hk
  obtain ⟨r₁, hr₁, he⟩ := (mem_of_mapM hvs).2 v hv
  exact ⟨r₁, hr₁, v, he, hsaid⟩

/-- Reading a snapshot back gives no record of the legacy mode names. -/
theorem Unmixed.of_snapshot (h : s.Unmixed) (hd : s.snapshot = .ok document)
    (hr : read document = .ok s') : s'.Unmixed := by
  intro r hmem hlegacy
  obtain ⟨k, hk⟩ := (of_read hr).1.mem_all_iff.1 hmem
  obtain ⟨r₁, hr₁, v, he, hsaid⟩ := says_of_snapshot hd hr hk
  obtain ⟨hmode, hnames⟩ := hsaid.of_entry he
  refine hnames (h r₁ hr₁ ?_)
  rwa [Record.isLegacy, ← hmode]

/-! ## What is kept -/

theorem WellFormed.unmixed_iff (h : s.WellFormed) :
    s.Unmixed ↔ ∀ k r, s.find? k = some r → r.isLegacy = true → r.names = none := by
  constructor
  · exact fun hu k r hr => hu r (mem_all_of_find? hr)
  · intro hu r hr
    obtain ⟨k, hk⟩ := h.mem_all_iff.1 hr
    exact hu k r hk

/-- A well-formed store, and perhaps one in which no record of the legacy mode has names. -/
def Fit (P : Prop) (s : Store) : Prop := s.WellFormed ∧ (P → s.Unmixed)

variable {P : Prop}

/-- Every record is an earlier one, or it has no names in the legacy mode. -/
theorem Fit.of_records (h : s.Fit P) (hs' : s'.WellFormed)
    (hr : ∀ k r, s'.find? k = some r → s.find? k = some r ∨ (r.isLegacy = true → r.names = none)) :
    s'.Fit P := by
  refine ⟨hs', fun hp => hs'.unmixed_iff.2 fun k r hk hl => ?_⟩
  rcases hr k r hk with hold | hnew
  · exact h.1.unmixed_iff.1 (h.2 hp) k r hold hl
  · exact hnew hl

theorem Fit.create (h : s.Fit P) (hn : r.names = none) (hs : s.create r = .ok s') : s'.Fit P := by
  refine h.of_records (h.1.of_create hs) fun j q hq => ?_
  obtain ⟨k, hk, -⟩ := create_eq_ok hs
  rw [find?_create hk hs] at hq
  split at hq
  · obtain rfl := Option.some.inj hq
    exact .inr fun _ => hn
  · exact .inl hq

theorem Fit.of_records_eq (h : s.Fit P) (hs' : s'.WellFormed) (hr : s'.records = s.records) :
    s'.Fit P :=
  h.of_records hs' fun k r hk => .inl (by rw [find?, ← hr]; exact hk)

theorem Fit.addMember (h : s.Fit P) {g : Record} {id : Value} {b : Bool}
    (hs : s.addMember g id = .ok (b, s')) : s'.Fit P :=
  h.of_records_eq (h.1.of_addMember hs) (records_addMember hs)

theorem Fit.removeMember (h : s.Fit P) {g : Record} {id : Value} {b : Bool}
    (hs : s.removeMember g id = .ok (b, s')) : s'.Fit P :=
  h.of_records_eq (h.1.of_removeMember hs) (records_removeMember hs)

theorem Fit.change {rm : Remit} {p : Phase} (h : s.Fit P) (hs : rm.Change p s s') : s'.Fit P := by
  cases hs with
  | @put _ _ k r r' hk _ hb =>
    refine ⟨h.1.put hk _ ⟨hb.id, hb.group⟩, fun hp => ?_⟩
    have hu := h.1.unmixed_iff.1 (h.2 hp)
    refine (h.1.put hk _ ⟨hb.id, hb.group⟩).unmixed_iff.2 fun j q hq hl => ?_
    rw [find?_put hk] at hq
    split at hq
    · obtain rfl := Option.some.inj hq
      obtain ⟨hlegacy, hnames⟩ := hb.names hl
      rw [hnames, hu k r hk hlegacy]
    · exact hu j q hq hl
  | leave _ => exact h.of_records_eq (h.1.cut _) rfl
  | create _ _ hn hc => exact h.create hn hc
  | join _ _ hj => exact h.addMember hj
  | remove _ _ _ =>
    refine h.of_records (h.1.drop _) fun j q hq => .inl ?_
    rw [find?_drop] at hq
    split at hq
    · cases hq
    · exact hq

theorem fit_preserved (rm : Remit) (P : Prop) : rm.Preserves (Fit P) where
  wellFormed _ h := h.1
  change _ _ _ h hs := h.change hs

/-- Reading a snapshot back keeps the invariant. -/
theorem Fit.of_snapshot (h : s.Fit P) (hd : s.snapshot = .ok document)
    (hr : read document = .ok s') : s'.Fit P :=
  ⟨(of_read hr).1, fun hp => (h.2 hp).of_snapshot hd hr⟩

end Store

/-! ## Steps that keep it -/

namespace Sync

variable {α β : Type} {I : Store → Prop} {Q : α → Prop} {R : β → Prop} {x : Sync α}

/-- The step keeps an invariant of the store, in whatever world it starts and whether it fails or
not, and an answer satisfies a predicate. -/
def Keeps (I : Store → Prop) (x : Sync α) (Q : α → Prop) : Prop :=
  ∀ w, I w.store → I (x w).2.store ∧ ∀ a, (x w).1 = .ok a → Q a

namespace Keeps

theorem pure {a : α} (h : Q a) : Keeps I (pure a) Q :=
  fun _ hi => ⟨hi, fun _ he => Except.ok.inj he ▸ h⟩

theorem throw {f : Failure} : Keeps I (throw f) Q := fun _ hi => ⟨hi, nofun⟩

theorem result {r : Except Failure α} (h : ∀ a, r = .ok a → Q a) : Keeps I (result r) Q :=
  fun _ hi => ⟨hi, h⟩

theorem bind {f : α → Sync β} (hx : Keeps I x Q) (hf : ∀ a, Q a → Keeps I (f a) R) :
    Keeps I (x >>= f) R := by
  intro w hi
  have h := hx w hi
  rw [bind_apply]
  rcases hw : x w with ⟨e | a, w'⟩ <;> rw [hw] at h
  · exact ⟨h.1, nofun⟩
  · exact hf a (h.2 a rfl) w' h.1

theorem get {f : World → Sync β} (h : ∀ w, I w.store → Keeps I (f w) R) :
    Keeps I (get >>= f) R :=
  fun w hi => h w hi w hi

theorem tryCatch {handle : Failure → Sync α} (hx : Keeps I x Q)
    (hh : ∀ f, Keeps I (handle f) Q) : Keeps I (tryCatch x handle) Q := by
  intro w hi
  have h := hx w hi
  rw [tryCatch_apply]
  rcases hw : x w with ⟨e | a, w'⟩ <;> rw [hw] at h
  · exact hh e w' h.1
  · exact h

theorem modify {f : World → World} (h : ∀ w, I w.store → I (f w).store) :
    Keeps I (modify f) fun _ => True :=
  fun w hi => ⟨h w hi, fun _ _ => trivial⟩

theorem onStore {f : Store → Except Failure (α × Store)}
    (h : ∀ s a s', I s → f s = .ok (a, s') → I s') : Keeps I (onStore f) fun _ => True := by
  intro w hi
  unfold Sync.onStore
  split
  · next a s hs => exact ⟨h w.store a s hi hs, fun _ _ => trivial⟩
  · exact ⟨hi, fun _ _ => trivial⟩

theorem log (ch : Channel) (level : Level) (text : String) :
    Keeps I (log ch level text) fun _ => True :=
  modify fun _ => id

/-- A step that keeps the invariant wherever it ends. -/
theorem of_ends (h : ∀ c s, I s → Ends c s x (fun _ s' => I s') fun _ s' => I s') :
    Keeps I x fun _ => True := by
  intro w hi
  have := (h w.scene w.store hi).holds w rfl rfl
  rcases hw : x w with ⟨e | a, w'⟩ <;> rw [hw] at this
  · exact ⟨this.2, fun _ _ => trivial⟩
  · exact ⟨this.2, fun _ _ => trivial⟩

theorem of_leaves {P : α → Prop} (h : ∀ c s, Leaves c s x P) : Keeps I x fun _ => True :=
  of_ends fun c s hi => (h c s).mono (fun _ _ h => h.1.symm ▸ hi) fun _ _ h => h.symm ▸ hi

theorem record (x : Subject) : Keeps I (record x) fun _ => True :=
  get fun w _ => by
    split
    · exact pure trivial
    · exact throw

theorem of_makes {rm : Remit} {p : Phase} (hrm : rm.Preserves I)
    (h : ∀ c s, s.WellFormed → Makes rm p c s x fun _ _ => True) : Keeps I x fun _ => True :=
  of_ends fun c s hi => Ends.mono (h c s (hrm.wellFormed s hi))
    (fun _ _ h => hrm.changes hi h.1) fun _ _ h => hrm.changes hi h

theorem of_turnsOver {rm : Remit} (hrm : rm.Preserves I)
    (h : ∀ c s, s.WellFormed → TurnsOver rm c s x fun _ _ => True) : Keeps I x fun _ => True :=
  of_ends fun c s hi => Ends.mono (h c s (hrm.wellFormed s hi))
    (fun _ _ h => hrm.turns hi h.1) fun _ _ h => hrm.turns hi h

/-! ## Blocks and snapshots -/

theorem build {document : Value} :
    Keeps I (build document) fun s => Store.read document = .ok s := by
  have hlog (s : Store) : Keeps I (logCreated s) fun _ => True := by
    unfold logCreated
    induction s.all with
    | nil => exact pure trivial
    | cons r rs ih => exact bind (log _ _ _) fun _ _ => ih
  unfold Sync.build
  split
  · next s hs => exact bind (hlog s) fun _ _ => pure hs
  · exact bind (hlog _) fun _ _ => throw

theorem rollBack {generation : Nat} {document : Value}
    (h : ∀ s, Store.read document = .ok s → I s) :
    Keeps I (rollBack generation document) fun _ => True := by
  refine bind build fun s hs => bind (modify fun w hi => ?_) fun _ _ => log _ _ _
  split
  · exact h s hs
  · exact hi

/-- A block that keeps the invariant keeps it where it is rolled back too. -/
theorem transaction (hx : Keeps I x fun _ => True)
    (hread : ∀ s s' document, I s → s.snapshot = .ok document → Store.read document = .ok s' →
      I s') :
    Keeps I (transaction x) fun _ => True := by
  refine get fun w hi => bind (result fun _ => id) fun document hd => ?_
  refine tryCatch hx fun f => bind (rollBack fun s hs => ?_) fun _ _ => throw
  exact hread w.store s document hi hd hs

end Keeps

end Sync

/-! ## Deeds -/

/-- What can be done with a store. Records that are handed over need not be those of the store. -/
inductive Deed where
  | create (id : Value) (isGroup : Bool) (principalName : Value) (ref : Option Ref) (mode : Mode)
  | remove (id : Value)
  | addMember (g : Record) (id : Value)
  | removeMember (g : Record) (id : Value)
  | setNames (x : Subject) (names : Except Failure NameSet)
  | convert (x : Subject) (names : Except Failure NameSet)
  | sync (ctx : Context) (i : Identity)
  | syncId (ctx : Context) (id : Value)
  | convertMembership (ctx : Context) (x : Subject)
  /-- The store is written as a snapshot and read back. -/
  | reload
  /-- Time passes, failures are planned, records that left the store are kept or let go. -/
  | meanwhile (clock : Value) (faults : Faults) (held : List (Nat × Record))
  /-- A failure of the caller's own. -/
  | fail (f : Failure)
  /-- A failure of the deed is caught. -/
  | attempt (deed : Deed)
  /-- The deeds are performed as one unit; the first failure ends it. -/
  | transaction (block : List Deed)

namespace Deed

mutual

/-- Performs a deed. -/
def perform : Deed → Sync Unit
  | create id isGroup principalName ref mode =>
    discard (Sync.create { id, group := .bool isGroup, principalName, ref, mode := some mode })
  | remove id => Sync.remove id
  | addMember g id => discard (Sync.addMember g id)
  | removeMember g id => discard (Sync.removeMember g id)
  | setNames x names => Sync.setNames x names
  | convert x names => Sync.convert x names
  | sync ctx i => discard (ctx.sync i)
  | syncId ctx id => discard (ctx.syncId id)
  | convertMembership ctx x => discard (ctx.convertMembership x)
  | reload => do Sync.restore (← Sync.result (← get).store.snapshot)
  | meanwhile clock faults held => modify fun w => { w with clock, faults, detached := held }
  | fail f => throw f
  | attempt deed => tryCatch deed.perform fun _ => return
  | transaction block => Sync.transaction (performAll block)

/-- Performs deeds one after the other, up to the first failure. -/
def performAll : List Deed → Sync Unit
  | [] => return
  | deed :: deeds => do
    deed.perform
    performAll deeds

end

/-- Performs deeds one after the other, whether they fail or not. -/
def run (deeds : List Deed) (w : World) : World := deeds.foldl (fun w deed => (deed.perform w).2) w

variable {P : Prop}

open Sync (Keeps)

theorem discard_keeps {α : Type} {x : Sync α} {Q : α → Prop} {I : Store → Prop}
    (h : Keeps I x Q) : Keeps I (discard x) fun _ => True :=
  h.bind fun _ _ => Keeps.pure trivial

theorem addMember_keeps (g : Record) (id : Value) :
    Keeps (Store.Fit P) (Sync.addMember g id) fun _ => True :=
  (Keeps.of_leaves fun _ _ => Sync.Leaves.allow).bind fun _ _ =>
    Keeps.onStore fun _ _ _ hs h => hs.addMember h

theorem removeMember_keeps (g : Record) (id : Value) :
    Keeps (Store.Fit P) (Sync.removeMember g id) fun _ => True :=
  (Keeps.of_leaves fun _ _ => Sync.Leaves.allow).bind fun _ _ =>
    Keeps.onStore fun _ _ _ hs h => hs.removeMember h

theorem update_detached_keeps {I : Store → Prop} (n : Nat) (f : Record → Record) :
    Keeps I (Sync.update (.detached n) f) fun _ => True :=
  Keeps.modify fun _ hi => hi

theorem throw_keeps {α : Type} {I : Store → Prop} {f : Failure} {g : PUnit → Sync α} :
    Keeps I (throw f >>= g) fun _ => True :=
  Keeps.bind (Q := fun _ => False) Keeps.throw fun _ => False.elim

/-! ## Steps within a remit -/

section Remit

variable {I : Store → Prop} {rm : Remit} {ctx : Context} (h : rm.Preserves I)
  (ho : ∀ k, rm.own k)
include h ho

/-- Names are set on a record that is not of the legacy mode, or on one that has left the store. -/
theorem setNames_keeps (x : Subject) (names : Except Failure NameSet) :
    Keeps I (Sync.setNames x names) fun _ => True := by
  cases x with
  | stored k =>
    exact Keeps.of_makes (p := .growing) h fun _ _ hs => Context.setNames_makes hs (ho k) names
  | detached n =>
    refine (Keeps.record _).bind fun r _ => ?_
    refine (Keeps.of_leaves fun _ _ => Sync.Leaves.allow).bind fun _ _ => ?_
    dsimp only
    split
    · exact throw_keeps
    · exact (Keeps.result fun _ _ => trivial).bind fun _ _ => update_detached_keeps n _

theorem convert_keeps (hconv : ∀ r, rm.converts r) (x : Subject)
    (names : Except Failure NameSet) : Keeps I (Sync.convert x names) fun _ => True := by
  cases x with
  | stored k =>
    exact Keeps.of_makes (p := .growing) h fun _ _ hs =>
      Context.convert_makes hs (ho k) (fun _ _ => hconv _) names
  | detached n =>
    refine (Keeps.record _).bind fun r _ => ?_
    refine (Keeps.of_leaves fun _ _ => Sync.Leaves.allow).bind fun _ _ => ?_
    refine (Keeps.result fun _ _ => trivial).bind fun names _ => ?_
    dsimp only
    split
    · exact throw_keeps
    · exact update_detached_keeps n _

variable (hc : rm.Covers ctx)
include hc

theorem sync_keeps (i : Identity) : Keeps I (ctx.sync i) fun _ => True :=
  Keeps.of_turnsOver h fun _ _ hs => Context.sync_turns hc hs fun k _ => ho k

theorem syncId_keeps (id : Value) : Keeps I (ctx.syncId id) fun _ => True :=
  Keeps.of_turnsOver h fun _ _ hs => Context.syncId_turns hc hs fun k _ => ho k

theorem convertMembership_keeps (hconv : ∀ r, rm.converts r) (x : Subject) :
    Keeps I (ctx.convertMembership x) fun _ => True := by
  refine (Keeps.record x).bind fun r _ => ?_
  dsimp only
  split
  · exact Keeps.pure trivial
  · refine (Keeps.of_leaves fun _ _ => Context.channelFor_leaves _ _).bind fun log _ => ?_
    refine (Keeps.of_makes h fun _ _ hs => Context.unwind_makes hc hs _).bind fun names _ => ?_
    refine (convert_keeps h ho hconv x _).bind fun _ _ => ?_
    exact (Keeps.of_leaves fun _ _ => Sync.Leaves.audit).bind fun _ _ => Keeps.pure trivial

end Remit

theorem reload_keeps :
    Keeps (Store.Fit P) (do Sync.restore (← Sync.result (← get).store.snapshot)) fun _ => True := by
  refine Keeps.get fun w hw => (Keeps.result fun _ => id).bind fun document hd => ?_
  refine Keeps.build.bind fun s hs => Keeps.modify fun _ _ => ?_
  exact hw.of_snapshot hd hs

mutual

/-- Every deed keeps the invariant. -/
theorem perform_keeps : ∀ deed : Deed, Keeps (Store.Fit P) deed.perform fun _ => True
  | create id isGroup principalName ref mode => by
    rw [perform]
    refine discard_keeps
      (Keeps.of_makes (p := .growing) (Store.fit_preserved .anything P) fun _ _ hs => ?_)
    exact (Sync.Makes.create rfl trivial fun _ _ => .inl trivial).mono fun _ _ _ => trivial
  | remove id => by
    rw [perform]
    refine Keeps.of_makes (p := .shrinking) (Store.fit_preserved .anything P) fun _ _ _ => ?_
    exact (Sync.Makes.remove fun _ _ _ _ => ⟨.inl trivial, trivial⟩).mono fun _ _ _ => trivial
  | addMember g id => by
    rw [perform]
    exact discard_keeps (addMember_keeps g id)
  | removeMember g id => by
    rw [perform]
    exact discard_keeps (removeMember_keeps g id)
  | setNames x names => by
    rw [perform]
    exact setNames_keeps (Store.fit_preserved .anything P) (fun _ => trivial) x names
  | convert x names => by
    rw [perform]
    have hfit := Store.fit_preserved .anything P
    exact convert_keeps hfit (fun _ => trivial) (fun _ => trivial) x names
  | sync ctx i => by
    rw [perform]
    have hfit := Store.fit_preserved .anything P
    exact discard_keeps (sync_keeps hfit (fun _ => trivial) (Remit.anything_covers ctx) i)
  | syncId ctx id => by
    rw [perform]
    have hfit := Store.fit_preserved .anything P
    exact discard_keeps (syncId_keeps hfit (fun _ => trivial) (Remit.anything_covers ctx) id)
  | convertMembership ctx x => by
    rw [perform]
    have hfit := Store.fit_preserved .anything P
    exact discard_keeps (convertMembership_keeps hfit (fun _ => trivial)
      (Remit.anything_covers ctx) (fun _ => trivial) x)
  | reload => by
    rw [perform]
    exact reload_keeps
  | meanwhile clock faults held => by
    rw [perform]
    exact Keeps.modify fun _ hs => hs
  | fail f => by
    rw [perform]
    exact Keeps.throw
  | attempt deed => by
    rw [perform]
    exact (perform_keeps deed).tryCatch fun _ => Keeps.pure trivial
  | transaction block => by
    rw [perform]
    exact (performAll_keeps block).transaction fun _ _ _ h => h.of_snapshot

theorem performAll_keeps : ∀ deeds : List Deed,
    Keeps (Store.Fit P) (performAll deeds) fun _ => True
  | [] => by
    rw [performAll]
    exact Keeps.pure trivial
  | deed :: deeds => by
    rw [performAll]
    exact (perform_keeps deed).bind fun _ _ => performAll_keeps deeds

end

/-- What each deed keeps, a run keeps. -/
theorem run_keeps {I : Store → Prop} {deeds : List Deed} {w : World}
    (hd : ∀ deed ∈ deeds, Keeps I deed.perform fun _ => True) (h : I w.store) :
    I (run deeds w).store := by
  induction deeds generalizing w with
  | nil => exact h
  | cons deed deeds ih =>
    refine ih (fun next hn => hd next (List.mem_cons_of_mem _ hn)) ?_
    exact (hd deed List.mem_cons_self w h).1

theorem run_append (first later : List Deed) (w : World) :
    run (first ++ later) w = run later (run first w) :=
  List.foldl_append

theorem run_fit {w : World} (h : w.store.Fit P) (deeds : List Deed) :
    (run deeds w).store.Fit P :=
  run_keeps (fun deed _ => perform_keeps deed) h

end Deed

namespace Store

variable {s : Store} {k j : Key} {r g : Record}

/-- The two views of memberships agree: a group is among those of a record exactly if the record is
among its members. -/
theorem WellFormed.mem_memberOf_iff (h : s.WellFormed) (hk : s.find? k = some r)
    (hj : s.find? j = some g) : ∃ gs, s.memberOf r.id = .ok gs ∧
      (g ∈ gs ↔ ∃ ms, s.membersOf g = .ok ms ∧ r ∈ ms) := by
  obtain ⟨gs, hgs, hmem⟩ := s.memberOf_ok (h.toKey_of_find? hk)
  refine ⟨gs, hgs, ?_⟩
  have hgroups : g ∈ gs ↔ s.Member k j := by
    rw [hmem]
    constructor
    · rintro ⟨i, hi, hm⟩
      obtain rfl : j = i := Except.ok.inj ((h.toKey_of_find? hj).symm.trans (h.toKey_of_find? hi))
      exact hm
    · exact fun hm => ⟨j, hj, hm⟩
  rw [hgroups]
  constructor
  · intro hm
    obtain ⟨-, g', hg', hgroup⟩ := h.exists_of_member hm
    obtain rfl : g = g' := Option.some.inj (hj.symm.trans hg')
    obtain ⟨a, ms, hgm, -, rfl, hl⟩ := h.groupMembers_ok hj hgroup
    refine ⟨_, by rw [membersOf, hgm]; rfl, ?_⟩
    obtain ⟨m, hm', rfl⟩ := (h.member_iff hl).1 hm
    exact List.mem_filterMap.2 ⟨m, hm', hk⟩
  · rintro ⟨ms, hms, hr⟩
    obtain ⟨⟨a, l⟩, hgm, hms⟩ := bind_eq_ok.1 hms
    obtain rfl := Except.ok.inj hms
    obtain ⟨ha, hl⟩ := groupMembers_eq_ok hgm
    obtain rfl : a.key = j :=
      Except.ok.inj ((Value.toKey_eq_ok_iff.2 ⟨a, ha, rfl⟩).symm.trans (h.toKey_of_find? hj))
    obtain ⟨m, hm, hf⟩ := List.mem_filterMap.1 hr
    obtain rfl : m.key = k :=
      Except.ok.inj ((h.toKey_of_find? hf).symm.trans (h.toKey_of_find? hk))
    exact (h.member_iff hl).2 ⟨m, hm, rfl⟩

end Store

namespace Deed

/-- From an empty store or one that was read from a snapshot, whatever is done: the store is
well-formed, the two views of memberships agree and meet no id without a record, and if no record of
the legacy mode had names, none has. -/
theorem run_invariant (deeds : List Deed) {w : World}
    (hw : w.store = {} ∨ ∃ document, Store.ofSnapshot document = .ok w.store) :
    (run deeds w).store.WellFormed ∧
    (∀ k r j g, (run deeds w).store.find? k = some r → (run deeds w).store.find? j = some g →
      ∃ gs, (run deeds w).store.memberOf r.id = .ok gs ∧
        (g ∈ gs ↔ ∃ ms, (run deeds w).store.membersOf g = .ok ms ∧ r ∈ ms)) ∧
    (∀ a ms, (a, ms) ∈ (run deeds w).store.members →
      (∃ g, (run deeds w).store.find? a.key = some g ∧ g.isGroup = true) ∧
        ∀ m ∈ ms, ∃ r, (run deeds w).store.find? m.key = some r) ∧
    (w.store.Unmixed → (run deeds w).store.Unmixed) := by
  have hstart : w.store.WellFormed := by
    rcases hw with he | ⟨document, hd⟩
    · rw [he]
      exact Store.wellFormed_empty
    · exact .of_ofSnapshot hd
  obtain ⟨hwf, hunmixed⟩ := run_fit (P := w.store.Unmixed) ⟨hstart, id⟩ deeds
  exact ⟨hwf, fun k r j g hk hj => hwf.mem_memberOf_iff hk hj,
    fun a ms hm => ⟨hwf.exists_group hm, fun m hmem => hwf.exists_member hm hmem⟩, hunmixed⟩

/-- A user joins a group, and a block that removes the group fails. -/
def rolledBack : List Deed := [
  .create (.text "g") true (.text "Group") none .legacy,
  .create (.text "u") false (.text "User") none .legacy,
  .addMember { id := .text "g", group := .bool true, principalName := .text "Group" } (.text "u"),
  .attempt (.transaction [.remove (.text "g"), .fail .malformed]),
  .reload]

/-- From the empty store, the membership is there in the end, and no names are. -/
theorem run_invariant_rolledBack :
    (run rolledBack {}).store.members = [(.text "g", [.text "u"])] ∧
    (run rolledBack {}).store.WellFormed ∧ (run rolledBack {}).store.Unmixed := by
  obtain ⟨hwf, -, -, hunmixed⟩ := run_invariant rolledBack (w := {}) (.inl rfl)
  exact ⟨rfl, hwf, hunmixed nofun⟩

end Deed

end Roster
