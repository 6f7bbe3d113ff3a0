import Roster.Proofs.Completing
import Roster.Proofs.Frame
import Roster.Proofs.Invariance

/-!
# Ownership and snapshots

A record belongs to the configured provider if its reference names it. A snapshot keeps a reference
as a text, and what is read after the last semicolon of the text is the provider. So a record of the
provider is read back as one exactly if the name of the provider is a text without a semicolon
(`owns_of_entryRef_iff`). A configuration is accepted with any name that counts as true.

* `Store.find?_of_read`: what a snapshot that can be read says of the reference of a record.
* `Config.truthy_provider`: the name of the provider in a configuration that is accepted.
* `created_stays_owned_iff`: the records that a synchronisation creates.
-/

namespace Roster

/-- The value is a text without a semicolon. -/
def Value.IsPlain (v : Value) : Prop := ∃ t, v = .text t ∧ ';' ∉ t.toList

/-! ## Configurations that are accepted -/

namespace Config

variable {config fields : Fields} {p : Policy}

/-- The provider of a policy is the one that the configuration names. -/
theorem provider_of_policy (h : Policy.ofConfig (.mapping fields) = .ok p) :
    ∃ v sync, fields.lookup (.text "sync") = some v ∧ v.mapping? = some sync ∧
      sync.lookup (.text "provider") = some p.provider := by
  unfold Policy.ofConfig at h
  dsimp only [Value.mapping?] at h
  split at h
  · next v hv =>
    unfold Policy.ofSection at h
    split at h
    · next sync hsync =>
      obtain ⟨_, -, h⟩ := bind_eq_ok.1 h
      obtain ⟨_, -, h⟩ := bind_eq_ok.1 h
      obtain ⟨_, -, h⟩ := bind_eq_ok.1 h
      obtain ⟨_, -, h⟩ := bind_eq_ok.1 h
      split at h
      · next provider hp =>
        obtain rfl := Except.ok.inj h
        exact ⟨v, sync, hv, hsync, hp⟩
      · cases h
    · cases h
  · cases h

/-- A configuration is accepted with a provider that counts as true. -/
theorem truthy_provider {files : Files} {path : Value} {env : Environment}
    (hload : (load files path env).outcome = .ok fields)
    (hp : Policy.ofConfig (.mapping fields) = .ok p) : p.provider.truthy = true := by
  obtain ⟨-, -, config, -, -, -, hcheck⟩ := check_of_load hload
  obtain ⟨rfl, hproblems⟩ := check_eq_ok hcheck
  obtain ⟨sync, hsync, htruthy, -⟩ := section_of_syncProblems hproblems
  obtain ⟨sync', hsync', hsame⟩ := lookup_provider_completed hsync
  obtain ⟨v, sync'', hv, hv', hprovider⟩ := provider_of_policy hp
  obtain rfl := Option.some.inj (hsync'.symm.trans hv)
  obtain rfl : sync' = sync'' := Option.some.inj hv'
  rw [fieldOr, ← hsame, hprovider] at htruthy
  exact htruthy

end Config

/-! ## What a snapshot says of references -/

namespace Store

variable {s t t' : Store} {document v : Value} {k : Key} {r r' : Record}

/-- What a snapshot says of a reference; there may be none. -/
def rereadRef (ref : Option Ref) : Except Failure (Option Ref) :=
  entryRef ((ref.map Ref.written).getD .null)

theorem entryRecord_says {fields : Fields} (h : entryRecord v = .ok (fields, r)) :
    v = .mapping fields ∧ fields.lookup (.text "id") = some r.id ∧
      entryRef (entryField fields "external_id") = .ok r.ref := by
  obtain ⟨mode, rfl, -⟩ := entryRecord_eq_ok h
  unfold entryRecord at h
  dsimp only [Value.mapping?] at h
  obtain ⟨_, -, h⟩ := bind_eq_ok.1 h
  split at h
  · next id hid =>
    obtain ⟨ref, href, h⟩ := bind_eq_ok.1 h
    obtain ⟨-, rfl⟩ := Prod.mk.inj (Except.ok.inj h)
    exact ⟨rfl, hid, href⟩
  · cases h

/-- An entry that was written for a record says its id, and what its reference is read as. -/
theorem Says.ref_of_entry (h : Says v r') (he : entry r = .ok v) :
    r'.id = r.id ∧ rereadRef r.ref = .ok r'.ref := by
  obtain ⟨fields, r₀, hrecord, hdetails⟩ := h
  obtain ⟨⟨hid, -, href, -⟩, -⟩ := entryDetails_eq_ok hdetails
  obtain ⟨rfl, hid₀, href₀⟩ := entryRecord_says hrecord
  obtain ⟨mode, names, time, properties, -, -, hv⟩ := entry_eq_ok he
  obtain rfl := Value.mapping.inj hv
  constructor
  · rw [List.lookup_append] at hid₀
    rw [hid]
    exact (Option.some.inj hid₀).symm
  · rw [href, ← href₀, rereadRef, entryField, List.lookup_append, lookup_optionalFields _ (by simp)]
    rfl

/-- Reading an entry adds a record, and the others stay. -/
theorem readEntry_adds (h : readEntry t v = .ok t') :
    (∀ k r, t.find? k = some r → t'.find? k = some r) ∧
      ∃ k r, Says v r ∧ r.id.toKey = .ok k ∧ t'.find? k = some r := by
  unfold readEntry at h
  obtain ⟨⟨fields, r₀⟩, hv, h⟩ := bind_eq_ok.1 h
  obtain ⟨k, hk, h⟩ := bind_eq_ok.1 h
  obtain ⟨t₁, ht₁, h⟩ := bind_eq_ok.1 h
  obtain ⟨r, hr, h⟩ := bind_eq_ok.1 h
  obtain rfl := Except.ok.inj h
  rw [upTo_eq_ok] at hv hk ht₁ hr
  have hnone := find?_of_create hk ht₁
  refine ⟨fun i q hq => ?_, k, r, ⟨fields, r₀, hv, hr⟩, ?_, ?_⟩
  · have hne : i ≠ k := by
      rintro rfl
      rw [hnone] at hq
      cases hq
    rw [find?_modify, if_neg hne, find?_create hk ht₁, if_neg hne, hq]
  · rw [(entryDetails_eq_ok hr).1.1]
    exact hk
  · rw [find?_modify, if_pos rfl, find?_create hk ht₁, if_pos rfl]
    rfl

/-- Reading entries adds a record for each of them, and the others stay. -/
theorem readEntries_adds {entries : List Value} (h : entries.foldlM readEntry t = .ok t') :
    (∀ k r, t.find? k = some r → t'.find? k = some r) ∧
      ∀ v ∈ entries, ∃ k r, Says v r ∧ r.id.toKey = .ok k ∧ t'.find? k = some r := by
  induction entries generalizing t with
  | nil =>
    obtain rfl : t = t' := Except.ok.inj h
    exact ⟨fun _ _ hr => hr, nofun⟩
  | cons v entries ih =>
    rw [List.foldlM_cons] at h
    obtain ⟨t₁, ht₁, h⟩ := bind_eq_ok.1 h
    obtain ⟨hstay₁, k, r, hsays, hk, hr⟩ := readEntry_adds ht₁
    obtain ⟨hstay, hadds⟩ := ih h
    refine ⟨fun j q hq => hstay j q (hstay₁ j q hq), fun v' hv' => ?_⟩
    rcases List.mem_cons.1 hv' with rfl | hv'
    · exact ⟨k, r, hsays, hk, hstay k r hr⟩
    · exact hadds v' hv'

/-- A snapshot that can be read has every record, with the reference that the written one stands
for. -/
theorem find?_of_read (hs : s.WellFormed) (hk : s.find? k = some r)
    (hd : s.snapshot = .ok document) (ht : ofSnapshot document = .ok t) :
    ∃ r', t.find? k = some r' ∧ rereadRef r.ref = .ok r'.ref := by
  unfold snapshot at hd
  obtain ⟨entries, hentries, hd⟩ := bind_eq_ok.1 hd
  obtain rfl := Except.ok.inj hd
  obtain ⟨v, hv, he⟩ := (mem_of_mapM hentries).1 r (mem_all_of_find? hk)
  obtain ⟨lists, hread⟩ : ∃ lists, read (.mapping [("records", .list entries),
      ("memberships", lists)]) = .ok t := by
    unfold ofSnapshot at ht
    split at ht
    · next h => exact ⟨_, h.trans (congrArg Except.ok (Except.ok.inj ht))⟩
    · cases ht
  unfold read at hread
  dsimp only [Value.mapping?] at hread
  obtain ⟨items, hitems, hread⟩ := bind_eq_ok.1 hread
  obtain ⟨t₁, ht₁, hread⟩ := bind_eq_ok.1 hread
  have hitems : items = entries := by
    have hl : ((Value.list entries).orElse (.list [])).toItems = .ok entries := by
      cases entries <;> rfl
    exact Except.ok.inj ((upTo_eq_ok.1 hitems).symm.trans hl)
  subst hitems
  obtain ⟨-, hadds⟩ := readEntries_adds ht₁
  obtain ⟨j, r', hsays, hj, hr'⟩ := hadds v hv
  obtain ⟨hid, href⟩ := hsays.ref_of_entry he
  have hrecords : t.records = t₁.records := by
    have ht₁ : t₁.WellFormed := foldlM_keeps (I := WellFormed)
      (fun _ _ _ _ hwf h => (hwf.of_readEntry h).1) wellFormed_empty ht₁
    split at hread
    · refine (foldlM_keeps (I := fun t : Store => t.WellFormed ∧ t.records = t₁.records)
        (fun t' p t'' _ hwf h => ?_) ⟨ht₁, rfl⟩ hread).2
      obtain ⟨hwf', hr⟩ := hwf.1.of_readMembership h
      exact ⟨hwf', hr.trans hwf.2⟩
    · cases hread
  refine ⟨r', ?_, href⟩
  rw [hid, hs.toKey_of_find? hk] at hj
  obtain rfl : k = j := Except.ok.inj hj
  rw [find?, hrecords]
  exact hr'

end Store

/-! ## Records that are created -/

namespace Context

variable {ctx : Context} {rm : Remit} {p : Phase} {s s' : Store} {k : Key} {r : Record}
  {i : Identity} {w w' : World} {a : SyncResult}

/-- A reference into the provider is read back as one exactly if the name of the provider is
plain. -/
theorem owns_of_entryRef_iff {ref ref' : Option Ref} (htruthy : ctx.policy.provider.truthy = true)
    (hown : ctx.owns ref = true) (href : Store.rereadRef ref = .ok ref') :
    ctx.owns ref' = true ↔ ctx.policy.provider.IsPlain := by
  cases ref with
  | none => cases hown
  | some q =>
    have hq : (q.provider == ctx.policy.provider) = true := hown
    change Store.entryRef q.written = .ok ref' at href
    constructor
    · intro hown'
      cases ref' with
      | none => cases hown'
      | some q' =>
        have hq' : (q'.provider == ctx.policy.provider) = true := hown'
        obtain ⟨t, rfl⟩ : ∃ t, q' = Ref.parse t := by
          unfold Store.entryRef at href
          split at href
          · split at href
            · next t _ => exact ⟨t, (Option.some.inj (Except.ok.inj href)).symm⟩
            · cases href
          · cases href
        rcases Ref.provider_parse t with hnull | ⟨n, hn, -, hplain⟩
        · rw [hnull, Value.null_beq_iff] at hq'
          rw [hq'] at htruthy
          cases htruthy
        · rw [hn, Value.text_beq_iff] at hq'
          exact ⟨n, hq', hplain⟩
    · rintro ⟨n, hn, hplain⟩
      rw [hn] at htruthy hq
      rw [Value.beq_text_iff] at hq
      have hne : n ≠ "" := by
        rintro rfl
        cases htruthy
      have hwritten : q.written = .text (q.id.display ++ ";" ++ n) := by
        rw [Ref.written, hq, if_pos htruthy]
        rfl
      have hnonempty : q.id.display ++ ";" ++ n ≠ "" := fun h => by
        have := congrArg String.toList h
        simp at this
      rw [hwritten, Store.entryRef_text, if_neg hnonempty, Ref.parse_join hne hplain] at href
      obtain rfl := Except.ok.inj href
      show (Value.text n == ctx.policy.provider) = true
      rw [hn, Value.text_beq_iff]

/-- What is new after changes was created within the remit. -/
theorem allows_of_change (h : rm.Change p s s') (hnew : s.find? k = none)
    (hr : s'.find? k = some r) : rm.Allows k r := by
  cases h with
  | @put _ _ j q q' hj _ _ =>
    rw [Store.find?_put hj] at hr
    split at hr
    · next he =>
      rw [he, hj] at hnew
      cases hnew
    · rw [hnew] at hr
      cases hr
  | leave _ =>
    rw [show s.find? k = some r from hr] at hnew
    cases hnew
  | @create _ _ j q hid ha _ hc =>
    rw [Store.find?_create hid hc] at hr
    split at hr
    · next he =>
      obtain rfl := Option.some.inj hr
      exact he ▸ ha
    · rw [hnew] at hr
      cases hr
  | join _ _ hj =>
    rw [Store.find?, Store.records_addMember hj, ← Store.find?, hnew] at hr
    cases hr
  | remove _ _ _ =>
    rw [Store.find?_drop, hnew] at hr
    split at hr <;> cases hr

/-- What is new after a store grew was created within the remit. -/
theorem allows_of_growing (h : rm.Changes .growing s s') (hnew : s.find? k = none)
    (hr : s'.find? k = some r) : rm.Allows k r := by
  induction h generalizing r with
  | refl =>
    rw [hnew] at hr
    cases hr
  | @tail s₁ s₂ _ h ih =>
    cases h₁ : s₁.find? k with
    | none => exact allows_of_change h h₁ hr
    | some q =>
      obtain ⟨q', hq', hb⟩ := h.kept h₁
      obtain rfl : q' = r := Option.some.inj (hq'.symm.trans hr)
      exact (ih h₁).becomes hb

theorem allows_of_turns (h : rm.Turns s s') (hnew : s.find? k = none)
    (hr : s'.find? k = some r) : rm.Allows k r := by
  obtain ⟨s₁, h₁, h₂⟩ := h
  obtain ⟨q, hq, hb⟩ := h₂.known hr
  exact (allows_of_growing h₁ hnew hq).becomes hb

/-- An identity of another provider is left alone. -/
theorem sync_foreign_leaves {c : Scene} (hown : ctx.owns i.ref = false) :
    Sync.Leaves c s (ctx.sync i) fun a => a.status = .foreign := by
  have hstandard : Sync.Leaves c s (ctx.syncStandard i) fun a => a.status = .foreign := by
    unfold syncStandard
    rw [hown]
    dsimp only
    split
    · exact Sync.Leaves.bind (P := fun _ => False) Sync.Leaves.throw fun _ => False.elim
    · exact Sync.Leaves.pure rfl
  unfold sync
  split
  · unfold syncDynamic
    split
    · exact Sync.Leaves.throw
    · exact hstandard
    · exact Sync.Leaves.pure rfl
    · next hc =>
      unfold classify at hc
      rw [hown] at hc
      split at hc <;> cases hc
  · exact hstandard

/-- A record of another provider is reported as such. -/
theorem syncId_foreign_leaves {c : Scene} {id : Value} (hid : id.toKey = .ok k)
    (hk : s.find? k = some r) (hown : ctx.owns r.ref = false) :
    Sync.Leaves c s (ctx.syncId id) fun a => a.status = .foreign := by
  unfold syncId
  refine Sync.Ends.step (Sync.Ends.lookUp hid ?_)
  simp only [hk, Option.map_some]
  cases href : r.ref with
  | none => exact Sync.Leaves.pure rfl
  | some q =>
    have hq : ctx.policy.owns q = false := by
      rw [href] at hown
      exact hown
    simp only [hq, Bool.not_false, if_true]
    exact Sync.Leaves.pure rfl

/-- A record that synchronising an identity created is one of the provider. -/
theorem Outcome.owns_of_new {own : Key → Prop} {c : Scene}
    (h : Outcome (ctx.remit own) ctx c i s a s') (ho : ∀ k, own k → i.id.toKey = .ok k)
    (hi : ctx.owns i.ref = true ∨ a.status = .foreign) (hnew : s.find? k = none)
    (hr : s'.find? k = some r) : ctx.owns r.ref = true := by
  cases h with
  | left _ =>
    rw [hnew] at hr
    cases hr
  | @added j s₁ _ ha hj _ hr₁ hg ht _ =>
    rcases allows_of_turns (Remit.Turns.after hg ht) hnew hr with hown | ⟨-, hown⟩
    · obtain rfl : k = j := Except.ok.inj ((ho k hown).symm.trans hj)
      rw [(ht.becomes hr₁ hr).ref]
      exact hi.resolve_right (by simp [ha])
    · exact hown
  | @updated j q _ _ hj hq _ _ ht _ =>
    rcases allows_of_turns ht hnew hr with hown | ⟨-, hown⟩
    · obtain rfl : k = j := Except.ok.inj ((ho k hown).symm.trans hj)
      rw [hnew] at hq
      cases hq
    · exact hown

/-- A record that synchronising a record again created is one of the provider. -/
theorem Refreshed.owns_of_new {own : Key → Prop} {c : Scene} {id : Value}
    (h : Refreshed (ctx.remit own) ctx c id s a s') (ho : ∀ k, own k → id.toKey = .ok k)
    (hnew : s.find? k = none) (hr : s'.find? k = some r) : ctx.owns r.ref = true := by
  cases h with
  | left _ _ =>
    rw [hnew] at hr
    cases hr
  | @updated j q _ _ _ _ hj hq _ _ _ _ ht _ =>
    rcases allows_of_turns ht hnew hr with hown | ⟨-, hown⟩
    · obtain rfl : k = j := Except.ok.inj ((ho k hown).symm.trans hj)
      rw [hnew] at hq
      cases hq
    · exact hown
  | @deleted j q _ _ _ _ _ _ _ =>
    rw [Store.find?_without, hnew] at hr
    split at hr <;> cases hr

/-- A record of the provider is not reported as one of another. -/
theorem Refreshed.status_ne_foreign {c : Scene} {id : Value} (h : Refreshed rm ctx c id s a s')
    (hid : id.toKey = .ok k) (hk : s.find? k = some r) (hown : ctx.owns r.ref = true) :
    a.status ≠ .foreign := by
  cases h with
  | left _ hleft =>
    rw [hleft k r hid hk] at hown
    cases hown
  | updated ha => simp [ha]
  | deleted ha => simp [ha]

/-- A record in a store that was saved and loaded: whether it is one of the provider, and whether
the next synchronisation takes it for one of another. -/
structure Reloaded (ctx : Context) (k : Key) (r : Record) (t : Store) : Prop where
  owned_iff : ∃ r', t.find? k = some r' ∧
    (ctx.owns r'.ref = true ↔ ctx.policy.provider.IsPlain)
  foreign_iff : ∀ v b v', v.store = t → ctx.syncId r.id v = (.ok b, v') →
    (b.status = .foreign ↔ ¬ ctx.policy.provider.IsPlain)

/-- The records that are new in a store are of the provider, and what becomes of them when the store
is saved and loaded. -/
structure CreatesOwned (ctx : Context) (s s' : Store) : Prop where
  owned : ∀ k r, s.find? k = none → s'.find? k = some r → ctx.owns r.ref = true
  reloads : s'.Typed → ∃ document t, s'.snapshot = .ok document ∧ Store.ofSnapshot document = .ok t
  reloaded : ∀ k r, s.find? k = none → s'.find? k = some r → ∀ document t,
    s'.snapshot = .ok document → Store.ofSnapshot document = .ok t → Reloaded ctx k r t

theorem reloaded_of_owned (htruthy : ctx.policy.provider.truthy = true) (hs : s.WellFormed)
    (hk : s.find? k = some r) (hown : ctx.owns r.ref = true) {document : Value} {t : Store}
    (hd : s.snapshot = .ok document) (ht : Store.ofSnapshot document = .ok t) :
    Reloaded ctx k r t := by
  obtain ⟨r', hr', href⟩ := Store.find?_of_read hs hk hd ht
  have hiff := owns_of_entryRef_iff htruthy hown href
  refine ⟨⟨r', hr', hiff⟩, ?_⟩
  rintro v b v' rfl hb
  rw [← hiff]
  have hid := hs.toKey_of_find? hk
  cases hown' : ctx.owns r'.ref with
  | false =>
    have hstatus := ((syncId_foreign_leaves (c := v.scene) hid hr' hown').of_ok rfl rfl hb).2
    exact iff_of_true hstatus Bool.false_ne_true
  | true =>
    have h := (syncId_ends_in (c := v.scene) (Remit.anything_covers ctx) (.of_ofSnapshot ht)
      fun _ _ => trivial).of_ok rfl rfl hb
    exact iff_of_false (h.status_ne_foreign hid hr' hown') (not_not.2 rfl)

theorem createsOwned_of_owned (htruthy : ctx.policy.provider.truthy = true) (hs : s'.WellFormed)
    (h : ∀ k r, s.find? k = none → s'.find? k = some r → ctx.owns r.ref = true) :
    CreatesOwned ctx s s' where
  owned := h
  reloads ht := by
    obtain ⟨document, hd, hr⟩ := Store.read_snapshot hs ht
    exact ⟨document, s'.reread, hd, by rw [Store.ofSnapshot, hr]⟩
  reloaded k r hnew hr _ _ hd ht := reloaded_of_owned htruthy hs hr (h k r hnew hr) hd ht

/-- Under a configuration that is accepted, the records that a synchronisation creates are still of
the provider after the store was saved and loaded exactly if the name of the provider is a text
without a semicolon. -/
theorem created_stays_owned_iff {files : Files} {path : Value} {env : Environment} {fields : Fields}
    (hload : (Config.load files path env).outcome = .ok fields)
    (hpolicy : Policy.ofConfig (.mapping fields) = .ok ctx.policy)
    (hfind : ∀ q i, (ctx.provider.lookup q).outcome = .ok (some i) → ctx.owns i.ref = true)
    (hs : w.store.WellFormed) :
    (∀ i, ctx.sync i w = (.ok a, w') → CreatesOwned ctx w.store w'.store) ∧
    ∀ id, ctx.syncId id w = (.ok a, w') → CreatesOwned ctx w.store w'.store := by
  have htruthy := Config.truthy_provider hload hpolicy
  refine ⟨fun i hw => ?_, fun id hw => ?_⟩
  · have h := (sync_ends_in (c := w.scene) (i := i)
      (remit_covers hfind fun k => i.id.toKey = .ok k) hs fun k hk => hk).of_ok rfl rfl hw
    have hi : ctx.owns i.ref = true ∨ a.status = .foreign := by
      cases hown : ctx.owns i.ref with
      | true => exact .inl rfl
      | false => exact .inr ((sync_foreign_leaves (c := w.scene) hown).of_ok rfl rfl hw).2
    exact createsOwned_of_owned htruthy (h.turns.wellFormed hs)
      fun k r => h.owns_of_new (fun _ hk => hk) hi
  · have hrm := remit_covers hfind fun k => id.toKey = .ok k
    have h := (syncId_ends_in (c := w.scene) hrm hs fun k hk => hk).of_ok rfl rfl hw
    exact createsOwned_of_owned htruthy ((h.turns hrm fun _ hk => hk).wellFormed hs)
      fun k r => h.owns_of_new fun _ hk => hk

/-- A configuration with nothing but the name of its provider. -/
def configNaming (p : String) : Fields :=
  [("provider_type", .text "memory"), ("sync", .mapping [("provider", .text p)])]

/-- The configuration in a file. -/
def filesNaming (p : String) : Files :=
  { files := [(["c"], .document (.mapping (configNaming p)))] }

theorem read_filesNaming (p : String) :
    (filesNaming p).read "c" = .ok (.document (.mapping (configNaming p))) :=
  Config.read_folderOf _

theorem load_filesNaming (p : String)
    (h : Config.check (configNaming p) = .ok (Config.completed (configNaming p))) :
    (Config.load (filesNaming p) (.text "c") []).outcome
      = .ok (Config.completed (configNaming p)) := by
  have hfields : Config.fileFields (filesNaming p) "c" = .ok (configNaming p) := by
    rw [Config.fileFields, Config.fileContent, read_filesNaming]
    rfl
  unfold Config.load
  simp only [Reply.outcome_bind, Reply.outcome_ofResult]
  refine bind_eq_ok.2 ⟨"c", rfl, bind_eq_ok.2 ⟨configNaming p, hfields, ?_⟩⟩
  exact bind_eq_ok.2 ⟨configNaming p, rfl, bind_eq_ok.2 ⟨_, h, rfl⟩⟩

theorem policy_configNaming (p : String) :
    Policy.ofConfig (.mapping (Config.completed (configNaming p)))
      = .ok { provider := .text p } := by
  obtain ⟨fields, hfields, h⟩ : ∃ fields, Config.completed (configNaming p) = fields ∧
      Policy.ofConfig (.mapping fields) = .ok { provider := .text p } := by
    refine ⟨?fields, ?completed, ?policy⟩
    case completed =>
      simp [Config.completed, configNaming, Config.defaults, Config.complete, Config.sectionOf,
        Assoc.set, Assoc.has, Assoc.lookup_cons, Value.int]
      rfl
    case policy => rfl
  rw [hfields, h]

/-- The one user of a provider. -/
def onlyUser (p : String) : Identity :=
  Memory.identity { name := .text p } .user (.text "u") [] .null []

/-- A standard context for a provider with one user. -/
def naming (p : String) : Context where
  policy := { provider := .text p }
  provider := Memory.provider ⟨.text p, false, [(.text "u", onlyUser p)]⟩
  dynamic := false

/-- The record of the user is still of the provider. -/
theorem created_stays_owned_iff_plain :
    (Config.load (filesNaming "P") (.text "c") []).outcome
      = .ok (Config.completed (configNaming "P")) ∧
    Policy.ofConfig (.mapping (Config.completed (configNaming "P"))) = .ok (naming "P").policy ∧
    ∃ a w', (naming "P").sync (onlyUser "P") {} = (.ok a, w') ∧ a.status = .add ∧
      CreatesOwned (naming "P") {} w'.store := by
  have hload := load_filesNaming "P" rfl
  have hfind : ∀ q i, ((naming "P").provider.lookup q).outcome = .ok (some i) →
      (naming "P").owns i.ref = true :=
    owns_of_memory (m := ⟨.text "P", false, [(.text "u", onlyUser "P")]⟩) (by decide)
  refine ⟨hload, policy_configNaming "P", _, _, rfl, rfl, ?_⟩
  exact (created_stays_owned_iff (w := {}) hload (policy_configNaming "P") hfind
    Store.wellFormed_empty).1 (onlyUser "P") rfl

/-- A configuration is accepted whose provider has a semicolon in its name. The record of the user
is one of the provider when it is created, and one of another provider after the store was saved and
loaded. -/
theorem created_not_owned_after_loading :
    (Config.load (filesNaming "a;b") (.text "c") []).outcome
      = .ok (Config.completed (configNaming "a;b")) ∧
    Policy.ofConfig (.mapping (Config.completed (configNaming "a;b")))
      = .ok (naming "a;b").policy ∧
    ∃ a w' r document t r' b w'',
      (naming "a;b").sync (onlyUser "a;b") {} = (.ok a, w') ∧ a.status = .add ∧
      w'.store.find? (.text "u") = some r ∧ (naming "a;b").owns r.ref = true ∧
      w'.store.snapshot = .ok document ∧ Store.ofSnapshot document = .ok t ∧
      t.find? (.text "u") = some r' ∧ (naming "a;b").owns r'.ref = false ∧
      (naming "a;b").syncId (.text "u") { store := t } = (.ok b, w'') ∧ b.status = .foreign := by
  refine ⟨load_filesNaming "a;b" rfl, policy_configNaming "a;b", ?_⟩
  exact ⟨_, _, _, _, _, _, _, _, rfl, rfl, rfl, rfl, rfl, rfl, rfl, rfl, rfl, rfl⟩

end Context

end Roster
