import Roster.Proofs.Attributes
import Roster.Proofs.Collecting

/-!
# Entry points

What the entry points of a synchronisation do around their work: they choose a channel, turn
failures of the store and of the provider into their own (`guarded_ends`) and report the record as
it then is.

A user of the provider is added or updated, in both kinds of contexts (`Backed.sync_user_ends`).
Synchronising a user that has no record yet creates the record and then does what there is to do for
a record that exists (`Backed.sync_new_ends`).
-/

namespace Roster

namespace Failure

/-- The failure says that a record and an identity are of different types. -/
def IsMismatch : Failure → Prop
  | differentType _ | typesDiffer _ _ => True
  | _ => False

/-- The failure is one of a synchronisation: it has a cause that satisfies a predicate, or it says
that types differ. -/
def Reports (C : Failure → Prop) (f : Failure) : Prop :=
  (∃ subject cause, f = .syncFailed subject cause ∧ C cause) ∨ f.IsMismatch

theorem Reports.kind {C : Failure → Prop} {f : Failure} (h : f.Reports C) : f.kind = .sync := by
  rcases h with ⟨subject, cause, rfl, -⟩ | h
  · rfl
  · cases f <;> first | exact h.elim | rfl

end Failure

namespace Context

variable {ctx : Context} {m : Memory} {c : Scene} {s : Store} {k : Key} {r : Record} {u : Identity}
  {α : Type} {E F : Failure → Store → Prop}

/-- The failure with which an entry point is left. -/
def wrapped (subject : String) (f : Failure) : Failure :=
  if f.isA .store || f.isA .lookup then .syncFailed subject f else f

theorem guarded_ends {subject : String} {x : Sync α} {Q : α → Store → Prop}
    (hx : Sync.Ends c s x Q F) (hf : ∀ f s', F f s' → E (wrapped subject f) s') :
    Sync.Ends c s (guarded subject x) Q E :=
  Sync.Ends.tryCatch hx fun f s' h => Sync.Ends.throw (hf f s' h)

/-- Failures of the store and of lookups become causes; others are left as they are. -/
theorem guarded_reports_ends {subject : String} {x : Sync α} {Q : α → Store → Prop}
    {C : Store → Failure → Prop} (hC : ∀ s f, C s f → (f.isA .store || f.isA .lookup) = true)
    (hx : Sync.Ends c s x Q fun f s' => C s' f ∨ f.IsMismatch) :
    Sync.Ends c s (guarded subject x) Q fun f s' => f.Reports (C s') := by
  refine guarded_ends hx ?_
  rintro f s' (hf | hf)
  · rw [wrapped, if_pos (hC s' f hf)]
    exact .inl ⟨subject, f, rfl, hf⟩
  · have hkind : f.kind = .sync := Failure.Reports.kind (C := C s') (.inr hf)
    rw [wrapped, if_neg (by simp [Failure.isA, hkind, FailureKind.isA])]
    exact .inr hf

theorem channelFor_ends {source : String} {id : Value} {Q : Channel → Store → Prop}
    (h : ∀ log, Q log s) : Sync.Ends c s (channelFor source id) Q E := by
  refine Sync.Ends.get (fun _ w w' hc _ hc' _ => ?_) fun _ _ _ => Sync.Ends.pure (h _)
  have hrun : w.run = w'.run := congrArg Scene.run (hc.trans hc'.symm)
  rw [hrun]

/-- The outcome for a record. -/
def told (r : Record) (status : Status) : SyncResult :=
  ⟨r.id, r.ref, r.group, if r.lastSynced matches .null then .never else r.lastSynced, status⟩

theorem resultOf_told_ends {status : Status} (hk : s.find? k = some r) :
    Sync.Ends c s (resultOf (.stored k) status) (fun a s' => a = told r status ∧ s' = s) E := by
  unfold resultOf
  refine Sync.Ends.step (Sync.Ends.record hk ?_)
  exact Sync.Ends.pure ⟨rfl, rfl⟩

theorem resultOf_ends {status : Status} {Q : SyncResult → Store → Prop} (hk : s.find? k = some r)
    (h : ∀ a, a.status = status → Q a s) :
    Sync.Ends c s (resultOf (.stored k) status) Q E := by
  refine (resultOf_told_ends hk).mono ?_ fun _ _ => id
  rintro _ _ ⟨rfl, rfl⟩
  exact h _ rfl

theorem minus_ok {v v' : Value} (hv : v.IsTime) (hv' : v'.IsTime) : ∃ d, v.minus v' = .ok d := by
  obtain ⟨a, rfl, ha⟩ := hv
  obtain ⟨b, rfl, hb⟩ := hv'
  obtain ⟨p, hp⟩ := Option.isSome_iff_exists.1 ha
  obtain ⟨q, hq⟩ := Option.isSome_iff_exists.1 hb
  have hsub : ∃ d, a.sub b = some d := by
    unfold Number.sub Number.lift
    split
    · exact ⟨_, rfl⟩
    · simp only [hp, hq]
      exact ⟨_, rfl⟩
  obtain ⟨d, hd⟩ := hsub
  refine ⟨d, ?_⟩
  simp only [Value.minus, Value.number?, Scalar.number?, hd]

/-- Whether a record is due again at a time, an expiration time after it was synchronised. -/
def expiredAt (clock expiration : Value) (r : Record) : Bool :=
  match r.lastSynced with
  | .null => true
  | t => match clock.minus t, expiration.number? with
    | .ok age, some e => decide (e ≤ age)
    | _, _ => false

theorem isExpired_ends (hc : c.clock.IsTime) (hr : r.Typed) {expiration : Value}
    (he : expiration.IsTime) :
    Sync.Ends c s (isExpired r expiration)
      (fun b s' => b = expiredAt c.clock expiration r ∧ s' = s) E := by
  unfold isExpired
  rcases hr.lastSynced with hn | ht
  · rw [expiredAt, hn]
    exact Sync.Ends.pure ⟨rfl, rfl⟩
  · obtain ⟨d, hd⟩ := minus_ok hc ht
    obtain ⟨n, hn, -⟩ := ht
    obtain ⟨e, rfl, -⟩ := he
    rw [hn] at hd
    rw [expiredAt, hn]
    refine Sync.Ends.get (fun _ w w' hc _ hc' _ => ?_) fun w hw _ => ?_
    · have hclock : w.clock = w'.clock := congrArg Scene.clock (hc.trans hc'.symm)
      simp only [hclock]
    · have hclock : w.clock = c.clock := congrArg Scene.clock hw
      refine Sync.Ends.step (Sync.Ends.result_ok (by rw [hclock]; exact hd) ?_)
      refine Sync.Ends.pure ⟨?_, rfl⟩
      show _ = match c.clock.minus (.number n), (Value.number e).number? with
        | .ok age, some e => decide (e ≤ age)
        | _, _ => false
      rw [hd]
      rfl

/-- A typed record says whether it is a group. -/
theorem sameType_iff (hr : r.Typed) (i : Identity) :
    sameType r i = true ↔ r.isGroup = i.isGroup := by
  obtain ⟨b, hb⟩ := hr.group
  rw [sameType, Record.isGroup, hb]
  cases b <;> cases i.isGroup <;> decide

/-- A reference of the provider's own making is one of the provider of the policy where the names
agree. -/
theorem owns_ref_iff (hp : ctx.policy.provider.IsText) (hm : m.name.IsText) (id : Value) :
    ctx.owns (some (m.ref id)) = true ↔ ctx.policy.provider = m.name := by
  obtain ⟨a, ha⟩ := hp
  obtain ⟨b, hb⟩ := hm
  show (m.name == ctx.policy.provider) = true ↔ _
  rw [ha, hb, Value.scalar_beq_scalar, Scalar.text_beq_text, beq_iff_eq]
  simp [eq_comm]

theorem Backed.owns_ref (h : ctx.Backed m) (id : Value) : ctx.owns (some (m.ref id)) = true :=
  (owns_ref_iff h.policy.provider h.memory.name id).2 h.name

/-- The record of a new identity is typed. -/
theorem typed_newRecord (hu : u.Typed) (isGroup : Bool) : (ctx.newRecord u isGroup).Typed where
  id := hu.id
  group := ⟨isGroup, rfl⟩
  principalName := hu.principalName
  ref := by
    rintro q hq
    obtain ⟨q', hq', ht⟩ := hu.ref
    obtain rfl : q' = q := Option.some.inj (hq'.symm.trans hq)
    exact ht
  mode := ⟨_, rfl⟩
  lastSynced := .inl rfl
  names := nofun
  properties := ⟨_, rfl⟩

/-- The record of a new identity is created. -/
theorem newRecord_ends (hc : c.Foresees E) (hs : s.WellFormed) (ht : s.Typed) (hu : u.Typed)
    (hid : u.id.toKey = .ok k) (hnew : s.find? k = none) (isGroup : Bool) :
    Sync.Ends c s (Sync.create (ctx.newRecord u isGroup)) (fun x s' => x = .stored k ∧
      s'.WellFormed ∧ s'.Typed ∧
      (∀ y, s'.find? y = if y = k then some (ctx.newRecord u isGroup) else s.find? y) ∧
      ∀ x y, s'.Member x y ↔ s.Member x y) E := by
  refine (create_ends hc hs hu.id hid hnew).mono ?_ fun _ _ => id
  rintro _ s₁ ⟨rfl, hs₁⟩
  obtain ⟨s₂, hs₂, hwf, hrecords, hmember⟩ :=
    hs.create_ok (r := ctx.newRecord u isGroup) hid hnew
  obtain rfl : s₁ = s₂ := Except.ok.inj (hs₁.symm.trans hs₂)
  exact ⟨rfl, hwf, ht.of_append (typed_newRecord hu isGroup) hrecords,
    Store.find?_create (r := ctx.newRecord u isGroup) hid hs₁, hmember⟩

/-- The names of the groups within a number of hops of an identity. -/
theorem Served.collect_groups_ends (h : ctx.Served m) (hu : u.Typed) (log : Channel) (d : Nat) :
    Sync.Ends c s (ctx.collect log d ∅ u.groups) (fun names s' => s' = s ∧ names.Texts ∧
      (ctx.Clear m c d u.groups → ∀ n, n ∈ names.keys ↔ ctx.NameWithin m d u.groups n)) E := by
  refine (h.collect_ends d hu.groups NameSet.texts_empty).mono ?_ fun _ _ => id
  rintro names s ⟨rfl, htexts, hnames⟩
  exact ⟨rfl, htexts, fun hp n => (hnames hp n).trans (or_iff_right List.not_mem_nil)⟩

theorem Backed.collect_groups_ends (h : ctx.Backed m) (hu : u.Typed) (log : Channel) (d : Nat) :
    Sync.Ends c s (ctx.collect log d ∅ u.groups) (fun names s' => s' = s ∧ names.Texts ∧
      (Plain c m → ∀ n, n ∈ names.keys ↔ ctx.NameWithin m d u.groups n)) E :=
  (h.served.collect_groups_ends hu log d).mono
    (fun _ _ hn => ⟨hn.1, hn.2.1, fun hp => hn.2.2 hp.clear⟩) fun _ _ => id

theorem Served.namesOf_ends (h : ctx.Served m) (hu : u.Typed) (log : Channel) (depth : Int) :
    Sync.Ends c s (ctx.namesOf log u depth) (fun names s' => s' = s ∧ names.Texts ∧
      (ctx.Clear m c depth.toNat u.groups →
        ∀ n, n ∈ names.keys ↔ ctx.NameWithin m depth.toNat u.groups n)) E := by
  unfold namesOf
  split
  · refine Sync.Ends.step (requireKnown_ends hu.known ?_)
    exact h.collect_groups_ends hu log _
  · exact h.collect_groups_ends hu log _

/-- Both kinds of contexts synchronise users in the same way. -/
theorem sync_user (hkind : u.kind = .user) : ctx.sync u = ctx.syncStandard u := by
  have hclassify : ctx.classify u = .ok .user := by simp [classify, hkind]
  unfold sync syncDynamic
  rw [hclassify]
  exact ite_self _

/-- A user of another provider is left alone. -/
theorem sync_foreign_user (hkind : u.kind = .user) (hown : ctx.owns u.ref = false) :
    ctx.sync u = pure (foreignResult u) := by
  rw [sync_user hkind]
  unfold syncStandard
  rw [hkind, hown]
  rfl

/-- A user of the provider is added if it has no record, and otherwise its record is updated. -/
theorem Backed.sync_user_ends (h : ctx.Backed m) (hu : m.identities.lookup k = some u)
    (hkind : u.kind = .user) {Q : SyncResult → Store → Prop}
    (hwrapped : ∀ subject f s', F f s' → E (wrapped subject f) s')
    (hadd : s.find? k = none → ∀ log, Sync.Ends c s (ctx.addIdentity u log) Q F)
    (hupdate : ∀ r, s.find? k = some r → ∀ log,
      Sync.Ends c s (ctx.updateIdentity u (.stored k) (some log)) Q F) :
    Sync.Ends c s (ctx.sync u) Q E := by
  obtain ⟨-, hid, href⟩ := h.memory.of_lookup hu
  rw [sync_user hkind]
  unfold syncStandard
  rw [hkind, href]
  simp only [h.owns_ref, Bool.not_true, Bool.false_eq_true, if_false]
  refine Sync.Ends.step (channelFor_ends fun log => ?_)
  refine guarded_ends ?_ (hwrapped _)
  refine Sync.Ends.step (Sync.Ends.lookUp hid ?_)
  cases hk : s.find? k with
  | none => exact hadd hk log
  | some r => exact hupdate r hk log

/-- A user that has no record gets one, which is then synchronised. -/
theorem Backed.sync_new_ends (h : ctx.Backed m) (hc : c.StoreWorks) (hs : s.WellFormed)
    (hu : m.identities.lookup k = some u) (hkind : u.kind = .user) (hnew : s.find? k = none)
    {Q : Store → Prop}
    (hsync : ∀ s₁ log, s.create (ctx.newRecord u false) = .ok s₁ →
      Sync.Ends c s₁ (ctx.syncUser u (.stored k) log)
        (fun _ s' => (∃ r, s'.find? k = some r) ∧ Q s') (fun _ _ => False)) :
    Sync.Ends c s (ctx.sync u) (fun _ s' => Q s') E := by
  obtain ⟨hty, hid, -⟩ := h.memory.of_lookup hu
  have hgroup : u.isGroup = false := by simp [Identity.isGroup, hkind]
  refine h.sync_user_ends (F := fun _ _ => False) hu hkind (fun _ _ _ => False.elim)
    (fun _ log => ?_) fun r hr => nomatch hnew.symm.trans hr
  unfold addIdentity
  rw [hgroup]
  refine Sync.Ends.bind (create_ends hc.foresees hs hty.id hid hnew) ?_
  rintro _ s₁ ⟨rfl, hs₁⟩
  refine Sync.Ends.bind (hsync s₁ _ hs₁) ?_
  rintro _ s₂ ⟨⟨r, hr⟩, hq⟩
  refine Sync.Ends.step (Sync.Ends.log ?_)
  exact resultOf_ends hr fun _ _ => hq

end Context

end Roster
