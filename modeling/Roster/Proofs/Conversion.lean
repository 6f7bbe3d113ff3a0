import Roster.Proofs.Entering
import Roster.Proofs.Jobs
import Roster.Proofs.Unwinding

/-!
# Converting records of the legacy mode

Converting a user unwinds its memberships and keeps the names found on the user. A conversion job
does this for one record after the other, in one store: what was taken back on behalf of one user
is not there any more for the next one. So a user gets the names of the groups that it reached
before the job, except those behind a group that an earlier user reached
(`perform_convert_names`), and in general not those of all groups that it reached
(`perform_convert_not_all_names`).

* `Context.Spent`: what the users converted so far reached.
* `Context.Converted`: what a conversion job has done to the store so far, relative to the store
  before it.
-/

namespace Roster

open Relation (ReflTransGen)

theorem Record.Typed.toDynamic {r : Record} {names : NameSet} (h : r.Typed) (hn : names.Texts) :
    (r.toDynamic names).Typed :=
  { h with
    mode := ⟨_, rfl⟩
    names := by
      rintro ns ⟨rfl⟩
      exact ⟨names, rfl, hn⟩ }

namespace Context

variable {ctx : Context} {c : Scene} {s : Store} {k : Key} {D : Key → Key → Bool}
  {K X : Key → Bool} {x g n : Key}

/-! ## Memberships in a smaller store -/

theorem clearable_cut :
    ctx.Clearable (s.cut D) x g ↔ ctx.Clearable s x g ∧ D x g = false := by
  simp only [Clearable, Store.member_cut, Store.find?_cut]
  exact and_right_comm

theorem clearable_drop :
    ctx.Clearable (s.drop X) x g ↔ ctx.Clearable s x g ∧ X x = false ∧ X g = false := by
  simp only [Clearable, Store.member_drop, Store.find?_drop]
  constructor
  · rintro ⟨⟨hm, hx, hg⟩, r, q, hr, hq, ho⟩
    simp only [hx, hg, Bool.false_eq_true, if_false] at hr hq
    exact ⟨⟨hm, r, q, hr, hq, ho⟩, hx, hg⟩
  · rintro ⟨⟨hm, r, q, hr, hq, ho⟩, hx, hg⟩
    exact ⟨⟨hm, hx, hg⟩, r, q, by simp [hx, hr], by simp [hg, hq], ho⟩

/-- After unwinding a record the clearable memberships are those it did not reach. -/
theorem clearable_unwoundStore (h : s.WellFormed) :
    ctx.Clearable (ctx.unwoundStore K s k) x g ↔
      ctx.Clearable s x g ∧ ¬ ctx.Reaches s k x := by
  rw [unwoundStore, clearable_drop, clearable_cut]
  constructor
  · rintro ⟨⟨hc, hd⟩, -, -⟩
    refine ⟨hc, fun hr => ?_⟩
    rw [cleared_iff.2 ⟨hc, hr⟩] at hd
    cases hd
  · rintro ⟨hc, hr⟩
    refine ⟨⟨hc, ?_⟩, ?_, ?_⟩
    · rw [← Bool.not_eq_true, cleared_iff]
      exact fun h => hr h.2
    · rw [← Bool.not_eq_true, orphaned_iff]
      rintro ⟨-, ho, ⟨y, hy⟩, hall, -⟩
      exact hr ((hall y hy).tail (clearable_of_owned h hy ho))
    · rw [← Bool.not_eq_true, orphaned_iff]
      rintro ⟨-, -, -, hall, -⟩
      exact hr (hall x hc.1)

theorem find?_unwoundStore :
    (ctx.unwoundStore K s k).find? x = if ctx.orphaned K s k x then none else s.find? x := by
  rw [unwoundStore, Store.find?_drop, Store.find?_cut]

/-- Unwinding deletes only groups. -/
theorem find?_unwoundStore_user (h : s.WellFormed) {r : Record} (hk : s.find? x = some r)
    (hr : r.isGroup = false) : (ctx.unwoundStore K s k).find? x = some r := by
  have horphaned : ctx.orphaned K s k x = false := by
    rw [← Bool.not_eq_true, orphaned_iff]
    rintro ⟨-, -, ⟨y, hy⟩, -, -⟩
    obtain ⟨-, q, hq, hg⟩ := h.exists_of_member hy
    obtain rfl : r = q := Option.some.inj (hk.symm.trans hq)
    rw [hr] at hg
    cases hg
  rw [find?_unwoundStore, horphaned, if_neg Bool.false_ne_true, hk]

/-- A change of a record that keeps id, type and reference changes no clearable membership. -/
theorem clearable_modify {f : Record → Record}
    (hf : ∀ r, (f r).id = r.id ∧ (f r).group = r.group ∧ (f r).ref = r.ref) :
    ctx.Clearable (s.modify k f) x g ↔ ctx.Clearable s x g := by
  have hg (r : Record) : (f r).isGroup = r.isGroup := by
    rw [Record.isGroup, (hf r).2.1, Record.isGroup]
  have hfind (y : Key) (p : Record → Prop) (hp : ∀ r, p (f r) ↔ p r) :
      (∃ r, (s.modify k f).find? y = some r ∧ p r) ↔ ∃ r, s.find? y = some r ∧ p r := by
    rw [Store.find?_modify]
    split
    · cases s.find? y <;> simp [hp]
    · rfl
  unfold Clearable
  rw [Store.member_modify]
  refine and_congr_right fun _ => ?_
  have hx (q : Record) := hfind x (fun r => ctx.owns q.ref = true ∨ ∃ a, q.id.toScalar = .ok a ∧
    (ctx.policy.autoMembershipFor r.isGroup).contains a = true) (fun r => by rw [hg])
  have hq (r : Record) := hfind g (fun q => ctx.owns q.ref = true ∨ ∃ a, q.id.toScalar = .ok a ∧
    (ctx.policy.autoMembershipFor r.isGroup).contains a = true)
    (fun q => by rw [(hf q).1, (hf q).2.2])
  constructor
  · rintro ⟨r, q, hr, hq', ho⟩
    obtain ⟨q', hq', ho⟩ := (hq r).1 ⟨q, hq', ho⟩
    obtain ⟨r', hr', ho⟩ := (hx q').1 ⟨r, hr, ho⟩
    exact ⟨r', q', hr', hq', ho⟩
  · rintro ⟨r, q, hr, hq', ho⟩
    obtain ⟨q', hq', ho⟩ := (hq r).2 ⟨q, hq', ho⟩
    obtain ⟨r', hr', ho⟩ := (hx q').2 ⟨r, hr, ho⟩
    exact ⟨r', q', hr', hq', ho⟩

/-! ## Converting one user -/

theorem convert_ends {r : Record} (hk : s.find? k = some r) (hl : r.isLegacy = true)
    (names : NameSet) :
    Sync.Ends c s (Sync.convert (.stored k) (.ok names))
      (fun _ s' => s' = s.modify k fun r => r.toDynamic names)
      (fun f s' => c.Refuses s f ∧ s' = s) := by
  unfold Sync.convert
  refine Sync.Ends.step (Sync.Ends.record hk ?_)
  refine Sync.Ends.step (Sync.Ends.allow (fun _ => ?_)
    fun hp => ⟨⟨_, r, by decide, Store.mem_all_of_find? hk, rfl, hp⟩, rfl⟩)
  refine Sync.Ends.step (Sync.Ends.result_ok rfl ?_)
  rw [if_neg (by simp [hl])]
  exact Sync.Ends.update rfl

/-- A user of the legacy mode is unwound and converted; of other records nothing is changed. -/
theorem convertMembership_ends (h : s.WellFormed) (ht : s.Typed) {r : Record}
    (hk : s.find? k = some r) (hr : r.isGroup = false) :
    Sync.Ends c s (ctx.convertMembership (.stored k))
      (fun b s' => b = r.isLegacy ∧ (r.isLegacy = false ∧ s' = s ∨ r.isLegacy = true ∧
        ∃ names K, ctx.UnwoundNames s k names ∧ c.Spares s K ∧
          s' = (ctx.unwoundStore K s k).modify k fun r => r.toDynamic names))
      (fun f _ => c.Refuses s f) := by
  unfold convertMembership
  refine Sync.Ends.step (Sync.Ends.record hk ?_)
  cases hl : r.isLegacy with
  | false =>
    rw [if_pos (by simp)]
    exact Sync.Ends.pure ⟨rfl, .inl ⟨rfl, rfl⟩⟩
  | true =>
    rw [if_neg (by simp [hr])]
    refine Sync.Ends.step (channelFor_ends fun log => ?_)
    refine Sync.Ends.bind ((unwind_ends h ht hk).mono (fun _ _ => id) fun f _ hf => hf.1) ?_
    rintro names _ ⟨hn, K, hK, rfl⟩
    have hfind : (ctx.unwoundStore K s k).find? k = some r := find?_unwoundStore_user h hk hr
    refine Sync.Ends.bind ((convert_ends hfind hl names).mono (fun _ _ => id) ?_) ?_
    · rintro f _ ⟨⟨op, q, hop, hq, he, hp⟩, -⟩
      exact ⟨op, q, hop, Store.mem_all_drop hq, he, hp⟩
    · rintro _ _ rfl
      refine Sync.Ends.step (Sync.Ends.audit ?_)
      exact Sync.Ends.pure ⟨rfl, .inr ⟨rfl, names, K, hn, hK, rfl⟩⟩

/-! ## Converting one user after the other -/

/-- There is a user of the legacy mode under the key. -/
def LegacyUser (s : Store) (k : Key) : Prop :=
  ∃ r, s.find? k = some r ∧ r.isGroup = false ∧ r.isLegacy = true

/-- A user of the legacy mode under one of the keys reaches the record. -/
def Spent (ctx : Context) (s : Store) (done : List Key) (x : Key) : Prop :=
  ∃ u ∈ done, LegacyUser s u ∧ ctx.Reaches s u x

/-- The name is that of a group of the provider which a record reaches, without a way through what
is spent. -/
def NameLeft (ctx : Context) (s : Store) (done : List Key) (k n : Key) : Prop :=
  ∃ x g, ctx.Reaches s k x ∧ ¬ ctx.Spent s done x ∧ ctx.Clearable s x g ∧ ctx.Named s g n

/-- What a conversion job has done to a store when the turn of some records has come. -/
structure Converted (ctx : Context) (s₀ : Store) (done : List Key) (s : Store) : Prop where
  wellFormed : s.WellFormed
  typed : s.Typed
  clearable : ∀ x g, ctx.Clearable s x g ↔ ctx.Clearable s₀ x g ∧ ¬ ctx.Spent s₀ done x
  records : ∀ k r, s.find? k = some r → ∃ r₀, s₀.find? k = some r₀ ∧ r.id = r₀.id ∧
    r.group = r₀.group ∧ r.ref = r₀.ref ∧ r.principalName = r₀.principalName
  users : ∀ k r, s₀.find? k = some r → r.isGroup = false → k ∉ done → s.find? k = some r
  names : ∀ before k after, done = before ++ k :: after → LegacyUser s₀ k →
    ∃ r names, s.find? k = some r ∧ r.mode = some .dynamic ∧ r.names = some (.set names) ∧
      ∀ n, n ∈ names.keys ↔ ctx.NameLeft s₀ before k n

variable {s₀ : Store} {done : List Key}

theorem Spent.tail {y : Key} (h : ctx.Spent s₀ done x) (hc : ctx.Clearable s₀ x y) :
    ctx.Spent s₀ done y := by
  obtain ⟨u, hu, hl, hr⟩ := h
  exact ⟨u, hu, hl, hr.tail hc⟩

theorem spent_concat :
    ctx.Spent s₀ (done ++ [k]) x ↔
      ctx.Spent s₀ done x ∨ LegacyUser s₀ k ∧ ctx.Reaches s₀ k x := by
  simp only [Spent, List.mem_append, List.mem_singleton]
  constructor
  · rintro ⟨u, hu | rfl, h⟩
    · exact .inl ⟨u, hu, h⟩
    · exact .inr h
  · rintro (⟨u, hu, h⟩ | h)
    · exact ⟨u, .inl hu, h⟩
    · exact ⟨k, .inr rfl, h⟩

/-- Something stands in a list with one more item at the end: it is that item, or it stands in the
list before. -/
theorem concat_eq_append_cons {j : Key} {before after : List Key}
    (h : done ++ [k] = before ++ j :: after) :
    before = done ∧ j = k ∨ ∃ rest, done = before ++ j :: rest := by
  rcases List.eq_nil_or_concat after with rfl | ⟨rest, i, rfl⟩
  · obtain ⟨rfl, hk⟩ := List.append_inj' h rfl
    exact .inl ⟨rfl, by simpa using hk.symm⟩
  · rw [List.concat_eq_append, ← List.cons_append, ← List.append_assoc] at h
    exact .inr ⟨rest, (List.append_inj' h rfl).1⟩

namespace Converted

theorem refl (h : s.WellFormed) (ht : s.Typed) : ctx.Converted s [] s where
  wellFormed := h
  typed := ht
  clearable := fun x g => ⟨fun hc => ⟨hc, fun ⟨_, hu, _⟩ => absurd hu List.not_mem_nil⟩, And.left⟩
  records := fun k r hr => ⟨r, hr, rfl, rfl, rfl, rfl⟩
  users := fun _ _ hr _ _ => hr
  names := fun _ _ _ he => absurd he (by simp)

/-- The turn of a record that is no user of the legacy mode changes nothing. -/
theorem skip (h : ctx.Converted s₀ done s) (hk : ¬ LegacyUser s₀ k) :
    ctx.Converted s₀ (done ++ [k]) s where
  wellFormed := h.wellFormed
  typed := h.typed
  clearable := by
    intro x g
    rw [h.clearable, spent_concat, or_iff_left fun hu => hk hu.1]
  records := h.records
  users := fun j r hr hg hj => h.users j r hr hg fun hm => hj (List.mem_append_left _ hm)
  names := by
    intro before j after he hj
    rcases concat_eq_append_cons he with ⟨-, rfl⟩ | ⟨rest, hd⟩
    · exact absurd hj hk
    · exact h.names before j rest hd hj

/-- What is not spent is reached as before. -/
theorem reaches_iff (h : ctx.Converted s₀ done s) (hx : ¬ ctx.Spent s₀ done x) :
    ctx.Reaches s k x ↔ ctx.Reaches s₀ k x := by
  constructor
  · exact ReflTransGen.mono (fun a b hab => ((h.clearable a b).1 hab).1) k x
  · intro hr
    induction hr with
    | refl => exact .refl
    | tail _ hab ih =>
      have ha : ¬ ctx.Spent s₀ done _ := fun hs => hx (hs.tail hab)
      exact (ih ha).tail ((h.clearable _ _).2 ⟨hab, ha⟩)

/-- The names behind what is reached now are those left of the ones reached before. -/
theorem nameLeft_iff (h : ctx.Converted s₀ done s) {n : Key} :
    (∃ x g, ctx.Clearable s x g ∧ ctx.Reaches s k x ∧ ctx.Named s g n) ↔
      ctx.NameLeft s₀ done k n := by
  have hnamed (x g : Key) (hc : ctx.Clearable s x g) : ctx.Named s g n ↔ ctx.Named s₀ g n := by
    obtain ⟨-, -, q, -, hq, -⟩ := hc
    obtain ⟨q₀, hq₀, -, -, href, hname⟩ := h.records g q hq
    simp [Named, hq, hq₀, href, hname]
  constructor
  · rintro ⟨x, g, hc, hr, hname⟩
    obtain ⟨hc₀, hx⟩ := (h.clearable x g).1 hc
    exact ⟨x, g, (h.reaches_iff hx).1 hr, hx, hc₀, (hnamed x g hc).1 hname⟩
  · rintro ⟨x, g, hr, hx, hc₀, hname⟩
    have hc := (h.clearable x g).2 ⟨hc₀, hx⟩
    exact ⟨x, g, hc, (h.reaches_iff hx).2 hr, (hnamed x g hc).2 hname⟩

/-- The turn of a user of the legacy mode. -/
theorem convert (h : ctx.Converted s₀ done s) (hk : LegacyUser s₀ k) (hnew : k ∉ done)
    {names : NameSet} (hn : ctx.UnwoundNames s k names) :
    ctx.Converted s₀ (done ++ [k])
      ((ctx.unwoundStore K s k).modify k fun r => r.toDynamic names) := by
  obtain ⟨u, hu, hg, hl⟩ := hk
  have hus : s.find? k = some u := h.users k u hu hg hnew
  have hkeep : ∀ j r, s.find? j = some r → r.isGroup = false →
      (ctx.unwoundStore K s k).find? j = some r :=
    fun j r hr hrg => find?_unwoundStore_user h.wellFormed hr hrg
  have hsub : ∀ j r, (ctx.unwoundStore K s k).find? j = some r → s.find? j = some r := by
    intro j r hr
    rw [find?_unwoundStore] at hr
    split at hr
    · cases hr
    · exact hr
  constructor
  · exact ((h.wellFormed.cut _).drop _).modify fun r _ => ⟨rfl, rfl⟩
  · exact ((h.typed.cut _).drop _).modify fun r hr => hr.toDynamic hn.1
  · intro x g
    rw [clearable_modify (f := fun r => r.toDynamic names) fun _ => ⟨rfl, rfl, rfl⟩,
      clearable_unwoundStore h.wellFormed,
      h.clearable, spent_concat, and_assoc, not_or]
    refine and_congr_right fun hc => and_congr_right fun hx => not_congr ?_
    rw [h.reaches_iff hx, and_iff_right ⟨u, hu, hg, hl⟩]
  · intro j r hr
    rw [Store.find?_modify] at hr
    split at hr
    · next hj =>
      subst hj
      rw [hkeep j u hus hg] at hr
      obtain rfl := Option.some.inj hr
      exact ⟨u, hu, rfl, rfl, rfl, rfl⟩
    · exact h.records j r (hsub j r hr)
  · intro j r hr hrg hj
    rw [List.mem_append, List.mem_singleton, not_or] at hj
    rw [Store.find?_modify, if_neg hj.2]
    exact hkeep j r (h.users j r hr hrg hj.1) hrg
  · intro before j after he hj
    rcases concat_eq_append_cons he with ⟨rfl, rfl⟩ | ⟨rest, hd⟩
    · refine ⟨u.toDynamic names, names, ?_, rfl, rfl, fun n => (hn.2 n).trans h.nameLeft_iff⟩
      rw [Store.find?_modify, if_pos rfl, hkeep j u hus hg, Option.map_some]
    · obtain ⟨r, ns, hr, hm, hns, hiff⟩ := h.names before j rest hd hj
      obtain ⟨r₀, hr₀, hg₀, -⟩ := hj
      have hne : j ≠ k := by
        rintro rfl
        exact hnew (by rw [hd]; simp)
      refine ⟨r, ns, ?_, hm, hns, hiff⟩
      rw [Store.find?_modify, if_neg hne]
      refine hkeep j r hr ?_
      obtain ⟨r₁, hr₁, -, hgroup, -⟩ := h.records j r hr
      obtain rfl : r₀ = r₁ := Option.some.inj (hr₀.symm.trans hr₁)
      rw [Record.isGroup, hgroup]
      exact hg₀

end Converted

end Context

/-! ## Conversion jobs -/

namespace Job

variable {ctx : Context} {c : Scene} {s₀ s : Store} {done : List Key} {k : Key}

/-- What the turn of a record does: a user of the legacy mode is unwound and converted, and nothing
happens to anything else. -/
inductive Turned (ctx : Context) (s : Store) (k : Key) : Option Bool → Store → Prop where
  | passed {b : Option Bool} (hb : b ≠ some true) (hk : ¬ Context.LegacyUser s k) :
      Turned ctx s k b s
  | converted {names : NameSet} {K : Key → Bool} (hk : Context.LegacyUser s k)
      (hn : ctx.UnwoundNames s k names) : Turned ctx s k (some true) ((ctx.unwoundStore K s k).modify k fun r => r.toDynamic names)

/-- The turn of one record, as a step of a synchronisation. -/
theorem convertUser_ends_in (ctx : Context) (h : s.WellFormed) (ht : s.Typed) {id : Value}
    (hid : id.toKey = .ok k) :
    Sync.Ends c s (convertUser ctx id) (Turned ctx s k) fun f _ => c.Refuses s f := by
  unfold convertUser
  refine Sync.Ends.step (Sync.Ends.lookUp hid ?_)
  cases hr : s.find? k with
  | none =>
    refine Sync.Ends.pure (.passed (by simp) ?_)
    rintro ⟨r, hr', -⟩
    rw [hr] at hr'
    cases hr'
  | some r =>
    simp only [Option.map_some]
    cases hg : r.isGroup with
    | true =>
      rw [if_pos rfl]
      refine Sync.Ends.pure (.passed (by simp) ?_)
      rintro ⟨r', hr', hg', -⟩
      obtain rfl : r = r' := Option.some.inj (hr.symm.trans hr')
      rw [hg] at hg'
      cases hg'
    | false =>
      rw [if_neg Bool.false_ne_true]
      refine Sync.Ends.bind (Context.convertMembership_ends h ht hr hg) ?_
      rintro b s' ⟨rfl, ⟨hl, rfl⟩ | ⟨hl, names, K, hn, -, rfl⟩⟩
      · refine Sync.Ends.pure (.passed (by simp [hl]) ?_)
        rintro ⟨r', hr', -, hl'⟩
        obtain rfl : r = r' := Option.some.inj (hr.symm.trans hr')
        rw [hl] at hl'
        cases hl'
      · rw [hl]
        exact Sync.Ends.pure (.converted ⟨r, hr, hg, hl⟩ hn)

/-- Until its turn comes, a user of the legacy mode stays one. -/
theorem legacyUser_iff (h : ctx.Converted s₀ done s) (hnew : k ∉ done) :
    Context.LegacyUser s k ↔ Context.LegacyUser s₀ k := by
  constructor
  · rintro ⟨r, hr, hg, hl⟩
    obtain ⟨r₀, hr₀, -, hgroup, -⟩ := h.records k r hr
    have hg₀ : r₀.isGroup = false := by rw [Record.isGroup, ← hgroup]; exact hg
    obtain rfl : r = r₀ := Option.some.inj (hr.symm.trans (h.users k r₀ hr₀ hg₀ hnew))
    exact ⟨r, hr₀, hg, hl⟩
  · rintro ⟨u, hu, hg, hl⟩
    exact ⟨u, h.users k u hu hg hnew, hg, hl⟩

theorem converted_of_turned (h : ctx.Converted s₀ done s) (hnew : k ∉ done) {b : Option Bool}
    {s' : Store} (ht : Turned ctx s k b s') : ctx.Converted s₀ (done ++ [k]) s' := by
  cases ht with
  | passed _ hk => exact h.skip fun hk₀ => hk ((legacyUser_iff h hnew).2 hk₀)
  | converted hk hn => exact h.convert ((legacyUser_iff h hnew).1 hk) hnew hn

/-- A failure that may strike may strike a record that was there before the job. -/
theorem refuses_of_converted (h : ctx.Converted s₀ done s) {f : Failure} (hf : c.Refuses s f) :
    c.Refuses s₀ f := by
  obtain ⟨op, q, hop, hq, rfl, hp⟩ := hf
  obtain ⟨⟨j, q⟩, hjq, rfl⟩ := List.mem_map.1 hq
  obtain ⟨q₀, hq₀, hid, -⟩ := h.records j q (h.wellFormed.find?_eq_some_iff.2 hjq)
  exact ⟨op, q₀, hop, Store.mem_all_of_find? hq₀, by rw [hid], hid ▸ hp⟩

/-- The turns of records, one after the other. -/
inductive TurnedAll (ctx : Context) (s₀ : Store) : List Key → Store → Prop where
  | nil : TurnedAll ctx s₀ [] s₀
  | concat {done : List Key} {k : Key} {s s' : Store} {b : Option Bool}
      (h : TurnedAll ctx s₀ done s) (ht : Turned ctx s k b s') :
      TurnedAll ctx s₀ (done ++ [k]) s'

theorem TurnedAll.converted (h : TurnedAll ctx s₀ done s) (hwf : s₀.WellFormed) (ht : s₀.Typed)
    (hd : done.Nodup) : ctx.Converted s₀ done s := by
  induction h with
  | nil => exact .refl hwf ht
  | concat _ hk ih =>
    obtain ⟨hd, -, hnew⟩ := List.nodup_append.1 hd
    exact converted_of_turned (ih hd) (fun hmem => hnew _ hmem _ (by simp) rfl) hk

variable {st : State}

/-- At its turn a record is converted or passed by; or a planned failure strikes, is counted and
leaves the store as its snapshot is read. -/
theorem convertRecord_run (ctx : Context) (h : st.world.store.WellFormed)
    (ht : st.world.store.Typed) {id : Value} (hid : id.toKey = .ok k) :
    ∃ st', execute (convertRecord ctx id) st = (.ok (), st') ∧
      st'.world.scene = st.world.scene ∧
      ((∃ b, Turned ctx st.world.store k b st'.world.store) ∧
          st'.tally.failed = st.tally.failed ∨
        (∃ f, st.world.scene.Refuses st.world.store f) ∧
          st'.world.store = st.world.store.reread ∧ st'.tally.failed = st.tally.failed + 1) := by
  obtain ⟨document, hd, -⟩ := Store.read_snapshot h ht
  have he := (convertUser_ends_in (c := st.world.scene) ctx h ht hid).holds st.world rfl rfl
  unfold convertRecord
  rw [execute_bind_ok (execute_attempt ..)]
  rcases hr : convertUser ctx id st.world with ⟨f | b, w'⟩
  · rw [hr] at he
    have hg : w'.generation = st.world.generation := congrArg Scene.generation he.1
    obtain ⟨notes, hback⟩ := Sync.transaction_reread h ht hr hg
    have hf : f.isA .store = true := by
      obtain ⟨op, r, -, -, rfl, -⟩ := he.2
      rfl
    rw [hback]
    simp only [hf, if_true]
    unfold failIdentity
    rw [execute_bind_ok (execute_tally ..), execute_log]
    exact ⟨_, rfl, he.1, .inr ⟨⟨f, he.2⟩, rfl, rfl⟩⟩
  · rw [hr] at he
    rw [Sync.transaction_ok hd hr]
    match b with
    | none => exact ⟨_, rfl, he.1, .inl ⟨⟨_, he.2⟩, rfl⟩⟩
    | some true => exact ⟨_, rfl, he.1, .inl ⟨⟨_, he.2⟩, rfl⟩⟩
    | some false => exact ⟨_, rfl, he.1, .inl ⟨⟨_, he.2⟩, rfl⟩⟩

/-- Where a conversion job stands when the turn of some records has come: unless a failure struck,
each of them had its turn, and only failures struck that may strike records of the store before. -/
structure Underway (ctx : Context) (st : State) (done : List Key) (st' : State) : Prop where
  scene : st'.world.scene = st.world.scene
  wellFormed : st'.world.store.WellFormed
  typed : st'.world.store.Typed
  failed : st.tally.failed ≤ st'.tally.failed
  turned : st'.tally.failed = st.tally.failed →
    TurnedAll ctx st.world.store done st'.world.store
  safe : (∀ f, ¬ st.world.scene.Refuses st.world.store f) → st'.tally.failed = st.tally.failed

theorem Underway.refl (h : st.world.store.WellFormed) (ht : st.world.store.Typed) :
    Underway ctx st [] st :=
  ⟨rfl, h, ht, Nat.le_refl _, fun _ => .nil, fun _ => rfl⟩

theorem Underway.convertRecord {st' : State} (h : Underway ctx st done st')
    (hwf : st.world.store.WellFormed) (ht : st.world.store.Typed) (hd : done.Nodup) {id : Value}
    (hid : id.toKey = .ok k) :
    ∃ st'', execute (convertRecord ctx id) st' = (.ok (), st'') ∧
      Underway ctx st (done ++ [k]) st'' := by
  obtain ⟨st'', hrun, hc, hcase⟩ := convertRecord_run ctx h.wellFormed h.typed hid
  have hle := h.failed
  refine ⟨st'', hrun, ?_⟩
  rcases hcase with ⟨⟨b, hturn⟩, hfailed⟩ | ⟨⟨f, hf⟩, hstore, hfailed⟩
  · have hconv := converted_of_turned (.refl h.wellFormed h.typed) List.not_mem_nil hturn
    refine ⟨hc.trans h.scene, hconv.wellFormed, hconv.typed, by omega, fun he => ?_,
      fun hnone => ?_⟩
    · exact .concat (h.turned (by omega)) hturn
    · rw [hfailed, h.safe hnone]
  · rw [h.scene] at hf
    refine ⟨hc.trans h.scene, ?_, ?_, by omega, fun he => by omega, fun hnone => ?_⟩
    · rw [hstore]
      exact h.wellFormed.reread
    · rw [hstore]
      exact h.typed.reread
    · have hconv := (h.turned (h.safe hnone)).converted hwf ht hd
      exact absurd (refuses_of_converted hconv hf) (hnone f)

theorem execute_perform_convert (hctx : ctx.dynamic = true) (st : State) :
    execute (perform ctx .convert) st =
      execute (st.world.store.records.forM fun p => convertRecord ctx p.2.id) st := by
  have hids : st.world.store.ids = st.world.store.records.map fun p => p.2.id := by
    rw [Store.ids, Store.all, List.map_map]
    rfl
  unfold perform
  simp only [hctx, Bool.not_true, Bool.false_eq_true, if_false]
  rw [execute_get]
  show execute (st.world.store.ids.forM (convertRecord ctx)) st = _
  rw [hids]
  exact congrArg (execute · st) List.forM_map

/-- A conversion job goes through all records, whatever failures are planned. -/
theorem perform_convert_run (ctx : Context) (st : State) (hctx : ctx.dynamic = true)
    (h : st.world.store.WellFormed) (ht : st.world.store.Typed) :
    ∃ st', execute (perform ctx .convert) st = (.ok (), st') ∧
      Underway ctx st st.world.store.records.keys st' := by
  rw [execute_perform_convert hctx]
  refine execute_forM (I := fun done st' => Underway ctx st (Assoc.keys done) st') (.refl h ht) ?_
  rintro done ⟨k, r⟩ rest st' he hst'
  have hid : r.id.toKey = .ok k := h.own_keys k r (by rw [he]; simp)
  have hd := h.keys_nodup
  rw [he, Assoc.keys, List.map_append, List.nodup_append] at hd
  rw [Assoc.keys, List.map_append]
  exact hst'.convertRecord h ht hd.1 hid

/-- A conversion job in which no failure may strike a record of the store goes through all records. -/
theorem perform_convert (ctx : Context) (st : State) (hctx : ctx.dynamic = true)
    (h : st.world.store.WellFormed) (ht : st.world.store.Typed)
    (hplan : ∀ op, ∀ r ∈ st.world.store.all, ¬ st.world.scene.MayRefuse op r.id) :
    ∃ st', execute (perform ctx .convert) st = (.ok (), st') ∧
      ctx.Converted st.world.store st.world.store.records.keys st'.world.store := by
  obtain ⟨st', hrun, hst'⟩ := perform_convert_run ctx st hctx h ht
  refine ⟨st', hrun, (hst'.turned (hst'.safe ?_)).converted h ht h.keys_nodup⟩
  rintro f ⟨op, r, -, hr, -, hp⟩
  exact hplan op r hr hp

/-- Two users in a group that is a member of another group. -/
def nestedGroups : Store where
  records := [
    (.text "u", legacyRecord "u" false "u"), (.text "v", legacyRecord "v" false "v"),
    (.text "g1", legacyRecord "g1" true "Group 1"), (.text "g2", legacyRecord "g2" true "Group 2")]
  members := [(.text "g1", [.text "u", .text "v"]), (.text "g2", [.text "g1"])]
where
  /-- A record of the legacy mode of a provider. -/
  legacyRecord (id : String) (group : Bool) (principalName : String) : Record :=
    { id := .text id, group := .bool group, principalName := .text principalName
      ref := some ⟨.text id, .text "P"⟩, mode := some .legacy }

/-- A context that converts. -/
def converting : Context where
  policy := { provider := .text "P", user := { dynamicMembership := true } }
  provider := Memory.provider { name := .text "P" }
  dynamic := true

theorem wellFormed_nestedGroups : nestedGroups.WellFormed := by decide

theorem typed_nestedGroups : nestedGroups.Typed := by
  have hlegacy (id : String) (group : Bool) (principalName : String) :
      (nestedGroups.legacyRecord id group principalName).Typed :=
    ⟨⟨_, rfl⟩, ⟨_, rfl⟩, ⟨_, rfl⟩, by rintro q ⟨rfl⟩; exact ⟨⟨_, rfl⟩, .inr ⟨_, rfl⟩⟩, ⟨_, rfl⟩,
      .inl rfl, nofun, ⟨_, rfl⟩⟩
  intro r hr
  simp only [Store.all, nestedGroups, List.map_cons, List.map_nil, List.mem_cons,
    List.not_mem_nil, or_false] at hr
  rcases hr with rfl | rfl | rfl | rfl <;> exact hlegacy ..

theorem member_nestedGroups {x g : Key} : nestedGroups.Member x g ↔
    (x = .text "u" ∨ x = .text "v") ∧ g = .text "g1" ∨ x = .text "g1" ∧ g = .text "g2" := by
  constructor
  · rintro ⟨a, ms, m, hm, rfl, hmem, rfl⟩
    simp only [nestedGroups, List.mem_cons, Prod.mk.injEq, List.not_mem_nil, or_false] at hm
    rcases hm with ⟨rfl, rfl⟩ | ⟨rfl, rfl⟩
    · rcases List.mem_pair.1 hmem with rfl | rfl
      · exact .inl ⟨.inl rfl, rfl⟩
      · exact .inl ⟨.inr rfl, rfl⟩
    · obtain rfl := List.mem_singleton.1 hmem
      exact .inr ⟨rfl, rfl⟩
  · rintro (⟨rfl | rfl, rfl⟩ | ⟨rfl, rfl⟩)
    · exact ⟨.text "g1", [.text "u", .text "v"], .text "u", by simp [nestedGroups], rfl,
        by simp, rfl⟩
    · exact ⟨.text "g1", [.text "u", .text "v"], .text "v", by simp [nestedGroups], rfl,
        by simp, rfl⟩
    · exact ⟨.text "g2", [.text "g1"], .text "g1", by simp [nestedGroups], rfl, by simp, rfl⟩

/-- After a conversion job in which no failure may strike a record of the store, a user of the
legacy mode has the names of the groups of the provider that it reached before the job from
something that no earlier user of the legacy mode reached. -/
theorem perform_convert_names (ctx : Context) (st : State) (hctx : ctx.dynamic = true)
    (h : st.world.store.WellFormed) (ht : st.world.store.Typed)
    (hplan : ∀ op, ∀ r ∈ st.world.store.all, ¬ st.world.scene.MayRefuse op r.id) :
    ∃ st', execute (perform ctx .convert) st = (.ok (), st') ∧
      ∀ before k u after, st.world.store.records = before ++ (k, u) :: after →
        u.isGroup = false → u.isLegacy = true →
        ∃ u' names, st'.world.store.find? k = some u' ∧ u'.mode = some .dynamic ∧
          u'.names = some (.set names) ∧
          ∀ n, n ∈ names.keys ↔ ctx.NameLeft st.world.store (Assoc.keys before) k n := by
  obtain ⟨st', hrun, hconv⟩ := perform_convert ctx st hctx h ht hplan
  refine ⟨st', hrun, fun before k u after he hg hl => ?_⟩
  have hkeys : st.world.store.records.keys = Assoc.keys before ++ k :: Assoc.keys after := by
    rw [he, Assoc.keys, List.map_append]
    rfl
  have hu : st.world.store.find? k = some u := h.find?_eq_some_iff.2 (by rw [he]; simp)
  exact hconv.names _ k _ hkeys ⟨u, hu, hg, hl⟩

theorem perform_convert_names_nestedGroups :
    nestedGroups.WellFormed ∧ nestedGroups.Typed ∧
    ∃ st', execute (perform converting .convert) { world := { store := nestedGroups }, files := {} }
        = (.ok (), st') ∧
      ∃ v names, st'.world.store.find? (.text "v") = some v ∧ v.mode = some .dynamic ∧
        v.names = some (.set names) ∧
        ∀ n, n ∈ names.keys ↔ converting.NameLeft nestedGroups [.text "u"] (.text "v") n := by
  obtain ⟨st', hrun, hnames⟩ := perform_convert_names converting
    { world := { store := nestedGroups }, files := {} } rfl wellFormed_nestedGroups
    typed_nestedGroups fun op r _ => Scene.StoreWorks.of_quiet rfl op r.id
  refine ⟨wellFormed_nestedGroups, typed_nestedGroups, st', hrun, ?_⟩
  exact hnames [(.text "u", nestedGroups.legacyRecord "u" false "u")] (.text "v") _ _ rfl rfl rfl

/-- The second of the two users does not get the name of the outer group. -/
theorem perform_convert_not_all_names :
    ¬ ∀ (ctx : Context) (st : State), ctx.dynamic = true → st.world.store.WellFormed →
      st.world.store.Typed →
      (∀ op, ∀ r ∈ st.world.store.all, ¬ st.world.scene.MayRefuse op r.id) →
      ∀ st', execute (perform ctx .convert) st = (.ok (), st') →
      ∀ k u, st.world.store.find? k = some u → u.isGroup = false → u.isLegacy = true →
        ∃ u' names, st'.world.store.find? k = some u' ∧ u'.names = some (.set names) ∧
          ∀ n, n ∈ names.keys ↔ ∃ x g, ctx.Reaches st.world.store k x ∧
            ctx.Clearable st.world.store x g ∧ ctx.Named st.world.store g n := by
  intro hall
  let st : State := { world := { store := nestedGroups }, files := {} }
  have hplan : ∀ op, ∀ r ∈ st.world.store.all, ¬ st.world.scene.MayRefuse op r.id :=
    fun op r _ => Scene.StoreWorks.of_quiet rfl op r.id
  obtain ⟨st', hrun, hconv⟩ := perform_convert converting st rfl
    wellFormed_nestedGroups typed_nestedGroups hplan
  obtain ⟨v, names, hv, hnames, hiff⟩ := hall converting st rfl wellFormed_nestedGroups
    typed_nestedGroups hplan st' hrun (.text "v") _ rfl rfl rfl
  obtain ⟨v', names', hv', -, hnames', hiff'⟩ := hconv.names [.text "u"] (.text "v")
    [.text "g1", .text "g2"] rfl ⟨_, rfl, rfl, rfl⟩
  obtain rfl : v = v' := Option.some.inj (hv.symm.trans hv')
  obtain rfl : names = names' := by
    rw [hnames] at hnames'
    simpa using hnames'
  have hclear (x g : Key) (hm : nestedGroups.Member x g) : converting.Clearable nestedGroups x g :=
    Context.clearable_of_owned wellFormed_nestedGroups hm (by
      rcases member_nestedGroups.1 hm with ⟨-, rfl⟩ | ⟨-, rfl⟩ <;> exact ⟨_, rfl, rfl⟩)
  have hv₁ := hclear (.text "v") (.text "g1") (member_nestedGroups.2 (.inl ⟨.inr rfl, rfl⟩))
  have hu₁ := hclear (.text "u") (.text "g1") (member_nestedGroups.2 (.inl ⟨.inl rfl, rfl⟩))
  have h₁₂ := hclear (.text "g1") (.text "g2") (member_nestedGroups.2 (.inr ⟨rfl, rfl⟩))
  have hin : Key.text "Group 2" ∈ names.keys :=
    (hiff _).2 ⟨.text "g1", .text "g2", .single hv₁, h₁₂, _, rfl, rfl, rfl⟩
  -- the outer group has one member only, which the first user reaches
  obtain ⟨x, g, -, hspent, hc, q, hq, -, hname⟩ := (hiff' _).1 hin
  rcases member_nestedGroups.1 hc.1 with ⟨-, rfl⟩ | ⟨rfl, rfl⟩
  · obtain rfl := Option.some.inj hq
    simp [nestedGroups.legacyRecord] at hname
  · exact hspent ⟨.text "u", by simp, ⟨_, rfl, rfl, rfl⟩, .single hu₁⟩

end Job

end Roster
