import Roster.Proofs.Asking
import Roster.Proofs.GroupNames

/-!
# Directories that answer

A directory answers a search with what it likes: it may be out of reach or report a failure, return
pointers to other directories, and hold entries without identifiers or with groups under names that
nobody can read. All of this is an answer of some kind or the failure of a lookup
(`Reply.Answers`), which is what a walk over groups can deal with. So collecting names from a
directory never fails.

* `Directory.definite`: a directory has definite outcomes if its entries have attributes.
* `Context.collect_grows`: collecting from any provider with definite outcomes never fails, and adds
  texts.
* `Directory.collect_never_fails`: both for a directory, in any world.
-/

namespace Roster

/-- The reply is an answer of a kind or the failure of a lookup. -/
def Reply.Answers {α : Type} (x : Reply α) (P : α → Prop) : Prop :=
  (∃ a, x.outcome = .ok a ∧ P a) ∨ ∃ f, x.outcome = .error f ∧ f.isA .lookup = true

namespace Reply.Answers

variable {α β : Type} {x : Reply α} {f : α → Reply β} {P : α → Prop} {Q : β → Prop} {a : α}

theorem of_ok (hx : x.outcome = .ok a) (h : P a) : x.Answers P := .inl ⟨a, hx, h⟩

theorem fail {e : Failure} (hx : x.outcome = .error e) (he : e.isA .lookup = true) :
    x.Answers P := .inr ⟨e, hx, he⟩

theorem bind (hx : x.Answers P) (hf : ∀ a, P a → (f a).Answers Q) : (x >>= f).Answers Q := by
  rcases hx with ⟨a, ha, hp⟩ | ⟨e, he, hl⟩
  · rcases hf a hp with ⟨b, hb, hq⟩ | ⟨e, he, hl⟩
    · exact of_ok (by rw [outcome_bind, ha]; exact hb) hq
    · exact fail (by rw [outcome_bind, ha]; exact he) hl
  · exact fail (by rw [outcome_bind, he]; rfl) hl

/-- A step that succeeds comes first. -/
theorem step (hx : x.outcome = .ok a) (hf : (f a).Answers Q) : (x >>= f).Answers Q :=
  bind (P := fun b => b = a) (of_ok hx rfl) fun _ hb => hb ▸ hf

theorem step_result {r : Except Failure α} (hr : r = .ok a) (hf : (f a).Answers Q) :
    (ofResult r >>= f).Answers Q :=
  step ((outcome_ofResult r).trans hr) hf

theorem of_eq_ok (hx : x.Answers P) (ha : x.outcome = .ok a) : P a := by
  rcases hx with ⟨b, hb, hp⟩ | ⟨e, he, -⟩
  · exact Except.ok.inj (hb.symm.trans ha) ▸ hp
  · cases he.symm.trans ha

theorem isA_lookup {e : Failure} (hx : x.Answers P) (he : x.outcome = .error e) :
    e.isA .lookup = true := by
  rcases hx with ⟨a, ha, -⟩ | ⟨e', he', hl⟩
  · cases ha.symm.trans he
  · exact Except.error.inj (he'.symm.trans he) ▸ hl

end Reply.Answers

/-- Entries of the directory's own have attributes, and so have the answers by which it reports
failures. -/
structure Content.Shaped (c : Content) : Prop where
  entries : ∀ e ∈ c.entries, e.isOwn = true → ∃ fields, e.attributes = some (.mapping fields)
  results : ∀ name result, (name, .answered result) ∈ c.faults →
    ∃ fields, result.said = .mapping fields

/-- A search for the entry with a name finds entries of this name, or fails for a reason that can be
told. -/
theorem Content.Shaped.search {c : Content} (hc : c.Shaped) (dn filter : String) :
    (∃ es, c.search (.text dn) filter .base = .ok es ∧ ∀ e ∈ es, e ∈ c.named (.text dn)) ∨
    (∃ reason, c.search (.text dn) filter .base = .error (.broken reason)) ∨
    ∃ result, c.search (.text dn) filter .base = .error (.answered result) ∧
      ∃ fields, result.said = .mapping fields := by
  unfold Content.search
  cases hf : c.faults.lookup dn with
  | none =>
    simp only [Value.text?, Option.bind_some, hf]
    cases c.named (.text dn) with
    | nil => exact .inr (.inr ⟨_, rfl, _, rfl⟩)
    | cons e es => exact .inl ⟨_, rfl, fun _ => id⟩
  | some fault =>
    simp only [Value.text?, Option.bind_some, hf]
    cases fault with
    | broken reason => exact .inr (.inl ⟨reason, rfl⟩)
    | answered result =>
      obtain ⟨before, after, hmem, -⟩ := List.lookup_eq_some_iff.1 hf
      exact .inr (.inr ⟨result, rfl, hc.results dn result (by rw [hmem]; simp)⟩)

namespace Directory

variable {d : Directory} {r : Ref} {e : Entry} {dn filter : String} {fields : Fields}

/-- A search for the entry with a name finds entries with this name, which have attributes. -/
theorem search_answers (h : d.settings.Typed) (hc : d.content.Shaped) :
    (d.search (.text dn) filter .base).Answers fun es => ∀ e ∈ es,
      e.name = .text dn ∧ ∃ fields, e.attributes = some (.mapping fields) := by
  obtain ⟨keys, hkeys⟩ := h.requested
  have hlink : d.requireLink.Answers fun _ => True := by
    unfold requireLink
    split
    · exact .of_ok rfl trivial
    · exact .fail rfl rfl
  unfold search
  refine .bind hlink fun _ _ => .step rfl ?_
  refine .step_result hkeys (.step rfl (.step rfl ?_))
  rcases hc.search dn filter with ⟨es, hes, hnamed⟩ | ⟨reason, hes⟩ | ⟨result, hes, fields, hsaid⟩
    <;> rw [hes]
  · -- pointers to other directories, which have no attributes, are left out
    refine .of_ok rfl fun e he => ?_
    obtain ⟨he, hown⟩ := List.mem_filter.1 he
    obtain ⟨he, hname⟩ := List.mem_filter.1 (hnamed e he)
    exact ⟨Value.beq_text_iff.1 hname, hc.entries e he hown⟩
  · exact .fail rfl rfl
  · dsimp only
    rw [DirectoryResult.isNoSuchObject?, hsaid, Value.mapping?, Option.map_some]
    split
    · exact .of_ok rfl (List.forall_mem_nil _)
    · exact .fail rfl rfl
    · next hnone => cases hnone

/-- An entry with attributes describes a typed identity, unless it has no identifier. -/
theorem identity_answers (h : d.settings.Typed) (hname : d.name.IsText) (he : e.name = .text dn)
    (hfields : e.attributes = some (.mapping fields)) :
    (d.identity e).Answers fun a => ∀ i, a = some i → i.Typed := by
  obtain ⟨classes, hclasses⟩ := attributeValues_text fields "objectClass"
  obtain ⟨isGroup, hisGroup⟩ : ∃ b, d.isGroup fields = .ok b :=
    ⟨_, bind_eq_ok.2 ⟨classes, hclasses, rfl⟩⟩
  obtain ⟨key, hkey⟩ : (if isGroup then d.settings.groupKey else d.settings.userKey).IsText := by
    cases isGroup with
    | true => exact h.groupKey
    | false => exact h.userKey
  obtain ⟨vs, hvs⟩ := attributeValues_text fields key
  unfold identity
  rw [hfields]
  dsimp only [Value.mapping?]
  refine .step_result hisGroup ?_
  rw [hkey]
  refine .step_result hvs ?_
  cases vs with
  | nil => exact .step rfl (.of_ok rfl nofun)
  | cons id vs =>
    obtain ⟨properties, groups, hi⟩ := identityOf_eq_ok h e.name fields isGroup id
    refine .step_result hi (.of_ok rfl fun i hi => ?_)
    obtain rfl := Option.some.inj hi
    exact {
      id := ⟨_, rfl⟩
      principalName := ⟨_, rfl⟩
      ref := ⟨_, rfl, he ▸ typed_ref hname dn⟩
      known := by cases isGroup <;> rfl
      groups := fun g hg => by
        obtain ⟨v, -, rfl⟩ := List.mem_map.1 hg
        exact ⟨_, rfl, typed_ref hname v.display⟩
      properties := ⟨properties, rfl⟩ }

/-- A typed reference leads to a typed identity or nowhere. -/
theorem resolve_answers (h : d.settings.Typed) (hname : d.name.IsText) (hc : d.content.Shaped)
    (hr : r.Typed) : (d.resolve r).Answers fun a => ∀ i, a = some i → i.Typed := by
  obtain ⟨dn, hdn⟩ := hr.id
  unfold resolve
  split
  · exact .of_ok rfl nofun
  rw [hdn]
  refine .bind (search_answers h hc) fun es hes => ?_
  cases es with
  | nil => exact .of_ok rfl nofun
  | cons e es =>
    obtain ⟨he, fields, hfields⟩ := hes e List.mem_cons_self
    exact identity_answers h hname he hfields

/-- A name that is read off a reference is a text. -/
theorem nameOf_answers (h : d.settings.Typed) (hr : r.Typed) :
    (d.nameOf r).Answers fun a => ∀ v, a = some v → v.IsText := by
  obtain ⟨dn, hdn⟩ := hr.id
  obtain ⟨key, hkey⟩ := h.groupKey
  have hcomponents : (Reply.ofResult (components (.text dn))).Answers fun _ => True := by
    rcases hparse : DistinguishedName.parse dn with fault | (_ | ⟨c, cs⟩)
    · exact .fail (e := .invalidGroupName (.text dn) fault)
        ((Reply.outcome_ofResult _).trans (by rw [components, hparse])) rfl
    · exact .fail (e := .invalidGroupName (.text dn) .empty)
        ((Reply.outcome_ofResult _).trans (by rw [components, hparse])) rfl
    · exact .of_ok ((Reply.outcome_ofResult _).trans (by rw [components, hparse])) trivial
  unfold nameOf
  rw [hdn, hkey]
  refine .bind hcomponents fun cs _ => ?_
  cases cs with
  | nil => exact .of_ok rfl (by simp)
  | cons c cs =>
    dsimp only [Value.text?]
    split
    · exact .of_ok rfl fun v hv => Option.some.inj hv ▸ ⟨_, rfl⟩
    · exact .step rfl (.of_ok rfl (by simp))

/-- A directory has definite outcomes. -/
theorem definite (h : d.settings.Typed) (hname : d.name.IsText) (hc : d.content.Shaped) :
    d.provider.Definite where
  lookup := fun _ hr _ hf => (resolve_answers h hname hc hr).isA_lookup hf
  identity := fun _ hr i hi => (resolve_answers h hname hc hr).of_eq_ok hi i rfl
  nameOf := fun _ _ hr _ hf => (nameOf_answers h hr).isA_lookup hf
  name := fun _ _ hr v hv => (nameOf_answers h hr).of_eq_ok hv v rfl

end Directory

/-! ## Collecting -/

namespace Provider

variable {p : Provider} {c : Scene} {s : Store} {r : Ref} {f : Failure}

theorem Nameless.isA_lookup (hno : p.Nameless r f) (h : p.Definite) (hdirect : p.direct = true)
    (hr : r.Typed) : f.isA .lookup = true := by
  rcases hno with hno | hf | ⟨-, hf⟩ | ⟨-, hf, -⟩
  · cases hno.symm.trans hdirect
  · exact h.nameOf hdirect r hr f hf
  · exact h.lookup r hr f hf
  · exact hf

theorem Names.isText {v : Value} (hv : p.Names r v) (h : p.Definite) (hr : r.Typed) :
    v.IsText := by
  obtain ⟨hdirect, hv | ⟨-, i, hi, -, rfl⟩⟩ := hv
  · exact h.name hdirect r hr v hv
  · exact (h.identity r hr i hi).principalName

namespace Definite

variable (h : p.Definite)
include h

/-- A lookup gives a typed identity or nothing, or fails as lookups do. -/
theorem fetch_ends (hr : r.Typed) :
    Sync.Ends c s (p.fetch r) (fun a s' => s' = s ∧ ∀ i, a = some i → i.Typed)
      (fun f s' => s' = s ∧ f.isA .lookup = true) := by
  refine (Provider.fetch_ends hr).mono ?_ ?_
  · rintro a s' ⟨hs, ha, -⟩
    exact ⟨hs, fun i hi => h.identity r hr i (hi ▸ ha)⟩
  · rintro f s' ⟨hs, hf | ⟨hf, -⟩⟩
    · exact ⟨hs, h.lookup r hr f hf⟩
    · exact ⟨hs, hf⟩

/-- A reference is mapped to a text, or this fails as lookups do. -/
theorem principalName_ends (hdirect : p.direct = true) (hr : r.Typed) :
    Sync.Ends c s (p.principalName r) (fun v s' => s' = s ∧ v.IsText)
      (fun f s' => s' = s ∧ f.isA .lookup = true) := by
  refine (Provider.principalName_ends hr).mono ?_ ?_
  · rintro v s' ⟨hs, hv⟩
    exact ⟨hs, hv.isText h hr⟩
  · rintro f s' ⟨hs, hf | hno⟩
    · exact ⟨hs, hf.1⟩
    · exact ⟨hs, hno.isA_lookup h hdirect hr⟩

end Definite

end Provider

namespace Context

variable {ctx : Context} {c : Scene} {s : Store} {r : Ref} {refs : List (Option Ref)}
  {log : Channel}

/-- The step adds texts to a set of texts and never fails, and leaves the store. -/
def Grows (c : Scene) (s : Store) (x : NameSet → Sync NameSet) : Prop :=
  ∀ names : NameSet, names.Texts → Sync.Ends c s (x names)
    (fun ns s' => s' = s ∧ ns.Texts ∧ ∀ n ∈ names.keys, n ∈ ns.keys) fun _ _ => False

theorem grows_addName {v : Value} (hv : v.IsText) : Grows c s fun ns => addName ns v := by
  intro names hn
  refine (addName_ends hv hn).mono ?_ fun _ _ => id
  rintro ns s' ⟨hs, hns, hadd⟩
  exact ⟨hs, hns, fun n hmem => (hadd n).2 (.inr hmem)⟩

theorem Grows.bind {x y : NameSet → Sync NameSet} (hx : Grows c s x) (hy : Grows c s y) :
    Grows c s fun ns => x ns >>= y := by
  intro names hn
  refine Sync.Ends.bind (hx names hn) ?_
  rintro ns s' ⟨rfl, hns, hmore⟩
  refine (hy ns hns).mono ?_ fun _ _ => id
  rintro ns' s' ⟨hs, hns', hmore'⟩
  exact ⟨hs, hns', fun n hmem => hmore' n (hmore n hmem)⟩

theorem Grows.foldlM {f : NameSet → Ref → Sync NameSet} {rs : List Ref}
    (hf : ∀ r ∈ rs, Grows c s fun ns => f ns r) : Grows c s fun ns => rs.foldlM f ns := by
  induction rs with
  | nil => exact fun _ hn => Sync.Ends.pure ⟨rfl, hn, fun _ => id⟩
  | cons r rs ih =>
    simp only [List.foldlM_cons]
    exact (hf r List.mem_cons_self).bind (ih fun q hq => hf q (List.mem_cons_of_mem _ hq))

variable (h : ctx.provider.Definite)
include h

/-- A reference that is not mapped to a name adds none. -/
theorem collectDirect_grows (hdirect : ctx.provider.direct = true) (hr : r.Typed) :
    Grows c s fun ns => ctx.collectDirect log ns r := by
  intro names hn
  have hname : Sync.Ends c s (ctx.directName r) (fun v s' => s' = s ∧ True ∧ v.IsText)
      (fun f s' => s' = s ∧ f.isA .lookup = true ∧ True) :=
    (h.principalName_ends hdirect hr).mono (fun _ _ hv => ⟨hv.1, trivial, hv.2⟩)
      fun _ _ hf => ⟨hf.1, hf.2, trivial⟩
  refine (collectDirect_ends hr hn hname).mono ?_ fun _ _ => id
  rintro ns s' ⟨hs, hns, ⟨v, -, hadd⟩ | ⟨-, rfl⟩⟩
  · exact ⟨hs, hns, fun n hmem => (hadd n).2 (.inr hmem)⟩
  · exact ⟨hs, hns, fun _ => id⟩

/-- A reference that leads to no group adds nothing. -/
theorem collectGroup_grows {goOn : NameSet → List (Option Ref) → Sync NameSet}
    (hgo : ∀ refs : List (Option Ref), (∀ q, some q ∈ refs → q.Typed) →
      Grows c s fun ns => goOn ns refs) (hr : r.Typed) :
    Grows c s fun ns => ctx.collectGroup log goOn ns r := by
  intro names hn
  have hfetch : Sync.Ends c s (ctx.resolve r)
      (fun b s' => s' = s ∧ ∀ i, b = some i → i.Typed)
      (fun f s' => s' = s ∧ f.isA .lookup = true ∧ True) :=
    (h.fetch_ends hr).mono (fun _ _ => id) fun _ _ hf => ⟨hf.1, hf.2, trivial⟩
  unfold collectGroup
  refine Sync.Ends.bind (lookUpGroup_ends hr hfetch) ?_
  rintro a s ⟨rfl, hfound⟩
  cases a with
  | none => exact Sync.Ends.pure ⟨rfl, hn, fun _ => id⟩
  | some i =>
    have hi : i.Typed := by
      obtain ⟨b, hb, hib⟩ | ⟨-, hnone⟩ := hfound
      · exact hb i (Option.filter_eq_some_iff.1 hib.symm).1
      · cases hnone
    refine (grows_addName hi.principalName).bind (hgo i.groups fun q hq => ?_) names hn
    obtain ⟨_, ⟨rfl⟩, ht⟩ := hi.groups _ hq
    exact ht

/-- Collecting names never fails, whatever the lookups do. -/
theorem collect_grows (d : Nat) (hrefs : ∀ r, some r ∈ refs → r.Typed) :
    Grows c s fun ns => ctx.collect log d ns refs := by
  -- the references of a group are as typed as those that led to it, so hops can be counted down
  induction d generalizing refs with
  | zero => exact fun _ hn => Sync.Ends.pure ⟨rfl, hn, fun _ => id⟩
  | succ d ih =>
    simp only [collect]
    split
    · next hlast =>
      have hdirect : ctx.provider.direct = true := (Bool.and_eq_true_iff.1 hlast).2
      exact Grows.foldlM fun r hr => collectDirect_grows h hdirect (hrefs r (mem_own.1 hr).1)
    · exact Grows.foldlM fun r hr => collectGroup_grows h (fun _ => ih) (hrefs r (mem_own.1 hr).1)

end Context

namespace Directory

variable {d : Directory} {ctx : Context} {w : World}

/-- Whatever references are given, and whatever a directory answers, collecting names from it gives
a set of texts, with those that were there before, and leaves the store. With direct names every
reference is mapped to a text, or this fails as lookups do. -/
theorem collect_never_fails (h : d.settings.Typed) (hname : d.name.IsText)
    (hc : d.content.Shaped) (hctx : ctx.provider = d.provider) :
    (∀ (log : Channel) (depth : Nat) (names : NameSet) (refs : List (Option Ref)), names.Texts →
      (∀ r, some r ∈ refs → r.Typed) → ∃ ns w', ctx.collect log depth names refs w = (.ok ns, w') ∧
        ns.Texts ∧ (∀ n ∈ names.keys, n ∈ ns.keys) ∧ w'.store = w.store) ∧
    (d.settings.direct = true → ∀ r : Ref, r.Typed →
      (∃ name w', d.provider.principalName r w = (.ok (.text name), w')) ∨
      ∃ f w', d.provider.principalName r w = (.error f, w') ∧ f.isA .lookup = true) := by
  have hdefinite : d.provider.Definite := definite h hname hc
  refine ⟨fun log depth names refs hn hrefs => ?_, fun hdirect r hr => ?_⟩
  · have hgrows : Context.Grows w.scene w.store fun ns => ctx.collect log depth ns refs :=
      Context.collect_grows (hctx ▸ hdefinite) depth hrefs
    obtain ⟨ns, w', hrun, -, hs, hns, hmore⟩ := (hgrows names hn).run rfl rfl
    exact ⟨ns, w', hrun, hns, hmore, hs⟩
  · have hends := (hdefinite.principalName_ends hdirect hr).holds w rfl rfl
    rcases hrun : d.provider.principalName r w with ⟨f | v, w'⟩ <;> rw [hrun] at hends
    · exact .inr ⟨f, w', rfl, hends.2.2⟩
    · obtain ⟨name, rfl⟩ := hends.2.2
      exact .inl ⟨name, w', rfl⟩

/-- A directory whose only group with a name declares groups under names that nobody can read, and
which is out of reach, busy, or points elsewhere for other names. -/
def ragged : Directory where
  name := .text "corp"
  settings := (oneGroup devs "devs").settings
  link := some {}
  content := {
    entries := [
      { name := .text devs
        attributes := some (.mapping [(.text "objectClass", .text "group"),
          (.text "cn", .text "devs"), (.text "memberOf", .list [.text "cn=ops,dc=corp", .text "",
            .text "nameless", .text "ou=ops,dc=corp"])]) },
      { name := .text "cn=nobody", attributes := some (.mapping []) },
      { name := .text "cn=elsewhere", kind := .text "searchResRef" }]
    faults := [("cn=far", .broken "timeout"),
      ("cn=busy", .answered (DirectoryResult.ofCode 51 "busy"))] }

theorem typed_ragged : ragged.settings.Typed := (findsGroup_oneGroup devs "devs").settings

theorem shaped_ragged : ragged.content.Shaped where
  entries := by
    intro e he hown
    simp only [ragged, List.mem_cons, List.not_mem_nil, or_false] at he
    rcases he with rfl | rfl | rfl
    · exact ⟨_, rfl⟩
    · exact ⟨_, rfl⟩
    · cases hown
  results := by
    intro name result hmem
    simp only [ragged, List.mem_cons, List.not_mem_nil, or_false, Prod.mk.injEq, reduceCtorEq,
      and_false, false_or, SearchFault.answered.injEq] at hmem
    exact ⟨_, by rw [hmem.2]; rfl⟩

/-- A context in which names are collected from this directory. -/
def raggedContext : Context where
  policy := { provider := .text "corp" }
  provider := ragged.provider
  dynamic := false

/-- References to all that this directory holds and does not hold. -/
def raggedRefs : List (Option Ref) :=
  ["cn=far", "cn=busy", "cn=nobody", "cn=elsewhere", "", devs].map fun dn =>
    some (ragged.ref (.text dn))

/-- The group with a name is collected and the one that it declares under a name of its own; an
empty name is mapped to none. -/
theorem collect_never_fails_ragged :
    (∃ ns w', raggedContext.collect ⟨"test", none⟩ 2 ∅ raggedRefs {} = (.ok ns, w') ∧ ns.Texts ∧
      ns.keys = [.text "devs", .text "ops"]) ∧
    ∃ f w', ragged.provider.principalName (ragged.ref (.text "")) {} = (.error f, w') ∧
      f.isA .lookup = true := by
  have hname : ragged.name.IsText := ⟨_, rfl⟩
  have hrefs : ∀ r, some r ∈ raggedRefs → r.Typed := by
    intro r hr
    obtain ⟨dn, -, ⟨rfl⟩⟩ := List.mem_map.1 hr
    exact typed_ref hname dn
  have hctx : raggedContext.provider = ragged.provider := rfl
  obtain ⟨hcollect, hmap⟩ := collect_never_fails (w := {}) typed_ragged hname shaped_ragged hctx
  constructor
  · obtain ⟨ns, w', hrun, hns, -⟩ :=
      hcollect ⟨"test", none⟩ 2 ∅ raggedRefs NameSet.texts_empty hrefs
    have hkeys : (raggedContext.collect ⟨"test", none⟩ 2 ∅ raggedRefs {}).1.toOption.map (·.keys)
        = some [.text "devs", .text "ops"] := by decide +kernel
    rw [hrun] at hkeys
    exact ⟨ns, w', hrun, hns, Option.some.inj hkeys⟩
  · rcases hmap rfl (ragged.ref (.text "")) (typed_ref hname "") with ⟨name, w', hrun⟩ | hfails
    · have hno : (ragged.provider.principalName (ragged.ref (.text "")) {}).1.toOption = none := by
        decide +kernel
      rw [hrun] at hno
      cases hno
    · exact hfails

end Directory

end Roster
