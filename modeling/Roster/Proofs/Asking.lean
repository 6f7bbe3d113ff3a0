import Mathlib.Algebra.BigOperators.Ring.Finset
import Mathlib.Algebra.Order.BigOperators.Group.List
import Mathlib.Algebra.Order.Group.Nat
import Roster.Proofs.Shortcut

/-!
# What a provider is asked

Of a provider whose references have definite outcomes it is known beforehand what collecting names
asks of it and what it finds. Lookups fail for some references, others lead to users or nowhere, and
groups form cycles; a failure is logged and its branch given up, so that none of this ends the walk.

* `Sync.Gives`: the outcome of a step and the calls that it writes down.
* `Provider.found`, `Provider.mapped`: the outcomes of the two kinds of lookups.
* `Context.inquiries`: what is asked when references are followed for a number of hops, in order.
* `Context.collect_adds`: what collecting asks and what it adds.
* `Context.collect_inquires`: the number of questions is bounded by powers of the branching.
-/

namespace Roster

/-! ## Outcomes and calls -/

/-- Started in a scene, the step has this outcome, writes these calls down and changes nothing else
that matters. -/
def Sync.Gives {α : Type} (c : Scene) (x : Sync α) (calls : List Call) (o : Except Failure α) :
    Prop :=
  ∀ w : World, w.scene = c →
    ∃ w', x w = (o, w') ∧ w'.scene = c ∧ w'.store = w.store ∧ w'.calls = w.calls ++ calls

namespace Sync.Gives

variable {α β : Type} {c : Scene} {x : Sync α} {f : α → Sync β} {cs ds : List Call} {a : α}
  {o : Except Failure β} {e : Failure}

theorem of_apply (h : ∀ w : World, ∃ w', x w = (.ok a, w') ∧ w'.scene = w.scene ∧
    w'.store = w.store ∧ w'.calls = w.calls ++ cs) : Gives c x cs (.ok a) := by
  rintro w rfl
  exact h w

theorem pure (a : α) : Gives c (pure a) [] (.ok a) :=
  of_apply fun w => ⟨w, rfl, rfl, rfl, (List.append_nil _).symm⟩

theorem throw (e : Failure) : Gives c (throw e : Sync α) [] (.error e) :=
  fun w hc => ⟨w, rfl, hc, rfl, (List.append_nil _).symm⟩

theorem bind (hx : Gives c x cs (.ok a)) (hf : Gives c (f a) ds o) :
    Gives c (x >>= f) (cs ++ ds) o := by
  intro w hc
  obtain ⟨w₁, hw₁, hc₁, hs₁, hcs₁⟩ := hx w hc
  obtain ⟨w₂, hw₂, hc₂, hs₂, hcs₂⟩ := hf w₁ hc₁
  refine ⟨w₂, (bind_apply_ok hw₁).trans hw₂, hc₂, hs₂.trans hs₁, ?_⟩
  rw [hcs₂, hcs₁, List.append_assoc]

/-- After a step that writes no call down. -/
theorem step (hx : Gives c x [] (.ok a)) (hf : Gives c (f a) cs o) : Gives c (x >>= f) cs o :=
  hx.bind hf

/-- Before a step that writes no call down. -/
theorem bind_last (hx : Gives c x cs (.ok a)) (hf : Gives c (f a) [] o) :
    Gives c (x >>= f) cs o := by
  simpa using hx.bind hf

theorem bind_error (hx : Gives c x cs (.error e)) : Gives c (x >>= f) cs (.error e) := by
  intro w hc
  obtain ⟨w₁, hw₁, h⟩ := hx w hc
  exact ⟨w₁, bind_apply_error hw₁, h⟩

/-- The world is looked at, of which only the scene is known. -/
theorem get {f : World → Sync β} (h : ∀ w : World, w.scene = c → Gives c (f w) cs o) :
    Gives c (get >>= f) cs o :=
  fun w hc => h w hc w hc

theorem tryCatch {handle : Failure → Sync α} (hx : Gives c x cs (.ok a)) :
    Gives c (MonadExcept.tryCatch x handle) cs (.ok a) := by
  intro w hc
  obtain ⟨w₁, hw₁, h⟩ := hx w hc
  exact ⟨w₁, by rw [tryCatch_apply, hw₁], h⟩

theorem tryCatch_error {handle : Failure → Sync α} {o : Except Failure α}
    (hx : Gives c x cs (.error e)) (hh : Gives c (handle e) [] o) :
    Gives c (MonadExcept.tryCatch x handle) cs o := by
  intro w hc
  obtain ⟨w₁, hw₁, hc₁, hs₁, hcs₁⟩ := hx w hc
  obtain ⟨w₂, hw₂, hc₂, hs₂, hcs₂⟩ := hh w₁ hc₁
  refine ⟨w₂, by rw [tryCatch_apply, hw₁]; exact hw₂, hc₂, hs₂.trans hs₁, ?_⟩
  rw [hcs₂, hcs₁, List.append_nil]

theorem log {ch : Channel} {level : Level} {text : String} :
    Gives c (log ch level text) [] (.ok ()) :=
  of_apply fun w => ⟨_, rfl, rfl, rfl, w.calls_note _⟩

theorem call (k : Call) : Gives c (call k) [k] (.ok ()) :=
  of_apply fun w => ⟨_, rfl, rfl, rfl, w.calls_note _⟩

/-- No turn is one that a failure is planned for. -/
theorem takeTurn (hc : c.Uncounted) : Gives c takeTurn [] (.ok false) := by
  rintro w rfl
  have hturn : w.faults.turns w.turn = false := Bool.eq_false_iff.2 fun h => hc.2 ⟨w.turn, h⟩
  exact ⟨{ w with turn := w.turn + 1 }, by rw [takeTurn_apply, hturn], rfl, rfl,
    (List.append_nil _).symm⟩

theorem reply (r : Reply α) : Gives c (reply r) r.journal.calls r.outcome :=
  fun w hc => ⟨_, rfl, hc, rfl, w.calls_note _⟩

theorem result (r : Except Failure α) : Gives c (result r) [] r :=
  fun w hc => ⟨w, rfl, hc, rfl, (List.append_nil _).symm⟩

/-- There are words for a typed reference. -/
theorem shown {r : Ref} (hr : r.Typed) :
    Gives c (shown (some r)) [] (.ok (r.shown?.getD "")) := by
  obtain ⟨t, ht⟩ := hr.shown?
  simp only [Sync.shown, ht]
  exact pure t

end Sync.Gives

/-! ## Lookups -/

namespace Provider

variable (p : Provider) (c : Scene) (r : Ref)

/-- The outcome of looking a reference up. -/
def found : Except Failure (Option Identity) :=
  if c.hides r then .error (.lookupRefused r.id) else (p.lookup r).outcome

/-- The group that a reference leads to. -/
def groupBehind : Option Identity := (p.found c r).toOption.join.filter (·.isGroup)

/-- The outcome of mapping a group reference to the name of its group. -/
def mapped : Except Failure Value :=
  if c.faults.direct.contains r.id then .error (.mappingRefused r.id)
  else do
    match ← (p.nameOf r).outcome with
    | some name => return name
    | none =>
      match ← p.found c r with
      | some i => if i.isGroup then return i.principalName else notAGroup
      | none => notAGroup
where
  /-- The failure of a reference that leads to no group. -/
  notAGroup : Except Failure Value := .error (.notExternalGroup (r.shown?.getD ""))

/-- The calls that a provider makes to look a reference up. -/
def lookupCalls : List Call := if c.hides r then [] else (p.lookup r).journal.calls

/-- The calls that a provider makes to map a group reference to a name. Where the reference does not
tell the name, it is looked up. -/
def mappingCalls : List Call :=
  if c.faults.direct.contains r.id then []
  else (p.nameOf r).journal.calls ++
    match (p.nameOf r).outcome with
    | .ok none => .resolve (some r) :: p.lookupCalls c r
    | _ => []

/-- Every typed reference has a definite outcome: an identity, nothing or the failure of a lookup;
and with direct names so has the mapping to its name. -/
structure Definite : Prop where
  lookup : ∀ r : Ref, r.Typed → ∀ f, (p.lookup r).outcome = .error f → f.isA .lookup = true
  identity : ∀ r : Ref, r.Typed → ∀ i, (p.lookup r).outcome = .ok (some i) → i.Typed
  nameOf : p.direct = true → ∀ r : Ref, r.Typed → ∀ f, (p.nameOf r).outcome = .error f →
    f.isA .lookup = true
  name : p.direct = true → ∀ r : Ref, r.Typed → ∀ v, (p.nameOf r).outcome = .ok (some v) → v.IsText

variable {p c r} {i : Identity} {f : Failure} {v : Value}

theorem groupBehind_eq_some_iff :
    p.groupBehind c r = some i ↔ p.found c r = .ok (some i) ∧ i.isGroup = true := by
  unfold groupBehind
  rcases p.found c r with f | _ | j <;> simp [Except.toOption, Option.filter_eq_some_iff]

theorem groupBehind_eq_none {a : Option Identity} (ha : p.found c r = .ok a)
    (hg : ∀ i, a = some i → ¬ i.isGroup = true) : p.groupBehind c r = none := by
  rw [Option.eq_none_iff_forall_ne_some]
  intro i hi
  obtain ⟨hi, hgroup⟩ := groupBehind_eq_some_iff.1 hi
  exact hg i (Except.ok.inj (ha.symm.trans hi)) hgroup

theorem groupBehind_of_error (hf : p.found c r = .error f) : p.groupBehind c r = none := by
  rw [groupBehind, hf]
  rfl

/-- A group that is found is the one that the lookup leads to. -/
theorem outcome_of_groupBehind (hi : p.groupBehind c r = some i) :
    (p.lookup r).outcome = .ok (some i) := by
  obtain ⟨hi, -⟩ := groupBehind_eq_some_iff.1 hi
  unfold found at hi
  split at hi
  · cases hi
  · exact hi

/-- Failures that are planned for references are those of lookups. -/
theorem isA_lookup_of_found (h : ∀ f, (p.lookup r).outcome = .error f → f.isA .lookup = true)
    (hf : p.found c r = .error f) : f.isA .lookup = true := by
  unfold found at hf
  split at hf
  · obtain rfl := Except.error.inj hf
    rfl
  · exact h f hf

theorem Definite.isA_lookup (h : p.Definite) (hr : r.Typed) (hf : p.found c r = .error f) :
    f.isA .lookup = true :=
  isA_lookup_of_found (h.lookup r hr) hf

theorem Definite.typed (h : p.Definite) (hr : r.Typed) (hi : p.groupBehind c r = some i) :
    i.Typed :=
  h.identity r hr i (outcome_of_groupBehind hi)

/-- A mapping gives a text or fails as lookups do. -/
inductive Maps : Except Failure Value → Prop
  | name {v : Value} (hv : v.IsText) : Maps (.ok v)
  | failure {f : Failure} (hf : f.isA .lookup = true) : Maps (.error f)

theorem Definite.mapped (h : p.Definite) (hdirect : p.direct = true) (hr : r.Typed) :
    Maps (p.mapped c r) := by
  unfold Provider.mapped
  split
  · exact .failure rfl
  rcases hn : (p.nameOf r).outcome with f | _ | v
  · exact .failure (h.nameOf hdirect r hr f hn)
  · rcases hf : p.found c r with f | _ | i
    · exact .failure (h.isA_lookup hr hf)
    · exact .failure rfl
    · show Maps (if i.isGroup then _ else _)
      split
      · next hg =>
        exact .name (h.typed hr (groupBehind_eq_some_iff.2 ⟨hf, hg⟩)).principalName
      · exact .failure rfl
  · exact .name (h.name hdirect r hr v hn)

/-- A lookup has the outcome that it should have, if failures are planned by ids only. -/
theorem fetch_gives (hr : r.Typed) (hc : c.Uncounted) :
    Sync.Gives c (p.fetch r) (.resolve (some r) :: p.lookupCalls c r) (p.found c r) := by
  have hcount : Sync.Gives c (modify fun w : World => { w with lookups := w.lookups + 1 }) []
      (.ok ⟨⟩) := .of_apply fun w => ⟨_, rfl, rfl, rfl, (List.append_nil _).symm⟩
  rw [lookupCalls, found]
  refine .step (.shown hr) (.bind (.call _) (.step (.takeTurn hc) (.step hcount
    (.get fun w hw => ?_))))
  subst hw
  have hnone : w.faults.resolveAfter = none := hc.1
  have hhides : w.faults.resolve.contains r.id = w.scene.hides r := rfl
  rw [hnone, hhides, Option.any_none, Bool.or_false, Bool.false_or]
  cases w.scene.hides r with
  | true => exact .bind_error (.throw _)
  | false => exact .reply _

theorem notAGroup_gives (hr : r.Typed) :
    Sync.Gives c (principalName.notAGroup r) [] (mapped.notAGroup r) :=
  .step (.shown hr) (.throw _)

/-- A mapping has the outcome that it should have, if failures are planned by ids only. -/
theorem principalName_gives (hdirect : p.direct = true) (hr : r.Typed) (hc : c.Uncounted) :
    Sync.Gives c (p.principalName r) (.direct (some r) :: p.mappingCalls c r) (p.mapped c r) := by
  have hno := notAGroup_gives (c := c) hr
  rw [mappingCalls, mapped]
  refine .step (.shown hr) (.bind (.call _) (.step (.takeTurn hc) (.get fun w hw => ?_)))
  have hfaults : w.faults = c.faults := congrArg Scene.faults hw
  rw [hfaults, Bool.false_or]
  cases c.faults.direct.contains r.id with
  | true => exact .bind_error (.throw _)
  | false =>
    simp only [hdirect]
    have hname := Sync.Gives.reply (c := c) (p.nameOf r)
    rcases hn : (p.nameOf r).outcome with f | _ | v <;> rw [hn] at hname
    · show Sync.Gives c _ (_ ++ []) _
      rw [List.append_nil]
      exact .bind_error hname
    · refine .bind hname ?_
      have hfetch := fetch_gives (p := p) hr hc
      rcases hf : p.found c r with f | _ | i <;> rw [hf] at hfetch
      · exact .bind_error hfetch
      · exact .bind_last hfetch hno
      · refine .bind_last hfetch ?_
        show Sync.Gives c (if i.isGroup then _ else _) [] (if i.isGroup then _ else _)
        cases i.isGroup with
        | true => exact .pure _
        | false => exact hno
    · exact .bind hname (.pure v)

end Provider

namespace Memory

variable {m : Memory} {r : Ref}

theorem outcome_lookup : (m.provider.lookup r).outcome = m.resolve r := Reply.outcome_ofResult _

theorem outcome_nameOf : (m.provider.nameOf r).outcome = (m.directName r).map some :=
  Reply.outcome_ofResult _

/-- A provider in memory answers all lookups of typed references. -/
theorem Typed.definite (h : m.Typed) : m.provider.Definite where
  lookup := by
    intro r hr f hf
    obtain ⟨a, ha, -⟩ := h.resolve hr
    rw [outcome_lookup, ha] at hf
    cases hf
  identity := by
    intro r hr i hi
    obtain ⟨a, ha, hholds⟩ := h.resolve hr
    rw [outcome_lookup, ha] at hi
    exact (hholds i (Except.ok.inj hi)).typed
  nameOf := by
    intro _ r hr f hf
    obtain ⟨a, ha, -⟩ := h.directName hr
    rw [outcome_nameOf, ha] at hf
    cases hf
  name := by
    intro _ r hr v hv
    obtain ⟨a, ha, htext⟩ := h.directName hr
    rw [outcome_nameOf, ha] at hv
    obtain rfl := Option.some.inj (Except.ok.inj hv)
    exact htext

end Memory

/-! ## The walk -/

/-- What is asked of a provider on the way: who is behind a reference, or what name the reference
itself tells. -/
inductive Inquiry where
  | identity (r : Ref)
  | name (r : Ref)

namespace Inquiry

/-- Whether a name is asked for. -/
def isName : Inquiry → Bool
  | identity _ => false
  | name _ => true

/-- The call by which it is asked. -/
def call : Inquiry → Call
  | identity r => .resolve (some r)
  | name r => .direct (some r)

/-- The calls that the provider makes for an answer. -/
def answerCalls (p : Provider) (c : Scene) : Inquiry → List Call
  | identity r => p.lookupCalls c r
  | name r => p.mappingCalls c r

/-- All calls that go with an inquiry. -/
def calls (p : Provider) (c : Scene) (q : Inquiry) : List Call := q.call :: q.answerCalls p c

end Inquiry

namespace Context

/-- The references of the provider among the given ones. -/
def own (ctx : Context) (refs : List (Option Ref)) : List Ref :=
  (refs.filterMap id).filter ctx.policy.owns

/-- What is asked when references are followed for a number of hops, in order. -/
def inquiries (ctx : Context) (c : Scene) : Nat → List (Option Ref) → List Inquiry
  | 0, _ => []
  | d + 1, refs =>
    if d = 0 && ctx.provider.direct then (ctx.own refs).map .name
    else (ctx.own refs).flatMap fun r =>
      .identity r :: (ctx.provider.groupBehind c r).elim [] fun i => inquiries ctx c d i.groups

/-- The name is found when references are followed for a number of hops. -/
def Finds (ctx : Context) (c : Scene) : Nat → List (Option Ref) → Key → Prop
  | 0, _, _ => False
  | d + 1, refs, n =>
    if d = 0 && ctx.provider.direct then
      ∃ r ∈ ctx.own refs, ∃ v, ctx.provider.mapped c r = .ok v ∧ v.toKey = .ok n
    else
      ∃ r ∈ ctx.own refs, ∃ i, ctx.provider.groupBehind c r = some i ∧
        (i.principalName.toKey = .ok n ∨ Finds ctx c d i.groups n)

/-- The step writes these calls down and adds exactly the names of a kind. -/
def Adds (c : Scene) (calls : List Call) (G : Key → Prop) (x : NameSet → Sync NameSet) : Prop :=
  ∀ names, ∃ ns, Sync.Gives c (x names) calls (.ok ns) ∧ ∀ n, n ∈ ns.keys ↔ n ∈ names.keys ∨ G n

variable {ctx : Context} {c : Scene} {r : Ref} {log : Channel}

theorem TypedRefs.of_own {refs : List (Option Ref)} (h : TypedRefs refs) (hr : r ∈ ctx.own refs) :
    r.Typed := by
  obtain ⟨q, hq, ht⟩ := h _ (mem_own.1 hr).1
  obtain rfl := Option.some.inj hq
  exact ht

/-- Going over a list, the steps for its items write their calls down one after the other, and add
their names. -/
theorem Adds.foldlM {calls : Ref → List Call} {G : Ref → Key → Prop}
    {f : NameSet → Ref → Sync NameSet} {rs : List Ref}
    (hf : ∀ r ∈ rs, Adds c (calls r) (G r) fun ns => f ns r) :
    Adds c (rs.flatMap calls) (fun n => ∃ r ∈ rs, G r n) fun ns => rs.foldlM f ns := by
  induction rs with
  | nil => exact fun names => ⟨names, .pure names, by simp⟩
  | cons r rs ih =>
    intro names
    obtain ⟨ns, hns, hiff⟩ := hf r List.mem_cons_self names
    obtain ⟨ns', hns', hiff'⟩ := ih (fun q hq => hf q (List.mem_cons_of_mem _ hq)) ns
    refine ⟨ns', ?_, fun n => ?_⟩
    · rw [List.flatMap_cons]
      exact .bind hns hns'
    · rw [hiff', hiff, or_assoc]
      simp

theorem addName_gives {v : Value} (hv : v.IsText) (names : NameSet) :
    ∃ ns, Sync.Gives c (addName names v) [] (.ok ns) ∧
      ∀ n, n ∈ ns.keys ↔ n ∈ names.keys ∨ v.toKey = .ok n := by
  obtain ⟨t, rfl⟩ := hv
  refine ⟨_, .step (.result _) (.pure _), fun n => ?_⟩
  rw [Value.toKey_text, Except.ok.injEq, or_comm, eq_comm]
  exact mem_keysOf_insertName

/-- A lookup that fails finds no group. -/
theorem lookUpGroup_gives (h : ctx.provider.Definite) (hr : r.Typed) (hc : c.Uncounted) :
    Sync.Gives c (ctx.lookUpGroup log r) (Inquiry.calls ctx.provider c (.identity r))
      (.ok (ctx.provider.groupBehind c r)) := by
  have hfetch : Sync.Gives c (ctx.provider.fetch r) _ _ := Provider.fetch_gives hr hc
  have hno : Sync.Gives c (lookUpGroup.notAGroup log r) [] (.ok none) :=
    .step (.shown hr) (.step .log (.pure none))
  unfold lookUpGroup
  rcases hf : ctx.provider.found c r with f | _ | i <;> rw [hf] at hfetch
  · rw [Provider.groupBehind_of_error hf]
    refine .tryCatch_error (.bind_error hfetch) ?_
    rw [if_pos (h.isA_lookup hr hf)]
    exact .step (.shown hr) (.step .log (.pure none))
  · rw [Provider.groupBehind_eq_none hf nofun]
    exact .tryCatch (.bind_last hfetch hno)
  · refine .tryCatch (.bind_last hfetch ?_)
    dsimp only
    split
    · next hg =>
      rw [Provider.groupBehind_eq_some_iff.2 ⟨hf, hg⟩]
      exact .pure _
    · next hg =>
      rw [Provider.groupBehind_eq_none hf fun j hj => Option.some.inj hj ▸ hg]
      exact hno

/-- A reference adds the name that it is mapped to; one that is not mapped to a name adds none. -/
theorem collectDirect_adds (h : ctx.provider.Definite) (hdirect : ctx.provider.direct = true)
    (hr : r.Typed) (hc : c.Uncounted) :
    Adds c (Inquiry.calls ctx.provider c (.name r))
      (fun n => ∃ v, ctx.provider.mapped c r = .ok v ∧ v.toKey = .ok n)
      fun ns => ctx.collectDirect log ns r := by
  intro names
  have hname := Provider.principalName_gives hdirect hr hc
  have hmaps := h.mapped (c := c) hdirect hr
  unfold collectDirect
  generalize ctx.provider.mapped c r = o at hname hmaps
  cases hmaps with
  | @name v hv =>
    obtain ⟨ns, hadd, hiff⟩ := addName_gives (c := c) hv names
    exact ⟨ns, .tryCatch (.bind_last hname hadd), by simpa using hiff⟩
  | failure hf =>
    refine ⟨names, .tryCatch_error (.bind_error hname) ?_, by simp⟩
    rw [if_pos hf]
    exact .step (.shown hr) (.step .log (.pure names))

/-- A reference adds the name of the group that it leads to and what is added for the references of
this group. -/
theorem collectGroup_adds {asked : List (Option Ref) → List Inquiry}
    {G : List (Option Ref) → Key → Prop} {goOn : NameSet → List (Option Ref) → Sync NameSet}
    (h : ctx.provider.Definite)
    (hgo : ∀ refs, TypedRefs refs →
      Adds c ((asked refs).flatMap (Inquiry.calls ctx.provider c)) (G refs) fun ns => goOn ns refs)
    (hr : r.Typed) (hc : c.Uncounted) :
    Adds c ((.identity r :: (ctx.provider.groupBehind c r).elim [] fun i => asked i.groups).flatMap
        (Inquiry.calls ctx.provider c))
      (fun n => ∃ i, ctx.provider.groupBehind c r = some i ∧
        (i.principalName.toKey = .ok n ∨ G i.groups n))
      fun ns => ctx.collectGroup log goOn ns r := by
  intro names
  have hlookup : Sync.Gives c (ctx.lookUpGroup log r) _ _ := lookUpGroup_gives h hr hc
  rw [List.flatMap_cons]
  unfold collectGroup
  cases hi : ctx.provider.groupBehind c r with
  | none =>
    rw [hi] at hlookup
    exact ⟨names, .bind hlookup (.pure names), by simp⟩
  | some i =>
    rw [hi] at hlookup
    have htyped := h.typed hr hi
    obtain ⟨ns, hadd, hiff⟩ := addName_gives (c := c) htyped.principalName names
    obtain ⟨ns', hrest, hiff'⟩ := hgo i.groups htyped.groups ns
    refine ⟨ns', .bind hlookup (.step hadd hrest), fun n => ?_⟩
    rw [hiff', hiff, or_assoc]
    simp

/-- Collecting never fails; it asks what is to be asked, and adds what is found. -/
theorem collect_adds (h : ctx.provider.Definite) (hc : c.Uncounted) (d : Nat)
    {refs : List (Option Ref)} (hrefs : TypedRefs refs) :
    Adds c ((ctx.inquiries c d refs).flatMap (Inquiry.calls ctx.provider c)) (ctx.Finds c d refs)
      fun ns => ctx.collect log d ns refs := by
  induction d generalizing refs with
  | zero => exact fun names => ⟨names, .pure names, by simp [Finds]⟩
  | succ d ih =>
    show Adds c _ (fun n => ctx.Finds c (d + 1) refs n) _
    simp only [collect, inquiries, Finds]
    split
    · next hlast =>
      have hdirect : ctx.provider.direct = true := (Bool.and_eq_true_iff.1 hlast).2
      rw [List.flatMap_map]
      exact .foldlM fun r hr => collectDirect_adds h hdirect (hrefs.of_own hr) hc
    · rw [List.flatMap_assoc]
      exact .foldlM fun r hr => collectGroup_adds h (fun refs => ih) (hrefs.of_own hr) hc

/-! ## How much is asked -/

/-- No more than so many references of the provider are given, and no more are declared by any
identity that is looked up on the way. -/
structure Branches (ctx : Context) (c : Scene) (b d : Nat) (refs : List (Option Ref)) : Prop where
  given : (ctx.own refs).length ≤ b
  declared : ∀ r i, .identity r ∈ ctx.inquiries c d refs →
    ctx.provider.found c r = .ok (some i) → (ctx.own i.groups).length ≤ b

variable {refs : List (Option Ref)} {b d : Nat} {i : Identity}

/-- What is asked for one of the references, when it is not the last hop. -/
theorem inquiries_succ (hmore : ¬ (d = 0 ∧ ctx.provider.direct = true)) :
    ctx.inquiries c (d + 1) refs = (ctx.own refs).flatMap fun r =>
      .identity r ::
        (ctx.provider.groupBehind c r).elim [] fun i => ctx.inquiries c d i.groups := by
  rw [inquiries, if_neg]
  simpa using hmore

theorem inquiries_last (hdirect : ctx.provider.direct = true) :
    ctx.inquiries c 1 refs = (ctx.own refs).map .name := by
  rw [inquiries, if_pos]
  simpa using hdirect

theorem Branches.behind (h : ctx.Branches c b (d + 1) refs)
    (hmore : ¬ (d = 0 ∧ ctx.provider.direct = true)) (hr : r ∈ ctx.own refs)
    (hi : ctx.provider.groupBehind c r = some i) : ctx.Branches c b d i.groups where
  given := by
    refine h.declared r i ?_ (Provider.groupBehind_eq_some_iff.1 hi).1
    rw [inquiries_succ hmore]
    exact List.mem_flatMap.2 ⟨r, hr, List.mem_cons_self⟩
  declared := by
    intro q j hq
    refine h.declared q j ?_
    rw [inquiries_succ hmore]
    exact List.mem_flatMap.2 ⟨r, hr, List.mem_cons_of_mem _ (by rw [hi]; exact hq)⟩

/-- With one more hop, each of the references costs what lies behind it and, for questions of this
kind, one question more. -/
theorem countP_inquiries_succ_le {P : Inquiry → Bool} {one more : Nat}
    (h : ctx.Branches c b (d + 1) refs) (hmore : ¬ (d = 0 ∧ ctx.provider.direct = true))
    (hone : ∀ r, (if P (.identity r) then 1 else 0) ≤ one)
    (hbehind : ∀ refs, ctx.Branches c b d refs → (ctx.inquiries c d refs).countP P ≤ more) :
    (ctx.inquiries c (d + 1) refs).countP P ≤ b * (more + one) := by
  rw [inquiries_succ hmore, List.countP_flatMap]
  refine (List.sum_le_card_nsmul _ (more + one) ?_).trans ?_
  · intro x hx
    obtain ⟨r, hr, rfl⟩ := List.mem_map.1 hx
    rw [Function.comp_apply, List.countP_cons]
    refine Nat.add_le_add ?_ (hone r)
    cases hi : ctx.provider.groupBehind c r with
    | none => exact Nat.zero_le _
    | some i => exact hbehind i.groups (h.behind hmore hr hi)
  · rw [List.length_map, Nat.nsmul_eq_mul]
    exact Nat.mul_le_mul_right _ h.given

/-- Powers of the branching up to a number of hops, beginning with the first. -/
theorem sum_pow_succ (b d : Nat) :
    b * (∑ k ∈ Finset.range d, b ^ (k + 1) + 1) = ∑ k ∈ Finset.range (d + 1), b ^ (k + 1) := by
  rw [Finset.sum_range_succ', Nat.mul_add, Finset.mul_sum]
  simp only [pow_succ', pow_zero]

/-- Without direct names every hop asks for identities, and no names are asked for. -/
theorem countP_inquiries_le (hdirect : ctx.provider.direct = false)
    (h : ctx.Branches c b d refs) :
    (ctx.inquiries c d refs).countP Inquiry.isName = 0 ∧
      (ctx.inquiries c d refs).countP (fun q => !q.isName)
        ≤ ∑ k ∈ Finset.range d, b ^ (k + 1) := by
  have hmore (d : Nat) : ¬ (d = 0 ∧ ctx.provider.direct = true) := by simp [hdirect]
  induction d generalizing refs with
  | zero => simp [inquiries]
  | succ d ih =>
    constructor
    · have hnone : (ctx.inquiries c (d + 1) refs).countP Inquiry.isName ≤ b * (0 + 0) :=
        countP_inquiries_succ_le h (hmore d) (fun r => Nat.le_refl 0)
          fun refs hrefs => Nat.le_of_eq (ih hrefs).1
      simpa using hnone
    · rw [← sum_pow_succ]
      exact countP_inquiries_succ_le h (hmore d) (fun r => Nat.le_refl 1)
        fun refs hrefs => (ih hrefs).2

/-- With direct names every hop but the last one asks for identities, and the last one for names. -/
theorem countP_inquiries_direct_le (hdirect : ctx.provider.direct = true)
    (h : ctx.Branches c b (d + 1) refs) :
    (ctx.inquiries c (d + 1) refs).countP (fun q => !q.isName)
        ≤ ∑ k ∈ Finset.range d, b ^ (k + 1) ∧
      (ctx.inquiries c (d + 1) refs).countP Inquiry.isName ≤ b ^ (d + 1) := by
  induction d generalizing refs with
  | zero =>
    rw [inquiries_last hdirect, List.countP_map, List.countP_map]
    constructor
    · simp [Function.comp_def, Inquiry.isName]
    · simpa [Function.comp_def, Inquiry.isName] using h.given
  | succ d ih =>
    have hmore : ¬ (d + 1 = 0 ∧ ctx.provider.direct = true) := by simp
    constructor
    · rw [← sum_pow_succ]
      exact countP_inquiries_succ_le h hmore (fun r => Nat.le_refl 1)
        fun refs hrefs => (ih hrefs).1
    · rw [pow_succ']
      exact countP_inquiries_succ_le h hmore (fun r => Nat.le_refl 0)
        fun refs hrefs => (ih hrefs).2

/-- Collecting names never fails, and asks what is to be asked, whatever is found. If at most `b`
references of the provider lead on from every place that is looked at, it asks for at most
`b + b ^ 2 + ⋯ + b ^ d` identities; with direct names for at most `b + ⋯ + b ^ (d - 1)` identities
and for at most `b ^ d` names. -/
theorem collect_inquires {w : World} (ctx : Context) (log : Channel) (names : NameSet) (d : Nat)
    (h : ctx.provider.Definite) (hrefs : TypedRefs refs) (hw : w.scene.Uncounted) :
    ∃ ns w', ctx.collect log d names refs w = (.ok ns, w') ∧
      w'.calls = w.calls ++
        (ctx.inquiries w.scene d refs).flatMap
          (fun q => q.call :: q.answerCalls ctx.provider w.scene) ∧
      ∀ b, ctx.Branches w.scene b d refs →
        (ctx.provider.direct = false →
          (ctx.inquiries w.scene d refs).countP Inquiry.isName = 0 ∧
          (ctx.inquiries w.scene d refs).countP (fun q => !q.isName)
            ≤ ∑ k ∈ Finset.range d, b ^ (k + 1)) ∧
        (ctx.provider.direct = true →
          (ctx.inquiries w.scene d refs).countP (fun q => !q.isName)
            ≤ ∑ k ∈ Finset.range (d - 1), b ^ (k + 1) ∧
          (ctx.inquiries w.scene d refs).countP Inquiry.isName ≤ b ^ d) := by
  have hadds : Adds w.scene _ _ fun ns => ctx.collect log d ns refs := collect_adds h hw d hrefs
  obtain ⟨ns, hns, -⟩ := hadds names
  obtain ⟨w', hrun, -, -, hcalls⟩ := hns w rfl
  refine ⟨ns, w', hrun, hcalls, fun b hb => ⟨fun hdirect => countP_inquiries_le hdirect hb,
    fun hdirect => ?_⟩⟩
  cases d with
  | zero => simp [inquiries]
  | succ d => exact countP_inquiries_direct_le hdirect hb

/-- Going around a cycle, groups are asked for again. -/
theorem collect_inquires_cyclicGroups :
    ∃ ns w', (ofMemory twoHops cyclicGroups true).collect ⟨"test", none⟩ 3 ∅
        [some ⟨.text "g", .text "P"⟩] {} = (.ok ns, w') ∧
      w'.calls = ["g", "h", "g"].map (fun id => .resolve (some ⟨.text id, .text "P"⟩)) ∧
      ((ofMemory twoHops cyclicGroups true).inquiries (World.scene {}) 3
        [some ⟨.text "g", .text "P"⟩]).countP (fun q => !q.isName) ≤ 3 := by
  have hb : (ofMemory twoHops cyclicGroups true).Branches (World.scene {}) 1 3
      [some ⟨.text "g", .text "P"⟩] := by
    refine ⟨Nat.le_refl 1, fun r i hr hi => ?_⟩
    have hasked : Inquiry.identity r ∈ ["g", "h", "g"].map
      (fun id => .identity ⟨.text id, .text "P"⟩) := hr
    simp only [List.map_cons, List.map_nil, List.mem_cons, Inquiry.identity.injEq,
      List.not_mem_nil, or_false] at hasked
    rcases hasked with rfl | rfl | rfl <;> cases hi <;> exact Nat.le_refl 1
  obtain ⟨ns, w', hrun, hcalls, hbound⟩ := collect_inquires (w := {})
    (ofMemory twoHops cyclicGroups true) ⟨"test", none⟩ ∅ 3 typed_cyclicGroups.definite
    (typedRefs_text "g" "P") (.of_faults rfl rfl)
  exact ⟨ns, w', hrun, hcalls, ((hbound 1 hb).1 rfl).2⟩

end Context

end Roster
