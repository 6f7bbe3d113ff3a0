import Roster.Proofs.Completing
import Roster.Proofs.Snapshot

/-!
# Policies of configurations that are accepted

The check of a configuration and the policy that is built from it read the same fields, each in its
own way. What the check asks for is what building the policy needs, with one exception: the groups
that are joined automatically have to be a list, and nothing is asked of what is in the list. A list
or a mapping in it is accepted, and then there is no policy.

* `parts_of_load`: what is in the two parts, for users and for groups, of an accepted configuration.
* `policy_of_load_iff`: when there is a policy for it, and what the policy takes over.
-/

namespace Roster

/-! ## Sets of names -/

namespace Value

variable {xs : List Value}

/-- The items of a list are scalars, or one of them is none. -/
theorem scalars_or (xs : List Value) :
    (∃ ss : List Scalar, xs = ss.map scalar) ∨ ∃ x ∈ xs, x.scalar? = none := by
  induction xs with
  | nil => exact .inl ⟨[], rfl⟩
  | cons x xs ih =>
    cases hx : x.scalar? with
    | none => exact .inr ⟨x, List.mem_cons_self, hx⟩
    | some s =>
      refine ih.imp ?_ ?_
      · rintro ⟨ss, rfl⟩
        refine ⟨s :: ss, ?_⟩
        cases x with
        | scalar s' => rw [Option.some.inj hx]; rfl
        | list _ => cases hx
        | mapping _ => cases hx
      · rintro ⟨y, hy, hnone⟩
        exact ⟨y, List.mem_cons_of_mem _ hy, hnone⟩

/-- A list or a mapping is no name. -/
theorem toNames_of_not_scalar (h : ∃ x ∈ xs, x.scalar? = none) :
    (list xs).toNames = .error .malformed := by
  have hitems : xs.mapM toScalar = .error .malformed := by
    obtain ⟨x, hx, hnone⟩ := h
    induction xs with
    | nil => cases hx
    | cons y ys ih =>
      rw [List.mapM_cons]
      cases y with
      | list _ => rfl
      | mapping _ => rfl
      | scalar s =>
        rcases List.mem_cons.1 hx with rfl | hx
        · cases hnone
        · show (ys.mapM toScalar >>= fun zs => Except.ok (s :: zs)) = _
          rw [ih hx]
          rfl
  show (xs.mapM toScalar >>= fun names => Except.ok (NameSet.ofList names)) = _
  rw [hitems]
  rfl

/-- A list is a set of names exactly if its items are scalars. The set has the items. -/
theorem toNames_list_eq_ok {names : NameSet} (h : (list xs).toNames = .ok names) (x : Scalar) :
    x ∈ names ↔ ∃ v ∈ xs, (scalar x == v) = true := by
  rcases scalars_or xs with ⟨ss, rfl⟩ | hnot
  · rw [toNames_list] at h
    obtain rfl := Except.ok.inj h
    rw [NameSet.mem_ofList, keysOf, List.mem_map]
    constructor
    · rintro ⟨s, hs, he⟩
      exact ⟨scalar s, List.mem_map_of_mem hs, by rw [scalar_beq_scalar, Scalar.beq_iff, he]⟩
    · rintro ⟨v, hv, he⟩
      obtain ⟨s, hs, rfl⟩ := List.mem_map.1 hv
      rw [scalar_beq_scalar, Scalar.beq_iff] at he
      exact ⟨s, hs, he.symm⟩
  · rw [toNames_of_not_scalar hnot] at h
    cases h

end Value

/-! ## What is accepted -/

namespace Config

variable {config fields loaded sync part ds syncDs : Fields} {path : Value} {env : Environment}
  {files : Files} {name : String} {p : Policy} {o : Option Value}

/-- The part for users or for groups of a configuration that is accepted. -/
structure PartOf (loaded : Fields) (name : String) (part : Fields) : Prop where
  place : (Value.mapping loaded).at? [.text "sync", .text name] = some (.mapping part)
  groups : ∃ xs, part.lookup (.text "auto_membership") = some (.list xs)
  mapped : ∃ fs, part.lookup (.text "property_mapping") = some (.mapping fs)
  time : ∃ t, part.lookup (.text "expiration_time") = some (.number t) ∧ 0 ≤ t.toRat
  depth : name = "user" → ∃ n, part.lookup (.text "membership_nesting_depth") = some (.int n)

theorem sectionIn_of_orElse (h : (o.getD .null).orElse (.mapping []) = .mapping fields) :
    sectionIn o = fields := by
  cases o with
  | none => exact Value.mapping.inj h
  | some v =>
    change v.orElse (.mapping []) = _ at h
    rw [Value.orElse] at h
    split at h
    · rw [h]
      rfl
    · next hv =>
      obtain rfl := Value.mapping.inj h
      cases v with
      | mapping fs =>
        cases fs with
        | nil => rfl
        | cons _ _ => exact absurd rfl hv
      | scalar _ => rfl
      | list _ => rfl

/-- The defaults of a part. -/
structure DefaultsOf (name : String) (ds : Fields) : Prop where
  place : (Value.mapping defaults).at? [.text "sync", .text name] = some (.mapping ds)
  groups : ds.lookup (.text "auto_membership") = some (.list [])
  mapped : ds.lookup (.text "property_mapping") = some (.mapping [])
  time : ds.lookup (.text "expiration_time") = some (.int 3600)
  depth : name = "user" → ds.lookup (.text "membership_nesting_depth") = some (.int 1)

theorem defaultsOf_user : ∃ ds, DefaultsOf "user" ds := ⟨_, rfl, rfl, rfl, rfl, fun _ => rfl⟩

theorem defaultsOf_group : ∃ ds, DefaultsOf "group" ds := ⟨_, rfl, rfl, rfl, rfl, nofun⟩

theorem exists_list {v : Value} (h : v.isList = true) : ∃ xs, v = .list xs := by
  cases v with
  | list xs => exact ⟨xs, rfl⟩
  | scalar _ => cases h
  | mapping _ => cases h

theorem exists_amount {v : Value} (h : isAmount v = true) : ∃ t, v = .number t ∧ 0 ≤ t.toRat := by
  unfold isAmount at h
  split at h
  · next t =>
    rw [Bool.not_eq_true', decide_eq_false_iff_not, Number.lt_iff] at h
    exact ⟨t, rfl, Rat.not_lt.1 h⟩
  · cases h

theorem exists_integer {v : Value} (h : isInteger v = true) : ∃ n, v = .int n := by
  unfold isInteger at h
  split at h
  · next n => exact ⟨n, rfl⟩
  · cases h

/-- What the check asks of a part. -/
structure Sound (name : String) (fields : Fields) : Prop where
  groups : (fieldOr fields "auto_membership" (.list [])).isList = true
  mapped : (fieldOr fields "property_mapping" (.mapping [])).isMapping = true
  time : isAmount (fieldOr fields "expiration_time" (.int 0)) = true
  depth : name = "user" → isInteger (fieldOr fields "membership_nesting_depth" (.int 1)) = true

theorem sound_of_partProblems (h : partProblems sync name = []) :
    Sound name (sectionIn (sync.lookup (.text name))) := by
  unfold partProblems at h
  split at h
  · next fields hfields =>
    rw [sectionIn_of_orElse hfields]
    obtain ⟨h, hdepth⟩ := List.append_eq_nil_iff.1 h
    obtain ⟨h, htime⟩ := List.append_eq_nil_iff.1 h
    obtain ⟨hgroups, hmapped⟩ := List.append_eq_nil_iff.1 h
    refine ⟨eq_true_of_no_problem hgroups, eq_true_of_no_problem hmapped,
      eq_true_of_no_problem htime, ?_⟩
    rintro rfl
    exact eq_true_of_no_problem hdepth
  · cases h

/-- A part without problems is completed to one that has everything. -/
theorem partOf_completed (hd : DefaultsOf name ds)
    (hsync : config.lookup (.text "sync") = some (.mapping sync))
    (hproblems : partProblems sync name = []) : ∃ part, PartOf (completed config) name part := by
  have hsound := sound_of_partProblems hproblems
  have hplace := at?_completed config hd.place
  have hfields : sectionIn ((Value.mapping config).at? [.text "sync", .text name])
      = sectionIn (sync.lookup (.text name)) := by
    rw [Value.at?_mapping_cons, hsync, Option.bind_some, Value.at?_mapping_cons]
    cases sync.lookup (.text name) <;> rfl
  rw [hfields] at hplace
  generalize sectionIn (sync.lookup (.text name)) = fields at hsound hplace
  have hkeyed := wellKeyed_of_section wellKeyed_defaults hd.place
  refine ⟨_, hplace, ?_, ?_, ?_, fun hname => ?_⟩
  · obtain ⟨xs, hxs⟩ := exists_list hsound.groups
    exact ⟨xs, by rw [lookup_complete hkeyed, hd.groups, ← hxs]; rfl⟩
  · rw [lookup_complete hkeyed, hd.mapped]
    exact ⟨_, rfl⟩
  · rw [lookup_complete hkeyed, hd.time]
    have htime := hsound.time
    cases h : fields.lookup (.text "expiration_time") with
    | none => exact ⟨.int 3600, rfl, by decide⟩
    | some v =>
      rw [fieldOr, h] at htime
      obtain ⟨t, rfl, ht⟩ := exists_amount htime
      exact ⟨t, rfl, ht⟩
  · obtain ⟨n, hn⟩ := exists_integer (hsound.depth hname)
    exact ⟨n, by rw [lookup_complete hkeyed, hd.depth hname, ← hn]; rfl⟩

/-! ## Policies -/

/-- What is taken over from a part. -/
structure FitsPart (loaded : Fields) (name : String) (names : NameSet) (expiration : Value) :
    Prop where
  groups : ∃ xs, (Value.mapping loaded).at? [.text "sync", .text name, .text "auto_membership"]
      = some (.list xs) ∧ ∀ x, x ∈ names ↔ ∃ v ∈ xs, (.scalar x == v) = true
  time : (Value.mapping loaded).at? [.text "sync", .text name, .text "expiration_time"]
    = some expiration
  amount : ∃ t : Number, expiration = .number t ∧ 0 ≤ t.toRat

/-- What a policy takes over from a configuration. -/
structure Fits (loaded : Fields) (p : Policy) : Prop where
  user : FitsPart loaded "user" p.user.autoMembership p.user.expirationTime
  group : FitsPart loaded "group" p.group.autoMembership p.group.expirationTime
  depth : (Value.mapping loaded).at? [.text "sync", .text "user", .text "membership_nesting_depth"]
    = some (.int p.user.nestingDepth)

/-- Something that is no scalar is among the groups that are joined automatically. -/
def Misnames (document : Value) (name : String) : Prop :=
  ∃ xs, document.at? [.text "sync", .text name, .text "auto_membership"] = some (.list xs) ∧
    ∃ x ∈ xs, x.scalar? = none

namespace PartOf

theorem at? (h : PartOf loaded name part) (field : String) :
    (Value.mapping loaded).at? [.text "sync", .text name, .text field]
      = part.lookup (.text field) := by
  refine (at?_concat _ [.text "sync", .text name] (.text field)).trans ?_
  rw [h.place]
  rfl

theorem subsection (h : PartOf loaded name part)
    (hsync : loaded.lookup (.text "sync") = some (.mapping sync)) :
    Policy.subsection sync name = .ok part := by
  have hplace := h.place
  rw [Value.at?_mapping_cons, hsync, Option.bind_some, Value.at?_mapping_cons,
    Option.bind_eq_some_iff] at hplace
  obtain ⟨w, hw, hplace⟩ := hplace
  obtain rfl := Option.some.inj hplace
  unfold Policy.subsection
  rw [hw]
  rfl

/-- The groups to join automatically make up a set unless one of them is no scalar. -/
theorem toNames (h : PartOf loaded name part) :
    ∃ xs, part.lookup (.text "auto_membership") = some (.list xs) ∧
      (¬ Misnames (.mapping loaded) name ∧ (∃ names, (Value.list xs).toNames = .ok names) ∨
        Misnames (.mapping loaded) name ∧ (Value.list xs).toNames = .error .malformed) := by
  obtain ⟨xs, hxs⟩ := h.groups
  have hplace := (h.at? "auto_membership").trans hxs
  refine ⟨xs, hxs, ?_⟩
  rcases Value.scalars_or xs with ⟨ss, rfl⟩ | hnot
  · refine .inl ⟨?_, _, Value.toNames_list ss⟩
    rintro ⟨ys, hys, x, hx, hnone⟩
    obtain rfl := Value.list.inj (Option.some.inj (hplace.symm.trans hys))
    obtain ⟨s, -, rfl⟩ := List.mem_map.1 hx
    cases hnone
  · exact .inr ⟨⟨xs, hplace, hnot⟩, Value.toNames_of_not_scalar hnot⟩

/-- What is taken over fits. -/
theorem fits {names : NameSet} {xs : List Value} (h : PartOf loaded name part)
    (hxs : part.lookup (.text "auto_membership") = some (.list xs))
    (hnames : (Value.list xs).toNames = .ok names) :
    FitsPart loaded name names ((part.lookup (.text "expiration_time")).getD (.int 3600)) := by
  obtain ⟨t, ht, hamount⟩ := h.time
  rw [ht]
  exact ⟨⟨xs, (h.at? _).trans hxs, Value.toNames_list_eq_ok hnames⟩, (h.at? _).trans ht, t, rfl,
    hamount⟩

theorem userOf (h : PartOf loaded "user" part) :
    (¬ Misnames (.mapping loaded) "user" ∧ ∃ u, Policy.userOf part = .ok u ∧
      FitsPart loaded "user" u.autoMembership u.expirationTime ∧
      part.lookup (.text "membership_nesting_depth") = some (.int u.nestingDepth)) ∨
    Misnames (.mapping loaded) "user" ∧ Policy.userOf part = .error .malformed := by
  obtain ⟨xs, hxs, hgroups⟩ := h.toNames
  obtain ⟨fs, hfs⟩ := h.mapped
  obtain ⟨n, hn⟩ := h.depth rfl
  unfold Policy.userOf
  rw [hxs, hfs, hn]
  simp only [Option.getD_some]
  refine hgroups.imp ?_ ?_
  · rintro ⟨hnot, names, hnames⟩
    rw [hnames]
    exact ⟨hnot, _, rfl, h.fits hxs hnames, rfl⟩
  · rintro ⟨hmis, hnames⟩
    rw [hnames]
    exact ⟨hmis, rfl⟩

theorem groupOf (h : PartOf loaded "group" part) :
    (¬ Misnames (.mapping loaded) "group" ∧ ∃ g, Policy.groupOf part = .ok g ∧
      FitsPart loaded "group" g.autoMembership g.expirationTime) ∨
    Misnames (.mapping loaded) "group" ∧ Policy.groupOf part = .error .malformed := by
  obtain ⟨xs, hxs, hgroups⟩ := h.toNames
  obtain ⟨fs, hfs⟩ := h.mapped
  unfold Policy.groupOf
  rw [hxs, hfs]
  simp only [Option.getD_some]
  refine hgroups.imp ?_ ?_
  · rintro ⟨hnot, names, hnames⟩
    rw [hnames]
    exact ⟨hnot, _, rfl, h.fits hxs hnames⟩
  · rintro ⟨hmis, hnames⟩
    rw [hnames]
    exact ⟨hmis, rfl⟩

end PartOf

/-- A configuration that is accepted has both parts, and it names a provider. -/
theorem parts_of_load (hload : (load files path env).outcome = .ok loaded) :
    (∃ part, PartOf loaded "user" part) ∧ (∃ part, PartOf loaded "group" part) ∧
      ∃ sync provider, loaded.lookup (.text "sync") = some (.mapping sync) ∧
        sync.lookup (.text "provider") = some provider := by
  obtain ⟨-, -, config, -, -, -, hcheck⟩ := check_of_load hload
  obtain ⟨rfl, hproblems⟩ := check_eq_ok hcheck
  obtain ⟨sync, hsync, hprovider, huser, hgroup⟩ := section_of_syncProblems hproblems
  obtain ⟨userDefaults, hu⟩ := defaultsOf_user
  obtain ⟨groupDefaults, hg⟩ := defaultsOf_group
  refine ⟨partOf_completed hu hsync huser, partOf_completed hg hsync hgroup, ?_⟩
  cases hname : sync.lookup (.text "provider") with
  | none =>
    rw [fieldOr, hname] at hprovider
    cases hprovider
  | some provider =>
    obtain ⟨sync', hsync', hsame⟩ := lookup_provider_completed hsync
    exact ⟨sync', provider, hsync', hsame.trans hname⟩

/-- Completing names no groups. -/
theorem misnames_completed (hd : DefaultsOf name ds) :
    Misnames (.mapping (completed config)) name ↔ Misnames (.mapping config) name := by
  have hkeyed := wellKeyed_of_section wellKeyed_defaults hd.place
  have hgroups : (Value.mapping (completed config)).at?
      [.text "sync", .text name, .text "auto_membership"] = some (((Value.mapping config).at?
        [.text "sync", .text name, .text "auto_membership"]).getD (.list [])) := by
    refine (at?_concat _ [.text "sync", .text name] (.text "auto_membership")).trans ?_
    rw [at?_completed config hd.place, sectionIn, lookup_complete hkeyed, hd.groups]
    exact congrArg (fun o => some (Option.getD o _))
      (at?_concat _ [.text "sync", .text name] (.text "auto_membership")).symm
  unfold Misnames
  rw [hgroups]
  cases (Value.mapping config).at? [.text "sync", .text name, .text "auto_membership"] with
  | some v => rfl
  | none =>
    refine iff_of_false ?_ ?_
    · rintro ⟨xs, hxs, x, hx, -⟩
      obtain rfl := Value.list.inj (Option.some.inj hxs)
      cases hx
    · rintro ⟨xs, hxs, -⟩
      cases hxs

/-- Overrides name no groups. -/
theorem misnames_overridden (hover : (applyOverrides env fields).outcome = .ok config) :
    Misnames (.mapping config) name ↔ Misnames (.mapping fields) name := by
  obtain ⟨config', hrun, hkeys⟩ := foldlM_override_outcome env overrides fields
  obtain rfl := Except.ok.inj (hrun.symm.trans hover)
  obtain ⟨-, hsame⟩ := (hkeys "sync").resolve_left fun h => not_overridden_of_default rfl h.1
  unfold Misnames
  rw [Value.at?_mapping_cons, Value.at?_mapping_cons, hsame]

/-- There is a policy for a configuration that is accepted unless something that is no scalar is
among the groups to join automatically. The policy fits the configuration. -/
theorem ofConfig_outcome (hload : (load files path env).outcome = .ok loaded) :
    ((¬ Misnames (.mapping loaded) "user" ∧ ¬ Misnames (.mapping loaded) "group") ∧
      ∃ p, Policy.ofConfig (.mapping loaded) = .ok p ∧ Fits loaded p) ∨
    (Misnames (.mapping loaded) "user" ∨ Misnames (.mapping loaded) "group") ∧
      Policy.ofConfig (.mapping loaded) = .error .malformed := by
  obtain ⟨⟨userPart, huser⟩, ⟨groupPart, hgroup⟩, sync, provider, hsync, hprovider⟩ :=
    parts_of_load hload
  have hconfig : Policy.ofConfig (.mapping loaded) = (do
      let user ← Policy.userOf userPart
      let group ← Policy.groupOf groupPart
      return { provider, user, group }) := by
    unfold Policy.ofConfig
    dsimp only [Value.mapping?]
    rw [hsync]
    unfold Policy.ofSection
    dsimp only [Value.mapping?]
    rw [huser.subsection hsync, hgroup.subsection hsync, hprovider]
    rfl
  rw [hconfig]
  rcases huser.userOf with ⟨hu, u, huserOf, hfitsUser, hdepth⟩ | ⟨hu, huserOf⟩
  · rcases hgroup.groupOf with ⟨hg, g, hgroupOf, hfitsGroup⟩ | ⟨hg, hgroupOf⟩
    · rw [huserOf, hgroupOf]
      exact .inl ⟨⟨hu, hg⟩, _, rfl, hfitsUser, hfitsGroup, (huser.at? _).trans hdepth⟩
    · rw [huserOf, hgroupOf]
      exact .inr ⟨.inr hg, rfl⟩
  · rw [huserOf]
    exact .inr ⟨.inl hu, rfl⟩

/-- What a configuration misnames the document misnames. -/
theorem misnames_loaded {p : String} {v : Value} (hpath : pathText (pathFor path env) = .ok p)
    (hdoc : files.read p = .ok (.document v))
    (hload : (load files path env).outcome = .ok loaded) (hd : DefaultsOf name ds) :
    Misnames (.mapping loaded) name ↔ Misnames v name := by
  obtain ⟨fields, config, rfl, hover, rfl⟩ := load_eq_ok hpath hdoc hload
  rw [misnames_completed hd, misnames_overridden hover]

/-- There is a policy for a document that is accepted unless something that is no scalar is among
the groups that it joins automatically. The policy fits the configuration. -/
theorem policy_of_load_iff {p : String} {v : Value} (hpath : pathText (pathFor path env) = .ok p)
    (hdoc : files.read p = .ok (.document v))
    (hload : (load files path env).outcome = .ok loaded) :
    ((∃ p, Policy.ofConfig (.mapping loaded) = .ok p) ↔
      ¬ Misnames v "user" ∧ ¬ Misnames v "group") ∧
    ∀ p, Policy.ofConfig (.mapping loaded) = .ok p → Fits loaded p := by
  obtain ⟨userDefaults, hu⟩ := defaultsOf_user
  obtain ⟨groupDefaults, hg⟩ := defaultsOf_group
  rw [← misnames_loaded hpath hdoc hload hu, ← misnames_loaded hpath hdoc hload hg]
  rcases ofConfig_outcome hload with ⟨hnot, p, hp, hfits⟩ | ⟨hmis, herror⟩
  · refine ⟨iff_of_true ⟨p, hp⟩ hnot, fun q hq => ?_⟩
    obtain rfl := Except.ok.inj (hp.symm.trans hq)
    exact hfits
  · rw [herror]
    refine ⟨iff_of_false ?_ fun h => hmis.elim h.1 h.2, nofun⟩
    rintro ⟨p, hp⟩
    cases hp

/-- A document with one group that users join automatically. -/
def joining (group : Value) : Fields := [
  ("provider_type", .text "memory"),
  ("sync", .mapping [("provider", .text "P"),
    ("user", .mapping [("auto_membership", .list [group])])])]

theorem load_joining (group : Value) :
    (load (folderOf (.document (.mapping (joining group)))) (.text "c") []).outcome
      = .ok (completed (joining group)) :=
  (outcome_load_of_file rfl (fileFields_of_mapping (read_folderOf _)) rfl).trans rfl

/-- With a text for the group there is a policy, and it fits. -/
theorem policy_of_joining :
    ∃ loaded p, (load (folderOf (.document (.mapping (joining (.text "g"))))) (.text "c")
        []).outcome = .ok loaded ∧
      Policy.ofConfig (.mapping loaded) = .ok p ∧ Fits loaded p := by
  have huser : ¬ Misnames (.mapping (joining (.text "g"))) "user" := by
    rintro ⟨xs, hxs, x, hx, hnone⟩
    obtain rfl := Value.list.inj (Option.some.inj hxs)
    obtain rfl := List.mem_singleton.1 hx
    cases hnone
  have hgroup : ¬ Misnames (.mapping (joining (.text "g"))) "group" := by
    rintro ⟨xs, hxs, -⟩
    cases hxs
  obtain ⟨hiff, hfits⟩ := policy_of_load_iff rfl (read_folderOf _) (load_joining (.text "g"))
  obtain ⟨p, hp⟩ := hiff.2 ⟨huser, hgroup⟩
  exact ⟨_, p, load_joining _, hp, hfits p hp⟩

/-- With a list in the place of the group the document is accepted, and there is no policy. -/
theorem no_policy_of_joining :
    ∃ loaded, (load (folderOf (.document (.mapping (joining (.texts ["g"]))))) (.text "c")
        []).outcome = .ok loaded ∧
      Policy.ofConfig (.mapping loaded) = .error .malformed := by
  have hload := load_joining (.texts ["g"])
  obtain ⟨userDefaults, hu⟩ := defaultsOf_user
  have hmis : Misnames (.mapping (completed (joining (.texts ["g"])))) "user" :=
    (misnames_completed hu).2 ⟨_, rfl, _, List.mem_cons_self, rfl⟩
  rcases ofConfig_outcome hload with ⟨⟨hnot, -⟩, -⟩ | ⟨-, herror⟩
  · exact absurd hmis hnot
  · exact ⟨_, hload, herror⟩

end Config

end Roster
