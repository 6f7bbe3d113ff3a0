import Roster.Proofs.Configured

/-!
# Loading what was loaded

A configuration that loading answers with is a document like any other. It has everything that the
defaults name, in the place where they name it, the secrets of the environment are in it, and the
check has nothing to say about it. So loading it again changes nothing.

* `covers_complete`, `complete_of_covers`: completing adds what a document lacks, and changes
  nothing in one that lacks nothing.
* `holds_applyOverrides`, `foldlM_override_of_holds`: overrides put the secrets in, and change
  nothing where they are in already.
* `problems_completed`: a document without problems has none when it is completed.
* `load_again`: what is loaded is loaded again as it is.
-/

namespace Roster

namespace Assoc

variable {κ α : Type} [BEq κ] [EquivBEq κ]

/-- Setting a key to what is there changes nothing. -/
theorem set_of_lookup {m : Assoc κ α} {k : κ} {v : α} (h : m.lookup k = some v) :
    m.set k v = m := by
  induction m with
  | nil => cases h
  | cons p m ih =>
    obtain ⟨j, u⟩ := p
    rw [lookup_cons] at h
    rw [set]
    by_cases hj : (j == k) = true
    · rw [if_pos (BEq.symm hj)] at h
      rw [if_pos hj, Option.some.inj h]
    · rw [if_neg fun hk => hj (BEq.symm hk)] at h
      rw [if_neg hj, ih h]

end Assoc

namespace Value

variable {u d : Value} {path : List Scalar}

theorem eq_mapping_of_isMapping (h : u.isMapping = true) : ∃ fs, u = mapping fs := by
  cases u with
  | mapping fs => exact ⟨fs, rfl⟩
  | scalar _ => cases h
  | list _ => cases h

/-- No path leads on from anything but a mapping. -/
theorem at?_of_leaf (hu : u.isMapping = false) (h : u.at? path = some d) : path = [] ∧ d = u := by
  cases path with
  | nil => exact ⟨rfl, (Option.some.inj h).symm⟩
  | cons k path =>
    cases u with
    | mapping fs => cases hu
    | scalar _ => cases h
    | list _ => cases h

end Value

namespace Config

variable {config fields loaded sync part ds inner target : Fields} {path : Value}
  {env : Environment} {files : Files} {name p : String} {os : List (String × String × String)}
  {o : String × String × String}

/-! ## Defaults -/

/-- Every path that leads to something in the defaults leads to something in the document, and to a
section where it leads to one in the defaults. -/
def Covers (fields ds : Fields) : Prop :=
  ∀ path d, (Value.mapping ds).at? path = some d →
    ∃ v, (Value.mapping fields).at? path = some v ∧ (d.isMapping = true → v.isMapping = true)

/-- A document covers the defaults if its fields do. -/
theorem covers_iff :
    Covers fields ds ↔ ∀ k d, ds.lookup k = some d → ∃ v, fields.lookup k = some v ∧
      ∀ inner, d = .mapping inner → ∃ part, v = .mapping part ∧ Covers part inner := by
  constructor
  · intro h k d hd
    have hpath {path u} (hu : d.at? path = some u) :
        (Value.mapping ds).at? (k :: path) = some u := by
      rw [Value.at?_mapping_cons, hd]
      exact hu
    obtain ⟨v, hv, hsection⟩ := h [k] d (hpath rfl)
    rw [Value.at?_mapping_cons, Option.bind_eq_some_iff] at hv
    obtain ⟨w, hw, hv⟩ := hv
    obtain rfl := Option.some.inj hv
    refine ⟨w, hw, ?_⟩
    rintro inner rfl
    obtain ⟨part, rfl⟩ := Value.eq_mapping_of_isMapping (hsection rfl)
    refine ⟨part, rfl, fun path u hu => ?_⟩
    obtain ⟨v, hv, hshape⟩ := h (k :: path) u (hpath hu)
    rw [Value.at?_mapping_cons, hw] at hv
    exact ⟨v, hv, hshape⟩
  · intro h path d hd
    cases path with
    | nil =>
      obtain rfl := Option.some.inj hd
      exact ⟨_, rfl, fun _ => rfl⟩
    | cons k path =>
      rw [Value.at?_mapping_cons, Option.bind_eq_some_iff] at hd
      obtain ⟨u, hu, hd⟩ := hd
      obtain ⟨v, hv, hsection⟩ := h k u hu
      cases hshape : u.isMapping with
      | false =>
        obtain ⟨rfl, rfl⟩ := Value.at?_of_leaf hshape hd
        refine ⟨v, by rw [Value.at?_mapping_cons, hv]; rfl, fun hm => ?_⟩
        cases hshape.symm.trans hm
      | true =>
        obtain ⟨inner, rfl⟩ := Value.eq_mapping_of_isMapping hshape
        obtain ⟨part, rfl, hpart⟩ := hsection inner rfl
        obtain ⟨w, hw, hsame⟩ := hpart path d hd
        exact ⟨w, by rw [Value.at?_mapping_cons, hv]; exact hw, hsame⟩

/-- Completing adds what is missing. -/
theorem covers_complete (hd : ds.WellKeyed) (target : Fields) : Covers (complete target ds) ds := by
  induction hd generalizing target with
  | @intro ds hkeys hsections ih =>
  have hd := Fields.WellKeyed.intro hkeys hsections
  refine covers_iff.2 fun k d hk => ?_
  rw [lookup_complete hd, hk]
  cases d with
  | scalar _ => exact ⟨_, rfl, nofun⟩
  | list _ => exact ⟨_, rfl, nofun⟩
  | mapping inner =>
    refine ⟨_, rfl, ?_⟩
    rintro _ ⟨rfl⟩
    obtain ⟨j, hj, -⟩ := Assoc.exists_mem_of_lookup hk
    exact ⟨_, rfl, ih j inner hj _⟩

theorem complete_of_fill (h : ∀ d ∈ ds, fill fields d.1 d.2 = fields) :
    complete fields ds = fields := by
  induction ds with
  | nil => rw [complete]
  | cons d ds ih =>
    obtain ⟨k, v⟩ := d
    rw [complete_cons, h _ List.mem_cons_self]
    exact ih fun q hq => h q (List.mem_cons_of_mem _ hq)

/-- Completing changes nothing where nothing is missing. -/
theorem complete_of_covers (hd : ds.WellKeyed) (h : Covers fields ds) :
    complete fields ds = fields := by
  induction hd generalizing fields with
  | @intro ds hkeys hsections ih =>
  refine complete_of_fill ?_
  rintro ⟨k, d⟩ hmem
  obtain ⟨v, hv, hsection⟩ := covers_iff.1 h k d (Assoc.lookup_of_mem hkeys hmem BEq.rfl)
  have hhas : fields.has k = true := by rw [Assoc.has_eq_isSome, hv, Option.isSome_some]
  cases d with
  | scalar _ => exact if_pos hhas
  | list _ => exact if_pos hhas
  | mapping inner =>
    obtain ⟨part, rfl, hpart⟩ := hsection inner rfl
    rw [fill, sectionOf_eq, hv]
    show fields.set k (.mapping (complete part inner)) = fields
    rw [ih k inner hmem hpart, Assoc.set_of_lookup hv]

/-! ## Overrides -/

/-- The document with a secret in the place of an override. -/
def withSecret (config : Fields) (o : String × String × String) (secret : String) : Fields :=
  config.set (.text o.1)
    (.mapping ((sectionOf config (.text o.1)).set (.text o.2.1) (.text secret)))

/-- The secrets of the environment are in the document, in the places of the overrides. -/
def Holds (env : Environment) (os : List (String × String × String)) (config : Fields) : Prop :=
  ∀ o ∈ os, ∀ secret, env.lookup o.2.2 = some secret → secret ≠ "" →
    (Value.mapping config).at? [.text o.1, .text o.2.1] = some (.text secret)

/-- A field in a section. -/
theorem at?_field {key field : String} :
    (Value.mapping config).at? [.text key, .text field]
      = (sectionOf config (.text key)).lookup (.text field) := by
  refine (at?_concat _ [.text key] (.text field)).trans ?_
  rw [sectionOf_eq, Value.at?_mapping_cons]
  cases config.lookup (.text key) <;> rfl

theorem sectionOf_withSecret (config : Fields) (o : String × String × String)
    (secret key : String) :
    sectionOf (withSecret config o secret) (.text key)
      = if key = o.1 then (sectionOf config (.text o.1)).set (.text o.2.1) (.text secret)
        else sectionOf config (.text key) := by
  rw [sectionOf_eq, withSecret, Assoc.lookup_set, sectionOf_eq config (.text key)]
  by_cases hkey : key = o.1
  · rw [if_pos hkey, if_pos (by rw [hkey]; exact BEq.rfl)]
    rfl
  · rw [if_neg hkey, if_neg]
    simpa [Scalar.beq_iff, Scalar.key] using hkey

/-- What is in a field after a secret was put in. -/
theorem at?_withSecret (config : Fields) (o : String × String × String)
    (secret key field : String) :
    (Value.mapping (withSecret config o secret)).at? [.text key, .text field]
      = if key = o.1 ∧ field = o.2.1 then some (.text secret)
        else (Value.mapping config).at? [.text key, .text field] := by
  have hbeq : ((Scalar.text field == .text o.2.1) = true) ↔ field = o.2.1 := by
    simp
  rw [at?_field, at?_field, sectionOf_withSecret]
  by_cases hkey : key = o.1
  · rw [if_pos hkey, Assoc.lookup_set]
    simp only [hbeq, hkey, true_and]
  · rw [if_neg hkey, if_neg fun h => hkey h.1]

theorem override_of_set {secret : String} (h : env.lookup o.2.2 = some secret) (hne : secret ≠ "")
    (config : Fields) : (override env config o).outcome = .ok (withSecret config o secret) := by
  obtain ⟨key, field, name⟩ := o
  unfold override
  dsimp only at h ⊢
  split
  · next hnone => cases h.symm.trans hnone
  · next hempty => exact absurd (Option.some.inj (h.symm.trans hempty)) hne
  · next other _ hother =>
    obtain rfl := Option.some.inj (h.symm.trans hother)
    rfl

theorem override_of_unset (h : ¬ Sets env o) (config : Fields) :
    (override env config o).outcome = .ok config := by
  obtain ⟨config', hrun, ⟨hset, -⟩ | ⟨-, rfl⟩⟩ := override_outcome env config o
  · exact absurd hset h
  · exact hrun

/-- Overrides of different fields put all their secrets in, and leave the other fields. -/
theorem holds_foldlM_override (env : Environment)
    (hos : os.Pairwise fun o q => ¬ (o.1 = q.1 ∧ o.2.1 = q.2.1)) (config : Fields) :
    ∃ config', (os.foldlM (override env) config).outcome = .ok config' ∧ Holds env os config' ∧
      ∀ key field : String, (∀ o ∈ os, ¬ (key = o.1 ∧ field = o.2.1)) →
        (Value.mapping config').at? [.text key, .text field]
          = (Value.mapping config).at? [.text key, .text field] := by
  induction os generalizing config with
  | nil => exact ⟨config, rfl, nofun, fun _ _ _ => rfl⟩
  | cons o os ih =>
    obtain ⟨ho, hos⟩ := List.pairwise_cons.1 hos
    by_cases hset : Sets env o
    · obtain ⟨secret, hsecret, hne⟩ := hset
      obtain ⟨config', hrun, hholds, hothers⟩ := ih hos (withSecret config o secret)
      refine ⟨config', ?_, List.forall_mem_cons.2 ⟨?_, hholds⟩, fun key field hkey => ?_⟩
      · rw [List.foldlM_cons, Reply.outcome_bind, override_of_set hsecret hne]
        exact hrun
      · rintro secret' hsecret' -
        obtain rfl := Option.some.inj (hsecret.symm.trans hsecret')
        rw [hothers _ _ ho, at?_withSecret, if_pos ⟨rfl, rfl⟩]
      · obtain ⟨hfirst, hrest⟩ := List.forall_mem_cons.1 hkey
        rw [hothers _ _ hrest, at?_withSecret, if_neg hfirst]
    · obtain ⟨config', hrun, hholds, hothers⟩ := ih hos config
      refine ⟨config', ?_, List.forall_mem_cons.2 ⟨?_, hholds⟩, fun key field hkey => ?_⟩
      · rw [List.foldlM_cons, Reply.outcome_bind, override_of_unset hset]
        exact hrun
      · intro secret hsecret hne
        exact absurd ⟨secret, hsecret, hne⟩ hset
      · exact hothers _ _ (List.forall_mem_cons.1 hkey).2

theorem holds_applyOverrides (h : (applyOverrides env fields).outcome = .ok config) :
    Holds env overrides config := by
  have hdistinct : overrides.Pairwise fun o q => ¬ (o.1 = q.1 ∧ o.2.1 = q.2.1) := by decide
  obtain ⟨config', hrun, hholds, -⟩ := holds_foldlM_override env hdistinct fields
  obtain rfl := Except.ok.inj (hrun.symm.trans h)
  exact hholds

/-- Putting in a secret that is there changes nothing. -/
theorem withSecret_of_at? {secret : String}
    (h : (Value.mapping config).at? [.text o.1, .text o.2.1] = some (.text secret)) :
    withSecret config o secret = config := by
  rw [at?_field] at h
  rw [withSecret, Assoc.set_of_lookup h]
  rw [sectionOf_eq] at h ⊢
  cases hpart : config.lookup (.text o.1) with
  | none => rw [hpart] at h; cases h
  | some v =>
    rw [hpart] at h
    cases v with
    | mapping part => exact Assoc.set_of_lookup hpart
    | scalar _ => cases h
    | list _ => cases h

/-- Overrides change nothing where their secrets are in. -/
theorem foldlM_override_of_holds (h : Holds env os config) :
    (os.foldlM (override env) config).outcome = .ok config := by
  induction os with
  | nil => rfl
  | cons o os ih =>
    obtain ⟨hfirst, hrest⟩ := List.forall_mem_cons.1 h
    have hstep : (override env config o).outcome = .ok config := by
      by_cases hset : Sets env o
      · obtain ⟨secret, hsecret, hne⟩ := hset
        rw [override_of_set hsecret hne, withSecret_of_at? (hfirst secret hsecret hne)]
      · exact override_of_unset hset config
    rw [List.foldlM_cons, Reply.outcome_bind, hstep]
    exact ih hrest

theorem lookup_default_of_override (ho : o ∈ overrides) : defaults.lookup (.text o.1) = none := by
  simp only [overrides, List.mem_cons, List.not_mem_nil, or_false] at ho
  rcases ho with rfl | rfl <;> rfl

/-- Completing leaves the secrets. -/
theorem holds_completed (h : Holds env overrides config) :
    Holds env overrides (completed config) := by
  intro o ho secret hsecret hne
  have hfirst : (Value.mapping (complete config defaults)).at? [.text o.1, .text o.2.1]
      = some (.text secret) := by
    rw [Value.at?_mapping_cons, lookup_complete wellKeyed_defaults, lookup_default_of_override ho]
    exact h o ho secret hsecret hne
  obtain ⟨v, hv, hext | ⟨-, hvacant⟩⟩ := keeps_completed config _ _ hfirst id
  · cases hext
    exact hv
  · exact hvacant.elim

/-! ## The check -/

/-- A part that has everything has no problems. -/
theorem PartOf.partProblems (h : PartOf loaded name part)
    (hsync : loaded.lookup (.text "sync") = some (.mapping sync)) :
    Config.partProblems sync name = [] := by
  have hpart : sync.lookup (.text name) = some (.mapping part) := by
    have hplace := h.place
    rw [at?_field, sectionOf_eq, hsync] at hplace
    exact hplace
  have hsame : (Value.mapping part).orElse (.mapping []) = .mapping part := by cases part <;> rfl
  obtain ⟨xs, hxs⟩ := h.groups
  obtain ⟨fs, hfs⟩ := h.mapped
  obtain ⟨t, ht, hamount⟩ := h.time
  have htime : isAmount (.number t) = true := by
    rw [isAmount, Bool.not_eq_true', decide_eq_false_iff_not, Number.lt_iff]
    exact Rat.not_lt.2 hamount
  unfold Config.partProblems
  simp only [fieldOr, hpart, Option.getD_some, hsame, hxs, hfs, ht, Value.isList, Value.isMapping,
    htime, if_true, List.nil_append]
  refine if_pos ?_
  by_cases hname : name = "user"
  · obtain ⟨n, hn⟩ := h.depth hname
    rw [hn]
    exact Bool.or_true _
  · simp [hname]

/-- A `sync` section without problems has none when it is completed. -/
theorem syncProblems_completed (h : syncProblems config = []) :
    syncProblems (completed config) = [] := by
  obtain ⟨sync, hsync, hprovider, huser, hgroup⟩ := section_of_syncProblems h
  obtain ⟨userDefaults, hu⟩ := defaultsOf_user
  obtain ⟨groupDefaults, hg⟩ := defaultsOf_group
  obtain ⟨userPart, huser⟩ := partOf_completed hu hsync huser
  obtain ⟨groupPart, hgroup⟩ := partOf_completed hg hsync hgroup
  obtain ⟨sync', hsync', hsame⟩ := lookup_provider_completed hsync
  have hprovider' : (fieldOr sync' "provider" .null).truthy = true := by
    rw [fieldOr, hsame]
    exact hprovider
  unfold syncProblems
  rw [hsync']
  simp only [hprovider', if_true, huser.partProblems hsync', hgroup.partProblems hsync',
    List.append_nil]

theorem lookup_provider_type_completed (config : Fields) :
    (completed config).lookup (.text "provider_type")
      = some (fieldOr config "provider_type" (.text "ldap")) := by
  rw [lookup_completed config (by decide)]
  rfl

theorem providerType?_completed (config : Fields) :
    providerType? (completed config) = providerType? config := by
  rw [providerType?, providerType?, fieldOr, lookup_provider_type_completed, Option.getD_some]

/-- A directory section has what a directory requires. -/
def Suffices (part : Fields) : Prop :=
  ∀ f ∈ requiredDirectoryFields, (fieldOr part f .null).truthy = true

/-- A provider section without problems is one of a kind without requirements, or has what a
directory requires. -/
theorem providerProblems_eq_ok_nil_iff :
    providerProblems config = .ok [] ↔ ∃ kind, providerType? config = some kind ∧
      (kind = "ldap" →
        ∃ part, config.lookup (.text "ldap") = some (.mapping part) ∧ Suffices part) := by
  unfold providerProblems
  split
  · next hnone => simp [hnone]
  · next htype =>
    simp only [htype, Option.some.injEq, exists_eq_left', forall_const]
    constructor
    · intro h
      split at h
      · next part hpart =>
        have hnone := List.map_eq_nil_iff.1 (Except.ok.inj h)
        have hall : Suffices part := by
          intro f hf
          simpa using List.filter_eq_nil_iff.1 hnone f hf
        refine ⟨part, ?_, hall⟩
        -- an empty section lacks what is required, so there is a mapping
        have hempty : part ≠ [] := by
          rintro rfl
          cases hall "server_url" List.mem_cons_self
        have hsection := sectionIn_of_orElse hpart
        unfold sectionIn at hsection
        split at hsection
        · next fs hfs => rw [hfs, hsection]
        · exact absurd hsection.symm hempty
      · cases h
    · rintro ⟨part, hpart, hall⟩
      have hsame : (Value.mapping part).orElse (.mapping []) = .mapping part := by
        cases part <;> rfl
      rw [fieldOr, hpart, Option.getD_some, hsame]
      refine congrArg Except.ok (List.map_eq_nil_iff.2 (List.filter_eq_nil_iff.2 fun f hf => ?_))
      simp [hall f hf]
  · next kind hkind htype =>
    simp only [htype, true_iff]
    exact ⟨kind, rfl, fun h => absurd h hkind⟩

theorem fieldOr_provider_type {kind : String} (h : providerType? config = some kind) :
    fieldOr config "provider_type" (.text "ldap") = .text kind := by
  unfold providerType? at h
  split at h
  · next t ht =>
    split at h
    · rw [ht, Option.some.inj h]
    · cases h
  · cases h

/-- The directory section is completed. -/
theorem lookup_ldap_completed (htype : providerType? config = some "ldap")
    (hpart : config.lookup (.text "ldap") = some (.mapping part)) :
    (completed config).lookup (.text "ldap") =
      some (.mapping (complete part directoryDefaults)) := by
  have hkind : (complete config defaults).lookup (.text "provider_type") = some (.text "ldap") := by
    rw [lookup_complete wellKeyed_defaults]
    exact congrArg some (fieldOr_provider_type htype)
  have hsection : (complete config defaults).lookup (.text "ldap") = some (.mapping part) := by
    rw [lookup_complete wellKeyed_defaults]
    exact hpart
  unfold completed
  simp only [hkind, hsection]
  rw [Assoc.lookup_set, if_pos BEq.rfl]

/-- A provider section without problems has none when it is completed. -/
theorem providerProblems_completed (h : providerProblems config = .ok []) :
    providerProblems (completed config) = .ok [] := by
  obtain ⟨kind, htype, hdirectory⟩ := providerProblems_eq_ok_nil_iff.1 h
  refine providerProblems_eq_ok_nil_iff.2
    ⟨kind, (providerType?_completed config).trans htype, ?_⟩
  rintro rfl
  obtain ⟨part, hpart, hall⟩ := hdirectory rfl
  refine ⟨_, lookup_ldap_completed htype hpart, fun f hf => ?_⟩
  have hnone : ∀ f ∈ requiredDirectoryFields, directoryDefaults.lookup (.text f) = none := by
    decide
  rw [fieldOr, lookup_complete wellKeyed_directoryDefaults, hnone f hf]
  exact hall f hf

/-- A document without problems has none when it is completed. -/
theorem problems_completed (h : problems config = .ok []) :
    problems (completed config) = .ok [] := by
  obtain ⟨hsync, hprovider⟩ := problems_eq_ok_nil_iff.1 h
  exact problems_eq_ok_nil_iff.2
    ⟨syncProblems_completed hsync, providerProblems_completed hprovider⟩

/-! ## Loading -/

/-- What was completed lacks nothing that the defaults name. -/
theorem covers_completed (config : Fields) : Covers (completed config) defaults := by
  refine covers_iff.2 fun k d hk => ?_
  obtain ⟨key, rfl⟩ := text_of_default hk
  have hkey : key ≠ "ldap" := by
    rintro rfl
    cases hk
  rw [lookup_completed config hkey, ← lookup_complete wellKeyed_defaults]
  exact covers_iff.1 (covers_complete wellKeyed_defaults config) _ _ hk

/-- The section of a directory lacks nothing that the defaults of directories name. -/
theorem covers_directory
    (htype : (completed config).lookup (.text "provider_type") = some (.text "ldap"))
    (hpart : (completed config).lookup (.text "ldap") = some (.mapping part)) :
    Covers part directoryDefaults := by
  rw [lookup_completed config (by decide), ← lookup_complete wellKeyed_defaults] at htype
  unfold completed at hpart
  dsimp only at hpart
  split at hpart
  · next fields _ _ =>
    rw [Assoc.lookup_set, if_pos BEq.rfl] at hpart
    obtain rfl := Value.mapping.inj (Option.some.inj hpart)
    exact covers_complete wellKeyed_directoryDefaults fields
  · next hno => exact absurd hpart (hno part htype)

/-- Completing changes nothing where the defaults name nothing that is missing. -/
theorem completed_of_covers (h : Covers fields defaults)
    (hdirectory : ∀ part, fields.lookup (.text "provider_type") = some (.text "ldap") →
      fields.lookup (.text "ldap") = some (.mapping part) → Covers part directoryDefaults) :
    completed fields = fields := by
  unfold completed
  rw [complete_of_covers wellKeyed_defaults h]
  dsimp only
  split
  · next part htype hpart =>
    rw [complete_of_covers wellKeyed_directoryDefaults (hdirectory part htype hpart),
      Assoc.set_of_lookup hpart]
  · rfl

/-- A configuration that was loaded is loaded again as it is, from any file and any path. It names
everything that the defaults name, and where it asks for a directory, everything that the defaults
of directories name. -/
theorem load_again (hload : (load files path env).outcome = .ok loaded) :
    (∀ (files' : Files) (path' : Value) (p : String), pathText (pathFor path' env) = .ok p →
      files'.read p = .ok (.document (.mapping loaded)) →
      (load files' path' env).outcome = .ok loaded) ∧
    Covers loaded defaults ∧
    (loaded.lookup (.text "provider_type") = some (.text "ldap") →
      ∃ part, loaded.lookup (.text "ldap") = some (.mapping part) ∧
        Covers part directoryDefaults) := by
  obtain ⟨-, fields, config, -, -, hover, hcheck⟩ := check_of_load hload
  obtain ⟨hnone, rfl⟩ := check_eq_ok_iff.1 hcheck
  refine ⟨fun files' path' p hpath hdoc => ?_, covers_completed config, fun htype => ?_⟩
  · have hholds := holds_completed (holds_applyOverrides hover)
    rw [outcome_load_of_file hpath (fileFields_of_mapping hdoc) (foldlM_override_of_holds hholds)]
    exact check_eq_ok_iff.2 ⟨problems_completed hnone, (completed_of_covers
      (covers_completed config) fun part htype hpart => covers_directory htype hpart).symm⟩
  · obtain ⟨-, hprovider⟩ := problems_eq_ok_nil_iff.1 (problems_completed hnone)
    obtain ⟨kind, hkind, hdirectory⟩ := providerProblems_eq_ok_nil_iff.1 hprovider
    have hfield := fieldOr_provider_type hkind
    rw [fieldOr, htype] at hfield
    obtain rfl : kind = "ldap" := (Scalar.text.inj (Value.scalar.inj hfield)).symm
    obtain ⟨part, hpart, -⟩ := hdirectory rfl
    exact ⟨part, hpart, covers_directory htype hpart⟩

/-- A document that asks for a directory and leaves the password to the environment. -/
def sparse : Fields := [
  ("sync", .mapping [("provider", .text "P"), ("group", .null)]),
  ("ldap", .mapping [("server_url", .text "ldap://corp"), ("bind_dn", .text "cn=reader")])]

/-- With the password from the environment it is accepted, and what comes of it is loaded again. -/
theorem load_again_sparse :
    ∃ loaded, (load (folderOf (.document (.mapping sparse))) (.text "c")
        [("LDAP_BIND_PASSWORD", "secret")]).outcome = .ok loaded ∧
      (load (folderOf (.document (.mapping loaded))) (.text "c")
        [("LDAP_BIND_PASSWORD", "secret")]).outcome = .ok loaded ∧
      Covers loaded defaults := by
  have hload : ∃ loaded, (load (folderOf (.document (.mapping sparse))) (.text "c")
      [("LDAP_BIND_PASSWORD", "secret")]).outcome = .ok loaded :=
    ⟨_, (outcome_load_of_file rfl (fileFields_of_mapping (read_folderOf _)) rfl).trans rfl⟩
  obtain ⟨loaded, hload⟩ := hload
  obtain ⟨hagain, hcovers, -⟩ := load_again hload
  exact ⟨loaded, hload, hagain _ _ "c" rfl (read_folderOf _), hcovers⟩

end Config

end Roster
