import Roster.Config

/-!
# Loading a configuration

A file that is missing, that cannot be read as a document or whose document is no configuration is
reported as a failure of the configuration, with one exception. The section of a directory is looked
into without a test that it is a mapping. A document that asks for a directory and has something
else in the place of its section is not reported: looking for a field of it fails. An override from
the environment repairs such a document, since it puts a mapping in the place of the section.

* `applyOverrides_outcome`: what the overrides leave of a document.
* `load_reports_iff`: when loading answers or reports a failure of the configuration.
-/

namespace Roster

namespace Config

variable {config fields : Fields} {files : Files} {path : Value} {env : Environment} {p : String}
  {os : List (String × String × String)}

/-! ## Overrides -/

/-- The variable of an override is set and not empty. -/
def Sets (env : Environment) (o : String × String × String) : Prop :=
  ∃ secret, env.lookup o.2.2 = some secret ∧ secret ≠ ""

/-- One of the overrides puts a secret into a section. -/
def Overridden (env : Environment) (os : List (String × String × String)) (key : String) : Prop :=
  ∃ o ∈ os, o.1 = key ∧ Sets env o

theorem overridden_cons {o : String × String × String} {key : String} :
    Overridden env (o :: os) key ↔ (o.1 = key ∧ Sets env o) ∨ Overridden env os key := by
  simp only [Overridden, List.mem_cons, exists_eq_or_imp]

/-- An override that is set puts its secret into its section, which is a mapping then; any other
changes nothing. -/
theorem override_outcome (env : Environment) (config : Fields) (o : String × String × String) :
    ∃ config', (override env config o).outcome = .ok config' ∧
      (Sets env o ∧ (∃ secret, config' = config.set (.text o.1)
          (.mapping ((sectionOf config (.text o.1)).set (.text o.2.1) (.text secret)))) ∨
        ¬ Sets env o ∧ config' = config) := by
  obtain ⟨key, field, name⟩ := o
  unfold override
  dsimp only
  split
  · next h =>
    refine ⟨config, rfl, .inr ⟨?_, rfl⟩⟩
    rintro ⟨secret, hs, -⟩
    cases h.symm.trans hs
  · next h =>
    refine ⟨config, rfl, .inr ⟨?_, rfl⟩⟩
    rintro ⟨secret, hs, hne⟩
    exact hne (Option.some.inj (hs.symm.trans h))
  · next secret hne h => exact ⟨_, rfl, .inl ⟨⟨secret, h, hne⟩, _, rfl⟩⟩

/-- Overrides do not fail. A section that one of them puts a secret into is a mapping then, and any
other section is as it was. -/
theorem foldlM_override_outcome (env : Environment) (os : List (String × String × String))
    (config : Fields) :
    ∃ config', (os.foldlM (override env) config).outcome = .ok config' ∧ ∀ key : String,
      Overridden env os key ∧ (∃ part, config'.lookup (.text key) = some (.mapping part)) ∨
        ¬ Overridden env os key ∧ config'.lookup (.text key) = config.lookup (.text key) := by
  induction os generalizing config with
  | nil =>
    refine ⟨config, rfl, fun key => .inr ⟨?_, rfl⟩⟩
    rintro ⟨o, ho, -⟩
    cases ho
  | cons o os ih =>
    obtain ⟨config₁, hfirst, hstep⟩ := override_outcome env config o
    obtain ⟨config', hrest, hkeys⟩ := ih config₁
    refine ⟨config', ?_, fun key => ?_⟩
    · rw [List.foldlM_cons, Reply.outcome_bind, hfirst]
      exact hrest
    · rw [overridden_cons]
      rcases hkeys key with ⟨hover, hpart⟩ | ⟨hover, hsame⟩
      · exact .inl ⟨.inr hover, hpart⟩
      · rw [hsame]
        rcases hstep with ⟨hset, secret, rfl⟩ | ⟨hset, rfl⟩
        · rw [Assoc.lookup_set]
          by_cases hkey : o.1 = key
          · exact .inl ⟨.inl ⟨hkey, hset⟩, _, by rw [hkey, BEq.rfl, if_pos rfl]⟩
          · refine .inr ⟨by simp [hkey, hover], ?_⟩
            rw [if_neg]
            simpa [Scalar.beq_iff, Scalar.key] using fun h : key = o.1 => hkey h.symm
        · exact .inr ⟨by simp [hset, hover], rfl⟩

/-! ## Problems -/

/-- The document asks for a directory, and what it has in the place of the section for it is neither
a mapping nor counts as absent. -/
structure Misshapen (config : Fields) : Prop where
  asks : providerType? config = some "ldap"
  shape : ∃ v, config.lookup (.text "ldap") = some v ∧ v.truthy = true ∧ v.isMapping = false

/-- The problems of the provider section are told, unless there is something else in its place. -/
theorem providerProblems_outcome (config : Fields) :
    Misshapen config ∧ providerProblems config = .error .malformed ∨
      ¬ Misshapen config ∧ ∃ ps, providerProblems config = .ok ps := by
  unfold providerProblems
  split
  · next h =>
    refine .inr ⟨fun hm => ?_, _, rfl⟩
    cases h.symm.trans hm.asks
  · next h =>
    have hsection {v : Value} (hv : config.lookup (.text "ldap") = some v) :
        fieldOr config "ldap" .null = v := by rw [fieldOr, hv, Option.getD_some]
    split
    · next part hpart =>
      refine .inr ⟨?_, _, rfl⟩
      rintro ⟨-, v, hv, htruthy, hshape⟩
      rw [hsection hv, Value.orElse, if_pos htruthy] at hpart
      subst hpart
      cases hshape
    · next hpart =>
      refine .inl ⟨⟨h, ?_⟩, rfl⟩
      cases hv : config.lookup (.text "ldap") with
      | none =>
        rw [fieldOr, hv] at hpart
        exact absurd rfl (hpart [])
      | some v =>
        rw [hsection hv, Value.orElse] at hpart
        cases htruthy : v.truthy with
        | false => exact absurd (if_neg (by rw [htruthy]; exact Bool.false_ne_true)) (hpart [])
        | true =>
          rw [if_pos htruthy] at hpart
          refine ⟨v, rfl, htruthy, ?_⟩
          cases v with
          | mapping part => exact absurd rfl (hpart part)
          | scalar _ => rfl
          | list _ => rfl
  · next h =>
    refine .inr ⟨fun hm => ?_, _, rfl⟩
    cases h.symm.trans hm.asks
    contradiction

/-- A document with something else in the place of its directory section makes the check fail; of
any other document the problems are told. -/
theorem check_outcome (config : Fields) :
    Misshapen config ∧ check config = .error .malformed ∨
      ¬ Misshapen config ∧
        ((∃ fields, check config = .ok fields) ∨
          ∃ ps, check config = .error (.configInvalid ps)) := by
  unfold check problems
  rcases providerProblems_outcome config with ⟨hm, h⟩ | ⟨hm, ps, h⟩
  · rw [h]
    exact .inl ⟨hm, rfl⟩
  · rw [h, Except.map]
    refine .inr ⟨hm, ?_⟩
    split
    · next hf => cases hf
    · exact .inl ⟨_, rfl⟩
    · exact .inr ⟨_, rfl⟩

/-- Overrides change whether a document is misshapen only where they put a mapping in the place of
the directory section. -/
theorem applyOverrides_outcome (env : Environment) (fields : Fields) :
    ∃ config, (applyOverrides env fields).outcome = .ok config ∧
      (Misshapen config ↔ Misshapen fields ∧ ¬ Overridden env overrides "ldap") := by
  obtain ⟨config, hrun, hkeys⟩ := foldlM_override_outcome env overrides fields
  refine ⟨config, hrun, ?_⟩
  have htype : providerType? config = providerType? fields := by
    have hnot : ¬ Overridden env overrides "provider_type" := by
      rintro ⟨o, ho, hkey, -⟩
      simp only [overrides, List.mem_cons, List.not_mem_nil, or_false] at ho
      rcases ho with rfl | rfl <;> simp at hkey
    obtain ⟨-, hsame⟩ := (hkeys "provider_type").resolve_left fun h => hnot h.1
    rw [providerType?, providerType?, fieldOr, fieldOr, hsame]
  rcases hkeys "ldap" with ⟨hover, part, hpart⟩ | ⟨hover, hsame⟩
  · refine iff_of_false ?_ fun h => h.2 hover
    rintro ⟨-, v, hv, -, hshape⟩
    obtain rfl := Option.some.inj (hpart.symm.trans hv)
    cases hshape
  · rw [and_iff_left hover]
    exact ⟨fun h => ⟨htype ▸ h.asks, hsame ▸ h.shape⟩, fun h => ⟨htype ▸ h.asks, hsame ▸ h.shape⟩⟩

/-! ## Loading -/

/-- A document is taken as the mapping that it counts as. -/
theorem fileFields_of_document {v : Value} (h : files.read p = .ok (.document v))
    (hv : v.orElse (.mapping []) = .mapping fields) : fileFields files p = .ok fields := by
  unfold fileFields fileContent
  simp only [h, bind, Except.bind, hv]
  rfl

/-- A document that counts as no mapping is reported. -/
theorem fileFields_of_other {v : Value} (h : files.read p = .ok (.document v))
    (hv : (v.orElse (.mapping [])).isMapping = false) :
    fileFields files p = .error (.configNotMapping p) := by
  unfold fileFields fileContent
  simp only [h, bind, Except.bind]
  cases hw : v.orElse (.mapping []) with
  | mapping fields => rw [hw] at hv; cases hv
  | scalar _ => rfl
  | list _ => rfl

theorem fileFields_of_mapping (h : files.read p = .ok (.document (.mapping fields))) :
    fileFields files p = .ok fields :=
  fileFields_of_document h (by cases fields <;> rfl)

/-- A file that is missing or holds something else is reported, unless what it holds counts as an
empty mapping. -/
theorem fileFields_outcome (hread : ∀ fault, files.read p = .error fault → fault = .missing) :
    (∃ f, fileFields files p = .error f ∧ f.kind = .configuration) ∨
      ∃ fields, fileFields files p = .ok fields ∧
        (files.read p = .ok (.document (.mapping fields)) ∨ fields = []) := by
  cases hcontent : files.read p with
  | error fault =>
    obtain rfl := hread fault hcontent
    exact .inl ⟨_, by unfold fileFields fileContent; rw [hcontent]; rfl, rfl⟩
  | ok content =>
    cases content with
    | unreadable => exact .inl ⟨_, by unfold fileFields fileContent; rw [hcontent]; rfl, rfl⟩
    | document v =>
      cases hv : (v.orElse (.mapping [])).isMapping with
      | false => exact .inl ⟨_, fileFields_of_other hcontent hv, rfl⟩
      | true =>
        obtain ⟨fields, hfields⟩ : ∃ fields, v.orElse (.mapping []) = .mapping fields := by
          cases hw : v.orElse (.mapping []) with
          | mapping fields => exact ⟨fields, rfl⟩
          | scalar _ => rw [hw] at hv; cases hv
          | list _ => rw [hw] at hv; cases hv
        refine .inr ⟨fields, fileFields_of_document hcontent hfields, ?_⟩
        rw [Value.orElse] at hfields
        split at hfields
        · exact .inl (by rw [hfields])
        · exact .inr (Value.mapping.inj hfields).symm

/-- An empty document has nothing in the place of a section. -/
theorem not_misshapen_nil : ¬ Misshapen [] := by
  rintro ⟨-, v, hv, -⟩
  cases hv

/-- What loading ends with is what the check says of the document with the overrides put in. -/
theorem outcome_load (hpath : pathText (pathFor path env) = .ok p) :
    (load files path env).outcome =
      fileFields files p >>= fun fields => (applyOverrides env fields).outcome >>= check := by
  unfold load
  simp only [hpath, Reply.outcome_bind, Reply.outcome_ofResult]
  exact bind_congr fun fields => bind_congr fun config => bind_pure (check config)

theorem outcome_load_of_file (hpath : pathText (pathFor path env) = .ok p)
    (hfile : fileFields files p = .ok fields)
    (hover : (applyOverrides env fields).outcome = .ok config) :
    (load files path env).outcome = check config := by
  rw [outcome_load hpath, hfile]
  show (applyOverrides env fields).outcome >>= check = _
  rw [hover]
  rfl

/-- If the path of a configuration leads to no file, to one that is no document or to a document,
then loading answers with a configuration or reports a failure of the configuration, unless the
document is misshapen and no override repairs it. Then looking for a field of a value that has none
fails. -/
theorem load_reports_iff (hpath : pathText (pathFor path env) = .ok p)
    (hread : ∀ fault, files.read p = .error fault → fault = .missing) :
    (((∃ fields, (load files path env).outcome = .ok fields) ∨
      ∃ f, (load files path env).outcome = .error f ∧ f.kind = .configuration) ↔
      ¬ ∃ fields, files.read p = .ok (.document (.mapping fields)) ∧ Misshapen fields ∧
        ¬ Overridden env overrides "ldap") ∧
    ∀ fields, files.read p = .ok (.document (.mapping fields)) → Misshapen fields →
      ¬ Overridden env overrides "ldap" → (load files path env).outcome = .error .malformed := by
  have hbad {fields : Fields} (hdoc : files.read p = .ok (.document (.mapping fields)))
      (hm : Misshapen fields) (hn : ¬ Overridden env overrides "ldap") :
      (load files path env).outcome = .error .malformed := by
    obtain ⟨config, hover, hiff⟩ := applyOverrides_outcome env fields
    rw [outcome_load_of_file hpath (fileFields_of_mapping hdoc) hover]
    exact ((check_outcome config).resolve_right fun h => h.1 (hiff.2 ⟨hm, hn⟩)).2
  refine ⟨⟨?_, fun hgood => ?_⟩, fun fields hdoc hm hn => hbad hdoc hm hn⟩
  · rintro h ⟨fields, hdoc, hm, hn⟩
    rw [hbad hdoc hm hn] at h
    rcases h with ⟨_, h⟩ | ⟨f, h, hkind⟩
    · cases h
    · cases h
      cases hkind
  · rcases fileFields_outcome hread with ⟨f, hf, hkind⟩ | ⟨fields, hfile, hdoc⟩
    · exact .inr ⟨f, by rw [outcome_load hpath, hf]; rfl, hkind⟩
    · obtain ⟨config, hover, hiff⟩ := applyOverrides_outcome env fields
      rw [outcome_load_of_file hpath hfile hover]
      have hshape : ¬ Misshapen config := by
        intro hm
        obtain ⟨hm, hn⟩ := hiff.1 hm
        rcases hdoc with hdoc | rfl
        · exact hgood ⟨fields, hdoc, hm, hn⟩
        · exact not_misshapen_nil hm
      rcases ((check_outcome config).resolve_left fun h => hshape h.1).2 with h | ⟨ps, h⟩
      · exact .inl h
      · exact .inr ⟨_, h, rfl⟩

/-! ## A section that is a text -/

/-- A folder with one file, which is named `c`. -/
def folderOf (content : FileContent) : Files := { files := [(["c"], content)] }

theorem read_folderOf (content : FileContent) : (folderOf content).read "c" = .ok content := by
  have hsplit : "c".splitOn "/" = ["c"] := by
    unfold String.splitOn
    rw [if_neg (by simp), String.splitOnAux, if_neg (by decide)]
    dsimp only
    rw [if_neg (by decide), String.splitOnAux, if_pos (by decide)]
    rfl
  have hnames : FileTree.names "c" = ["c"] := by
    rw [FileTree.names, hsplit]
    rfl
  have hlocate : (folderOf content).locate "c" = .ok ["c"] := by
    rw [FileTree.locate, hnames]
    simp
    rfl
  rw [FileTree.read, hlocate]
  rfl

/-- A document with a text in the place of its directory section. -/
def unshaped : Fields := [("sync", .mapping [("provider", .text "P")]), ("ldap", .text "x")]

theorem misshapen_unshaped : Misshapen unshaped := ⟨rfl, .text "x", rfl, rfl, rfl⟩

/-- With a password from the environment the document is reported, since fields are missing. -/
theorem load_reports_unshaped :
    pathText (pathFor (.text "c") [("LDAP_BIND_PASSWORD", "secret")]) = .ok "c" ∧
    (folderOf (.document (.mapping unshaped))).read "c" = .ok (.document (.mapping unshaped)) ∧
    ((∃ fields, (load (folderOf (.document (.mapping unshaped))) (.text "c")
        [("LDAP_BIND_PASSWORD", "secret")]).outcome = .ok fields) ∨
      ∃ f, (load (folderOf (.document (.mapping unshaped))) (.text "c")
        [("LDAP_BIND_PASSWORD", "secret")]).outcome = .error f ∧ f.kind = .configuration) := by
  have hread := read_folderOf (.document (.mapping unshaped))
  refine ⟨rfl, hread, (load_reports_iff rfl fun fault h => ?_).1.2 ?_⟩
  · cases hread.symm.trans h
  · rintro ⟨_, -, -, hn⟩
    exact hn ⟨_, List.mem_cons_self, rfl, "secret", rfl, by decide⟩

/-- Without one the same document is not reported: what ends loading is no failure of the
configuration. -/
theorem load_unshaped_malformed :
    (load (folderOf (.document (.mapping unshaped))) (.text "c") []).outcome = .error .malformed ∧
    Failure.malformed.kind ≠ .configuration := by
  have hfile := fileFields_of_mapping (read_folderOf (.document (.mapping unshaped)))
  refine ⟨?_, by decide⟩
  rw [outcome_load_of_file rfl hfile rfl]
  exact ((check_outcome unshaped).resolve_right fun h => h.1 misshapen_unshaped).2

end Config

end Roster
