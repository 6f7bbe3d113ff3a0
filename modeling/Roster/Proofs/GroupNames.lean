import Roster.Directory
import Roster.Proofs.Lookups
import Roster.Proofs.Snapshot
import Roster.Proofs.Spelling

/-!
# Names of groups in a directory

There are two ways from a reference to the name of a group: to search for the entry and read its
attribute, or to read the distinguished name in the reference. A directory whose entries bear their
distinguished names rightly gives the same name on both ways, if the spelling of the value in the
distinguished name has no backslash; if it has one, the second way gives the spelling instead of
what it stands for (`principalName_eq_iff`).

* `FindsGroup`: a connected directory finds a group with one name under a distinguished name.
* `resolve_eq_ok`: searching for the entry gives this name.
* `nameOf_eq_ok_iff`: what is read off a distinguished name.
-/

namespace Roster

/-- Attributes are named by texts. -/
structure Settings.Typed (s : Settings) : Prop where
  userKey : s.userKey.IsText
  groupKey : s.groupKey.IsText
  memberOfKey : s.memberOfKey.IsText
  attributes : ∃ keys : List String, s.attributes = .texts keys

/-- Where attributes are named by texts a search knows what to ask for. -/
theorem Settings.Typed.requested {s : Settings} (h : s.Typed) : ∃ keys, s.requested = .ok keys := by
  obtain ⟨user, huser⟩ := h.userKey
  obtain ⟨group, hgroup⟩ := h.groupKey
  obtain ⟨memberOf, hmember⟩ := h.memberOfKey
  obtain ⟨keys, hkeys⟩ := h.attributes
  have hall : [.text "objectClass", s.userKey, s.groupKey, s.memberOfKey] ++ keys.map Value.text
      = ((["objectClass", user, group, memberOf] ++ keys).map Scalar.text).map Value.scalar := by
    simp [huser, hgroup, hmember]
  unfold Settings.requested Settings.propertyKeys
  rw [hkeys]
  exact ⟨_, bind_eq_ok.2 ⟨keys.map Value.text, rfl,
    bind_eq_ok.2 ⟨_, by rw [hall]; exact Value.mapM_toScalar _, rfl⟩⟩⟩

theorem attributeValues_text (attributes : Fields) (key : String) :
    ∃ vs, attributeValues attributes (.text key) = .ok vs := by
  unfold attributeValues
  split
  · exact ⟨_, rfl⟩
  · split <;> exact ⟨_, rfl⟩
  · next hno => exact absurd rfl (hno key)

namespace Directory

variable {d : Directory} {dn : String} {v : Value} {name : Value} {attributes properties : Fields}
  {w : World} {i : Identity}

/-- References into a directory with a name are typed. -/
theorem typed_ref (hname : d.name.IsText) (dn : String) : (d.ref (.text dn)).Typed :=
  ⟨⟨dn, rfl⟩, .inr hname⟩

/-! ## The entry -/

theorem addProperties (attributes : Fields) (keys : List String) (properties : Fields) :
    ∃ fs, (keys.map Value.text).foldlM (addProperty attributes) properties = .ok fs := by
  induction keys generalizing properties with
  | nil => exact ⟨_, rfl⟩
  | cons key keys ih =>
    obtain ⟨vs, hvs⟩ := attributeValues_text attributes key
    obtain ⟨fs, hfs⟩ : ∃ fs, addProperty attributes properties (.text key) = .ok fs := by
      unfold addProperty
      rw [hvs]
      rcases vs with _ | ⟨v, _ | ⟨v', vs⟩⟩ <;> exact ⟨_, rfl⟩
    obtain ⟨fs', hfs'⟩ := ih fs
    exact ⟨fs', by rw [List.map_cons, List.foldlM_cons]; exact bind_eq_ok.2 ⟨fs, hfs, hfs'⟩⟩

/-- An entry with an identifier describes an identity that is called by it. -/
theorem identityOf_eq_ok (h : d.settings.Typed) (name : Value) (attributes : Fields)
    (isGroup : Bool) (id : Value) : ∃ (properties : Fields) (groups : List Value),
      d.identityOf name attributes isGroup id = .ok {
        id := .text id.display
        principalName := .text id.display
        ref := some (d.ref name)
        kind := if isGroup then .group else .user
        groups := groups.map fun g => some (d.ref (.text g.display))
        properties := .mapping properties } := by
  obtain ⟨keys, hkeys⟩ := h.attributes
  obtain ⟨key, hkey⟩ := h.memberOfKey
  obtain ⟨properties, hproperties⟩ := addProperties attributes keys []
  obtain ⟨groups, hgroups⟩ := attributeValues_text attributes key
  unfold identityOf Settings.propertyKeys
  rw [hkeys, hkey]
  exact ⟨properties, groups, bind_eq_ok.2 ⟨keys.map Value.text, rfl,
    bind_eq_ok.2 ⟨properties, hproperties, bind_eq_ok.2 ⟨groups, hgroups, rfl⟩⟩⟩⟩

/-- A connected directory finds an entry under the distinguished name, of a group with one name. -/
structure FindsGroup (d : Directory) (dn : String) (v : Value) : Prop where
  linked : d.link.isSome = true
  name : d.name.IsText
  settings : d.settings.Typed
  reachable : d.content.faults.lookup dn = none
  found : ∃ e attributes, (d.content.named (.text dn)).find? (·.isOwn) = some e ∧
    e.attributes = some (.mapping attributes) ∧ d.isGroup attributes = .ok true ∧
    attributeValues attributes d.settings.groupKey = .ok [v]

theorem FindsGroup.typed (h : d.FindsGroup dn v) : (d.ref (.text dn)).Typed := typed_ref h.name dn

/-- A search for the entry finds it first. -/
theorem FindsGroup.search (h : d.FindsGroup dn v) :
    ∃ e more attributes, (d.search (.text dn) "(objectClass=*)" .base).outcome = .ok (e :: more) ∧
      e.attributes = some (.mapping attributes) ∧ d.isGroup attributes = .ok true ∧
      attributeValues attributes d.settings.groupKey = .ok [v] := by
  obtain ⟨e, attributes, he, hattributes⟩ := h.found
  obtain ⟨link, hlink⟩ := Option.isSome_iff_exists.1 h.linked
  obtain ⟨keys, hkeys⟩ := h.settings.requested
  have hsearch : d.content.search (.text dn) "(objectClass=*)" .base
      = .ok (d.content.named (.text dn)) := by
    unfold Content.search
    simp only [Value.text?, Option.bind_some, h.reachable]
    split
    · next hnone =>
      rw [hnone] at he
      cases he
    · rfl
  obtain ⟨more, hmore⟩ : ∃ more, (d.content.named (.text dn)).filter (·.isOwn) = e :: more := by
    rw [← List.head?_eq_some_iff, List.head?_filter]
    exact he
  refine ⟨e, more, attributes, ?_, hattributes⟩
  unfold Directory.search requireLink
  rw [hlink, hsearch]
  simp only [Reply.outcome_bind, Reply.outcome_ofResult, hkeys]
  exact congrArg Except.ok hmore

/-- Searching for the entry gives its name. -/
theorem FindsGroup.resolve_eq_ok (h : d.FindsGroup dn v) :
    ∃ i, (d.resolve (d.ref (.text dn))).outcome = .ok (some i) ∧ i.isGroup = true ∧
      i.principalName = .text v.display := by
  obtain ⟨e, more, attributes, hsearch, hattributes, hgroup, hvalue⟩ := h.search
  obtain ⟨i, hi, hkind, hname⟩ : ∃ i, d.identityOf e.name attributes true v = .ok i ∧
      i.isGroup = true ∧ i.principalName = .text v.display := by
    obtain ⟨properties, groups, hi⟩ := identityOf_eq_ok h.settings e.name attributes true v
    exact ⟨_, hi, rfl, rfl⟩
  obtain ⟨t, ht⟩ := h.name
  have hown : ((d.ref (.text dn)).provider != d.name) = false := by simp [ref, bne, ht]
  refine ⟨i, ?_, hkind, hname⟩
  unfold resolve
  rw [hown]
  simp only [Bool.false_eq_true, if_false, Reply.outcome_bind]
  refine bind_eq_ok.2 ⟨e :: more, hsearch, ?_⟩
  show (d.identity e).outcome = _
  unfold identity
  simp only [hattributes, Value.mapping?, Reply.outcome_bind, Reply.outcome_ofResult]
  refine bind_eq_ok.2 ⟨true, hgroup, bind_eq_ok.2 ⟨[v], hvalue, ?_⟩⟩
  simp only [Reply.outcome_bind, Reply.outcome_ofResult]
  exact bind_eq_ok.2 ⟨_, hi, rfl⟩

/-! ## The distinguished name -/

/-- The component is of the attribute that groups are named by. -/
def NamedBy (d : Directory) (c : Component) : Prop :=
  ∃ key, d.settings.groupKey = .text key ∧ lowercase c.key = lowercase key

theorem nameOf_of_parse {key : String} {c : Component} {cs : List Component}
    (hkey : d.settings.groupKey = .text key) (hparse : DistinguishedName.parse dn = .ok (c :: cs)) :
    (d.nameOf (d.ref (.text dn))).outcome
      = .ok (if lowercase c.key = lowercase key then some (.text c.value) else none) := by
  have hcomponents : components (.text dn) = .ok (c :: cs) := by rw [components, hparse]
  unfold nameOf
  simp only [ref, hcomponents, hkey, Reply.outcome_bind, Reply.outcome_ofResult]
  show (Reply.outcome _) = _
  by_cases hc : lowercase c.key = lowercase key
  · simp [hc]
  · simp only [hc, beq_iff_eq, if_false]
    rfl

/-- A name that can be read has a first component. -/
theorem parse_of_components {cs : List Component} (h : components (.text dn) = .ok cs) :
    ∃ c cs', DistinguishedName.parse dn = .ok (c :: cs') := by
  unfold components at h
  cases hparse : DistinguishedName.parse dn with
  | error fault => simp [hparse] at h
  | ok cs =>
    cases cs with
    | nil => simp [hparse] at h
    | cons c cs' => exact ⟨c, cs', rfl⟩

/-- A name is read off a distinguished name as the value of its first component is spelled, and not
off a component of another attribute. -/
theorem nameOf_eq_ok_iff (h : d.settings.groupKey.IsText) (a : Option Value) :
    (d.nameOf (d.ref (.text dn))).outcome = .ok a ↔
      ∃ c cs, DistinguishedName.parse dn = .ok (c :: cs) ∧
        (d.NamedBy c ∧ a = some (.text c.value) ∨ ¬ d.NamedBy c ∧ a = none) := by
  obtain ⟨key, hkey⟩ := h
  have hnamed (c : Component) : d.NamedBy c ↔ lowercase c.key = lowercase key := by
    simp [NamedBy, hkey]
  constructor
  · intro ha
    obtain ⟨c, cs, hparse⟩ : ∃ c cs, DistinguishedName.parse dn = .ok (c :: cs) := by
      unfold nameOf at ha
      simp only [Reply.outcome_bind, Reply.outcome_ofResult] at ha
      obtain ⟨_, hcs, -⟩ := bind_eq_ok.1 ha
      exact parse_of_components hcs
    obtain rfl := Except.ok.inj ((nameOf_of_parse hkey hparse).symm.trans ha)
    refine ⟨c, cs, hparse, ?_⟩
    by_cases hc : lowercase c.key = lowercase key
    · exact .inl ⟨(hnamed c).2 hc, if_pos hc⟩
    · exact .inr ⟨fun hn => hc ((hnamed c).1 hn), if_neg hc⟩
  · rintro ⟨c, cs, hparse, ⟨hc, rfl⟩ | ⟨hc, rfl⟩⟩
    · rw [nameOf_of_parse hkey hparse, if_pos ((hnamed c).1 hc)]
    · rw [nameOf_of_parse hkey hparse, if_neg fun he => hc ((hnamed c).2 he)]

/-! ## Both ways -/

/-- If the first component of the distinguished name is of the attribute that groups are named by,
its value is a spelling of the name of the group. -/
def Spelled (d : Directory) (dn : String) (v : Value) : Prop :=
  ∀ c cs, DistinguishedName.parse dn = .ok (c :: cs) → d.NamedBy c →
    ∃ t, v = .text t ∧ Denotes c.value t

/-- The name of the group as the directory tells it by its reference: as it is spelled, or as the
entry has it where the distinguished name does not tell it. -/
theorem FindsGroup.names_iff (h : d.FindsGroup dn v) (hspelled : d.Spelled dn v) :
    d.provider.Names (d.ref (.text dn)) (.text v.display) ↔ d.settings.direct = true ∧
      ∃ c cs, DistinguishedName.parse dn = .ok (c :: cs) ∧
        (d.NamedBy c → '\\' ∉ c.value.toList) := by
  obtain ⟨i, hi, hgroup, hname⟩ := h.resolve_eq_ok
  unfold Provider.Names
  refine and_congr_right fun _ => ?_
  show (d.nameOf (d.ref (.text dn))).outcome = _ ∨ (d.nameOf (d.ref (.text dn))).outcome = _ ∧
    (∃ i, (d.resolve (d.ref (.text dn))).outcome = _ ∧ _) ↔ _
  constructor
  · rintro (htold | ⟨htold, -⟩)
    · obtain ⟨c, cs, hparse, ⟨hc, he⟩ | ⟨-, he⟩⟩ :=
        (nameOf_eq_ok_iff h.settings.groupKey _).1 htold
      · obtain ⟨t, rfl, ht⟩ := hspelled c cs hparse hc
        refine ⟨c, cs, hparse, fun _ => ht.eq_iff.1 ?_⟩
        simpa using he.symm
      · cases he
    · obtain ⟨c, cs, hparse, ⟨-, he⟩ | ⟨hc, -⟩⟩ :=
        (nameOf_eq_ok_iff h.settings.groupKey _).1 htold
      · cases he
      · exact ⟨c, cs, hparse, fun hn => absurd hn hc⟩
  · rintro ⟨c, cs, hparse, hplain⟩
    by_cases hc : d.NamedBy c
    · obtain ⟨t, rfl, ht⟩ := hspelled c cs hparse hc
      refine .inl ((nameOf_eq_ok_iff h.settings.groupKey _).2 ⟨c, cs, hparse, .inl ⟨hc, ?_⟩⟩)
      rw [ht.eq_iff.2 (hplain hc), Value.display_text]
    · refine .inr ⟨(nameOf_eq_ok_iff h.settings.groupKey _).2 ⟨c, cs, hparse, .inr ⟨hc, rfl⟩⟩, ?_⟩
      exact ⟨i, hi, hgroup, hname⟩

/-- The name that is read off a reference is the one that searching for the group gives exactly if
names are read off references at all, the distinguished name can be read, and the value of its first
component, where this is of the attribute that groups are named by, is spelled without a
backslash. -/
theorem principalName_eq_iff (h : d.FindsGroup dn v) (hspelled : d.Spelled dn v)
    (hw : ¬ w.scene.FailsLookups) :
    ∃ i, (d.provider.fetch (d.ref (.text dn)) w).1 = .ok (some i) ∧ i.isGroup = true ∧
      ((d.provider.principalName (d.ref (.text dn)) w).1 = .ok i.principalName ↔
        d.settings.direct = true ∧ ∃ c cs, DistinguishedName.parse dn = .ok (c :: cs) ∧
          (d.NamedBy c → '\\' ∉ c.value.toList)) := by
  obtain ⟨i, hi, hgroup, hname⟩ := h.resolve_eq_ok
  refine ⟨i, (Provider.fetch_outcome h.typed hw).trans hi, hgroup, ?_⟩
  rw [Provider.principalName_eq_ok_iff h.typed hw, hname, h.names_iff hspelled]

/-- The entry of a group with a common name. -/
def groupEntry (dn name : String) : Entry where
  name := .text dn
  attributes := some (.mapping [(.text "objectClass", .text "group"), (.text "cn", .text name)])

/-- A directory with one group, which is named by its common name. -/
def oneGroup (dn name : String) : Directory where
  name := .text "corp"
  link := some {}
  content := { entries := [groupEntry dn name] }
  settings := {
    url := "ldap://corp", bindName := .text "cn=reader", bindPassword := .text "", userBase := .null
    groupBase := .null, userFilter := .null, groupFilter := .null, userKey := .text "uid"
    groupKey := .text "cn", memberOfKey := .text "memberOf", attributes := .texts []
    groupClasses := ["group"], direct := true, useSsl := .null, startTls := .null
    verifySsl := .null, authorityFile := .null, certificateFile := .null, keyFile := .null
    keystoreFile := .null, keystorePassword := .null, connectTimeout := .null
    receiveTimeout := .null, pageSize := .null }

theorem findsGroup_oneGroup (dn name : String) :
    (oneGroup dn name).FindsGroup dn (.text name) where
  linked := rfl
  name := ⟨_, rfl⟩
  settings := ⟨⟨_, rfl⟩, ⟨_, rfl⟩, ⟨_, rfl⟩, [], rfl⟩
  reachable := rfl
  found := by
    refine ⟨groupEntry dn name, _, ?_, rfl, rfl, rfl⟩
    simp [oneGroup, groupEntry, Content.named, Entry.isOwn]

/-- The name of a group is told rightly if its first component spells it. -/
theorem spelled_oneGroup {dn value name : String} {cs : List Component}
    (hparse : DistinguishedName.parse dn = .ok (⟨"cn", value⟩ :: cs)) (h : Denotes value name) :
    (oneGroup dn name).Spelled dn (.text name) := by
  rintro c cs' hparse' -
  obtain ⟨rfl, -⟩ := List.cons.inj (Except.ok.inj (hparse.symm.trans hparse'))
  exact ⟨name, rfl, h⟩

/-- The distinguished name of a group whose name has letters only. -/
def devs : String := "cn=devs,dc=corp"

/-- The distinguished name of a group whose name has a comma, which is escaped. -/
def smith : String := "cn=Smith\\, John,dc=corp"

theorem parse_devs :
    DistinguishedName.parse devs = .ok [⟨"cn", "devs"⟩, ⟨"dc", "corp"⟩] := by
  decide +kernel

theorem parse_smith :
    DistinguishedName.parse smith = .ok [⟨"cn", "Smith\\, John"⟩, ⟨"dc", "corp"⟩] := by
  decide +kernel

/-- A name of letters only is read off rightly. -/
theorem principalName_eq_iff_devs :
    (oneGroup devs "devs").FindsGroup devs (.text "devs") ∧
    (oneGroup devs "devs").Spelled devs (.text "devs") ∧
    ∃ i, ((oneGroup devs "devs").provider.fetch ⟨.text devs, .text "corp"⟩ {}).1 = .ok (some i) ∧
      i.isGroup = true ∧
      ((oneGroup devs "devs").provider.principalName ⟨.text devs, .text "corp"⟩ {}).1
        = .ok i.principalName := by
  have hplain : '\\' ∉ "devs".toList := by decide
  have hspelled : (oneGroup devs "devs").Spelled devs (.text "devs") :=
    spelled_oneGroup parse_devs (Spells.of_not_mem hplain)
  obtain ⟨i, hi, hgroup, hname⟩ := principalName_eq_iff (w := {})
    (findsGroup_oneGroup devs "devs") hspelled (Scene.not_failsLookups rfl)
  exact ⟨findsGroup_oneGroup _ _, hspelled, i, hi, hgroup,
    hname.2 ⟨rfl, _, _, parse_devs, fun _ => hplain⟩⟩

/-- A name with a comma is read off with the backslash that escapes it. -/
theorem principalName_ne_smith :
    (oneGroup smith "Smith, John").FindsGroup smith (.text "Smith, John") ∧
    (oneGroup smith "Smith, John").Spelled smith (.text "Smith, John") ∧
    ∃ i, ((oneGroup smith "Smith, John").provider.fetch ⟨.text smith, .text "corp"⟩ {}).1
        = .ok (some i) ∧
      i.isGroup = true ∧ i.principalName = .text "Smith, John" ∧
      ((oneGroup smith "Smith, John").provider.principalName ⟨.text smith, .text "corp"⟩ {}).1
        = .ok (.text "Smith\\, John") := by
  have hfinds := findsGroup_oneGroup smith "Smith, John"
  have hw : ¬ (World.scene {}).FailsLookups := Scene.not_failsLookups rfl
  obtain ⟨i, hi, hgroup, hname⟩ := hfinds.resolve_eq_ok
  refine ⟨hfinds, spelled_oneGroup parse_smith denotes_smith, i,
    (Provider.fetch_outcome hfinds.typed hw).trans hi, hgroup, hname, ?_⟩
  refine (Provider.principalName_eq_ok_iff hfinds.typed hw).2 ⟨rfl, .inl ?_⟩
  exact (nameOf_of_parse rfl parse_smith).trans rfl

end Directory

end Roster
