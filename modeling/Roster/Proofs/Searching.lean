import Roster.Proofs.GroupNames

/-!
# What a lookup searches for

A user is looked up by an id and a group by a name, and either may be any text. It becomes part of a
filter, where parentheses, stars, zero characters and backslashes would mean something else, so
escapes stand in their place. The text can be read back from what is searched for, and nothing in it
reaches beyond its place in the filter.

* `escapeFilterChars_eq_foldl`: the escapes are those that come of replacing one character after the
  other, the backslash first.
* `spelledIn_escapeFilter`: what comes of it is inert, and stands for the text.
* `Directory.lookups_spelled`: what is searched for, and that different texts are told apart.
-/

namespace Roster

/-! ## Escapes -/

/-- The characters that mean something in a filter, in the order in which they are replaced, each
with the escape in its place. -/
def filterEscapes : List (Char × List Char) :=
  [('\\', ['\\', '5', 'c']), ('*', ['\\', '2', 'a']), ('(', ['\\', '2', '8']),
    (')', ['\\', '2', '9']), ('\x00', ['\\', '0', '0'])]

/-- The text with every occurrence of a character replaced. -/
def replaceAll (s : List Char) (p : Char × List Char) : List Char :=
  s.flatMap fun c => if c = p.1 then p.2 else [c]

/-- The text with its escapes undone. -/
def unescapeFilter : List Char → List Char
  | '\\' :: '5' :: 'c' :: cs => '\\' :: unescapeFilter cs
  | '\\' :: '2' :: 'a' :: cs => '*' :: unescapeFilter cs
  | '\\' :: '2' :: '8' :: cs => '(' :: unescapeFilter cs
  | '\\' :: '2' :: '9' :: cs => ')' :: unescapeFilter cs
  | '\\' :: '0' :: '0' :: cs => '\x00' :: unescapeFilter cs
  | c :: cs => c :: unescapeFilter cs
  | [] => []

/-- The text `e` spells `x` inside a filter. -/
structure SpelledIn (x e : List Char) : Prop where
  /-- Nothing in it opens, closes or ends a filter, and nothing matches any text. -/
  inert : ∀ c ∈ e, c ≠ '(' ∧ c ≠ ')' ∧ c ≠ '*' ∧ c ≠ '\x00'
  /-- Every backslash begins an escape. -/
  escaped : ∀ cs, '\\' :: cs <:+ e → ∃ p ∈ filterEscapes, p.2 <+: '\\' :: cs
  read : unescapeFilter e = x

variable {c : Char} {x e : List Char} {p : Char × List Char}

/-- Replacing one character after the other works character by character. -/
theorem foldl_replaceAll (ps : List (Char × List Char)) (s : List Char) :
    ps.foldl replaceAll s = s.flatMap fun c => ps.foldl replaceAll [c] := by
  induction ps generalizing s with
  | nil => simp
  | cons p ps ih =>
    have hstep (c : Char) : ps.foldl replaceAll (replaceAll [c] p)
        = (if c = p.1 then p.2 else [c]).flatMap fun d => ps.foldl replaceAll [d] := by
      rw [ih]
      simp only [replaceAll, List.flatMap_cons, List.flatMap_nil, List.append_nil]
    simp only [List.foldl_cons, hstep]
    rw [ih, replaceAll, List.flatMap_assoc]

/-- A character that none of the replacements is about stays. -/
theorem foldl_replaceAll_of_forall_ne {ps : List (Char × List Char)} (h : ∀ p ∈ ps, c ≠ p.1) :
    ps.foldl replaceAll [c] = [c] := by
  induction ps with
  | nil => rfl
  | cons p ps ih =>
    have hstep : replaceAll [c] p = [c] := by simp [replaceAll, h p List.mem_cons_self]
    rw [List.foldl_cons, hstep, ih fun q hq => h q (List.mem_cons_of_mem _ hq)]

/-- A character stands for itself, or an escape for it. -/
theorem escapeFilterChar_cases (c : Char) :
    (∃ code, (c, code) ∈ filterEscapes ∧ escapeFilterChar c = code) ∨
      (∀ p ∈ filterEscapes, c ≠ p.1) ∧ escapeFilterChar c = [c] := by
  unfold escapeFilterChar
  split
  · exact .inl ⟨_, by simp [filterEscapes], rfl⟩
  · exact .inl ⟨_, by simp [filterEscapes], rfl⟩
  · exact .inl ⟨_, by simp [filterEscapes], rfl⟩
  · exact .inl ⟨_, by simp [filterEscapes], rfl⟩
  · exact .inl ⟨_, by simp [filterEscapes], rfl⟩
  · next h₁ h₂ h₃ h₄ h₅ =>
    refine .inr ⟨?_, rfl⟩
    simp only [filterEscapes, List.forall_mem_cons]
    exact ⟨h₁, h₂, h₃, h₄, h₅, nofun⟩

theorem foldl_replaceAll_of_escape (h : p ∈ filterEscapes) :
    filterEscapes.foldl replaceAll [p.1] = p.2 := by
  revert p
  decide

/-- The escapes are those that come of replacing one character after the other. -/
theorem escapeFilterChars_eq_foldl (s : List Char) :
    escapeFilterChars s = filterEscapes.foldl replaceAll s := by
  rw [foldl_replaceAll, escapeFilterChars]
  congr 1
  funext c
  rcases escapeFilterChar_cases c with ⟨code, hcode, he⟩ | ⟨hne, he⟩
  · rw [he, foldl_replaceAll_of_escape hcode]
  · rw [he, foldl_replaceAll_of_forall_ne hne]

theorem unescapeFilter_escape (h : p ∈ filterEscapes) (cs : List Char) :
    unescapeFilter (p.2 ++ cs) = p.1 :: unescapeFilter cs := by
  simp only [filterEscapes, List.mem_cons, List.not_mem_nil, or_false] at h
  rcases h with rfl | rfl | rfl | rfl | rfl <;> rfl

theorem unescapeFilter_cons (h : c ≠ '\\') (cs : List Char) :
    unescapeFilter (c :: cs) = c :: unescapeFilter cs := by
  rw [unescapeFilter]
  all_goals exact fun _ he => absurd he h

namespace SpelledIn

theorem nil : SpelledIn [] [] where
  inert := nofun
  escaped _ h := absurd (List.suffix_nil.1 h) (List.cons_ne_nil _ _)
  read := rfl

/-- An escape stands for its character. -/
theorem escape (h : SpelledIn x e) (hp : p ∈ filterEscapes) : SpelledIn (p.1 :: x) (p.2 ++ e) where
  inert c hc := by
    have hcode : ∀ p ∈ filterEscapes, ∀ c ∈ p.2, c ≠ '(' ∧ c ≠ ')' ∧ c ≠ '*' ∧ c ≠ '\x00' := by
      simp [filterEscapes]
    rcases List.mem_append.1 hc with hc | hc
    · exact hcode p hp c hc
    · exact h.inert c hc
  escaped cs hcs := by
    -- an escape has its backslash at the front and nowhere else
    have hcode : ∀ p ∈ filterEscapes, ∃ a b, p.2 = ['\\', a, b] ∧ '\\' ≠ a ∧ '\\' ≠ b := by
      simp [filterEscapes]
    obtain ⟨a, b, hab, ha, hb⟩ := hcode p hp
    simp only [hab, List.cons_append, List.nil_append, List.suffix_cons_iff, List.cons.injEq, ha,
      hb, false_and, false_or, true_and] at hcs
    rcases hcs with rfl | hcs
    · exact ⟨p, hp, e, by rw [hab]; rfl⟩
    · exact h.escaped cs hcs
  read := by rw [unescapeFilter_escape hp, h.read]

/-- A character that needs no escape stands for itself. -/
theorem plain (h : SpelledIn x e) (hc : ∀ p ∈ filterEscapes, c ≠ p.1) :
    SpelledIn (c :: x) (c :: e) := by
  simp only [filterEscapes, List.forall_mem_cons, List.not_mem_nil, false_implies, implies_true,
    and_true] at hc
  obtain ⟨hbackslash, hstar, hopen, hclose, hzero⟩ := hc
  refine ⟨?_, ?_, ?_⟩
  · simp only [List.forall_mem_cons]
    exact ⟨⟨hopen, hclose, hstar, hzero⟩, h.inert⟩
  · intro cs hcs
    rcases List.suffix_cons_iff.1 hcs with he | hcs
    · exact absurd (List.cons.inj he).1.symm hbackslash
    · exact h.escaped cs hcs
  · rw [unescapeFilter_cons hbackslash, h.read]

end SpelledIn

/-- What becomes of a text is inert, and stands for the text. -/
theorem spelledIn_escapeFilter (x : String) : SpelledIn x.toList (escapeFilter x).toList := by
  rw [escapeFilter, String.toList_ofList]
  induction x.toList with
  | nil => exact .nil
  | cons c cs ih =>
    have hcons : escapeFilterChars (c :: cs) = escapeFilterChar c ++ escapeFilterChars cs := rfl
    rw [hcons]
    rcases escapeFilterChar_cases c with ⟨code, hcode, he⟩ | ⟨hne, he⟩
    · rw [he]
      exact ih.escape hcode
    · rw [he]
      exact ih.plain hne

/-- Different texts become different ones. -/
theorem escapeFilter_injective : Function.Injective escapeFilter := by
  intro x y h
  refine String.toList_inj.1 ?_
  rw [← (spelledIn_escapeFilter x).read, h, (spelledIn_escapeFilter y).read]

/-! ## Lookups -/

/-- The text of a filter for the entries of a kind that have the value of the attribute `key`. -/
def filterText (kind key : Value) (value : String) : String :=
  "(&" ++ kind.display ++ "(" ++ key.display ++ "=" ++ value ++ "))"

theorem filterText_injective (kind key : Value) : Function.Injective (filterText kind key) := by
  intro x y h
  refine String.toList_inj.1 ?_
  have hlist := congrArg String.toList h
  simpa [filterText] using hlist

namespace Reply

variable {α β : Type} {r : Reply α} {f : α → Reply β} {a : α}

theorem calls_bind_ok (h : r.outcome = .ok a) :
    (r >>= f).journal.calls = r.journal.calls ++ (f a).journal.calls := by
  obtain ⟨outcome, journal⟩ := r
  obtain rfl := h
  rfl

/-- What makes no calls adds none. -/
theorem calls_bind_silent (h : ∀ a, (f a).journal.calls = []) :
    (r >>= f).journal.calls = r.journal.calls := by
  obtain ⟨outcome, journal⟩ := r
  cases outcome with
  | error e => rfl
  | ok a => exact (calls_bind_ok rfl).trans (by rw [h a, List.append_nil])

theorem calls_ofResult (x : Except Failure α) : (ofResult x).journal.calls = [] := by
  rw [journal_ofResult]

end Reply

namespace Directory

open Reply (calls_bind_ok calls_bind_silent calls_ofResult)

variable {d : Directory} {keys : List Value}

/-- What an entry describes is read without a call. -/
theorem calls_identity (d : Directory) (e : Entry) : (d.identity e).journal.calls = [] := by
  unfold identity
  split
  · next value _ =>
    split
    · next attributes _ =>
      rw [calls_bind_silent, calls_ofResult]
      intro isGroup
      rw [calls_bind_silent, calls_ofResult]
      intro ids
      dsimp only
      split
      · rfl
      · rw [calls_bind_silent, calls_ofResult]
        exact fun _ => rfl
    · rfl
  · rfl

/-- A connected directory is searched once. -/
theorem calls_search (hlink : d.link.isSome = true) (hkeys : d.settings.requested = .ok keys)
    (base : Value) (filter : String) (scope : Scope) :
    (d.search base filter scope).journal.calls = [.search base filter scope keys] := by
  obtain ⟨link, hlink⟩ := Option.isSome_iff_exists.1 hlink
  have hrequire : d.requireLink = .ok () := by rw [requireLink, hlink]
  unfold Directory.search
  rw [hrequire, hkeys]
  refine (calls_bind_ok (a := ()) rfl).trans ((calls_bind_ok (a := ()) rfl).trans ?_)
  refine (calls_bind_ok (a := keys) rfl).trans ((calls_bind_silent fun _ => ?_).trans rfl)
  rw [calls_bind_silent, calls_ofResult]
  intro _
  split
  · rfl
  · rfl
  · split <;> rfl

theorem calls_findOne (hlink : d.link.isSome = true) (hkeys : d.settings.requested = .ok keys)
    (base : Value) (filter : String) :
    (d.findOne base filter).journal.calls = [.search base filter .subtree keys] := by
  unfold findOne
  rw [calls_bind_silent, calls_search hlink hkeys]
  intro entries
  split
  · rfl
  · exact d.calls_identity _
  · rw [calls_bind_silent]
    · rfl
    · exact fun _ => d.calls_identity _

/-- What is searched for when a user or a group is looked up is a filter with a spelling of the text
in the place of the value. The spelling is inert, comes of replacing one character after the other
and can be read back, so that different texts are told apart. -/
theorem lookups_spelled (hlink : d.link.isSome = true) (hkeys : d.settings.requested = .ok keys) :
    (∀ x : String, ∃ e : String, SpelledIn x.toList e.toList ∧
      e.toList = filterEscapes.foldl replaceAll x.toList ∧
      (d.user (.text x)).journal.calls = [.search d.settings.userBase
        (filterText d.settings.userFilter d.settings.userKey e) .subtree keys] ∧
      (d.group (.text x)).journal.calls = [.search d.settings.groupBase
        (filterText d.settings.groupFilter d.settings.groupKey e) .subtree keys]) ∧
    Function.Injective (fun x : String => (d.user (.text x)).journal.calls) ∧
    Function.Injective fun x : String => (d.group (.text x)).journal.calls := by
  have huser (x : String) : (d.user (.text x)).journal.calls = [.search d.settings.userBase
      (filterText d.settings.userFilter d.settings.userKey (escapeFilter x)) .subtree keys] :=
    (calls_bind_ok rfl).trans (calls_findOne hlink hkeys _ _)
  have hgroup (x : String) : (d.group (.text x)).journal.calls = [.search d.settings.groupBase
      (filterText d.settings.groupFilter d.settings.groupKey (escapeFilter x)) .subtree keys] :=
    (calls_bind_ok rfl).trans (calls_findOne hlink hkeys _ _)
  refine ⟨fun x => ⟨escapeFilter x, spelledIn_escapeFilter x, ?_, huser x, hgroup x⟩, ?_, ?_⟩
  · rw [escapeFilter, String.toList_ofList, escapeFilterChars_eq_foldl]
  · intro x y h
    simp only [huser, List.cons.injEq, Call.search.injEq, true_and, and_true] at h
    exact escapeFilter_injective (filterText_injective _ _ h)
  · intro x y h
    simp only [hgroup, List.cons.injEq, Call.search.injEq, true_and, and_true] at h
    exact escapeFilter_injective (filterText_injective _ _ h)

/-- A directory whose users are persons. -/
def persons : Directory where
  name := .text "corp"
  link := some {}
  content := {}
  settings := { (oneGroup devs "devs").settings with
    userBase := .text "dc=corp"
    userFilter := .text "(objectClass=person)" }

/-- An id that would close the filter and match every user is searched for as it is. -/
theorem lookups_spelled_persons :
    persons.link.isSome = true ∧
    persons.settings.requested = .ok (["objectClass", "uid", "cn", "memberOf"].map Value.text) ∧
    ∃ e : String, SpelledIn "*)(uid=*".toList e.toList ∧ e = "\\2a\\29\\28uid=\\2a" ∧
      (persons.user (.text "*)(uid=*")).journal.calls = [.search (.text "dc=corp")
        "(&(objectClass=person)(uid=\\2a\\29\\28uid=\\2a))" .subtree
        (["objectClass", "uid", "cn", "memberOf"].map Value.text)] := by
  have hkeys : persons.settings.requested
      = .ok (["objectClass", "uid", "cn", "memberOf"].map Value.text) := rfl
  obtain ⟨e, hspelled, hfold, huser, -⟩ := (lookups_spelled rfl hkeys).1 "*)(uid=*"
  obtain rfl : e = "\\2a\\29\\28uid=\\2a" := String.toList_inj.1 hfold
  exact ⟨rfl, hkeys, _, hspelled, rfl, huser⟩

end Directory

end Roster
