import Roster.Redaction

/-!
# The two patterns of redaction

What redaction looks for, told without a reader: a keyword is the name of a credential in any case,
an assignment is a keyword, an equals sign with blanks around it and a value, and a quoted field is
a keyword between quotes, a colon and a value between quotes. The readers find exactly these.

* `takeKeyword_eq_some_iff`: no keyword begins another one, so that there is one keyword at most at
  the start of a text.
* `assignment?_eq_some_iff`, `quotedField?_eq_some_iff`: what is read at the start of a text.
-/

namespace Roster

namespace Redaction

variable {c sep : Char} {ks cs m r u v key key' kept kept' value value' rest rest' : List Char}

/-- A property of the characters of a text is decided for these, and not for all that there are. -/
theorem forall_mem_of_all {p : Char → Prop} [DecidablePred p] {cs : List Char}
    (h : (cs.all fun c => decide (p c)) = true) : ∀ c ∈ cs, p c := by
  simpa using h

/-! ## Letters -/

/-- The letter that a character is a form of. -/
def letterOf (c : Char) : Char :=
  if c = 'ſ' then 's' else if c = '\u212a' then 'k'
  else if c = 'İ' ∨ c = 'ı' then 'i' else c.toLower

/-- A form of a small letter or the underscore. -/
def isLetter (c : Char) : Bool := letterOf c == '_' || (letterOf c).isLower

/-- The forms of letters that are not ASCII. -/
def otherForms : List Char := ['ſ', '\u212a', 'İ', 'ı']

theorem toLower_of_not_ascii (h : ¬ c.toNat < 128) : c.toLower = c := by
  have hno : ¬ (c.val ≥ 'A'.val ∧ c.val ≤ 'Z'.val) := by
    rintro ⟨-, hle⟩
    have : c.toNat ≤ 90 := hle
    omega
  exact dif_neg hno

theorem letterOf_of_not_mem (h : c ∉ otherForms) : letterOf c = c.toLower := by
  simp only [otherForms, List.mem_cons, List.not_mem_nil, or_false, not_or] at h
  obtain ⟨hs, hk, hi, hi'⟩ := h
  rw [letterOf, if_neg hs, if_neg hk, if_neg (by simp [hi, hi'])]

/-- A character is a form of one letter. -/
theorem isForm_iff {letter : Char} (h : letter.toNat < 128) :
    isForm letter c = true ↔ letterOf c = letter := by
  by_cases hc : c ∈ otherForms
  · have hne : c ≠ letter := by
      rintro rfl
      have hlarge : ∀ c ∈ otherForms, ¬ c.toNat < 128 := forall_mem_of_all (by decide)
      exact hlarge c hc h
    simp only [otherForms, List.mem_cons, List.not_mem_nil, or_false] at hc
    rcases hc with rfl | rfl | rfl | rfl
    all_goals simp [isForm, letterOf, hne, eq_comm (a := letter)]
  · rw [letterOf_of_not_mem hc]
    simp only [otherForms, List.mem_cons, List.not_mem_nil, or_false, not_or] at hc
    simp [isForm, hc]

theorem mem_otherForms_or_ascii (h : isLetter c = true) : c ∈ otherForms ∨ c.toNat < 128 := by
  refine Decidable.or_iff_not_not_and_not.2 ?_
  rintro ⟨hother, hlarge⟩
  rw [isLetter, letterOf_of_not_mem hother, toLower_of_not_ascii hlarge] at h
  rcases Bool.or_eq_true_iff.1 h with he | hlower
  · obtain rfl := beq_iff_eq.1 he
    exact hlarge (by decide)
  · have hle : c.toNat ≤ 122 := of_decide_eq_true (Bool.and_eq_true_iff.1 hlower).2
    omega

theorem isWord_of_mem_otherForms : ∀ c ∈ otherForms, isWord c = true := by
  refine forall_mem_of_all ?_
  simp only [isWord, inRanges_eq_any]
  decide +kernel

theorem isLetter_plain (h : isLetter c = true) :
    isWord c = true ∧ isValueChar c = true ∧ isQuote c = false := by
  rcases mem_otherForms_or_ascii h with hother | hascii
  · have hall : ∀ c ∈ otherForms, isValueChar c = true ∧ isQuote c = false :=
      forall_mem_of_all (by decide +kernel)
    exact ⟨isWord_of_mem_otherForms c hother, hall c hother⟩
  · have hall : ∀ n < 128, isLetter (Char.ofNat n) = true → isWord (Char.ofNat n) = true ∧
        isValueChar (Char.ofNat n) = true ∧ isQuote (Char.ofNat n) = false := by
      decide +kernel
    have hc := hall c.toNat hascii
    rw [Char.ofNat_toNat] at hc
    exact hc h

theorem isWord_of_isLetter (h : isLetter c = true) : isWord c = true :=
  (isLetter_plain h).1

theorem isLetter_of_not_value (h : isValueChar c = false) : isLetter c = false := by
  rw [← Bool.not_eq_true]
  intro hc
  cases h.symm.trans (isLetter_plain hc).2.1

theorem isLetter_of_isQuote (h : isQuote c = true) : isLetter c = false := by
  rw [← Bool.not_eq_true]
  intro hc
  cases h.symm.trans (isLetter_plain hc).2.2

/-! ## Keywords -/

/-- A name of a credential in any case. -/
def IsKeyword (m : List Char) : Prop := ∃ k ∈ keywords, m.map letterOf = k.toList

theorem takeWord_eq_some_iff (hks : ∀ k ∈ ks, k.toNat < 128) :
    takeWord ks cs = some (m, r) ↔ cs = m ++ r ∧ m.map letterOf = ks := by
  constructor
  · intro h
    refine ⟨takeWord_eq_some h, ?_⟩
    induction ks generalizing cs m with
    | nil =>
      cases h
      rfl
    | cons k ks ih =>
      obtain ⟨hk, hks⟩ := List.forall_mem_cons.1 hks
      cases cs with
      | nil => cases h
      | cons c cs =>
        rw [takeWord] at h
        split at h
        · next hform =>
          obtain ⟨⟨m', r'⟩, hp, he⟩ := Option.map_eq_some_iff.1 h
          cases he
          rw [List.map_cons, (isForm_iff hk).1 hform, ih hks hp]
        · cases h
  · rintro ⟨rfl, rfl⟩
    induction m with
    | nil => cases r <;> rfl
    | cons c m ih =>
      obtain ⟨hc, hm⟩ := List.forall_mem_cons.1 hks
      rw [List.cons_append, List.map_cons, takeWord, if_pos ((isForm_iff hc).2 rfl), ih hm]
      rfl

/-- No keyword begins another one. -/
theorem eq_of_keyword_prefix :
    ∀ k ∈ keywords, ∀ k' ∈ keywords, k.toList <+: k'.toList → k = k' := by
  decide

theorem ascii_of_keyword : ∀ k ∈ keywords, ∀ c ∈ k.toList, c.toNat < 128 := by
  have hall : ∀ k ∈ keywords, (k.toList.all fun c => decide (c.toNat < 128)) = true := by decide
  exact fun k hk => forall_mem_of_all (hall k hk)

theorem IsKeyword.eq (h : IsKeyword key) (h' : IsKeyword key') (hp : key <+: key') :
    key = key' := by
  obtain ⟨k, hk, he⟩ := h
  obtain ⟨k', hk', he'⟩ := h'
  have hkk : k = k' := by
    refine eq_of_keyword_prefix k hk k' hk' ?_
    rw [← he, ← he']
    exact hp.map letterOf
  refine hp.eq_of_length ?_
  rw [← List.length_map letterOf, he, hkk, ← he', List.length_map]

/-- Of two keywords at the start of a text there is only one. -/
theorem IsKeyword.unique (h : IsKeyword key) (h' : IsKeyword key') (he : key ++ u = key' ++ v) :
    key = key' ∧ u = v := by
  have hkey : key = key' := by
    rcases List.prefix_or_prefix_of_prefix ⟨u, rfl⟩ ⟨v, he.symm⟩ with hp | hp
    · exact h.eq h' hp
    · exact (h'.eq h hp).symm
  subst hkey
  exact ⟨rfl, List.append_cancel_left he⟩

/-- A keyword at the start of a text is found, and nothing else is. -/
theorem takeKeyword_eq_some_iff :
    takeKeyword cs = some (m, r) ↔ cs = m ++ r ∧ IsKeyword m := by
  constructor
  · intro h
    obtain ⟨k, hk, hword⟩ := List.exists_of_findSome?_eq_some h
    obtain ⟨rfl, hm⟩ := (takeWord_eq_some_iff (ascii_of_keyword k hk)).1 hword
    exact ⟨rfl, k, hk, hm⟩
  · rintro ⟨rfl, k, hk, hm⟩
    have hword : takeWord k.toList (m ++ r) = some (m, r) :=
      (takeWord_eq_some_iff (ascii_of_keyword k hk)).2 ⟨rfl, hm⟩
    cases hfound : takeKeyword (m ++ r) with
    | none =>
      have hnone := List.findSome?_eq_none_iff.1 hfound k hk
      cases hword.symm.trans hnone
    | some p =>
      obtain ⟨m', r'⟩ := p
      obtain ⟨k', hk', hword'⟩ := List.exists_of_findSome?_eq_some hfound
      obtain ⟨he, hm'⟩ := (takeWord_eq_some_iff (ascii_of_keyword k' hk')).1 hword'
      obtain ⟨rfl, rfl⟩ := IsKeyword.unique ⟨k, hk, hm⟩ ⟨k', hk', hm'⟩ he
      rfl

/-- A keyword is a letter followed by letters. -/
theorem IsKeyword.exists_cons (h : IsKeyword key) :
    ∃ c m, key = c :: m ∧ isLetter c = true ∧ ∀ d ∈ m, isLetter d = true := by
  obtain ⟨k, hk, he⟩ := h
  have hall : ∀ k ∈ keywords, k.toList ≠ [] ∧
      (k.toList.all fun c => c == '_' || c.isLower) = true := by
    decide
  obtain ⟨hne, hletters⟩ := hall k hk
  rw [← he] at hne hletters
  have hkey : ∀ c ∈ key, isLetter c = true := fun c hc =>
    List.all_eq_true.1 hletters _ (List.mem_map_of_mem hc)
  cases key with
  | nil => exact absurd rfl hne
  | cons c m =>
    obtain ⟨hc, hm⟩ := List.forall_mem_cons.1 hkey
    exact ⟨c, m, rfl, hc, hm⟩

/-! ## Runs of characters -/

/-- The text does not go on with a character of the class. -/
def Stops (p : Char → Bool) (cs : List Char) : Prop := ∀ c ∈ cs.head?, p c = false

variable {p : Char → Bool}

theorem stops_dropWhile (p : Char → Bool) (cs : List Char) : Stops p (cs.dropWhile p) := by
  intro c hc
  have h := List.head?_dropWhile_not p cs
  rw [Option.mem_def.1 hc] at h
  exact h

theorem takeWhile_append_of_stops (hu : ∀ c ∈ u, p c = true) (hv : Stops p v) :
    (u ++ v).takeWhile p = u := by
  rw [List.takeWhile_append_of_pos hu]
  cases v with
  | nil => rw [List.takeWhile_nil, List.append_nil]
  | cons c v => rw [List.takeWhile_cons_of_neg (by simp [hv c rfl]), List.append_nil]

theorem dropWhile_append_of_stops (hu : ∀ c ∈ u, p c = true) (hv : Stops p v) :
    (u ++ v).dropWhile p = v := by
  rw [List.dropWhile_append_of_pos hu]
  cases v with
  | nil => rfl
  | cons c v => exact List.dropWhile_cons_of_neg (by simp [hv c rfl])

/-- A separator with blanks around it. -/
def IsSeparator (sep : Char) (m : List Char) : Prop :=
  ∃ b b', m = b ++ sep :: b' ∧ (∀ c ∈ b, isBlank c = true) ∧ ∀ c ∈ b', isBlank c = true

theorem IsSeparator.forall_mem {p : Char → Prop} (hsep : p sep)
    (hblank : ∀ c, isBlank c = true → p c) (h : IsSeparator sep m) : ∀ c ∈ m, p c := by
  obtain ⟨b, b', rfl, hb, hb'⟩ := h
  refine List.forall_mem_append.2 ⟨fun c hc => hblank c (hb c hc), ?_⟩
  exact List.forall_mem_cons.2 ⟨hsep, fun c hc => hblank c (hb' c hc)⟩

theorem takeSeparator_eq_some_iff (hsep : isBlank sep = false) :
    takeSeparator sep cs = some (m, r) ↔ cs = m ++ r ∧ IsSeparator sep m ∧ Stops isBlank r := by
  constructor
  · intro h
    refine ⟨takeSeparator_eq_some h, ?_⟩
    rw [takeSeparator] at h
    split at h
    · next c rest _ =>
      split at h <;> cases h
      next hc =>
      refine ⟨⟨cs.takeWhile isBlank, rest.takeWhile isBlank, ?_, ?_, ?_⟩, stops_dropWhile _ _⟩
      · rw [beq_iff_eq.1 hc]
      · exact List.all_eq_true.1 List.all_takeWhile
      · exact List.all_eq_true.1 List.all_takeWhile
    · cases h
  · rintro ⟨rfl, ⟨b, b', rfl, hb, hb'⟩, hr⟩
    have hstop : Stops isBlank (sep :: (b' ++ r)) := by
      rintro c ⟨⟩
      exact hsep
    rw [takeSeparator, List.append_assoc, List.cons_append, dropWhile_append_of_stops hb hstop,
      takeWhile_append_of_stops hb hstop]
    simp only [BEq.rfl, if_true, takeWhile_append_of_stops hb' hr, dropWhile_append_of_stops hb' hr]

/-! ## Assignments -/

/-- What is kept of an assignment: a keyword and an equals sign. -/
def IsTarget (kept : List Char) : Prop :=
  ∃ key sep, kept = key ++ sep ∧ IsKeyword key ∧ IsSeparator '=' sep

/-- The text begins with an assignment of this value. -/
structure Assigns (cs kept value rest : List Char) : Prop where
  text : cs = kept ++ (value ++ rest)
  target : IsTarget kept
  nonempty : value ≠ []
  value : ∀ c ∈ value, isValueChar c = true
  stops : Stops isValueChar rest

theorem isBlank_of_isValueChar (h : isValueChar c = true) : isBlank c = false := by
  simp only [isValueChar, Bool.and_eq_true, Bool.not_eq_true'] at h
  exact h.1.1.1

/-- An assignment at the start of a text is found, and nothing else is. -/
theorem assignment?_eq_some_iff :
    assignment? cs = some (kept, rest) ↔ ∃ value, Assigns cs kept value rest := by
  simp only [assignment?, Option.bind_eq_bind, Option.bind_eq_some_iff, Prod.exists]
  constructor
  · rintro ⟨key, cs₁, h₁, sep, cs₂, h₂, h⟩
    split at h
    · cases h
    · next hv =>
      cases h
      obtain ⟨rfl, hkey⟩ := takeKeyword_eq_some_iff.1 h₁
      obtain ⟨rfl, hsep, -⟩ := (takeSeparator_eq_some_iff (by decide)).1 h₂
      refine ⟨cs₂.takeWhile isValueChar, ?_, ⟨key, sep, rfl, hkey, hsep⟩, by simpa using hv,
        List.all_eq_true.1 List.all_takeWhile, stops_dropWhile _ _⟩
      simp
  · rintro ⟨value, rfl, ⟨key, sep, rfl, hkey, hsep⟩, hne, hvalue, hstops⟩
    have hblank : Stops isBlank (value ++ rest) := by
      cases value with
      | nil => exact absurd rfl hne
      | cons c value =>
        rintro d ⟨⟩
        exact isBlank_of_isValueChar (hvalue c List.mem_cons_self)
    refine ⟨key, sep ++ (value ++ rest), takeKeyword_eq_some_iff.2 ⟨by simp, hkey⟩, sep,
      value ++ rest, (takeSeparator_eq_some_iff (by decide)).2 ⟨rfl, hsep, hblank⟩, ?_⟩
    rw [takeWhile_append_of_stops hvalue hstops, dropWhile_append_of_stops hvalue hstops,
      if_neg (by simpa using hne)]

/-- A text begins with one assignment at most. -/
theorem Assigns.unique (h : Assigns cs kept value rest) (h' : Assigns cs kept' value' rest') :
    kept = kept' ∧ value = value' ∧ rest = rest' := by
  have hsame := (assignment?_eq_some_iff.2 ⟨_, h⟩).symm.trans (assignment?_eq_some_iff.2 ⟨_, h'⟩)
  obtain ⟨rfl, rfl⟩ := Prod.mk.inj (Option.some.inj hsame)
  have htext := List.append_cancel_left (h.text.symm.trans h'.text)
  exact ⟨rfl, List.append_cancel_right htext, rfl⟩

/-! ## Quoted fields -/

/-- What is kept before the value of a quoted field: a keyword between quotes, a colon and a
quote. -/
def IsLabel (kept : List Char) : Prop :=
  ∃ q key q' sep q'', kept = q :: (key ++ q' :: (sep ++ [q''])) ∧ isQuote q = true ∧
    IsKeyword key ∧ isQuote q' = true ∧ IsSeparator ':' sep ∧ isQuote q'' = true

/-- The text begins with a quoted field of this value, which the quote `q` closes. -/
structure Quotes (cs kept value : List Char) (q : Char) (rest : List Char) : Prop where
  text : cs = kept ++ (value ++ q :: rest)
  label : IsLabel kept
  value : ∀ c ∈ value, isQuote c = false
  closes : isQuote q = true

theorem takeQuote_eq_some_iff :
    takeQuote cs = some (m, r) ↔ ∃ q, m = [q] ∧ cs = q :: r ∧ isQuote q = true := by
  cases cs with
  | nil =>
    refine iff_of_false nofun ?_
    rintro ⟨_, -, h, -⟩
    cases h
  | cons c cs =>
    rw [takeQuote]
    constructor
    · intro h
      split at h <;> cases h
      next hc => exact ⟨c, rfl, rfl, hc⟩
    · rintro ⟨q, rfl, ⟨⟩, hq⟩
      exact if_pos hq

theorem isBlank_of_isQuote (h : isQuote c = true) : isBlank c = false := by
  simp only [isQuote, Bool.or_eq_true, beq_iff_eq] at h
  rcases h with rfl | rfl <;> decide

/-- What is left of a text from its first quote on. -/
theorem exists_closing (h : (cs.dropWhile fun c => !isQuote c) ≠ []) :
    ∃ value q rest, (cs.dropWhile fun c => !isQuote c) = q :: rest ∧ cs = value ++ q :: rest ∧
      (∀ c ∈ value, isQuote c = false) ∧ isQuote q = true := by
  obtain ⟨q, rest, hrest⟩ := List.exists_cons_of_ne_nil h
  refine ⟨cs.takeWhile fun c => !isQuote c, q, rest, hrest, ?_, fun c hc => ?_, ?_⟩
  · rw [← hrest, List.takeWhile_append_dropWhile]
  · simpa using List.all_eq_true.1 List.all_takeWhile c hc
  · simpa using stops_dropWhile (fun c => !isQuote c) cs q (by rw [hrest]; rfl)

/-- A quoted field at the start of a text is found, and nothing else is. -/
theorem quotedField?_eq_some_iff :
    quotedField? cs = some (kept, r) ↔
      ∃ value q rest, r = q :: rest ∧ Quotes cs kept value q rest := by
  simp only [quotedField?, Option.bind_eq_bind, Option.bind_eq_some_iff, Prod.exists]
  constructor
  · rintro ⟨_, cs₁, h₁, key, cs₂, h₂, _, cs₃, h₃, sep, cs₄, h₄, _, cs₅, h₅, h⟩
    obtain ⟨q, rfl, rfl, hq⟩ := takeQuote_eq_some_iff.1 h₁
    obtain ⟨rfl, hkey⟩ := takeKeyword_eq_some_iff.1 h₂
    obtain ⟨q', rfl, rfl, hq'⟩ := takeQuote_eq_some_iff.1 h₃
    obtain ⟨rfl, hsep, -⟩ := (takeSeparator_eq_some_iff (by decide)).1 h₄
    obtain ⟨q'', rfl, rfl, hq''⟩ := takeQuote_eq_some_iff.1 h₅
    split at h
    · cases h
    · next hclosing =>
      cases h
      obtain ⟨value, q₃, rest, hrest, htext, hvalue, hclose⟩ := exists_closing hclosing
      refine ⟨value, q₃, rest, hrest, ?_,
        ⟨q, key, q', sep, q'', rfl, hq, hkey, hq', hsep, hq''⟩, hvalue, hclose⟩
      simp [htext]
  · rintro ⟨value, q₃, rest, rfl, rfl, ⟨q, key, q', sep, q'', rfl, hq, hkey, hq', hsep, hq''⟩,
      hvalue, hclose⟩
    have hplain : ∀ c ∈ value, (!isQuote c) = true := by simpa using hvalue
    have hstop : Stops (fun c => !isQuote c) (q₃ :: rest) := by
      rintro c ⟨⟩
      simp [hclose]
    have hblank : Stops isBlank (q'' :: (value ++ q₃ :: rest)) := by
      rintro c ⟨⟩
      exact isBlank_of_isQuote hq''
    refine ⟨[q], _, takeQuote_eq_some_iff.2 ⟨q, rfl, rfl, hq⟩, key, _,
      takeKeyword_eq_some_iff.2 ⟨List.append_assoc _ _ _, hkey⟩, [q'], _,
      takeQuote_eq_some_iff.2 ⟨q', rfl, rfl, hq'⟩, sep, _,
      (takeSeparator_eq_some_iff (by decide)).2 ⟨List.append_assoc _ _ _, hsep, hblank⟩, [q''],
      value ++ q₃ :: rest, takeQuote_eq_some_iff.2 ⟨q'', rfl, rfl, hq''⟩, ?_⟩
    rw [dropWhile_append_of_stops hplain hstop]
    rfl

end Redaction

end Roster
