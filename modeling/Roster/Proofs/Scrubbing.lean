import Roster.Logging
import Roster.Proofs.Patterns

/-!
# Scrubbing twice

Each target of log lines scrubs the line it is handed and leaves the scrubbed line to the next one,
so that a line is scrubbed as often as there are targets. Once is enough: the mask is what stands in
the place of the values afterwards, and scrubbing brings no further values about.

* `maskAssignments_of_settled`: where the values of all assignments are masked, nothing changes.
* `settled_maskAssignments`, `settled_maskQuoted`: masking assignments masks them all, and masking
  quoted fields, which changes the text again, leaves them masked.
* `maskQuoted_maskQuoted`: quoted fields are masked once.
-/

namespace Roster

namespace Redaction

variable {w w' : Bool} {c q : Char} {cs u v r key kept value rest : List Char}

/-! ## Masking assignments, step by step -/

theorem maskAssignments_of_assigns (h : Assigns cs kept value rest) :
    maskAssignments false cs = kept ++ (mask ++ maskAssignments true rest) := by
  have hread := assignment?_eq_some_iff.2 ⟨value, h⟩
  cases cs with
  | nil => cases hread
  | cons c cs =>
    rw [maskAssignments]
    split
    · next kept' rest' h' =>
      rw [if_neg Bool.false_ne_true, hread] at h'
      cases h'
      rw [List.append_assoc]
    · next h' =>
      rw [if_neg Bool.false_ne_true, hread] at h'
      cases h'

theorem maskAssignments_cons
    (h : w = false → ∀ kept value rest, ¬ Assigns (c :: cs) kept value rest) :
    maskAssignments w (c :: cs) = c :: maskAssignments (isWord c) cs := by
  rw [maskAssignments]
  split
  · next kept rest h' =>
    split at h'
    · cases h'
    · next hw =>
      obtain ⟨value, hassigns⟩ := assignment?_eq_some_iff.1 h'
      exact absurd hassigns (h (by simpa using hw) kept value rest)
  · rfl

/-- No assignment begins within a word. -/
theorem maskAssignments_true_cons (c : Char) (cs : List Char) :
    maskAssignments true (c :: cs) = c :: maskAssignments (isWord c) cs :=
  maskAssignments_cons fun h => absurd h.symm Bool.false_ne_true

theorem maskQuoted_of_quotes (h : Quotes cs kept value q rest) :
    maskQuoted cs = kept ++ (mask ++ q :: maskQuoted rest) := by
  have hread := quotedField?_eq_some_iff.2 ⟨value, q, rest, rfl, h⟩
  cases cs with
  | nil => cases hread
  | cons c cs =>
    rw [maskQuoted]
    split
    · next h' =>
      cases hread.symm.trans h'
      rw [List.append_assoc]
    · next h' => cases hread.symm.trans h'
    · next h' => cases hread.symm.trans h'

theorem maskQuoted_cons (h : ∀ kept value q rest, ¬ Quotes (c :: cs) kept value q rest) :
    maskQuoted (c :: cs) = c :: maskQuoted cs := by
  rw [maskQuoted]
  split
  · next h' =>
    obtain ⟨value, q, rest, -, hquotes⟩ := quotedField?_eq_some_iff.1 h'
    exact absurd hquotes (h _ _ _ _)
  · next h' =>
    obtain ⟨value, q, rest, -, hquotes⟩ := quotedField?_eq_some_iff.1 h'
    exact absurd hquotes (h _ _ _ _)
  · rfl

/-- An induction along the scan for assignments. -/
theorem assignments_induction {motive : Bool → List Char → Prop} (nil : ∀ w, motive w [])
    (assigned : ∀ {cs kept value rest}, Assigns cs kept value rest → motive true rest →
      motive false cs)
    (plain : ∀ {w c cs}, (w = false → ∀ kept value rest, ¬ Assigns (c :: cs) kept value rest) →
      motive (isWord c) cs → motive w (c :: cs))
    (w : Bool) (cs : List Char) : motive w cs := by
  induction hn : cs.length using Nat.strongRecOn generalizing w cs with
  | ind n ih =>
  cases cs with
  | nil => exact nil w
  | cons c cs =>
    by_cases h : w = false → ∀ kept value rest, ¬ Assigns (c :: cs) kept value rest
    · exact plain h (ih cs.length (by rw [← hn]; exact Nat.lt_succ_self _) _ cs rfl)
    · obtain ⟨rfl, kept, value, rest, ha⟩ : w = false ∧ ∃ kept value rest,
          Assigns (c :: cs) kept value rest := by simpa using h
      refine assigned ha (ih rest.length ?_ true rest rfl)
      have hlength := congrArg List.length ha.text
      have hpos := List.length_pos_iff.2 ha.nonempty
      simp only [List.length_append] at hlength
      omega

/-- An induction along the scan for quoted fields. -/
theorem quoted_induction {motive : List Char → Prop} (nil : motive [])
    (quoted : ∀ {cs kept value q rest}, Quotes cs kept value q rest → motive rest → motive cs)
    (plain : ∀ {c cs}, (∀ kept value q rest, ¬ Quotes (c :: cs) kept value q rest) →
      motive cs → motive (c :: cs))
    (cs : List Char) : motive cs := by
  induction hn : cs.length using Nat.strongRecOn generalizing cs with
  | ind n ih =>
  cases cs with
  | nil => exact nil
  | cons c cs =>
    by_cases h : ∀ kept value q rest, ¬ Quotes (c :: cs) kept value q rest
    · exact plain h (ih cs.length (by rw [← hn]; exact Nat.lt_succ_self _) cs rfl)
    · obtain ⟨kept, value, q, rest, hq⟩ : ∃ kept value q rest,
          Quotes (c :: cs) kept value q rest := by simpa using h
      refine quoted hq (ih rest.length ?_ rest rfl)
      have hlength := congrArg List.length hq.text
      simp only [List.length_append, List.length_cons] at hlength hn
      omega

/-! ## What stays -/

/-- An assignment begins with a letter. -/
theorem Assigns.exists_cons (h : Assigns cs kept value rest) :
    ∃ c kept' tail, kept = c :: kept' ∧ cs = c :: tail ∧ isLetter c = true := by
  obtain ⟨rfl, ⟨key, sep, rfl, hkey, -⟩, -⟩ := h
  obtain ⟨c, m, rfl, hc, -⟩ := hkey.exists_cons
  exact ⟨c, m ++ sep, m ++ sep ++ (value ++ rest), rfl, rfl, hc⟩

theorem Assigns.letter (h : Assigns (c :: cs) kept value rest) : isLetter c = true := by
  obtain ⟨d, kept', tail, -, ⟨⟩, hd⟩ := h.exists_cons
  exact hd

theorem not_assigns_of_not_letter (hc : isLetter c = false) :
    ∀ kept value rest, ¬ Assigns (c :: cs) kept value rest := by
  intro kept value rest h
  cases hc.symm.trans h.letter

/-- Masking assignments leaves the first character. -/
theorem head?_maskAssignments (w : Bool) (cs : List Char) :
    (maskAssignments w cs).head? = cs.head? := by
  induction w, cs using assignments_induction with
  | nil w => rw [maskAssignments]
  | @assigned cs kept value rest ha =>
    rw [maskAssignments_of_assigns ha]
    obtain ⟨d, kept', tail, rfl, rfl, -⟩ := ha.exists_cons
    rfl
  | @plain w c cs hno =>
    rw [maskAssignments_cons hno]
    rfl

theorem stops_maskAssignments {p : Char → Bool} (h : Stops p cs) :
    Stops p (maskAssignments w cs) := by
  rw [Stops, head?_maskAssignments]
  exact h

/-- After a letter the letters that follow stay. -/
theorem maskAssignments_eq_letters (hu : ∀ c ∈ u, isLetter c = true)
    (h : maskAssignments true cs = u ++ v) :
    ∃ r, cs = u ++ r ∧ maskAssignments true r = v := by
  induction u generalizing cs with
  | nil => exact ⟨cs, rfl, h⟩
  | cons c u ih =>
    obtain ⟨hc, hrest⟩ := List.forall_mem_cons.1 hu
    cases cs with
    | nil =>
      rw [maskAssignments] at h
      cases h
    | cons d cs =>
      rw [maskAssignments_true_cons] at h
      obtain ⟨rfl, htail⟩ := List.cons.inj h
      rw [isWord_of_isLetter hc] at htail
      obtain ⟨r, rfl, hr⟩ := ih hrest htail
      exact ⟨r, rfl, hr⟩

theorem maskAssignments_mark (hc : isLetter c = false) :
    maskAssignments w (c :: cs) = c :: maskAssignments (isWord c) cs :=
  maskAssignments_cons fun _ => not_assigns_of_not_letter hc

/-- Characters that are no letters stay. -/
theorem maskAssignments_eq_marks (hu : ∀ c ∈ u, isLetter c = false)
    (h : maskAssignments w cs = u ++ v) :
    ∃ w' r, cs = u ++ r ∧ maskAssignments w' r = v := by
  induction u generalizing cs w with
  | nil => exact ⟨w, cs, rfl, h⟩
  | cons c u ih =>
    obtain ⟨hc, hu⟩ := List.forall_mem_cons.1 hu
    cases cs with
    | nil =>
      rw [maskAssignments] at h
      cases h
    | cons d cs =>
      have hhead := head?_maskAssignments w (d :: cs)
      rw [h] at hhead
      obtain rfl := Option.some.inj hhead
      rw [maskAssignments_mark hc] at h
      obtain ⟨w', r, rfl, hr⟩ := ih hu (List.cons.inj h).2
      exact ⟨w', r, rfl, hr⟩

theorem IsSeparator.not_letter {sep : Char} (hsep : isLetter sep = false)
    (h : IsSeparator sep u) : ∀ c ∈ u, isLetter c = false := by
  refine h.forall_mem hsep fun c hc => isLetter_of_not_value ?_
  rw [isValueChar, hc]
  rfl

/-- What is kept of an assignment, before a text that begins as the value does, is kept of one. -/
theorem Assigns.of_head? (h : Assigns cs kept value rest) (hr : r.head? = (value ++ rest).head?) :
    Assigns (kept ++ r) kept (r.takeWhile isValueChar) (r.dropWhile isValueChar) := by
  refine ⟨by rw [List.takeWhile_append_dropWhile], h.target, ?_,
    List.all_eq_true.1 List.all_takeWhile, stops_dropWhile _ _⟩
  obtain ⟨c, value, rfl⟩ := List.exists_cons_of_ne_nil h.nonempty
  cases r with
  | nil => cases hr
  | cons d r =>
    obtain rfl := Option.some.inj hr
    rw [List.takeWhile_cons_of_pos (h.value d List.mem_cons_self)]
    exact List.cons_ne_nil _ _

/-- Masking brings no assignments about. -/
theorem assigns_of_maskAssignments
    (h : Assigns (c :: maskAssignments (isWord c) cs) kept value rest) :
    ∃ kept value rest, Assigns (c :: cs) kept value rest := by
  obtain ⟨key, sep, hkept, hkey, hsep⟩ := h.target
  obtain ⟨d, m, rfl, hd, hm⟩ := hkey.exists_cons
  have htext := h.text
  simp only [hkept, List.append_assoc, List.cons_append, List.cons.injEq] at htext
  obtain ⟨rfl, htail⟩ := htext
  rw [isWord_of_isLetter hd] at htail
  obtain ⟨r, rfl, hr⟩ := maskAssignments_eq_letters hm htail
  obtain ⟨w', r', rfl, hr'⟩ := maskAssignments_eq_marks (hsep.not_letter (by decide)) hr
  have hassigns := h.of_head? (r := r') (by rw [← hr', head?_maskAssignments])
  rw [hkept, List.append_assoc, List.cons_append] at hassigns
  exact ⟨_, _, _, hassigns⟩

/-! ## Texts whose assignments are masked -/

/-- Every assignment in the text has the mask in the place of its value. The flag says whether a
word character stands before the text. -/
def Settled : Bool → List Char → Prop
  | _, [] => True
  | w, c :: cs =>
    (w = false → ∀ kept value rest, Assigns (c :: cs) kept value rest → value = mask) ∧
      Settled (isWord c) cs

namespace Settled

theorem mono (h : Settled false cs) : Settled w cs := by
  cases cs with
  | nil => trivial
  | cons c cs => exact ⟨fun _ => h.1 rfl, h.2⟩

/-- What follows a character of the text. -/
theorem after (h : Settled w (u ++ c :: v)) : Settled (isWord c) v := by
  induction u generalizing w with
  | nil => exact h.2
  | cons d u ih => exact ih h.2

theorem of_stops (h : Settled w cs) (hcs : Stops isValueChar cs) : Settled w' cs := by
  cases cs with
  | nil => trivial
  | cons c cs =>
    have hc : isLetter c = false := isLetter_of_not_value (hcs c rfl)
    exact ⟨fun _ _ _ _ ha => absurd ha (not_assigns_of_not_letter hc _ _ _), h.2⟩

/-- Letters within a word begin no assignment. -/
theorem letters_append (hu : ∀ c ∈ u, isLetter c = true) (h : Settled true v) :
    Settled true (u ++ v) := by
  induction u with
  | nil => exact h
  | cons c u ih =>
    obtain ⟨hc, hu⟩ := List.forall_mem_cons.1 hu
    refine ⟨nofun, ?_⟩
    rw [isWord_of_isLetter hc]
    exact ih hu

/-- Characters that are no letters begin no assignment. -/
theorem marks_append (hu : ∀ c ∈ u, isLetter c = false) (h : Settled false v) :
    Settled w (u ++ v) := by
  induction u generalizing w with
  | nil => exact h.mono
  | cons c u ih =>
    obtain ⟨hc, hu⟩ := List.forall_mem_cons.1 hu
    exact ⟨fun _ _ _ _ ha => absurd ha (not_assigns_of_not_letter hc _ _ _), ih hu⟩

end Settled

theorem mask_not_letter : ∀ c ∈ mask, isLetter c = false := forall_mem_of_all (by decide)

theorem mask_not_quote : ∀ c ∈ mask, isQuote c = false := forall_mem_of_all (by decide)

theorem mask_value : mask ≠ [] ∧ ∀ c ∈ mask, isValueChar c = true :=
  ⟨by decide, forall_mem_of_all (by decide)⟩

/-- The value of an assignment is the mask. -/
theorem Settled.value_eq (h : Settled false cs) (ha : Assigns cs kept value rest) :
    value = mask := by
  obtain ⟨c, kept', tail, -, rfl, -⟩ := ha.exists_cons
  exact h.1 rfl _ _ _ ha

/-- Masking assignments changes nothing where they are masked. -/
theorem maskAssignments_of_settled (h : Settled w cs) : maskAssignments w cs = cs := by
  induction w, cs using assignments_induction with
  | nil w => rw [maskAssignments]
  | @assigned cs kept value rest ha ih =>
    obtain rfl := h.value_eq ha
    have hrest : Settled true rest := by
      have htext : cs = (kept ++ ['*', '*', '*']) ++ '*' :: rest := by
        rw [ha.text]
        simp [mask]
      rw [htext] at h
      exact h.after.of_stops ha.stops
    rw [maskAssignments_of_assigns ha, ih hrest, ← ha.text]
  | @plain w c cs hno ih => rw [maskAssignments_cons hno, ih h.2]

/-- An assignment stays one when its value is masked. -/
theorem Assigns.masked (h : Assigns cs kept value rest) (hr : Stops isValueChar r) :
    Assigns (kept ++ (mask ++ r)) kept mask r :=
  ⟨rfl, h.target, mask_value.1, mask_value.2, hr⟩

/-- What is kept of an assignment, with the mask after it, is settled. -/
theorem Settled.assigned (ha : Assigns cs kept mask rest) (h : Settled true rest) :
    Settled w cs := by
  have hunique := fun kept' value' rest' (h' : Assigns cs kept' value' rest') => ha.unique h'
  obtain ⟨rfl, ⟨key, sep, rfl, hkey, hsep⟩, -, -, hstops⟩ := ha
  obtain ⟨c, m, rfl, hc, hm⟩ := hkey.exists_cons
  have hsettled : Settled true (m ++ (sep ++ (mask ++ rest))) :=
    .letters_append hm (.marks_append (hsep.not_letter (by decide))
      (.marks_append mask_not_letter (h.of_stops hstops)))
  refine ⟨fun _ kept' value' rest' h' => (hunique _ _ _ h').2.1.symm, ?_⟩
  rw [isWord_of_isLetter hc]
  simpa using hsettled

/-- Masking assignments masks them. -/
theorem settled_maskAssignments (w : Bool) (cs : List Char) : Settled w (maskAssignments w cs) := by
  induction w, cs using assignments_induction with
  | nil w =>
    rw [maskAssignments]
    trivial
  | @assigned cs kept value rest ha ih =>
    rw [maskAssignments_of_assigns ha]
    exact .assigned (ha.masked (stops_maskAssignments ha.stops)) ih
  | @plain w c cs hno ih =>
    rw [maskAssignments_cons hno]
    refine ⟨fun hw kept value rest ha => ?_, ih⟩
    obtain ⟨kept', value', rest', ha'⟩ := assigns_of_maskAssignments ha
    exact absurd ha' (hno hw _ _ _)

/-! ## Masking quoted fields -/

/-- A quoted field begins with a quote and a letter. -/
theorem Quotes.exists_cons (h : Quotes cs kept value q rest) :
    ∃ q' c tail, cs = q' :: c :: tail ∧ isQuote q' = true ∧ isLetter c = true := by
  obtain ⟨rfl, ⟨q', key, _, _, _, rfl, hq', hkey, -⟩, -⟩ := h
  obtain ⟨c, m, rfl, hc, -⟩ := hkey.exists_cons
  exact ⟨q', c, _, rfl, hq', hc⟩

theorem Quotes.quote (h : Quotes (c :: cs) kept value q rest) : isQuote c = true := by
  obtain ⟨q', d, tail, ⟨⟩, hq', -⟩ := h.exists_cons
  exact hq'

/-- Characters that are no quotes stay. -/
theorem maskQuoted_append (hu : ∀ c ∈ u, isQuote c = false) (v : List Char) :
    maskQuoted (u ++ v) = u ++ maskQuoted v := by
  induction u with
  | nil => rfl
  | cons c u ih =>
    obtain ⟨hc, hu⟩ := List.forall_mem_cons.1 hu
    rw [List.cons_append, maskQuoted_cons, ih hu, List.cons_append]
    intro kept value q rest h
    cases hc.symm.trans h.quote

/-- Masking quoted fields leaves the first character. -/
theorem head?_maskQuoted (cs : List Char) : (maskQuoted cs).head? = cs.head? := by
  induction cs using quoted_induction with
  | nil => rw [maskQuoted]
  | @quoted cs kept value q rest hq =>
    rw [maskQuoted_of_quotes hq]
    obtain ⟨rfl, ⟨q', key, _, _, _, rfl, -⟩, -⟩ := hq
    rfl
  | @plain c cs hno =>
    rw [maskQuoted_cons hno]
    rfl

theorem maskQuoted_eq_append (hu : ∀ c ∈ u, isQuote c = false) (h : maskQuoted cs = u ++ v) :
    ∃ r, cs = u ++ r ∧ maskQuoted r = v := by
  induction u generalizing cs with
  | nil => exact ⟨cs, rfl, h⟩
  | cons c u ih =>
    obtain ⟨hc, hrest⟩ := List.forall_mem_cons.1 hu
    have hhead := head?_maskQuoted cs
    rw [h] at hhead
    cases cs with
    | nil => cases hhead
    | cons d cs =>
      obtain rfl := Option.some.inj hhead
      have hone := maskQuoted_append (u := [c]) (by simpa using hc) cs
      rw [List.singleton_append, h] at hone
      obtain ⟨r, rfl, hr⟩ := ih hrest (List.cons.inj hone).2.symm
      exact ⟨r, rfl, hr⟩

/-- The quotes stay, as many as there are. -/
theorem countP_isQuote_maskQuoted (cs : List Char) :
    (maskQuoted cs).countP isQuote = cs.countP isQuote := by
  induction cs using quoted_induction with
  | nil => rw [maskQuoted]
  | @quoted cs kept value q rest hq ih =>
    have hnone : ∀ {u : List Char}, (∀ c ∈ u, isQuote c = false) → u.countP isQuote = 0 := by
      intro u hu
      exact List.countP_eq_zero.2 fun c hc => by simp [hu c hc]
    have hmask : mask.countP isQuote = 0 := by decide
    rw [maskQuoted_of_quotes hq, hq.text]
    simp only [List.countP_append, List.countP_cons, hnone hq.value, hmask, ih]
  | @plain c cs hno ih =>
    rw [maskQuoted_cons hno, List.countP_cons, List.countP_cons, ih]

/-- Up to the first quote there is none. -/
theorem exists_quote (h : 0 < cs.countP isQuote) :
    ∃ u c v, cs = u ++ c :: v ∧ (∀ d ∈ u, isQuote d = false) ∧ isQuote c = true := by
  obtain ⟨d, hd, hquote⟩ := List.countP_pos_iff.1 h
  obtain ⟨c, hfound⟩ := Option.isSome_iff_exists.1 (List.find?_isSome.2 ⟨d, hd, hquote⟩)
  obtain ⟨hc, u, v, hcs, hu⟩ := List.find?_eq_some_iff_append.1 hfound
  exact ⟨u, c, v, hcs, by simpa using hu, hc⟩

theorem IsSeparator.not_quote {sep : Char} (hsep : isQuote sep = false)
    (h : IsSeparator sep u) : ∀ c ∈ u, isQuote c = false := by
  refine h.forall_mem hsep fun c hc => ?_
  rw [← Bool.not_eq_true]
  intro hquote
  cases hc.symm.trans (isBlank_of_isQuote hquote)

theorem IsKeyword.not_quote (h : IsKeyword key) :
    ∀ c ∈ key, isQuote c = false := by
  obtain ⟨c, m, rfl, hc, hm⟩ := h.exists_cons
  exact List.forall_mem_cons.2
    ⟨(isLetter_plain hc).2.2, fun d hd => (isLetter_plain (hm d hd)).2.2⟩

theorem IsTarget.not_quote (h : IsTarget kept) : ∀ c ∈ kept, isQuote c = false := by
  obtain ⟨key, sep, rfl, hkey, hsep⟩ := h
  exact List.forall_mem_append.2 ⟨hkey.not_quote, hsep.not_quote (by decide)⟩

/-- A keyword and a separator do not begin alike. -/
theorem IsSeparator.not_keyword {sep : Char} {m key : List Char} (hsep : isLetter sep = false)
    (h : IsSeparator sep m) (hkey : IsKeyword key) : m ++ u ≠ key ++ v := by
  obtain ⟨c, key, rfl, hc, -⟩ := hkey.exists_cons
  intro he
  have hmem : c ∈ m := by
    obtain ⟨b, b', rfl, -⟩ := h
    cases b with
    | nil => exact (List.cons.inj he).1 ▸ List.mem_cons_self
    | cons d b => exact (List.cons.inj he).1 ▸ List.mem_cons_self
  cases hc.symm.trans (h.not_letter hsep c hmem)

/-- Masking brings no quoted fields about. -/
theorem quotes_of_maskQuoted (h : Quotes (c :: maskQuoted cs) kept value q rest) :
    ∃ kept value q rest, Quotes (c :: cs) kept value q rest := by
  obtain ⟨htext, ⟨q₁, key, q₂, sep, q₃, rfl, hq₁, hkey, hq₂, hsep, hq₃⟩, -, hclose⟩ := h
  simp only [List.append_assoc, List.cons_append, List.nil_append, List.cons.injEq] at htext
  obtain ⟨rfl, htail⟩ := htext
  obtain ⟨r, rfl, hr⟩ := maskQuoted_eq_append hkey.not_quote htail
  obtain ⟨r₁, rfl⟩ : ∃ r₁, r = q₂ :: r₁ := by
    rw [← List.head?_eq_some_iff, ← head?_maskQuoted, hr]
    rfl
  -- the quote after the keyword begins no field, since the separator is no keyword
  have hplain : ∀ kept value q rest, ¬ Quotes (q₂ :: r₁) kept value q rest := by
    intro kept' value' q' rest' hq
    rw [maskQuoted_of_quotes hq] at hr
    obtain ⟨-, ⟨_, key', _, _, _, rfl, -, hkey', -⟩, -⟩ := hq
    simp only [List.cons_append, List.append_assoc, List.cons.injEq] at hr
    exact hsep.not_keyword (by decide) hkey' hr.2.symm
  rw [maskQuoted_cons hplain] at hr
  obtain ⟨r₂, rfl, hr₂⟩ := maskQuoted_eq_append (hsep.not_quote (by decide)) (List.cons.inj hr).2
  obtain ⟨r₃, rfl⟩ : ∃ r₃, r₂ = q₃ :: r₃ := by
    rw [← List.head?_eq_some_iff, ← head?_maskQuoted, hr₂]
    rfl
  -- there is a quote that closes the value, since there are as many quotes as before
  have hclosing : 0 < r₃.countP isQuote := by
    have hcount := countP_isQuote_maskQuoted (q₃ :: r₃)
    rw [hr₂] at hcount
    simp only [List.countP_cons, List.countP_append, if_pos hclose] at hcount
    omega
  obtain ⟨value', q', rest', rfl, hvalue', hclose'⟩ := exists_quote hclosing
  exact ⟨_, value', q', rest', by simp,
    ⟨_, key, q₂, sep, q₃, rfl, hq₁, hkey, hq₂, hsep, hq₃⟩, hvalue', hclose'⟩

/-- Masking quoted fields twice is masking them once. -/
theorem maskQuoted_maskQuoted (cs : List Char) : maskQuoted (maskQuoted cs) = maskQuoted cs := by
  induction cs using quoted_induction with
  | nil => rw [maskQuoted, maskQuoted]
  | @quoted cs kept value q rest hq ih =>
    have hmasked : Quotes (kept ++ (mask ++ q :: maskQuoted rest)) kept mask q (maskQuoted rest) :=
      ⟨rfl, hq.label, mask_not_quote, hq.closes⟩
    rw [maskQuoted_of_quotes hq, maskQuoted_of_quotes hmasked, ih]
  | @plain c cs hno ih =>
    rw [maskQuoted_cons hno, maskQuoted_cons, ih]
    intro kept value q rest hq
    obtain ⟨kept', value', q', rest', hq'⟩ := quotes_of_maskQuoted hq
    exact hno _ _ _ _ hq'

/-- A keyword before a quote is no assignment. -/
theorem not_assigns_of_quote (hkey : IsKeyword key) (hq : isQuote q = true) (v : List Char) :
    ∀ kept value rest, ¬ Assigns (key ++ q :: v) kept value rest := by
  rintro kept value rest ⟨htext, ⟨key', sep, rfl, hkey', hsep⟩, -⟩
  rw [List.append_assoc] at htext
  obtain ⟨-, hsame⟩ := hkey.unique hkey' htext
  have hquote := hsep.not_quote (by decide)
  obtain ⟨b, b', rfl, -⟩ := hsep
  have hmem : q ∈ b ++ '=' :: b' := by
    cases b with
    | nil => exact (List.cons.inj hsame).1 ▸ List.mem_cons_self
    | cons d b => exact (List.cons.inj hsame).1 ▸ List.mem_cons_self
  cases hq.symm.trans (hquote q hmem)

theorem not_word_of_quote (h : isQuote c = true) : isWord c = false := by
  simp only [isQuote, Bool.or_eq_true, beq_iff_eq] at h
  rcases h with rfl | rfl <;> decide

theorem Settled.quote_cons (hq : isQuote q = true) (h : Settled false v) : Settled w (q :: v) := by
  have hletter := isLetter_of_isQuote hq
  refine ⟨fun _ _ _ _ ha => absurd ha (not_assigns_of_not_letter hletter _ _ _), ?_⟩
  rw [not_word_of_quote hq]
  exact h

theorem Settled.keyword_append (hkey : IsKeyword key) (hq : isQuote q = true)
    (h : Settled false v) : Settled w (key ++ q :: v) := by
  have hno := not_assigns_of_quote hkey hq v
  obtain ⟨c, m, rfl, hc, hm⟩ := hkey.exists_cons
  refine ⟨fun _ _ _ _ ha => absurd ha (hno _ _ _), ?_⟩
  rw [isWord_of_isLetter hc]
  exact .letters_append hm (.quote_cons hq h)

/-- What is kept of a quoted field, with the mask after it, is settled. -/
theorem Settled.quoted (hlabel : IsLabel kept) (hq : isQuote q = true) (h : Settled false rest) :
    Settled w (kept ++ (mask ++ q :: rest)) := by
  obtain ⟨q₁, key, q₂, sep, q₃, rfl, hq₁, hkey, hq₂, hsep, hq₃⟩ := hlabel
  have hvalue : Settled false (mask ++ q :: rest) :=
    .marks_append mask_not_letter (.quote_cons hq h)
  have hfield : Settled false (key ++ q₂ :: (sep ++ q₃ :: (mask ++ q :: rest))) :=
    .keyword_append hkey hq₂ (.marks_append (hsep.not_letter (by decide)) (.quote_cons hq₃ hvalue))
  simpa using Settled.quote_cons (w := w) hq₁ hfield

/-- Masking quoted fields keeps assignments masked. -/
theorem settled_maskQuoted (h : Settled w cs) : Settled w (maskQuoted cs) := by
  induction cs using quoted_induction generalizing w with
  | nil =>
    rw [maskQuoted]
    trivial
  | @quoted cs kept value q rest hq ih =>
    have hrest : Settled false (maskQuoted rest) := by
      refine ih ?_
      rw [hq.text, ← List.append_assoc] at h
      rw [← not_word_of_quote hq.closes]
      exact h.after
    rw [maskQuoted_of_quotes hq]
    exact .quoted hq.label hq.closes hrest
  | @plain c cs hno ih =>
    have hsame := maskQuoted_cons hno
    rw [hsame]
    refine ⟨fun hw kept value rest ha => ?_, ih h.2⟩
    obtain ⟨r, hcs, hr⟩ := maskQuoted_eq_append ha.target.not_quote (hsame.trans ha.text)
    have ha' := ha.of_head? (r := r) (by rw [← hr, head?_maskQuoted])
    rw [← hcs] at ha'
    have hmask := h.1 hw _ _ _ ha'
    have hstops : Stops isValueChar (maskQuoted (r.dropWhile isValueChar)) := by
      rw [Stops, head?_maskQuoted]
      exact stops_dropWhile _ _
    rw [← List.takeWhile_append_dropWhile (p := isValueChar) (l := r), hmask,
      maskQuoted_append mask_not_quote] at hr
    rw [← takeWhile_append_of_stops ha.value ha.stops, ← hr,
      takeWhile_append_of_stops mask_value.2 hstops]

end Redaction

open Redaction in
theorem scrub_scrub (message : String) : scrub (scrub message) = scrub message := by
  have hsettled : Settled false (maskQuoted (maskAssignments false message.toList)) :=
    settled_maskQuoted (settled_maskAssignments false message.toList)
  unfold scrub
  rw [String.toList_ofList, maskAssignments_of_settled hsettled, maskQuoted_maskQuoted]

namespace Logging

/-- What a target writes depends on the scrubbed line only, and so does what it hands on. -/
theorem handle_congr {text text' : String} (level : Level) (name : String) (s : State)
    (h : scrub text' = scrub text) (target : Handler) :
    (handle level name (s, text') target).1 = (handle level name (s, text) target).1 ∧
      scrub (handle level name (s, text') target).2 = scrub text := by
  by_cases hadmits : target.threshold.admits level = true
  · rw [handle, handle, if_pos hadmits, if_pos hadmits, h]
    cases target.target <;> exact ⟨rfl, scrub_scrub text⟩
  · rw [handle, handle, if_neg hadmits, if_neg hadmits]
    exact ⟨rfl, h⟩

/-- A line that was scrubbed is scrubbed, so that each target writes what it would if the line came
to it first. -/
theorem scrubbed_once :
    (∀ message, scrub (scrub message) = scrub message) ∧
    ∀ level name text (handlers : List Handler) s,
      (handlers.foldl (handle level name) (s, text)).1 =
        handlers.foldl (fun s target => (handle level name (s, text) target).1) s := by
  refine ⟨scrub_scrub, fun level name text handlers s => ?_⟩
  suffices hgeneral : ∀ text', scrub text' = scrub text →
      (handlers.foldl (handle level name) (s, text')).1 =
        handlers.foldl (fun s target => (handle level name (s, text) target).1) s from
    hgeneral text rfl
  induction handlers generalizing s with
  | nil => exact fun _ _ => rfl
  | cons target handlers ih =>
    intro text' h
    obtain ⟨hstate, htext⟩ := handle_congr level name s h target
    rw [List.foldl_cons, List.foldl_cons, ← hstate]
    exact ih _ _ htext

end Logging

end Roster
