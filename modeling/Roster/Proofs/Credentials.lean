import Roster.Proofs.Scrubbing
import Roster.Value.Text

/-!
# Credentials in printed mappings

A mapping with a credential is printed as `'password': 'value'`, and scrubbing is to leave the mask
and nothing else between the quotes of the value. It does not always: the value ends at its first
quote, of either kind, and an assignment within the value that reaches up to its end takes the
closing quote along.

* `Enclosed`: the values for which neither happens.
* `enclosed_iff`: what masking assignments leaves of such a value is one piece up to its quote.
* `maskQuoted_label_eq_iff`: the field is masked as a whole if its value is such a piece.
-/

namespace Roster

namespace Redaction

variable {w : Bool} {b c q : Char} {k : String} {cs u v kept value rest : List Char}

/-! ## Values between quotes -/

/-- A text that stands before the quote `q` and is masked as a whole: outside of the assignments in
it there is no quote, and none of them reaches the quote that closes it. The flag says whether a
word character stands before the text. -/
inductive Enclosed (q : Char) : Bool → List Char → Prop
  | nil {w : Bool} : Enclosed q w []
  | plain {w : Bool} {c : Char} {cs : List Char} (quote : isQuote c = false)
      (assignment : w = false → ∀ kept value rest, ¬ Assigns (c :: (cs ++ [q])) kept value rest)
      (tail : Enclosed q (isWord c) cs) : Enclosed q w (c :: cs)
  | assigned {cs kept value rest : List Char}
      (assignment : Assigns (cs ++ [q]) kept value (rest ++ [q]))
      (tail : Enclosed q true rest) : Enclosed q false cs

theorem maskAssignments_ne_nil (h : cs ≠ []) : maskAssignments w cs ≠ [] := by
  intro hnil
  have hhead := head?_maskAssignments w cs
  rw [hnil] at hhead
  exact h (List.head?_eq_none_iff.1 hhead.symm)

/-- What follows an assignment ends as the text does. -/
theorem Assigns.rest_eq (h : Assigns (cs ++ [b]) kept value rest) (hne : rest ≠ []) :
    ∃ rest', rest = rest' ++ [b] ∧ cs = kept ++ (value ++ rest') := by
  have htext := h.text
  rw [← List.append_assoc] at htext
  obtain ⟨a, hkept, hrest⟩ | ⟨a, hcs, hrest⟩ := List.append_eq_append_iff.1 htext
  · obtain ⟨rfl, rfl⟩ : a = [] ∧ rest = [b] :=
      (List.singleton_eq_append_iff.1 hrest).resolve_right fun h => hne h.2
    exact ⟨[], rfl, by rw [List.append_nil, hkept, List.append_nil]⟩
  · exact ⟨a, hrest, by rw [hcs, List.append_assoc]⟩

theorem Assigns.rest_ne_nil (hb : isValueChar b = false)
    (h : Assigns (cs ++ [b]) kept value rest) : rest ≠ [] := by
  rintro rfl
  obtain ⟨value', d, rfl⟩ := (List.eq_nil_or_concat value).resolve_left h.nonempty
  have htext := h.text
  rw [List.append_nil, List.concat_eq_append, ← List.append_assoc] at htext
  obtain rfl : b = d := (List.cons.inj (List.append_inj_right' htext rfl)).1
  cases hb.symm.trans (h.value b (by simp))

theorem stops_append_iff {p : Char → Bool} (hb : p b = false) :
    Stops p (cs ++ [b]) ↔ Stops p cs := by
  cases cs with
  | nil => exact iff_of_true (by rintro c ⟨⟩; exact hb) nofun
  | cons c cs => rfl

/-- A character that belongs to no value ends each assignment before it. -/
theorem assigns_append_iff (hb : isValueChar b = false) :
    Assigns (cs ++ [b]) kept value rest ↔
      ∃ rest', rest = rest' ++ [b] ∧ Assigns cs kept value rest' := by
  constructor
  · intro h
    obtain ⟨rest', rfl, hcs⟩ := h.rest_eq (h.rest_ne_nil hb)
    exact ⟨rest', rfl, hcs, h.target, h.nonempty, h.value, (stops_append_iff hb).1 h.stops⟩
  · rintro ⟨rest', rfl, h⟩
    refine ⟨?_, h.target, h.nonempty, h.value, (stops_append_iff hb).2 h.stops⟩
    rw [h.text, List.append_assoc, List.append_assoc]

theorem maskAssignments_append (hb : isValueChar b = false) :
    maskAssignments w (cs ++ [b]) = maskAssignments w cs ++ [b] := by
  induction w, cs using assignments_induction with
  | nil w =>
    rw [List.nil_append, maskAssignments_mark (isLetter_of_not_value hb), maskAssignments,
      maskAssignments, List.nil_append]
  | @assigned cs kept value rest ha ih =>
    have ha' := (assigns_append_iff hb).2 ⟨rest, rfl, ha⟩
    rw [maskAssignments_of_assigns ha, maskAssignments_of_assigns ha', ih]
    simp only [List.append_assoc]
  | @plain w c cs hno ih =>
    rw [maskAssignments_cons hno, List.cons_append, maskAssignments_cons, ih, List.cons_append]
    intro hw kept value rest ha
    obtain ⟨rest', -, hbefore⟩ := (assigns_append_iff hb).1 (List.cons_append ▸ ha)
    exact hno hw _ _ _ hbefore

/-- Masking assignments leaves an enclosed text as one piece up to its quote. -/
theorem Enclosed.masked (hq : isQuote q = true) (h : Enclosed q w cs) :
    ∃ u, (∀ c ∈ u, isQuote c = false) ∧ maskAssignments w (cs ++ [q]) = u ++ [q] := by
  induction h with
  | nil =>
    refine ⟨[], nofun, ?_⟩
    rw [List.nil_append, maskAssignments_mark (isLetter_of_isQuote hq), maskAssignments]
  | @plain w c cs hc hno h ih =>
    obtain ⟨u, hu, hmasked⟩ := ih
    refine ⟨c :: u, List.forall_mem_cons.2 ⟨hc, hu⟩, ?_⟩
    rw [List.cons_append, maskAssignments_cons hno, hmasked, List.cons_append]
  | @assigned cs kept value rest ha h ih =>
    obtain ⟨u, hu, hmasked⟩ := ih
    refine ⟨kept ++ (mask ++ u), ?_, ?_⟩
    · exact List.forall_mem_append.2
        ⟨ha.target.not_quote, List.forall_mem_append.2 ⟨mask_not_quote, hu⟩⟩
    · rw [maskAssignments_of_assigns ha, hmasked]
      simp only [List.append_assoc]

/-- The end of the mask is not the quote. -/
theorem eq_append_of_mask (hq : isQuote q = true) (h : kept ++ (mask ++ v) = u ++ [q]) :
    ∃ v', v = v' ++ [q] ∧ u = kept ++ (mask ++ v') := by
  rw [← List.append_assoc] at h
  obtain ⟨a, hu, hv⟩ | ⟨a, hmask, hq'⟩ := List.append_eq_append_iff.1 h
  · exact ⟨a, hv, by rw [hu, List.append_assoc]⟩
  · obtain ⟨rfl, rfl⟩ | ⟨rfl, rfl⟩ := List.singleton_eq_append_iff.1 hq'
    · exact ⟨[], rfl, by rw [List.append_nil, hmask, List.append_nil]⟩
    · have hlast := congrArg List.getLast? hmask
      simp only [List.getLast?_append, mask] at hlast
      cases hlast
      cases hq

/-- Only an enclosed text is left as one piece. -/
theorem enclosed_of_masked (hq : isQuote q = true) (htext : v = cs ++ [q])
    (hu : ∀ c ∈ u, isQuote c = false) (h : maskAssignments w v = u ++ [q]) : Enclosed q w cs := by
  induction w, v using assignments_induction generalizing cs u with
  | nil w => exact absurd htext.symm (by simp)
  | @assigned text kept value rest ha ih =>
    subst htext
    rw [maskAssignments_of_assigns ha] at h
    obtain ⟨u', hrest, rfl⟩ := eq_append_of_mask hq h
    have hne : rest ≠ [] := by
      rintro rfl
      rw [maskAssignments] at hrest
      simp at hrest
    obtain ⟨rest', rfl, -⟩ := ha.rest_eq hne
    exact .assigned ha (ih rfl (fun c hc => hu c (by simp [hc])) hrest)
  | @plain w c text hno ih =>
    rw [maskAssignments_cons hno] at h
    cases cs with
    | nil => exact .nil
    | cons d cs =>
      obtain ⟨rfl, rfl⟩ := List.cons.inj htext
      cases u with
      | nil => exact absurd (List.cons.inj h).2 (maskAssignments_ne_nil (by simp))
      | cons e u =>
        obtain ⟨rfl, htail⟩ := List.cons.inj h
        obtain ⟨hc, hu⟩ := List.forall_mem_cons.1 hu
        exact .plain hc hno (ih rfl hu htail)

/-- Masking assignments leaves an enclosed text as one piece up to its quote, and no other one. -/
theorem enclosed_iff (hq : isQuote q = true) :
    Enclosed q w cs ↔
      ∃ u, (∀ c ∈ u, isQuote c = false) ∧ maskAssignments w (cs ++ [q]) = u ++ [q] :=
  ⟨fun h => h.masked hq, fun ⟨_, hu, h⟩ => enclosed_of_masked hq rfl hu h⟩

theorem Assigns.mem_equals (h : Assigns cs kept value rest) : '=' ∈ cs := by
  obtain ⟨rfl, ⟨key, _, rfl, -, b, b', rfl, -⟩, -⟩ := h
  simp

/-- A text without equals signs holds no assignment to hide a quote in. -/
theorem enclosed_iff_of_not_mem (hq : isQuote q = true) (h : '=' ∉ cs) :
    Enclosed q w cs ↔ ∀ c ∈ cs, isQuote c = false := by
  have hne : '=' ≠ q := by
    rintro rfl
    cases hq
  constructor
  · intro henclosed
    induction henclosed with
    | nil => exact nofun
    | plain hc hno htail ih =>
      exact List.forall_mem_cons.2 ⟨hc, ih fun hmem => h (List.mem_cons_of_mem _ hmem)⟩
    | assigned ha htail ih =>
      rcases List.mem_append.1 ha.mem_equals with hmem | hmem
      · exact absurd hmem h
      · exact absurd (List.mem_singleton.1 hmem) hne
  · intro hplain
    induction cs generalizing w with
    | nil => exact .nil
    | cons c cs ih =>
      obtain ⟨hc, hplain⟩ := List.forall_mem_cons.1 hplain
      have htail := ih (w := isWord c) (fun hmem => h (List.mem_cons_of_mem _ hmem)) hplain
      refine .plain hc (fun _ _ _ _ ha => ?_) htail
      have hmem : '=' ∈ (c :: cs) ++ [q] := ha.mem_equals
      rcases List.mem_append.1 hmem with hmem | hmem
      · exact h hmem
      · exact hne (List.mem_singleton.1 hmem)

/-! ## The field around the value -/

/-- A keyword between quotes, a colon and the quote that opens the value, as they are printed. -/
def label (k : String) (q : Char) : List Char := '\'' :: (k.toList ++ '\'' :: ([':', ' '] ++ [q]))

/-- A mapping of a keyword as it is printed, with the given text between the quotes of its value. -/
def printedField (k : String) (q : Char) (body : List Char) : List Char :=
  '\x7b' :: (label k q ++ (body ++ [q, '\x7d']))

theorem isKeyword_of_mem (hk : k ∈ keywords) : IsKeyword k.toList := by
  have hall : ∀ k ∈ keywords, k.toList.map letterOf = k.toList := by decide
  exact ⟨k, hk, hall k hk⟩

theorem isLabel_label (hk : k ∈ keywords) (hq : isQuote q = true) : IsLabel (label k q) :=
  ⟨'\'', k.toList, '\'', [':', ' '], q, rfl, rfl, isKeyword_of_mem hk, rfl,
    ⟨[], [' '], rfl, nofun, forall_mem_of_all (by decide)⟩, hq⟩

theorem maskAssignments_letters (hu : ∀ c ∈ u, isLetter c = true) :
    maskAssignments true (u ++ v) = u ++ maskAssignments true v := by
  induction u with
  | nil => rfl
  | cons c u ih =>
    obtain ⟨hc, hu⟩ := List.forall_mem_cons.1 hu
    rw [List.cons_append, maskAssignments_true_cons, isWord_of_isLetter hc, ih hu, List.cons_append]

theorem maskAssignments_quote (hq : isQuote q = true) :
    maskAssignments w (q :: v) = q :: maskAssignments false v := by
  rw [maskAssignments_mark (isLetter_of_isQuote hq), not_word_of_quote hq]

/-- No assignment begins in a field before its value. -/
theorem maskAssignments_label (hk : k ∈ keywords) (hq : isQuote q = true) (v : List Char) :
    maskAssignments w (label k q ++ v) = label k q ++ maskAssignments false v := by
  have hkey := isKeyword_of_mem hk
  have hno := not_assigns_of_quote hkey (q := '\'') rfl (':' :: ' ' :: q :: v)
  obtain ⟨c, m, hcm, hc, hm⟩ := hkey.exists_cons
  have hcolon : ∀ w, maskAssignments w (':' :: ' ' :: q :: v) =
      ':' :: ' ' :: q :: maskAssignments false v := by
    intro w
    rw [maskAssignments_mark (by decide), maskAssignments_mark (by decide),
      maskAssignments_quote hq]
  rw [hcm] at hno
  simp only [label, hcm, List.cons_append, List.append_assoc, List.nil_append] at hno ⊢
  rw [maskAssignments_quote rfl, maskAssignments_cons fun _ => hno, isWord_of_isLetter hc,
    maskAssignments_letters hm, maskAssignments_quote rfl, hcolon]

theorem maskQuoted_of_plain (hu : ∀ c ∈ u, isQuote c = false) : maskQuoted u = u := by
  have happend := maskQuoted_append hu []
  rw [maskQuoted, List.append_nil] at happend
  exact happend

theorem maskQuoted_label (hk : k ∈ keywords) (hq : isQuote q = true)
    (hu : ∀ c ∈ u, isQuote c = false) (hc : isQuote c = true) :
    maskQuoted ('\x7b' :: (label k q ++ (u ++ c :: rest))) =
      '\x7b' :: (label k q ++ (mask ++ c :: maskQuoted rest)) := by
  have hfield : Quotes (label k q ++ (u ++ c :: rest)) (label k q) u c rest :=
    ⟨rfl, isLabel_label hk hq, hu, hc⟩
  rw [← maskQuoted_of_quotes hfield]
  exact maskQuoted_append (u := ['\x7b']) (forall_mem_of_all (by decide)) _

/-- The field is masked as a whole if its value is one piece up to its quote. -/
theorem maskQuoted_label_eq_iff (hk : k ∈ keywords) (hq : isQuote q = true) :
    maskQuoted ('\x7b' :: (label k q ++ (v ++ ['\x7d']))) = printedField k q mask ↔
      ∃ u, (∀ c ∈ u, isQuote c = false) ∧ v = u ++ [q] := by
  constructor
  · intro h
    -- scrubbing keeps the number of quotes, so that there is just one in the value
    have hone : v.countP isQuote = 1 := by
      have hcount := congrArg (List.countP isQuote) h
      have hmask : mask.countP isQuote = 0 := by decide
      rw [countP_isQuote_maskQuoted] at hcount
      simp only [printedField, List.countP_cons, List.countP_append, List.countP_nil, hmask, hq,
        if_true] at hcount
      omega
    obtain ⟨u, c, rest, rfl, hu, hc⟩ := exists_quote (show 0 < v.countP isQuote by omega)
    have hrest : ∀ c ∈ rest ++ ['\x7d'], isQuote c = false := by
      simp only [List.countP_append, List.countP_cons, hc, if_true] at hone
      have hnone := List.countP_eq_zero.1 (show rest.countP isQuote = 0 by omega)
      exact List.forall_mem_append.2 ⟨by simpa using hnone, forall_mem_of_all (by decide)⟩
    rw [List.append_assoc, List.cons_append, maskQuoted_label hk hq hu hc,
      maskQuoted_of_plain hrest] at h
    have hcut := List.append_cancel_left (List.append_cancel_left (List.cons.inj h).2)
    obtain ⟨rfl, hend⟩ := List.cons.inj hcut
    obtain rfl := List.append_left_eq_self.1 hend
    exact ⟨u, hu, rfl⟩
  · rintro ⟨u, hu, rfl⟩
    rw [List.append_assoc, List.singleton_append, maskQuoted_label hk hq hu hq,
      maskQuoted_of_plain (forall_mem_of_all (by decide))]
    rfl

/-! ## Printed mappings -/

/-- What is printed between the quotes of a text. -/
def between (s : String) : List Char := s.toList.flatMap fun c => (escapeChar (quoteFor s) c).toList

theorem toList_quoted (s : String) :
    (quoted s).toList = quoteFor s :: (between s ++ [quoteFor s]) := by
  simp [quoted, between, String.toList_join, List.flatMap, Function.comp_def]

theorem quoteFor_eq (s : String) :
    quoteFor s = if '\'' ∈ s.toList ∧ '"' ∉ s.toList then '"' else '\'' := by
  simp [quoteFor, String.contains_char_eq]

theorem isQuote_quoteFor (s : String) : isQuote (quoteFor s) = true := by
  rw [quoteFor]
  split <;> rfl

/-- A text is put between quotes that it does not hold, unless it holds both. -/
theorem quoteFor_not_mem {s : String} (h : '\'' ∉ s.toList ∨ '"' ∉ s.toList) :
    quoteFor s ∉ s.toList := by
  rw [quoteFor_eq]
  split
  · next hs => exact hs.2
  · next hs => exact fun hsingle => hs ⟨hsingle, h.resolve_left (not_not_intro hsingle)⟩

theorem escapeChar_of_printable (hc : isPrintable c = true) (hslash : c ≠ '\\') (hne : c ≠ q) :
    escapeChar q c = String.singleton c := by
  have hcontrol : ∀ d ∈ ['\n', '\r', '\t'], c ≠ d := by
    have hall : ∀ d ∈ ['\n', '\r', '\t'], isPrintable d = false :=
      forall_mem_of_all (by decide +kernel)
    rintro d hd rfl
    cases hc.symm.trans (hall c hd)
  simp [escapeChar, hslash, hne, hcontrol, hc]

/-- A text of printable characters without backslashes is printed as it is, unless it holds both
quotes. -/
theorem between_eq_self {s : String} (hs : ∀ c ∈ s.toList, isPrintable c = true ∧ c ≠ '\\')
    (h : '\'' ∉ s.toList ∨ '"' ∉ s.toList) : between s = s.toList := by
  have hone : ∀ c ∈ s.toList, (escapeChar (quoteFor s) c).toList = [c] := by
    intro c hc
    have hne : c ≠ quoteFor s := fun he => quoteFor_not_mem h (he ▸ hc)
    rw [escapeChar_of_printable (hs c hc).1 (hs c hc).2 hne, String.toList_singleton]
  rw [between, List.flatMap, List.map_congr_left hone, ← List.flatMap, List.flatMap_singleton']

theorem quoted_keyword (hk : k ∈ keywords) : (quoted k).toList = '\'' :: (k.toList ++ ['\'']) := by
  have hall : ∀ k ∈ keywords, '\'' ∉ k.toList ∧
      (k.toList.all fun c => decide (isPrintable c = true ∧ c ≠ '\\')) = true := by
    decide +kernel
  obtain ⟨hsingle, hplain⟩ := hall k hk
  rw [toList_quoted, between_eq_self (forall_mem_of_all hplain) (.inl hsingle), quoteFor_eq,
    if_neg fun h => hsingle h.1]

theorem toList_display_field (hk : k ∈ keywords) (v : String) :
    (Value.display (.mapping [(.text k, .text v)])).toList =
      printedField k (quoteFor v) (between v) := by
  have htext : Value.display (.mapping [(.text k, .text v)]) =
      "\x7b" ++ (quoted k ++ ": " ++ quoted v) ++ "\x7d" := rfl
  rw [htext]
  simp [quoted_keyword hk, toList_quoted, printedField, label]

/-- The characters that redaction looks for around values. -/
def marks : List Char := ['=', '\'', '"']

theorem mark_not_mem_hexText {x : Char} (hx : x ∈ marks) (width n : Nat) :
    x ∉ (hexText width n).toList := by
  have hdigit : ∀ d < 16, x ≠ Nat.digitChar d := by
    have hall : ∀ x ∈ marks, ∀ d < 16, x ≠ Nat.digitChar d := forall_mem_of_all (by decide)
    exact hall x hx
  have hdigits : x ∉ Nat.toDigits 16 n := by
    induction n using Nat.strongRecOn with
    | ind n ih =>
    rw [Nat.toDigits_eq_if (by decide)]
    split
    · next hlt => simpa using hdigit n hlt
    · next hle =>
      have hshorter := ih (n / 16) (by omega)
      simpa [hshorter] using hdigit (n % 16) (by omega)
  rw [hexText, String.toList_ofList, List.mem_append, not_or]
  exact ⟨fun hzero => hdigit 0 (by decide) (List.eq_of_mem_replicate hzero), hdigits⟩

/-- Escaping neither brings a mark about nor takes one away. -/
theorem mark_mem_escapeChar_iff {x : Char} (hx : x ∈ marks) :
    x ∈ (escapeChar q c).toList ↔ x = c := by
  have hall : ∀ x ∈ marks, isPrintable x = true ∧
      x ∉ ['\\', 'n', 'r', 't', 'x', 'u', 'U', '\n', '\r', '\t'] :=
    forall_mem_of_all (by decide +kernel)
  obtain ⟨hprintable, hother⟩ := hall x hx
  simp only [List.mem_cons, not_or] at hother
  have hhex := mark_not_mem_hexText hx
  rw [escapeChar]
  split
  · next hc => simp [hother, beq_iff_eq.1 hc]
  split
  · simp [hother]
  split
  · next hc => simp [hother, beq_iff_eq.1 hc]
  split
  · next hc => simp [hother, beq_iff_eq.1 hc]
  split
  · next hc => simp [hother, beq_iff_eq.1 hc]
  split
  · simp
  · next hc =>
    have hne : x ≠ c := by
      rintro rfl
      exact hc hprintable
    split
    · simp [hother, hhex, hne]
    split <;> simp [hother, hhex, hne]

theorem mark_mem_between_iff {x : Char} (hx : x ∈ marks) (s : String) :
    x ∈ between s ↔ x ∈ s.toList := by
  simp [between, mark_mem_escapeChar_iff hx]

/-- What is left of a printed mapping of a keyword. -/
theorem scrub_display_eq_iff (hk : k ∈ keywords) (v : String) :
    scrub (Value.display (.mapping [(.text k, .text v)])) =
        String.ofList (printedField k (quoteFor v) mask) ↔
      Enclosed (quoteFor v) false (between v) := by
  have hq := isQuote_quoteFor v
  have hmasked : maskAssignments false (printedField k (quoteFor v) (between v)) =
      '\x7b' :: (label k (quoteFor v) ++
        (maskAssignments false (between v ++ [quoteFor v]) ++ ['\x7d'])) := by
    have hbody : between v ++ [quoteFor v, '\x7d'] = (between v ++ [quoteFor v]) ++ ['\x7d'] := by
      rw [List.append_assoc, List.singleton_append]
    rw [printedField, maskAssignments_mark (by decide), maskAssignments_label hk hq, hbody,
      maskAssignments_append (by decide)]
  rw [scrub, toList_display_field hk, hmasked, String.ofList_inj, maskQuoted_label_eq_iff hk hq,
    ← enclosed_iff hq]

/-- A printed credential is masked, and nothing else changes, if and only if its value is enclosed.
Without equals signs that is so if and only if the value has no quotes. -/
theorem printed_credential_masked_iff (hk : k ∈ keywords) (v : String) :
    (Value.display (.mapping [(.text k, .text v)]) =
        String.ofList (printedField k (quoteFor v) (between v)) ∧
      (scrub (Value.display (.mapping [(.text k, .text v)])) =
          String.ofList (printedField k (quoteFor v) mask) ↔
        Enclosed (quoteFor v) false (between v))) ∧
    ('=' ∉ v.toList →
      (scrub (Value.display (.mapping [(.text k, .text v)])) =
          String.ofList (printedField k (quoteFor v) mask) ↔
        '\'' ∉ v.toList ∧ '"' ∉ v.toList)) := by
  refine ⟨⟨?_, scrub_display_eq_iff hk v⟩, fun hv => ?_⟩
  · rw [← toList_display_field hk, String.ofList_toList]
  · have hequals : '=' ∉ between v := fun h => hv ((mark_mem_between_iff (by decide) v).1 h)
    rw [scrub_display_eq_iff hk, enclosed_iff_of_not_mem (isQuote_quoteFor v) hequals]
    rw [← mark_mem_between_iff (by decide) v, ← mark_mem_between_iff (by decide) v]
    simp only [isQuote, Bool.or_eq_false_iff, beq_eq_false_iff_ne]
    constructor
    · exact fun h => ⟨fun hs => (h _ hs).2 rfl, fun hd => (h _ hd).1 rfl⟩
    · rintro ⟨hs, hd⟩ c hc
      exact ⟨fun he => hd (he ▸ hc), fun he => hs (he ▸ hc)⟩

/-- A quote within an assignment that ends before the value does is masked with it. -/
theorem printed_credential_masked_in_assignment :
    "password" ∈ keywords ∧ '=' ∉ "open sesame".toList ∧
    scrub (Value.display (.mapping [(.text "password", .text "open sesame")])) =
      "\x7b'password': '****'\x7d" ∧
    scrub (Value.display (.mapping [(.text "password", .text "token='x y")])) =
      "\x7b'password': \"****\"\x7d" := by
  have hsingle : quoteFor "open sesame" = '\'' := by
    rw [quoteFor_eq]
    decide
  have hdouble : quoteFor "token='x y" = '"' := by
    rw [quoteFor_eq]
    decide
  have hvalue : Assigns ("token='x y".toList ++ ['"']) "token=".toList "'x".toList
      (" y".toList ++ ['"']) :=
    ⟨by decide, ⟨"token".toList, ['='], by decide, isKeyword_of_mem (by decide), [], [], rfl,
      nofun, nofun⟩, by decide, forall_mem_of_all (by decide), by rintro c ⟨⟩; decide⟩
  have hafter : Enclosed '"' true " y".toList :=
    (enclosed_iff_of_not_mem rfl (by decide)).2 (forall_mem_of_all (by decide))
  refine ⟨by decide, by decide, ?_, ?_⟩
  · rw [((printed_credential_masked_iff (by decide) _).2 (by decide)).2 (by decide), hsingle]
    decide
  · rw [(printed_credential_masked_iff (by decide) _).1.2.2, hdouble]
    · decide
    · rw [hdouble, between_eq_self (forall_mem_of_all (by decide +kernel)) (.inr (by decide))]
      exact .assigned hvalue hafter

/-- What follows the first quote of a value is not masked. -/
theorem printed_credential_leaks :
    "password" ∈ keywords ∧ (∀ c ∈ "it's".toList, isPrintable c = true ∧ c ≠ '\\') ∧
    '"' ∉ "it's".toList ∧
    Value.display (.mapping [(.text "password", .text "it's")]) =
      "\x7b'password': \"it's\"\x7d" ∧
    scrub (Value.display (.mapping [(.text "password", .text "it's")])) =
      "\x7b'password': \"****'s\"\x7d" ∧
    scrub (Value.display (.mapping [(.text "password", .text "it's")])) ≠
      "\x7b'password': \"****\"\x7d" := by
  have hplain : ∀ c ∈ "it's".toList, isPrintable c = true ∧ c ≠ '\\' :=
    forall_mem_of_all (by decide +kernel)
  have hdisplay : Value.display (.mapping [(.text "password", .text "it's")]) =
      "\x7b'password': \"it's\"\x7d" := by
    rw [← String.toList_inj, toList_display_field (by decide), quoteFor_eq,
      between_eq_self hplain (.inr (by decide))]
    decide
  rw [hdisplay]
  refine ⟨by decide, hplain, by decide, rfl, by decide +kernel, by decide +kernel⟩

end Redaction

end Roster
