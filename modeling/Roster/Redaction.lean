import Roster.Text.Blank
import Roster.Text.Word

/-!
# Redaction of credentials

Log messages are scrubbed before they are written: the value of a credential is replaced by four
stars. Two forms are recognised, first the one, then, in the result, the other.

* An assignment `key = value`: a credential keyword that starts a word, an equals sign, and a value
  up to a blank, a comma or a closing bracket.
* A quoted field `"key": "value"`: a keyword between quotes, a colon, and a value between quotes.

Keywords are recognised in any case. Matches are found from left to right and do not overlap.
`assignment?_eq_some` and `quotedField?_eq_some` say that a match is a piece of the text.
-/

namespace Roster

namespace Redaction

/-- The names of credentials. -/
def keywords : List String :=
  ["password", "bind_password", "keystore_password", "token", "secret", "credential", "pwd",
    "authorization", "api_key"]

/-- What stands in place of a value. -/
def mask : List Char := ['*', '*', '*', '*']

/-- Whether a character is a form of a small letter of a keyword. Besides the capital there are
the long s, the Kelvin sign and the i with and without a dot. -/
def isForm (letter c : Char) : Bool :=
  c.toLower == letter || (letter == 's' && c == 'ſ') || (letter == 'k' && c == '\u212a') ||
    (letter == 'i' && (c == 'İ' || c == 'ı'))

/-- A word at the start of the text, in any case, and the rest. -/
def takeWord : List Char → List Char → Option (List Char × List Char)
  | [], cs => some ([], cs)
  | _ :: _, [] => none
  | k :: ks, c :: cs =>
    if isForm k c then (takeWord ks cs).map fun p => (c :: p.1, p.2) else none

/-- A keyword at the start of the text and the rest. No keyword begins another one. -/
def takeKeyword (cs : List Char) : Option (List Char × List Char) :=
  keywords.findSome? fun k => takeWord k.toList cs

/-- A character of an assigned value. -/
def isValueChar (c : Char) : Bool := !isBlank c && c != ',' && c != '\x7d' && c != ']'

def isQuote (c : Char) : Bool := c == '"' || c == '\''

/-- A separator with blanks around it, and the rest. -/
def takeSeparator (sep : Char) (cs : List Char) : Option (List Char × List Char) :=
  match cs.dropWhile isBlank with
  | c :: rest =>
    if c == sep then
      some (cs.takeWhile isBlank ++ c :: rest.takeWhile isBlank, rest.dropWhile isBlank)
    else none
  | [] => none

/-- A quote and the rest. -/
def takeQuote : List Char → Option (List Char × List Char)
  | [] => none
  | c :: rest => if isQuote c then some ([c], rest) else none

/-- An assignment at the start of the text: what is kept of it, and the rest after its value. -/
def assignment? (cs : List Char) : Option (List Char × List Char) := do
  let (key, cs) ← takeKeyword cs
  let (sep, cs) ← takeSeparator '=' cs
  if (cs.takeWhile isValueChar).isEmpty then none
  else some (key ++ sep, cs.dropWhile isValueChar)

/-- A quoted field at the start of the text: what is kept before its value, and the rest from the
closing quote on. -/
def quotedField? (cs : List Char) : Option (List Char × List Char) := do
  let (q₁, cs) ← takeQuote cs
  let (key, cs) ← takeKeyword cs
  let (q₂, cs) ← takeQuote cs
  let (sep, cs) ← takeSeparator ':' cs
  let (q₃, cs) ← takeQuote cs
  match cs.dropWhile fun c => !isQuote c with
  | [] => none
  | closing => some (q₁ ++ (key ++ (q₂ ++ (sep ++ q₃))), closing)

theorem takeWord_eq_some {ks cs m r : List Char} (h : takeWord ks cs = some (m, r)) :
    cs = m ++ r := by
  induction ks generalizing cs m with
  | nil => cases h; rfl
  | cons k ks ih =>
    cases cs with
    | nil => cases h
    | cons c cs =>
      rw [takeWord] at h
      split at h
      · obtain ⟨⟨m', r'⟩, hp, he⟩ := Option.map_eq_some_iff.1 h
        cases he
        simp [← ih hp]
      · cases h

theorem takeKeyword_eq_some {cs m r : List Char} (h : takeKeyword cs = some (m, r)) :
    cs = m ++ r := by
  obtain ⟨k, -, hk⟩ := List.exists_of_findSome?_eq_some h
  exact takeWord_eq_some hk

theorem takeQuote_eq_some {cs m r : List Char} (h : takeQuote cs = some (m, r)) :
    cs = m ++ r := by
  cases cs with
  | nil => cases h
  | cons c cs =>
    rw [takeQuote] at h
    split at h <;> cases h
    rfl

theorem takeSeparator_eq_some {sep : Char} {cs m r : List Char}
    (h : takeSeparator sep cs = some (m, r)) : cs = m ++ r := by
  rw [takeSeparator] at h
  split at h
  · next c rest hd =>
    split at h <;> cases h
    have hcs : cs = cs.takeWhile isBlank ++ c :: rest := by
      rw [← hd, List.takeWhile_append_dropWhile]
    rw [List.append_assoc, List.cons_append, List.takeWhile_append_dropWhile]
    exact hcs
  · cases h

/-- A match is a piece of the text whose value is not empty. -/
theorem assignment?_eq_some {cs kept rest : List Char} (h : assignment? cs = some (kept, rest)) :
    ∃ value, value ≠ [] ∧ cs = kept ++ (value ++ rest) := by
  simp only [assignment?, Option.bind_eq_bind, Option.bind_eq_some_iff, Prod.exists] at h
  obtain ⟨key, cs₁, h₁, sep, cs₂, h₂, h⟩ := h
  split at h
  · cases h
  · next hv =>
    cases h
    refine ⟨cs₂.takeWhile isValueChar, by simpa using hv, ?_⟩
    rw [takeKeyword_eq_some h₁, takeSeparator_eq_some h₂]
    simp

/-- A match is a piece of the text that ends before its closing quote. -/
theorem quotedField?_eq_some {cs kept rest : List Char}
    (h : quotedField? cs = some (kept, rest)) :
    ∃ value, cs = kept ++ (value ++ rest) := by
  simp only [quotedField?, Option.bind_eq_bind, Option.bind_eq_some_iff, Prod.exists] at h
  obtain ⟨q₁, cs₁, h₁, key, cs₂, h₂, q₂, cs₃, h₃, sep, cs₄, h₄, q₃, cs₅, h₅, h⟩ := h
  split at h
  · cases h
  · next hd =>
    cases h
    refine ⟨cs₅.takeWhile fun c => !isQuote c, ?_⟩
    rw [takeQuote_eq_some h₁, takeKeyword_eq_some h₂, takeQuote_eq_some h₃,
      takeSeparator_eq_some h₄, takeQuote_eq_some h₅]
    simp

/-- The text with the values of assignments masked; `word` says whether a word character stands
before it. -/
def maskAssignments (word : Bool) (cs : List Char) : List Char :=
  match cs with
  | [] => []
  | c :: tail =>
    match _h : if word then none else assignment? (c :: tail) with
    | some (kept, rest) => kept ++ mask ++ maskAssignments true rest
    | none => c :: maskAssignments (isWord c) tail
termination_by cs.length
decreasing_by
  · split at _h
    · cases _h
    · obtain ⟨value, hv, e⟩ := assignment?_eq_some _h
      have := congrArg List.length e
      have : 0 < value.length := List.length_pos_iff.2 hv
      simp only [List.length_append] at *
      omega
  · simp

/-- The text with the values of quoted fields masked. -/
def maskQuoted (cs : List Char) : List Char :=
  match cs with
  | [] => []
  | c :: tail =>
    match _h : quotedField? (c :: tail) with
    | some (kept, closing :: rest) => kept ++ mask ++ closing :: maskQuoted rest
    | some (kept, []) => kept ++ mask
    | none => c :: maskQuoted tail
termination_by cs.length
decreasing_by
  · obtain ⟨value, e⟩ := quotedField?_eq_some _h
    have := congrArg List.length e
    simp only [List.length_append, List.length_cons] at *
    omega
  · simp

end Redaction

/-- A message without the values of its credentials. -/
def scrub (message : String) : String :=
  String.ofList (Redaction.maskQuoted (Redaction.maskAssignments false message.toList))

end Roster
