import Mathlib.Data.List.TakeWhile
import Roster.Proofs.Typing
import Roster.Store.Snapshot

/-!
# References and their written form

Writing joins id and provider by a semicolon, and reading splits at the last one
(`splitLast_eq_some_iff`, `parse_cases`).

* `Survives`: written and read, the reference is what it was. `survives_iff` says that this is so
  exactly if its provider is a text that is not empty and has no semicolon, or if there is no
  provider and the id has no semicolon.
* `written_parse_iff`: read and written, a text is what it was unless it ends with a semicolon.
* `Survives.eq_of_written`: references that survive are told apart by their written forms.
* `written_form_exact`: all of this in one.
* `Stable`: the reference is read back as itself from a snapshot, where the empty text stands for no
  reference (`entryRef_written`, `stable_iff_survives`).
-/

namespace Roster

namespace Ref

/-- The provider is not empty and has no semicolon, or there is none and this holds of the id. -/
def Stable (r : Ref) : Prop :=
  (∃ p, r.provider = .text p ∧ p ≠ "" ∧ ';' ∉ p.toList) ∨
  (r.provider = .null ∧ ∃ i, r.id = .text i ∧ i ≠ "" ∧ ';' ∉ i.toList)

/-- Written as a text, the reference is what the text stands for. -/
def Survives (r : Ref) : Prop := ∃ t, r.written = .text t ∧ parse t = r

theorem splitLast_append {a b : List Char} (h : ';' ∉ b) :
    splitLast (a ++ ';' :: b) = some (a, b) := by
  have hb : ∀ c ∈ b.reverse, (c != ';') = true := by
    intro c hc
    rw [bne_iff_ne]
    rintro rfl
    exact h (List.mem_reverse.1 hc)
  have hr : (a ++ ';' :: b).reverse = b.reverse ++ ';' :: a.reverse := by simp
  unfold splitLast
  rw [hr, List.dropWhile_append_of_pos hb, List.takeWhile_append_of_pos hb]
  simp

theorem splitLast_eq_some {s a b : List Char} (h : splitLast s = some (a, b)) :
    s = a ++ ';' :: b ∧ ';' ∉ b := by
  unfold splitLast at h
  split at h
  · cases h
  · next c front hd =>
    cases h
    have hc : c = ';' := by
      have hn := List.head?_dropWhile_not (· != ';') s.reverse
      rw [hd] at hn
      simpa using hn
    subst hc
    refine ⟨?_, fun hm => ?_⟩
    · have hs := List.takeWhile_append_dropWhile (p := (· != ';')) (l := s.reverse)
      rw [hd] at hs
      calc s = s.reverse.reverse := (List.reverse_reverse s).symm
        _ = (s.reverse.takeWhile (· != ';') ++ ';' :: front).reverse := by rw [hs]
        _ = front.reverse ++ ';' :: (s.reverse.takeWhile (· != ';')).reverse := by simp
    · have ht := List.mem_takeWhile_imp (List.mem_reverse.1 hm)
      simp at ht

/-- Splitting finds the two parts that a last semicolon joins. -/
theorem splitLast_eq_some_iff {s a b : List Char} :
    splitLast s = some (a, b) ↔ s = a ++ ';' :: b ∧ ';' ∉ b := by
  constructor
  · exact splitLast_eq_some
  · rintro ⟨rfl, h⟩
    exact splitLast_append h

theorem splitLast_eq_none_iff {s : List Char} : splitLast s = none ↔ ';' ∉ s := by
  constructor
  · intro h hm
    unfold splitLast at h
    split at h
    · next hd =>
      rw [List.dropWhile_eq_nil_iff] at hd
      have := hd ';' (List.mem_reverse.2 hm)
      simp at this
    · cases h
  · intro h
    cases hs : splitLast s with
    | none => rfl
    | some p =>
      obtain ⟨a, b⟩ := p
      obtain ⟨rfl, -⟩ := splitLast_eq_some_iff.1 hs
      simp at h

/-! ## Written and read back -/

theorem written_of_no_provider {r : Ref} (h : r.provider = .null) : r.written = r.id := by
  simp [written, h, Value.truthy]

theorem written_of_empty_provider {r : Ref} (h : r.provider = .text "") : r.written = r.id := by
  simp [written, h, Value.truthy]

theorem written_of_provider {r : Ref} {i p : String} (hi : r.id = .text i)
    (h : r.provider = .text p) (hp : p ≠ "") : r.written = .text (i ++ ";" ++ p) := by
  simp [written, hi, h, hp, Value.truthy]

theorem Typed.written {r : Ref} (h : r.Typed) : r.written.IsText := by
  obtain ⟨i, hi⟩ := h.id
  rcases h.provider with hp | ⟨p, hp⟩
  · exact ⟨i, by rw [written_of_no_provider hp, hi]⟩
  · by_cases he : p = ""
    · subst he
      exact ⟨i, by rw [written_of_empty_provider hp, hi]⟩
    · exact ⟨_, written_of_provider hi hp he⟩

theorem Typed.shown? {r : Ref} (h : r.Typed) : ∃ t, r.shown? = some t := by
  obtain ⟨t, ht⟩ := h.written
  exact ⟨t, by simp [Ref.shown?, ht, Value.text?]⟩

/-- A text without a semicolon is an id of no known provider. -/
theorem parse_of_not_mem {s : String} (h : ';' ∉ s.toList) : parse s = ⟨.text s, .null⟩ := by
  unfold parse
  rw [splitLast_eq_none_iff.2 h]

theorem parse_join {i p : String} (hp : p ≠ "") (h : ';' ∉ p.toList) :
    parse (i ++ ";" ++ p) = ⟨.text i, .text p⟩ := by
  have hs : (i ++ ";" ++ p).toList = i.toList ++ ';' :: p.toList := by simp
  have he : p.toList ≠ [] := by simpa using hp
  unfold parse
  rw [hs, splitLast_eq_some_iff.2 ⟨rfl, h⟩]
  simp [he]

/-- A semicolon at the end separates the id from nothing. -/
theorem parse_append (i : String) : parse (i ++ ";") = ⟨.text i, .null⟩ := by
  have hs : (i ++ ";").toList = i.toList ++ ';' :: [] := by simp
  unfold parse
  rw [hs, splitLast_eq_some_iff.2 ⟨rfl, List.not_mem_nil⟩]
  simp

/-- What a text stands for: an id alone if it has no semicolon or if the last one is at its end,
otherwise an id and a provider. -/
theorem parse_cases (s : String) :
    (';' ∉ s.toList ∧ parse s = ⟨.text s, .null⟩) ∨
    (∃ i, s = i ++ ";" ∧ parse s = ⟨.text i, .null⟩) ∨
    (∃ i p, s = i ++ ";" ++ p ∧ p ≠ "" ∧ ';' ∉ p.toList ∧ parse s = ⟨.text i, .text p⟩) := by
  cases hs : splitLast s.toList with
  | none =>
    have hnot := splitLast_eq_none_iff.1 hs
    exact .inl ⟨hnot, parse_of_not_mem hnot⟩
  | some parts =>
    obtain ⟨a, b⟩ := parts
    obtain ⟨he, hb⟩ := splitLast_eq_some_iff.1 hs
    obtain rfl : s = String.ofList a ++ ";" ++ String.ofList b := by
      rw [← String.toList_inj, he]
      simp
    by_cases hne : String.ofList b = ""
    · rw [hne, String.append_empty]
      exact .inr (.inl ⟨_, rfl, parse_append _⟩)
    · have hp : ';' ∉ (String.ofList b).toList := by simpa using hb
      exact .inr (.inr ⟨_, _, rfl, hne, hp, parse_join hne hp⟩)

/-- The provider that a text names is not empty and has no semicolon. -/
theorem provider_parse (s : String) :
    (parse s).provider = .null ∨
      ∃ p, (parse s).provider = .text p ∧ p ≠ "" ∧ ';' ∉ p.toList := by
  rcases parse_cases s with ⟨-, h⟩ | ⟨i, -, h⟩ | ⟨i, p, -, hne, hp, h⟩
  · exact .inl (by rw [h])
  · exact .inl (by rw [h])
  · exact .inr ⟨p, by rw [h], hne, hp⟩

/-- A text stands for a reference whose parts are texts. -/
theorem typed_parse (s : String) : (parse s).Typed where
  id := by
    rcases parse_cases s with ⟨-, h⟩ | ⟨i, -, h⟩ | ⟨i, p, -, -, -, h⟩ <;> exact ⟨_, by rw [h]⟩
  provider := by
    rcases provider_parse s with h | ⟨p, h, -⟩
    · exact .inl h
    · exact .inr ⟨p, h⟩

/-! ## What survives -/

/-- A semicolon at the end is not written again. -/
theorem written_parse_append (i : String) : (parse (i ++ ";")).written ≠ .text (i ++ ";") := by
  rw [parse_append, written_of_no_provider rfl]
  intro h
  have he : i = i ++ ";" := by simpa using h
  simpa using congrArg String.length he

theorem survives_iff_parse {r : Ref} {t : String} (h : r.written = .text t) :
    r.Survives ↔ parse t = r := by
  constructor
  · rintro ⟨u, hu, hp⟩
    obtain rfl : u = t := by simpa using hu.symm.trans h
    exact hp
  · exact fun hp => ⟨t, h, hp⟩

/-- A reference survives being written and read exactly if its id is a text and its provider is a
text that is not empty and has no semicolon, or there is no provider and the id has no semicolon. -/
theorem survives_iff {r : Ref} :
    r.Survives ↔ ∃ i, r.id = .text i ∧
      ((∃ p, r.provider = .text p ∧ p ≠ "" ∧ ';' ∉ p.toList) ∨
        (r.provider = .null ∧ ';' ∉ i.toList)) := by
  constructor
  · rintro ⟨t, ht, rfl⟩
    rcases parse_cases t with ⟨hi, h⟩ | ⟨i, rfl, -⟩ | ⟨i, p, -, hne, hp, h⟩
    · exact ⟨t, by rw [h], .inr ⟨by rw [h], hi⟩⟩
    · exact absurd ht (written_parse_append i)
    · exact ⟨i, by rw [h], .inl ⟨p, by rw [h], hne, hp⟩⟩
  · obtain ⟨id, provider⟩ := r
    rintro ⟨i, rfl, ⟨p, rfl, hne, hp⟩ | ⟨rfl, hi⟩⟩
    · exact ⟨i ++ ";" ++ p, written_of_provider rfl rfl hne, parse_join hne hp⟩
    · exact ⟨i, written_of_no_provider rfl, parse_of_not_mem hi⟩

/-- The written form of a reference that survives tells which one it is. -/
theorem Survives.eq_of_written {q r : Ref} (hq : q.Survives) (hr : r.Survives)
    (h : q.written = r.written) : q = r := by
  obtain ⟨t, ht, rfl⟩ := hq
  obtain ⟨u, hu, rfl⟩ := hr
  obtain rfl : t = u := by simpa [ht, hu] using h
  rfl

/-- A text is written again as it was unless it ends with a semicolon. -/
theorem written_parse_iff {s : String} :
    (parse s).written = .text s ↔ s.toList.getLast? ≠ some ';' := by
  rcases parse_cases s with ⟨hs, h⟩ | ⟨i, rfl, -⟩ | ⟨i, p, rfl, hne, hp, h⟩
  · rw [h, written_of_no_provider rfl]
    exact iff_of_true rfl fun hl => hs (List.mem_of_getLast? hl)
  · exact iff_of_false (written_parse_append i) (by simp)
  · rw [h, written_of_provider rfl rfl hne]
    have he : p.toList ≠ [] := by simpa using hne
    have hlast : (i ++ ";" ++ p).toList.getLast? = p.toList.getLast? := by
      rw [String.toList_append, List.getLast?_append, List.getLast?_eq_some_getLast he,
        Option.some_or]
    rw [hlast]
    exact iff_of_true rfl fun hl => hp (List.mem_of_getLast? hl)

/-- Where ids are texts, reading undoes writing exactly for the references whose provider is not
empty and has no semicolon and for those without a provider whose id has none; writing undoes
reading exactly for the texts that do not end with a semicolon. So the references into one such
provider are told apart by their written forms, also where their ids have semicolons. -/
theorem written_form_exact :
    (∀ r : Ref, r.Survives ↔ ∃ i, r.id = .text i ∧
      ((∃ p, r.provider = .text p ∧ p ≠ "" ∧ ';' ∉ p.toList) ∨
        (r.provider = .null ∧ ';' ∉ i.toList))) ∧
    (∀ s : String, (parse s).written = .text s ↔ s.toList.getLast? ≠ some ';') ∧
    (∀ p : String, p ≠ "" → ';' ∉ p.toList →
      Function.Injective fun i : String => (⟨.text i, .text p⟩ : Ref).written) := by
  refine ⟨fun _ => survives_iff, fun _ => written_parse_iff, ?_⟩
  intro p hne hp i j h
  have hsurvives (k : String) : Survives ⟨.text k, .text p⟩ :=
    survives_iff.2 ⟨k, rfl, .inl ⟨p, rfl, hne, hp⟩⟩
  have heq := (hsurvives i).eq_of_written (hsurvives j) h
  simpa using congrArg Ref.id heq

/-- A distinguished name with a semicolon in it. -/
theorem written_form_exact_distinguishedName :
    "corp" ≠ "" ∧ ';' ∉ "corp".toList ∧
    Survives ⟨.text "cn=a;b,dc=example", .text "corp"⟩ ∧
    ¬ Survives ⟨.text "cn=a;b,dc=example", .null⟩ ∧
    (parse "cn=a;b,dc=example;corp").written = .text "cn=a;b,dc=example;corp" ∧
    (parse "cn=a;").written ≠ .text "cn=a;" ∧
    Function.Injective fun i : String => (⟨.text i, .text "corp"⟩ : Ref).written := by
  obtain ⟨hsurvives, hwritten, hinjective⟩ := written_form_exact
  have hne : "corp" ≠ "" := by decide
  have hp : ';' ∉ "corp".toList := by decide
  refine ⟨hne, hp, (hsurvives _).2 ⟨_, rfl, .inl ⟨_, rfl, hne, hp⟩⟩, fun h => ?_,
    (hwritten _).2 (by decide), fun h => (hwritten _).1 h (by decide), hinjective _ hne hp⟩
  obtain ⟨i, hi, ⟨p, hnull, -⟩ | ⟨-, hi'⟩⟩ := (hsurvives _).1 h
  · cases hnull
  · obtain rfl : "cn=a;b,dc=example" = i := by simpa using hi
    exact hi' (by decide)

/-- The empty id without a provider is the one reference that survives being written but is not
stable: in a snapshot the empty text stands for no reference. -/
theorem stable_iff_survives {r : Ref} (h : r.Typed) :
    r.Stable ↔ r.Survives ∧ r ≠ ⟨.text "", .null⟩ := by
  obtain ⟨i, hi⟩ := h.id
  obtain ⟨id, provider⟩ := r
  obtain rfl : id = .text i := hi
  rw [survives_iff]
  rcases h.provider with rfl | ⟨p, rfl⟩
  · simp [Stable, and_comm]
  · simp [Stable]

end Ref

namespace Store

theorem entryRef_text (t : String) :
    entryRef (.text t) = .ok (if t = "" then none else some (.parse t)) := by
  by_cases h : t = "" <;> simp [entryRef, Value.truthy, h]

/-- What the written form of a reference is read as; this is the reference itself exactly if it is
stable. -/
theorem entryRef_written {r : Ref} (h : r.Typed) :
    ∃ q, entryRef r.written = .ok q ∧ (q = some r ↔ r.Stable) := by
  obtain ⟨t, ht⟩ := h.written
  refine ⟨_, by rw [ht, entryRef_text], ?_⟩
  rw [Ref.stable_iff_survives h, Ref.survives_iff_parse ht]
  by_cases he : t = ""
  · subst he
    have hempty : Ref.parse "" = ⟨.text "", .null⟩ := rfl
    rw [if_pos rfl, hempty]
    exact iff_of_false nofun fun hr => hr.2 hr.1.symm
  · rw [if_neg he, Option.some.injEq]
    refine ⟨fun hp => ⟨hp, ?_⟩, fun hr => hr.1⟩
    rintro rfl
    rw [Ref.written_of_no_provider rfl] at ht
    exact he (by simpa using ht.symm)

end Store

end Roster
