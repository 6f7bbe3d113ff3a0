import Roster.Directory.Name
import Roster.Value.Json
import Roster.Proofs.Changes

/-!
# What the values of distinguished names stand for

In the value of a component most characters stand for themselves. A backslash stands before a
character that would otherwise end the value or be lost, and before two hexadecimal digits that give
a byte of the UTF-8 form. So a value is a spelling of bytes (`Spells`), and of a text if these are
the bytes of one (`Denotes`).

* `existsUnique_spells_of_parse`: every value of a name that can be read spells one sequence of
  bytes.
* `Denotes.eq_iff`: a text is spelled by itself exactly if the spelling has no backslash, since with
  each backslash it is longer than what it stands for.
-/

namespace Roster

/-- The characters of a value spell bytes. -/
inductive Spells : List Char → List UInt8 → Prop
  | nil : Spells [] []
  /-- A character that stands for itself. -/
  | plain {c : Char} {cs : List Char} {bs : List UInt8} : c ≠ '\\' → Spells cs bs →
      Spells (c :: cs) (String.utf8EncodeChar c ++ bs)
  /-- A character that a backslash keeps from being anything but itself. -/
  | escaped {c : Char} {cs : List Char} {bs : List UInt8} : isHexDigit c = false → Spells cs bs →
      Spells ('\\' :: c :: cs) (String.utf8EncodeChar c ++ bs)
  /-- A byte by its two hexadecimal digits. -/
  | byte {a b : Char} {x y : Nat} {cs : List Char} {bs : List UInt8} : isHexDigit a = true →
      Json.hexValue? a = some x → Json.hexValue? b = some y → Spells cs bs →
      Spells ('\\' :: a :: b :: cs) (UInt8.ofNat (16 * x + y) :: bs)

/-- The bytes of characters. -/
def bytesOf (cs : List Char) : List UInt8 := cs.flatMap String.utf8EncodeChar

/-- The value is a spelling of the text. -/
def Denotes (value text : String) : Prop := Spells value.toList (bytesOf text.toList)

variable {cs cs' : List Char} {bs bs' : List UInt8} {c : Char} {value text : String}

theorem bytesOf_cons : bytesOf (c :: cs) = String.utf8EncodeChar c ++ bytesOf cs := rfl

/-- Texts are told apart by their bytes. -/
theorem eq_of_bytesOf_eq (h : bytesOf value.toList = bytesOf text.toList) : value = text := by
  have hbytes : (String.ofList value.toList).toByteArray
      = (String.ofList text.toList).toByteArray := congrArg List.toByteArray h
  rw [String.toByteArray_inj] at hbytes
  simpa using hbytes

namespace Spells

/-- Without a backslash everything stands for itself. -/
theorem eq_bytesOf (h : Spells cs bs) (hplain : '\\' ∉ cs) : bs = bytesOf cs := by
  induction h with
  | nil => rfl
  | plain _ _ ih =>
    rw [bytesOf_cons, ih fun hm => hplain (List.mem_cons_of_mem _ hm)]
  | escaped => exact absurd List.mem_cons_self hplain
  | byte => exact absurd List.mem_cons_self hplain

/-- What has no backslash spells itself. -/
theorem of_not_mem (hplain : '\\' ∉ cs) : Spells cs (bytesOf cs) := by
  induction cs with
  | nil => exact .nil
  | cons c cs ih =>
    rw [List.mem_cons, not_or] at hplain
    exact .plain (Ne.symm hplain.1) (ih hplain.2)

theorem append (h : Spells cs bs) (h' : Spells cs' bs') : Spells (cs ++ cs') (bs ++ bs') := by
  induction h with
  | nil => exact h'
  | plain hc _ ih =>
    rw [List.append_assoc]
    exact .plain hc ih
  | escaped hc _ ih =>
    rw [List.append_assoc]
    exact .escaped hc ih
  | byte hdigit ha hb _ ih => exact .byte hdigit ha hb ih

/-- What is spelled is not longer than its spelling, and shorter if there is a backslash. -/
theorem length_le (h : Spells cs bs) :
    bs.length ≤ (bytesOf cs).length ∧ ('\\' ∈ cs → bs.length < (bytesOf cs).length) := by
  have hone (c : Char) : 1 ≤ (String.utf8EncodeChar c).length := by
    rw [String.length_utf8EncodeChar]
    exact Char.utf8Size_pos c
  induction h with
  | nil => simp
  | plain hc _ ih =>
    simp only [bytesOf_cons, List.length_append, List.mem_cons]
    refine ⟨by omega, ?_⟩
    rintro (rfl | hm)
    · exact absurd rfl hc
    · have := ih.2 hm
      omega
  | @escaped c cs bs _ _ ih =>
    have := hone '\\'
    simp only [bytesOf_cons, List.length_append]
    omega
  | @byte a b x y cs bs _ _ _ _ ih =>
    have := hone '\\'
    have := hone a
    simp only [bytesOf_cons, List.length_append, List.length_cons]
    omega

/-- A spelling is one of a single sequence of bytes. -/
theorem unique (h : Spells cs bs) (h' : Spells cs bs') : bs = bs' := by
  induction h generalizing bs' with
  | nil =>
    cases h'
    rfl
  | plain hc _ ih =>
    cases h' with
    | plain _ h' => rw [ih h']
    | escaped => exact absurd rfl hc
    | byte => exact absurd rfl hc
  | escaped hc _ ih =>
    cases h' with
    | plain hc => exact absurd rfl hc
    | escaped _ h' => rw [ih h']
    | byte hc' => cases hc.symm.trans hc'
  | byte hdigit ha hb _ ih =>
    cases h' with
    | plain hc => exact absurd rfl hc
    | escaped hc => cases hc.symm.trans hdigit
    | byte _ ha' hb' h' =>
      obtain rfl := Option.some.inj (ha.symm.trans ha')
      obtain rfl := Option.some.inj (hb.symm.trans hb')
      rw [ih h']

end Spells

/-- A value denotes itself exactly if it has no backslash. -/
theorem Denotes.eq_iff (h : Denotes value text) : value = text ↔ '\\' ∉ value.toList := by
  constructor
  · rintro rfl hm
    exact Nat.lt_irrefl _ (h.length_le.2 hm)
  · intro hplain
    exact eq_of_bytesOf_eq (h.eq_bytesOf hplain).symm

/-- A comma has to be escaped, and a blank in the middle not. -/
theorem denotes_smith : Denotes "Smith\\, John" "Smith, John" :=
  Spells.append (.of_not_mem (by decide : '\\' ∉ "Smith".toList))
    (.escaped (by decide) (.of_not_mem (by decide : '\\' ∉ " John".toList)))

/-! ## Every value that can be read is a spelling -/

theorem exists_hexValue (h : isHexDigit c = true) : ∃ x, Json.hexValue? c = some x := by
  rw [← Option.isSome_iff_exists]
  simp only [isHexDigit, Bool.or_eq_true] at h
  unfold Json.hexValue?
  split
  · rfl
  split
  · rfl
  split
  · rfl
  simp_all

/-- In whatever state the reading of a value is, what it has read so far and the rest spell bytes if
it comes to an end. -/
theorem exists_spells_of_read (cs : List Char) :
    (cs.foldlM ValueState.step .plain = .ok .plain → ∃ bs, Spells cs bs) ∧
    (cs.foldlM ValueState.step .escaped = .ok .plain → ∃ bs, Spells ('\\' :: cs) bs) ∧
    ∀ a, isHexDigit a = true → cs.foldlM ValueState.step .hex = .ok .plain →
      ∃ bs, Spells ('\\' :: a :: cs) bs := by
  induction cs with
  | nil =>
    refine ⟨fun _ => ⟨[], .nil⟩, ?_, ?_⟩
    · rintro ⟨⟩
    · rintro _ _ ⟨⟩
  | cons c cs ih =>
    obtain ⟨hplain, hescaped, hhex⟩ := ih
    simp only [List.foldlM_cons]
    refine ⟨fun h => ?_, fun h => ?_, fun a ha h => ?_⟩
    · obtain ⟨st, hst, h⟩ := bind_eq_ok.1 h
      simp only [ValueState.step] at hst
      split at hst
      · next hc =>
        obtain rfl := Except.ok.inj hst
        obtain rfl := eq_of_beq hc
        exact hescaped h
      · next hc =>
        split at hst
        · cases hst
        · obtain rfl := Except.ok.inj hst
          obtain ⟨bs, hbs⟩ := hplain h
          exact ⟨_, .plain (by simpa using hc) hbs⟩
    · obtain ⟨st, hst, h⟩ := bind_eq_ok.1 h
      simp only [ValueState.step] at hst
      split at hst
      · next hc =>
        obtain rfl := Except.ok.inj hst
        exact hhex c hc h
      · next hc =>
        split at hst
        · obtain rfl := Except.ok.inj hst
          obtain ⟨bs, hbs⟩ := hplain h
          exact ⟨_, .escaped (by simpa using hc) hbs⟩
        · cases hst
    · obtain ⟨st, hst, h⟩ := bind_eq_ok.1 h
      simp only [ValueState.step] at hst
      split at hst
      · next hc =>
        obtain rfl := Except.ok.inj hst
        obtain ⟨bs, hbs⟩ := hplain h
        obtain ⟨x, hx⟩ := exists_hexValue ha
        obtain ⟨y, hy⟩ := exists_hexValue hc
        exact ⟨_, .byte ha hx hy hbs⟩
      · cases hst

theorem exists_spells_of_checkValue {piece : String}
    (h : Component.checkValue piece value = .ok ()) : ∃ bs, Spells value.toList bs := by
  unfold Component.checkValue at h
  split at h
  · cases h
  · cases h
  · cases h
  split at h
  · cases h
  obtain ⟨st, hst, h⟩ := bind_eq_ok.1 h
  split at h
  · next hplain =>
    subst hplain
    exact (exists_spells_of_read _).1 hst
  · cases h

/-- Every value of a name that can be read is a spelling, of one sequence of bytes. -/
theorem existsUnique_spells_of_parse {name : String} {components : List Component} {c : Component}
    (h : DistinguishedName.parse name = .ok components) (hc : c ∈ components) :
    ∃! bs, Spells c.value.toList bs := by
  obtain ⟨ps, hps⟩ : ∃ ps : List DistinguishedName.Piece,
      ps.mapM DistinguishedName.readPiece = .ok components := by
    unfold DistinguishedName.parse at h
    split at h
    · cases h
    · exact ⟨_, h⟩
  obtain ⟨p, -, hread⟩ := (mem_of_mapM hps).2 c hc
  obtain ⟨_, hcheck, hp⟩ := bind_eq_ok.1 hread
  obtain rfl := Except.ok.inj hp
  obtain ⟨_, -, hvalue⟩ := bind_eq_ok.1 hcheck
  obtain ⟨bs, hbs⟩ := exists_spells_of_checkValue hvalue
  exact ⟨bs, hbs, fun bs' hbs' => hbs'.unique hbs⟩

end Roster
