import Roster.Number

/-!
# Scalars

The scalars of a document are nothing, truth values, numbers and texts. Only scalars can be members
of a set or keys of a mapping, and there some of them stand for the same thing: numbers of one value
do, and a truth value stands for one or zero. `Scalar.key` is what they have in common; scalars are
compared by it, while each keeps the form in which it was written.

Keys are ordered, nothing before numbers before texts, so that sets have one order for their members
(`Key.lt_trichotomy`).
-/

namespace Roster

/-- What scalars that stand for the same thing have in common. -/
inductive Key where
  | null
  | number (q : Rat)
  | text (s : String)
deriving DecidableEq, Inhabited

namespace Key

/-- Nothing before numbers before texts; numbers by value, texts by code point. -/
def lt : Key → Key → Bool
  | null, null => false
  | null, _ => true
  | number _, null => false
  | number p, number q => p < q
  | number _, text _ => true
  | text s, text t => s < t
  | text _, _ => false

instance : LT Key := ⟨fun a b => lt a b = true⟩
instance (a b : Key) : Decidable (a < b) := inferInstanceAs (Decidable (lt a b = true))

theorem lt_def {a b : Key} : a < b ↔ lt a b = true := Iff.rfl

@[simp] theorem number_lt_number {p q : Rat} : number p < number q ↔ p < q := by simp [lt_def, lt]

@[simp] theorem text_lt_text {s t : String} : text s < text t ↔ s < t := by simp [lt_def, lt]

theorem lt_irrefl (a : Key) : ¬ a < a := by
  cases a with
  | null => simp [lt_def, lt]
  | number p => rw [number_lt_number]; exact Rat.lt_irrefl
  | text s => rw [text_lt_text]; exact String.lt_irrefl s

theorem lt_trans {a b c : Key} (h : a < b) (h' : b < c) : a < c := by
  match a, b, c with
  | number _, number _, number _ =>
    exact number_lt_number.2 (Std.lt_trans (number_lt_number.1 h) (number_lt_number.1 h'))
  | text _, text _, text _ =>
    exact text_lt_text.2 (String.lt_trans (text_lt_text.1 h) (text_lt_text.1 h'))
  | null, number _, number _ | null, number _, text _ | null, text _, text _ => rfl
  | number _, number _, text _ | number _, text _, text _ => rfl
  | null, null, _ => exact h'
  | null, text _, number _ | number _, text _, number _ => exact absurd h' Bool.false_ne_true
  | null, number _, null | null, text _, null => exact absurd h' Bool.false_ne_true
  | number _, number _, null | number _, text _, null => exact absurd h' Bool.false_ne_true
  | text _, text _, number _ | text _, text _, null => exact absurd h' Bool.false_ne_true
  | number _, null, _ | text _, null, _ | text _, number _, _ => exact absurd h Bool.false_ne_true

theorem lt_trichotomy (a b : Key) : a < b ∨ a = b ∨ b < a := by
  match a, b with
  | null, null => exact .inr (.inl rfl)
  | number p, number q =>
    simp only [number_lt_number, number.injEq]
    exact Std.lt_trichotomy p q
  | text s, text t =>
    simp only [text_lt_text, text.injEq]
    exact Std.lt_trichotomy s t
  | null, number _ | null, text _ | number _, text _ => exact .inl rfl
  | number _, null | text _, null | text _, number _ => exact .inr (.inr rfl)

theorem lt_asymm {a b : Key} (h : a < b) : ¬ b < a := fun h' => lt_irrefl a (lt_trans h h')

end Key

/-- A scalar of a document. -/
inductive Scalar where
  | null
  | bool (b : Bool)
  | number (n : Number)
  | text (s : String)
deriving Inhabited

namespace Scalar

/-- What the scalar has in common with all that stand for the same thing. -/
def key : Scalar → Key
  | null => .null
  | bool b => .number (if b then 1 else 0)
  | number n => .number n.toRat
  | text s => .text s

/-- Whether two scalars stand for the same thing; of texts it is told without their keys. -/
def same : Scalar → Scalar → Bool
  | text s, text t => s == t
  | a, b => a.key == b.key

/-- Scalars are compared by what they stand for. -/
instance : BEq Scalar := ⟨same⟩

theorem beq_iff {a b : Scalar} : (a == b) = true ↔ a.key = b.key := by
  show same a b = true ↔ _
  unfold same
  split
  · rw [beq_iff_eq, key, key, Key.text.injEq]
  · exact beq_iff_eq

instance : EquivBEq Scalar where
  rfl := beq_iff.2 rfl
  symm h := beq_iff.2 (beq_iff.1 h).symm
  trans h h' := beq_iff.2 ((beq_iff.1 h).trans (beq_iff.1 h'))

@[simp] theorem text_beq_text (s t : String) : (text s == text t) = (s == t) := rfl

instance : Coe String Scalar := ⟨text⟩

def text? : Scalar → Option String
  | text s => some s
  | _ => none

/-- A number; a truth value counts as one or zero. -/
def number? : Scalar → Option Number
  | number n => some n
  | bool b => some (.int (if b then 1 else 0))
  | _ => none

end Scalar

end Roster
