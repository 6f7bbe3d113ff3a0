import Roster.Value.Text

/-!
# References to external identities

A reference points at an identity inside one identity provider. It is written as `id;provider`, or
as the id alone when no provider is known; reading splits a text at the last semicolon and takes an
empty provider for an unknown one.

Ids and provider names are texts as a rule, but they come unchecked from documents and may be any
value. Written without a provider, an id that is no text stays what it is, and there are no words
for such a reference (`Ref.shown?`).
-/

namespace Roster

/-- A pointer to an identity inside a provider. -/
structure Ref where
  id : Value
  /-- The name of the provider, null when it is unknown. -/
  provider : Value := .null
deriving Inhabited

namespace Ref

/-- The part before the last semicolon and the part after it. -/
def splitLast (s : List Char) : Option (List Char × List Char) :=
  match s.reverse.dropWhile (· != ';') with
  | [] => none
  | _ :: front => some (front.reverse, (s.reverse.takeWhile (· != ';')).reverse)

/-- A reference as it is written; an unknown or empty provider is left out. -/
def written (r : Ref) : Value :=
  if r.provider.truthy then .text (r.id.display ++ ";" ++ r.provider.display) else r.id

/-- The words for a reference, if it is written as a text. -/
def shown? (r : Ref) : Option String := r.written.text?

/-- The reference that a text stands for. -/
def parse (s : String) : Ref :=
  match splitLast s.toList with
  | none => ⟨.text s, .null⟩
  | some (id, p) =>
    ⟨.text (String.ofList id), if p.isEmpty then .null else .text (String.ofList p)⟩

/-- References are the same if ids and providers are. -/
instance : BEq Ref := ⟨fun r s => r.id == s.id && r.provider == s.provider⟩

end Ref

end Roster
