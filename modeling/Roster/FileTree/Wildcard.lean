import Roster.FileTree.Folder

/-!
# Wildcards

A name of a path may be a pattern: `*` stands for any text, `?` for any character, and `[…]` for one
of the listed characters, which may be given as ranges, or after `!` for any other one. A range
whose ends are in the wrong order is as good as not written. A bracket that is not closed stands for
itself. A pattern that does not start with a dot leaves hidden names out. A path of patterns is
resolved name by name from the first pattern on; what stands before is taken as it is.

* `Wildcard.fits`: whether a pattern stands for a text, by trying every text for a `*`.
* `Wildcard.fitsEnds`: the same for all ends of the text at once, in time that grows with the
  product of the two lengths.
* `Wildcard.isMatch_eq`: whether a name fits a pattern, told by `Wildcard.fits`.
-/

namespace Roster

namespace Wildcard

/-- What brackets list: a character, or the characters from one to another. -/
inductive Listed where
  | one (c : Char)
  | range (first last : Char)

namespace Listed

/-- Whether a character is one of the listed. -/
def has (x : Listed) (c : Char) : Bool :=
  match x with
  | one d => c == d
  | range first last => first ≤ c && c ≤ last

/-- Whether nothing is listed, the ends of a range being in the wrong order. -/
def isEmpty : Listed → Bool
  | one _ => false
  | range first last => last < first

/-- What a list of characters stands for: a hyphen between two characters makes a range of them. -/
def ofChars : List Char → List Listed
  | c :: '-' :: d :: rest => range c d :: ofChars rest
  | c :: rest => one c :: ofChars rest
  | [] => []

end Listed

/-- A part of a pattern. -/
inductive Piece where
  | anything
  | anyChar
  | oneOf (negated : Bool) (listed : List Listed)
  | char (c : Char)

/-- The piece that brackets stand for. They are negated by a `!` that comes first once empty ranges
are left out, also where it is the start of a range, of which the hyphen and the end are left
then. -/
def Piece.ofListed (listed : List Listed) : Piece :=
  match listed.filter fun x => !x.isEmpty with
  | .one '!' :: rest => oneOf true rest
  | .range '!' last :: rest => oneOf true (.one '-' :: .one last :: rest)
  | kept => oneOf false kept

/-- What stands between brackets, after the opening one, and what follows the closing one. A `!`
that is written first does not begin a range, and a closing bracket that comes first is one of the
listed characters. -/
def bracket? (s : List Char) : Option (Piece × List Char) :=
  let (sign, s) := match s with
    | '!' :: s => ([.one '!'], s)
    | s => ([], s)
  let (first, s) := match s with
    | ']' :: s => ([']'], s)
    | s => ([], s)
  match s.dropWhile (· != ']') with
  | [] => none
  | _ :: rest =>
    let listed := Listed.ofChars (first ++ s.takeWhile (· != ']'))
    some (.ofListed (sign ++ listed), rest)

/-- The pieces of a pattern of at most `n` characters. -/
def piecesUpTo : Nat → List Char → List Piece
  | 0, _ => []
  | _, [] => []
  | n + 1, '*' :: s => .anything :: piecesUpTo n s
  | n + 1, '?' :: s => .anyChar :: piecesUpTo n s
  | n + 1, '[' :: s =>
    match bracket? s with
    | some (piece, rest) => piece :: piecesUpTo n rest
    | none => .char '[' :: piecesUpTo n s
  | n + 1, c :: s => .char c :: piecesUpTo n s

/-- The pieces of a pattern. -/
def pieces (s : List Char) : List Piece := piecesUpTo s.length s

/-- Whether a piece stands for a character. -/
def Piece.admits (p : Piece) (c : Char) : Bool :=
  match p with
  | anything => true
  | anyChar => true
  | oneOf negated listed => (listed.any fun x => x.has c) != negated
  | char d => c == d

/-- Whether pieces stand for a text. -/
def fits : List Piece → List Char → Bool
  | [], s => s.isEmpty
  | .anything :: ps, s => (List.range (s.length + 1)).any fun n => fits ps (s.drop n)
  | _ :: _, [] => false
  | p :: ps, c :: s => p.admits c && fits ps s

/-- Whether one of the flags from each place on is true. -/
def laterTrue : List Bool → List Bool
  | [] => []
  | b :: rest =>
    let later := laterTrue rest
    (b || later.headD false) :: later

/-- Whether pieces stand for each of the ends of a text, from the text itself to the empty one. -/
def fitsEnds : List Piece → List Char → List Bool
  | [], s => s.map (fun _ => false) ++ [true]
  | .anything :: ps, s => laterTrue (fitsEnds ps s)
  | p :: ps, s => List.zipWith (fun c b => p.admits c && b) s (fitsEnds ps s).tail ++ [false]

/-- Whether a name has wildcards. -/
def isPattern (name : String) : Bool := name.toList.any fun c => c == '*' || c == '?' || c == '['

/-- Whether a name fits a pattern. -/
def isMatch (pattern name : String) : Bool :=
  (pattern.startsWith "." || !name.startsWith ".") &&
    (fitsEnds (pieces pattern.toList) name.toList).headD false

/-- A `*` stands for nothing, or for one character more than for the rest of the text. -/
theorem fits_anything_cons (ps : List Piece) (c : Char) (s : List Char) :
    fits (.anything :: ps) (c :: s) = (fits ps (c :: s) || fits (.anything :: ps) s) := by
  rw [fits, List.length_cons, List.range_succ_eq_map, List.any_cons, List.any_map, fits]
  rfl

theorem fitsEnds_nil (ps : List Piece) : fitsEnds ps [] = [fits ps []] := by
  induction ps with
  | nil => rfl
  | cons p ps ih => cases p <;> simp [fitsEnds, fits, ih, laterTrue]

theorem fitsEnds_cons (ps : List Piece) (c : Char) (s : List Char) :
    fitsEnds ps (c :: s) = fits ps (c :: s) :: fitsEnds ps s := by
  induction ps generalizing c s with
  | nil => rfl
  | cons p ps ih =>
    have head (s : List Char) : (fitsEnds ps s).headD false = fits ps s ∧
        fits ps s :: (fitsEnds ps s).tail = fitsEnds ps s := by
      cases s <;> simp [fitsEnds_nil, ih]
    cases p with
    | anything =>
      have later : (laterTrue (fitsEnds ps s)).headD false = fits (.anything :: ps) s := by
        induction s with
        | nil => simp [fitsEnds_nil, laterTrue, fits]
        | cons d s ihs => rw [ih, laterTrue, List.headD_cons, ihs, fits_anything_cons]
      rw [fitsEnds, ih, laterTrue, later, fits_anything_cons, fitsEnds]
    | anyChar | oneOf | char =>
      rw [fitsEnds, ih, List.tail_cons, ← (head s).2, List.zipWith_cons_cons, List.cons_append,
        fitsEnds, fits]
      all_goals simp

/-- The first end of a text is the text itself. -/
theorem headD_fitsEnds (ps : List Piece) (s : List Char) :
    (fitsEnds ps s).headD false = fits ps s := by
  cases s <;> simp [fitsEnds_nil, fitsEnds_cons]

/-- A name fits a pattern whose pieces stand for it, but a hidden name only one that starts with a
dot. -/
theorem isMatch_eq (pattern name : String) : isMatch pattern name =
    ((pattern.startsWith "." || !name.startsWith ".") && fits (pieces pattern.toList) name.toList) := by
  rw [isMatch, headD_fitsEnds]

end Wildcard

namespace FileTree

variable {α : Type}

/-- A path with one more name. -/
def inFolder (folder name : String) : String :=
  if folder.isEmpty || folder.endsWith "/" then folder ++ name else folder ++ "/" ++ name

/-- What the path of a folder with one more name, which may be a pattern, leads to. -/
def expandName (t : FileTree α) (onlyFolders : Bool) (name folder : String) : List String :=
  if Wildcard.isPattern name then
    match t.locate (if folder.isEmpty then "." else folder) with
    | .error _ => []
    | .ok p =>
      if t.node p = .folder then
        ((t.namesIn p).filter fun found => Wildcard.isMatch name found &&
          (!onlyFolders || t.node (p ++ [found]) = .folder)).map (inFolder folder)
      else []
  else if t.nodeAt (inFolder folder name) = .absent then []
  else [inFolder folder name]

/-- What a folder with further names, which may be patterns, leads to. -/
def expandFrom (t : FileTree α) : List String → List String → List String
  | found, [] => found
  | found, name :: rest =>
    t.expandFrom (found.flatMap (t.expandName (!rest.isEmpty) name)) rest

/-- What a path leads to whose names may be patterns, the last one being one. -/
def expand (t : FileTree α) (path : String) : List String :=
  let parts := path.splitOn "/"
  let literal := "/".intercalate (parts.takeWhile fun name => !Wildcard.isPattern name)
  let bare := String.ofList (literal.toList.reverse.dropWhile (· == '/')).reverse
  let start := if bare.isEmpty && path.startsWith "/" then literal ++ "/" else bare
  t.expandFrom [start]
    ((parts.dropWhile fun name => !Wildcard.isPattern name).filter (· != ""))

end FileTree

end Roster
