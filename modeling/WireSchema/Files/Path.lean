import WireSchema.Text.Pieces

/-!
# Paths

A path is kept as it was written, because messages show it so. It names a chain of entries by pieces
between slashes; empty pieces and pieces `.` stand for nothing, except for a `.` that comes first.
-/

namespace WireSchema

/-- A path. -/
structure Path where
  text : String
  deriving DecidableEq, Repr

namespace Path

/-! ## Parts -/

/-- Where a path starts. -/
inductive Start where
  /-- at the root -/
  | root
  /-- at the working directory, written as `.` -/
  | here
  /-- at the working directory, not written -/
  | silent
  deriving DecidableEq, Repr

/-- Where a path starts, and its pieces from there. -/
def parts (p : Path) : Start × List (List Char) :=
  match Text.pieces '/' p.text.toList with
  | [] => (.silent, [])
  | [[]] => (.silent, [])
  | [] :: pieces => (.root, pieces)
  | ['.'] :: pieces => (.here, pieces)
  | pieces => (.silent, pieces)

/-- Does the path start at the root? -/
def isAbsolute (p : Path) : Bool :=
  p.parts.1 = .root

/-- Does a piece stand for nothing? -/
def isIdle (piece : List Char) : Bool :=
  piece = [] || piece = ['.']

/-- Pieces with slashes between them. -/
def joinPieces (pieces : List (List Char)) : String :=
  String.ofList (List.intercalate ['/'] pieces)

/-- The path with a start and pieces. -/
def ofParts : Start → List (List Char) → Path
  | .root, pieces => ⟨"/" ++ joinPieces pieces⟩
  | .here, [] => ⟨"."⟩
  | .here, pieces => ⟨"./" ++ joinPieces pieces⟩
  | .silent, pieces => ⟨joinPieces pieces⟩

/-- The prefixes of a chain of pieces that end in a piece that names something, and the empty one.
The chain and its prefixes are given from the last piece to the first. -/
def chains : List (List Char) → List (List (List Char))
  | [] => [[]]
  | piece :: above => if isIdle piece then chains above else (piece :: above) :: chains above

/-- The path, the path of the directory that holds it, and so on to the start. -/
def ancestors (p : Path) : List Path :=
  let above := (chains p.parts.2.reverse).tail.map fun chain => ofParts p.parts.1 chain.reverse
  match p.parts.1 with
  | .here => p :: above ++ [⟨""⟩]
  | _ => p :: above

/-- The directory that holds what the path names. -/
def parent? (p : Path) : Option Path :=
  p.ancestors.tail.head?

/-- The last name of the path, if it ends in one. -/
def fileName? (p : Path) : Option String :=
  match p.parts.2.reverse.dropWhile isIdle with
  | [] => none
  | ['.', '.'] :: _ => none
  | name :: _ => some (String.ofList name)

/-! ## Building paths -/

/-- Does a text end with a slash? -/
def endsWithSlash (text : String) : Bool :=
  text.toList.getLast? = some '/'

/-- The path of an entry below a directory; an absolute path stands for itself. -/
def join (directory entry : Path) : Path :=
  if entry.isAbsolute then entry
  else if directory.text.isEmpty || endsWithSlash directory.text then
    ⟨directory.text ++ entry.text⟩
  else
    ⟨directory.text ++ "/" ++ entry.text⟩

/-- The path with another last name; a path without a last name is extended. -/
def withFileName (p : Path) (name : String) : Path :=
  match p.fileName? with
  | some _ => (p.parent?.getD ⟨""⟩).join ⟨name⟩
  | none => p.join ⟨name⟩

end Path

end WireSchema
