import WireSchema.Text.LetterCase
import WireSchema.Text.Pieces

/-!
# Identifier case

The spellings of a name in generated sources: `PascalCase`, `camelCase`, `snake_case` and
`SCREAMING_SNAKE_CASE`. Only case and underscores change.
-/

namespace WireSchema.Naming

open Text (isLower isUpper lowercase lowerOf uppercase upperOf)

/-! ## Pascal case -/

/-- Raises the first letter and lowers the others. -/
def titleWord : List Char → List Char
  | [] => []
  | c :: cs => upperOf c ++ lowercase cs

/-- Raises the first letter. -/
def raiseFirst : List Char → List Char
  | [] => []
  | c :: cs => upperOf c ++ cs

/-- `PascalCase`. Words between underscores are written with one capital each, and so is a name
without lower-case letters; any other name only gets its first letter raised. -/
def pascalChars (cs : List Char) : List Char :=
  if cs.contains '_' then
    ((Text.pieces '_' cs).filter (!·.isEmpty)).flatMap titleWord
  else if cs = uppercase cs then titleWord cs
  else raiseFirst cs

/-! ## Camel case -/

/-- Lowers the capitals after the first character up to the one that starts a word: a capital with a
lower-case letter behind it. -/
def lowerAcronym : List Char → List Char
  | [] => []
  | c :: cs =>
    if isUpper c then
      if (cs.head?.any isLower) then c :: cs else lowerOf c ++ lowerAcronym cs
    else c :: cs

/-- Lowers the leading capitals of a name in Pascal case. -/
def lowerLeading : List Char → List Char
  | [] => []
  | c :: cs => if isUpper c then lowerOf c ++ lowerAcronym cs else c :: cs

/-- `camelCase`. A leading acronym is lowered as a whole. -/
def camelChars (cs : List Char) : List Char :=
  lowerLeading (pascalChars cs)

/-! ## Snake case -/

/-- Does a capital after `prev` and before `rest` start a word? A run of capitals is one word up to
the last, which belongs to a lower-case letter behind it. -/
def startsWord (prev : Char) (rest : List Char) : Bool :=
  !isUpper prev || rest.head?.any isLower

/-- What a character contributes to a name in snake case, between the character `prev` before it,
the last character `last` written so far, and the characters `rest` behind it. -/
def snakePiece (prev last : Option Char) (c : Char) (rest : List Char) : List Char :=
  if isUpper c then
    if prev.any (startsWord · rest) && last ≠ some '_' then '_' :: lowerOf c else lowerOf c
  else if c = '_' then
    if last.isSome && last ≠ some '_' then ['_'] else []
  else [c]

/-- The snake case of the rest of a name. -/
def snakeFrom (prev last : Option Char) : List Char → List Char
  | [] => []
  | c :: cs =>
    let piece := snakePiece prev last c cs
    piece ++ snakeFrom (some c) (piece.getLast?.or last) cs

/-- The list without underscores at its end. -/
def trimUnderscores (cs : List Char) : List Char :=
  (cs.reverse.dropWhile (· = '_')).reverse

/-- `snake_case`. -/
def snakeChars (cs : List Char) : List Char :=
  trimUnderscores (snakeFrom none none cs)

/-! ## Spellings of a name -/

/-- A name in Pascal case. -/
def pascal (name : String) : String :=
  String.ofList (pascalChars name.toList)

/-- A name in camel case. -/
def camel (name : String) : String :=
  String.ofList (camelChars name.toList)

/-- A name in snake case. -/
def snake (name : String) : String :=
  String.ofList (snakeChars name.toList)

/-- A name in screaming snake case. -/
def screaming (name : String) : String :=
  String.ofList (uppercase (snakeChars name.toList))

end WireSchema.Naming
