import WireSchema.Text.Pieces

/-!
# Locations

A location is the line and column of a character in schema text. Lines end at a newline character
only, and columns count characters.
-/

namespace WireSchema

/-- A position in schema text; both counts start at one. -/
structure Location where
  /-- one more than the newlines before the position -/
  line : Nat
  /-- one more than the characters since the last of them -/
  column : Nat
  deriving DecidableEq, Repr, Inhabited

namespace Location

/-- The location of the first character of a text. -/
def start : Location :=
  ⟨1, 1⟩

/-- The location after a part of a text that starts at `loc`. A part with newlines is counted by its
lines, and its last line gives the column; any other part only moves the column. -/
def advance (loc : Location) (part : List Char) : Location :=
  let newlines := part.count '\n'
  if newlines > 0 then
    match (Text.pieces '\n' part).getLast? with
    | some lastLine => ⟨loc.line + newlines, lastLine.length + 1⟩
    | none => ⟨loc.line + newlines, loc.column⟩
  else ⟨loc.line, loc.column + part.length⟩

/-- How a location is written in diagnostics. -/
def describe (loc : Location) : String :=
  s!"line {loc.line}, column {loc.column}"

end Location

end WireSchema
