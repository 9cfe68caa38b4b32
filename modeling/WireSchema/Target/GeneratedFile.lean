import WireSchema.Naming.Case
import WireSchema.Schema

/-!
# Generated files

A generated file is a path below the output directory and its text. Sources are built as lists of
lines.
-/

namespace WireSchema

/-- A generated file. -/
structure GeneratedFile where
  /-- relative to the output directory -/
  path : String
  contents : String
  deriving DecidableEq, Repr

namespace GeneratedFile

/-- The text of lines; a last empty line makes it end with a line break. -/
def ofLines (path : String) (lines : List String) : GeneratedFile :=
  ⟨path, String.intercalate "\n" lines⟩

/-- The first words of the names of a schema's files. -/
def stem (s : Schema) : String :=
  if (Naming.snake s.name).isEmpty then Schema.defaultName else Naming.snake s.name

/-- The first line of every generated file. -/
def notice (s : Schema) : String :=
  "// Code generated by ango from schema " ++ s.name ++ ". DO NOT EDIT."

end GeneratedFile

end WireSchema
