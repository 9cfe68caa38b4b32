import WireSchema.Diagnostic
import WireSchema.Files.FileSystem
import WireSchema.Naming.Scope

/-!
# Failures of a run

Why a run, or a target of it, comes to nothing.
-/

namespace WireSchema

/-- Why a run or a target fails. -/
inductive RunFailure where
  | reading (path : Path) (error : FileError)
  | writing (path : Path) (error : FileError)
  | schema (report : Report)
  | generation (error : GenerationError)
  /-- a file may not be replaced -/
  | declined (path : Path)
  | targets (failed total : Nat)
  deriving DecidableEq, Repr

/-- The text shown for a failure. -/
def RunFailure.message : RunFailure → String
  | .reading path error => s!"Error reading {path.text}: {error.message}"
  | .writing path error => s!"Error writing {path.text}: {error.message}"
  | .schema report => s!"Error parsing ango definitions:\n{report.message}"
  | .generation error => error.message
  | .declined path => s!"Not overwriting {path.text}"
  | .targets failed total => s!"{failed} of {total} targets failed"

end WireSchema
