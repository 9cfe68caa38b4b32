import WireSchema.Files.Tree
import WireSchema.Output.Confirm
import WireSchema.Output.Log
import WireSchema.Target.GeneratedFile

/-!
# Writing the files of a target

All questions are asked before anything is written. Then every file is staged: written under a
hidden name beside its destination. Only when all are staged are they moved to their destinations.
Staged files that are not moved are removed.
-/

namespace WireSchema

variable {m : Type → Type} [Monad m] [Host m]

/-- The path under which a file is staged. -/
def Path.staging (destination : Path) : Path :=
  destination.withFileName ("." ++ destination.fileName?.getD "" ++ ".tmp")

/-- A file that is staged. -/
structure Staged where
  destination : Path
  /-- the number of bytes -/
  size : Nat
  deriving DecidableEq, Repr

/-- Stages a file. -/
def stage (destination : Path) (contents : String) : m (Except RunFailure Staged) := do
  match ← Host.writeFile destination.staging contents.toUTF8 with
  | .ok () => pure (.ok ⟨destination, contents.utf8ByteSize⟩)
  | .error e => do
    let _ ← Host.removeFile destination.staging
    pure (.error (.writing destination.staging e))

/-- Removes staged files that are still there. -/
def discard : List Staged → m Unit
  | [] => pure ()
  | s :: staged => do
    let _ ← Host.removeFile s.destination.staging
    discard staged

/-- Stages files after those that are staged already. If one fails, none stays. -/
def stageAll (staged : List Staged) : List (Path × String) → m (Except RunFailure (List Staged))
  | [] => pure (.ok staged)
  | (destination, contents) :: files => do
    match ← stage destination contents with
    | .ok s => stageAll (staged ++ [s]) files
    | .error e => do
      discard staged
      pure (.error e)

/-- The record of a file that was written. -/
def writtenRecord (s : Staged) : LogRecord :=
  { level := .debug
    origin := "ango::output"
    message := "wrote generated file"
    fields := [("path", s.destination.text), ("bytes", toString s.size)] }

/-- Moves staged files to their destinations. If one fails, it and those behind it are removed. -/
def commitAll (verbose : Bool) : List Staged → m (Except RunFailure Unit)
  | [] => pure (.ok ())
  | s :: staged => do
    match ← Host.rename s.destination.staging s.destination with
    | .ok () => do
      log verbose (writtenRecord s)
      commitAll verbose staged
    | .error e => do
      discard (s :: staged)
      pure (.error (.writing s.destination e))

/-- Writes files below a directory, and makes the directory if need be. The result is their
paths. -/
def writeFiles (verbose : Bool) (directory : Path) (files : List GeneratedFile)
    (overwrite : Overwrite) : m (Except RunFailure (List Path)) := do
  let paths := files.map fun f => directory.join ⟨f.path⟩
  match ← (if overwrite = .ask then confirmAll paths else pure (.ok ())) with
  | .error e => pure (.error e)
  | .ok () =>
    match ← createDirectories directory with
    | .error e => pure (.error (.writing directory e))
    | .ok () =>
      match ← stageAll [] (paths.zip (files.map GeneratedFile.contents)) with
      | .error e => pure (.error e)
      | .ok staged =>
        match ← commitAll verbose staged with
        | .error e => pure (.error e)
        | .ok () => pure (.ok paths)

end WireSchema
