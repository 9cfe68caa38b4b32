import WireSchema.Files.Host

/-!
# Directories with their parents

Making a directory together with the directories above it that are missing.
-/

namespace WireSchema

variable {m : Type → Type} [Monad m] [Host m]

/-- A directory that could not be made is fine if it is there. -/
def acceptDirectory (p : Path) : Except FileError Unit → m (Except FileError Unit)
  | .ok () => pure (.ok ())
  | .error e => do
    if ← Host.isDirectory p then
      pure (.ok ())
    else
      pure (.error e)

/-- Makes the first directory of a chain; if the one above it is missing, makes that one first. The
empty path is always there. -/
def createChain : List Path → m (Except FileError Unit)
  | [] => pure (.ok ())
  | p :: above => do
    if p.text.isEmpty then
      pure (.ok ())
    else
      match ← Host.createDirectory p with
      | .error .notFound =>
        match ← createChain above with
        | .error e => pure (.error e)
        | .ok () => do acceptDirectory p (← Host.createDirectory p)
      | result => acceptDirectory p result

/-- Makes a directory and the missing ones above it. -/
def createDirectories (p : Path) : m (Except FileError Unit) :=
  createChain p.ancestors

end WireSchema
