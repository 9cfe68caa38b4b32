import WireSchema.Files.Host
import WireSchema.Output.Failure
import WireSchema.Text.Blank

/-!
# Asking before files are replaced

A prompt is answered by one line of the input. Only `y` and `yes` mean yes, in any case and with
blanks around them; the end of the input means no.
-/

namespace WireSchema

variable {m : Type → Type} [Monad m] [Host m]

/-- What to do about a file that is there already. -/
inductive Overwrite where
  | force
  | ask
  deriving DecidableEq, Repr

/-- The question about a file. -/
def promptText (p : Path) : String :=
  p.text ++ " already exists. Overwrite? [y/N] "

/-- Does an answer mean yes? -/
def isYes (answer : String) : Bool :=
  let word := (Text.trim answer.toList).map Char.toLower
  word = ['y'] || word = ['y', 'e', 's']

/-- What a line of input answers. -/
def readAnswer (line : List UInt8) : Except FileError Bool :=
  match String.fromUTF8? line.toByteArray with
  | none => .error .notText
  | some answer => .ok (isYes answer)

/-- Asks whether a file may be replaced. -/
def confirm (p : Path) : m (Except FileError Bool) := do
  Host.print (promptText p)
  return readAnswer (← Host.readLine)

/-- The path that messages show for the input. -/
def inputPath : Path :=
  ⟨"<stdin>"⟩

/-- Asks for every path that names something, up to the first that may not be replaced. -/
def confirmAll : List Path → m (Except RunFailure Unit)
  | [] => pure (.ok ())
  | p :: paths => do
    if ← Host.isPresent p then
      match ← confirm p with
      | .error e => pure (.error (.reading inputPath e))
      | .ok false => pure (.error (.declined p))
      | .ok true => confirmAll paths
    else
      confirmAll paths

end WireSchema
