import WireSchema.CommandLine.Run

/-!
# The program

The program on a real machine.
-/

namespace WireSchema

/-- The error that a machine's error stands for. -/
def FileError.ofMachine : IO.Error → FileError
  | .noFileOrDirectory .. => .notFound
  | .alreadyExists .. => .alreadyExists
  | .resourceBusy .. => .busy
  | .inappropriateType _ 20 _ => .notADirectory
  | .inappropriateType _ 21 _ => .isADirectory
  | e => .other (toString e)

/-- The result of an action that may fail on the machine. -/
def attempt {α : Type} (action : IO α) : IO (Except FileError α) := do
  try
    return .ok (← action)
  catch e =>
    return .error (FileError.ofMachine e)

/-- Does an action on the machine succeed? -/
def succeeds {α : Type} (action : IO α) : IO Bool := do
  return (← attempt action).isOk

/-- Reads bytes up to and with the next line break. -/
partial def readLineBytes (stream : IO.FS.Stream) (line : List UInt8) : IO (List UInt8) := do
  let next ← stream.read 1
  match next.toList with
  | [] => return line.reverse
  | b :: _ => if b = 10 then return (b :: line).reverse else readLineBytes stream (b :: line)

instance : Host IO where
  readFile p := attempt (IO.FS.readBinFile p.text)
  isPresent p := succeeds (IO.FS.realPath p.text)
  isDirectory p := succeeds (IO.FS.realPath (p.text ++ "/"))
  createDirectory p := attempt (IO.FS.createDir p.text)
  writeFile p contents := attempt (IO.FS.writeBinFile p.text contents)
  removeFile p := attempt (IO.FS.removeFile p.text)
  rename source target := attempt (IO.FS.rename source.text target.text)
  readLine := do readLineBytes (← IO.getStdin) []
  print text := do
    IO.print text
    (← IO.getStdout).flush
  report line := IO.eprintln line

end WireSchema

/-- Runs the program and ends with its exit code. -/
def main (arguments : List String) : IO UInt32 := do
  let exit ← WireSchema.CommandLine.program arguments
  return exit.code.toUInt32
