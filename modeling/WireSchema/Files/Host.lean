import WireSchema.Files.FileSystem

/-!
# Hosts

What a run needs from its surroundings: files, an input to read answers from, and two channels to
print on. `Host` lists the operations for any monad. `World` is a host that is a value: a file
system, the input that is left and what was printed.
-/

namespace WireSchema

/-- The surroundings of a run. -/
class Host (m : Type → Type) where
  readFile : Path → m (Except FileError ByteArray)
  isPresent : Path → m Bool
  isDirectory : Path → m Bool
  createDirectory : Path → m (Except FileError Unit)
  writeFile : Path → ByteArray → m (Except FileError Unit)
  removeFile : Path → m (Except FileError Unit)
  rename : Path → Path → m (Except FileError Unit)
  /-- reads up to and with the next line break; empty at the end of the input -/
  readLine : m (List UInt8)
  /-- prints a text as it is -/
  print : String → m Unit
  /-- prints a line on the error channel -/
  report : String → m Unit

/-- The first line of some bytes with its line break, and the bytes behind it. -/
def firstLine : List UInt8 → List UInt8 × List UInt8
  | [] => ([], [])
  | b :: bs => if b = 10 then ([b], bs) else (b :: (firstLine bs).1, (firstLine bs).2)

/-- Surroundings that are a value. -/
structure World where
  files : FileSystem
  /-- the input that is not read yet -/
  input : List UInt8
  /-- everything printed -/
  output : String
  /-- the lines on the error channel -/
  errors : List String

namespace World

/-- An operation that looks at the files. -/
def look {α : Type} (f : FileSystem → α) : StateM World α := fun w =>
  (f w.files, w)

/-- An operation that changes the files unless it fails. -/
def change (f : FileSystem → Except FileError FileSystem) :
    StateM World (Except FileError Unit) := fun w =>
  match f w.files with
  | .ok files => (.ok (), { w with files })
  | .error e => (.error e, w)

instance : Host (StateM World) where
  readFile p := look (·.readFile p)
  isPresent p := look (·.isPresent p)
  isDirectory p := look (·.isDirectory p)
  createDirectory p := change (·.createDirectory p)
  writeFile p contents := change (·.writeFile p contents)
  removeFile p := change (·.removeFile p)
  rename source target := change (·.rename source target)
  readLine := fun w => ((firstLine w.input).1, { w with input := (firstLine w.input).2 })
  print text := fun w => ((), { w with output := w.output ++ text })
  report line := fun w => ((), { w with errors := w.errors ++ [line] })

end World

end WireSchema
