import WireSchema.Target.GoCodec
import WireSchema.Target.JavaScriptModule

/-!
# Targets

A target is an output language with its options. Generation checks the schema against the language
and then renders all files; nothing is written.
-/

namespace WireSchema

/-- A target. -/
inductive Target where
  /-- Go, with the name of the package -/
  | go (package : String)
  /-- JavaScript; without `BigInt` there are no 64-bit integers -/
  | javaScript (bigint : Bool)
  deriving DecidableEq, Repr

/-- The language of a target. -/
def Target.language : Target → Language
  | .go _ => .go
  | .javaScript _ => .javaScript

/-- The files of a Go package: types, then codecs. -/
def Go.generate (package : String) (s : Schema) : Except GenerationError (List GeneratedFile) := do
  if !isPackageName package then
    throw (packageError package)
  let _ ← checkNames s
  return [
    .ofLines (GeneratedFile.stem s ++ "_ango.go") (typesLines s s.fingerprint package),
    .ofLines (GeneratedFile.stem s ++ "_ango_codec.go") (codecLines s package)]

/-- The file of a JavaScript module. -/
def JavaScript.generate (bigint : Bool) (s : Schema) :
    Except GenerationError (List GeneratedFile) := do
  if !bigint then
    check64 s
  let _ ← checkNames s
  return [.ofLines (GeneratedFile.stem s ++ ".js") (moduleLines s s.fingerprint bigint)]

/-- The files of a target. -/
def Target.generate : Target → Schema → Except GenerationError (List GeneratedFile)
  | .go package, s => Go.generate package s
  | .javaScript bigint, s => JavaScript.generate bigint s

end WireSchema
