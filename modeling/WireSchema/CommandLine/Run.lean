import WireSchema.CommandLine.Arguments
import WireSchema.Output.Staging
import WireSchema.Schema.Compile
import WireSchema.Schema.Dump

/-!
# Runs

A run reads a schema file and writes the sources of the targets. A target that fails does not keep
the others from being written, but the run fails.
-/

namespace WireSchema.CommandLine

variable {m : Type → Type} [Monad m] [Host m]

/-! ## Texts -/

/-- The version of the program. -/
def programVersion : String :=
  "0.1.0"

/-- The answer to a question. -/
def answerText : Question → String
  | .version => "ango " ++ programVersion ++ "\n"
  | .help => String.join ([
      "Compile an ango schema into wire-compatible Go and JavaScript code",
      "",
      "Usage: ango [OPTIONS] --input <INPUT>",
      "",
      "Options:",
      "  -i, --input <INPUT>            Input `.ango` schema file",
      "      --go <DIR>                 Go output directory",
      "      --js <DIR>                 JavaScript output directory",
      "      --go-package <GO_PACKAGE>  Package identifier for the generated Go code [default: main]",
      "      --js-no-bigint             Reject 64-bit integers instead of mapping them to BigInt",
      "      --force-overwrite          Overwrite existing files without asking",
      "      --collect-errors           Report every schema error instead of stopping at the first",
      "      --dump-schema              Print the resolved schema and its version as JSON",
      "  -v, --verbose                  Enable verbose logging",
      "  -h, --help                     Print help",
      "  -V, --version                  Print version"].map (· ++ "\n"))

/-- What is printed when no target is wanted. -/
def summaryText (version : Fingerprint) : String :=
  "Parsed input file. There were no errors.\n"
    ++ "Use options `--go <dir>` and `--js <dir>` to generate code.\n"
    ++ "Version string is: " ++ version.text ++ "\n"

/-- The record of the start. -/
def startRecord : LogRecord :=
  ⟨.debug, "ango", "ango starting", [("version", "\"" ++ programVersion ++ "\"")]⟩

/-- The record of a schema. -/
def schemaRecord (s : Schema) : LogRecord :=
  ⟨.info, "ango", "parsed schema", [("protocol", s.name), ("messages", toString s.messages.length),
    ("enums", toString s.enums.length), ("constants", toString s.constants.length)]⟩

/-- The record of a protocol version. -/
def versionRecord (version : Fingerprint) : LogRecord :=
  ⟨.debug, "ango", "calculated protocol version", [("version", version.text)]⟩

/-- The record of a target that was written. -/
def targetRecord (target : Target) (files : Nat) (directory : Path) : LogRecord :=
  ⟨.info, "ango", "generated", [("language", target.language.name), ("files", toString files),
    ("dir", directory.text)]⟩

/-! ## Running -/

/-- Reads and resolves the schema file. -/
def loadSchema (o : Options) : m (Except RunFailure Schema) := do
  match ← Host.readFile o.input with
  | .error e => pure (.error (.reading o.input e))
  | .ok contents =>
    match String.fromUTF8? contents with
    | none => pure (.error (.reading o.input .notText))
    | some text => pure ((Schema.ofText o.errorMode text).mapError .schema)

/-- Generates and writes the sources of a target. -/
def writeTarget (o : Options) (s : Schema) (target : Target) (directory : Path) :
    m (Except RunFailure (List Path)) :=
  match target.generate s with
  | .error e => pure (.error (.generation e))
  | .ok files => writeFiles o.verbose directory files o.overwrite

/-- Writes targets one after another. The result is the number of those that failed. -/
def writeTargets (o : Options) (s : Schema) : List (Target × Path) → m Nat
  | [] => pure 0
  | (target, directory) :: targets => do
    match ← writeTarget o s target directory with
    | .ok written => do
      log o.verbose (targetRecord target written.length directory)
      writeTargets o s targets
    | .error e => do
      Host.report e.message
      return (← writeTargets o s targets) + 1

/-- Does what is wanted with a schema. -/
def process (o : Options) (s : Schema) : m (Except RunFailure Unit) := do
  log o.verbose (schemaRecord s)
  log o.verbose (versionRecord s.fingerprint)
  if o.dumpSchema then
    Host.print (s.dumpPretty ++ "\n")
  if o.targets.isEmpty then
    Host.print (summaryText s.fingerprint)
    return .ok ()
  match ← writeTargets o s o.targets with
  | 0 => return .ok ()
  | failed => return .error (.targets failed o.targets.length)

/-- A whole run. -/
def run (o : Options) : m (Except RunFailure Unit) := do
  log o.verbose startRecord
  match ← loadSchema o with
  | .error e => return .error e
  | .ok s => process o s

/-- How a run ends. -/
inductive Exit where
  | success
  | failure
  /-- the arguments cannot be understood -/
  | usage
  deriving DecidableEq, Repr

/-- The number that stands for an end. -/
def Exit.code : Exit → Nat
  | .success => 0
  | .failure => 1
  | .usage => 2

/-- The program: does what the arguments ask for. -/
def program (arguments : List String) : m Exit := do
  match Request.ofArguments arguments with
  | .error e =>
    Host.report e.message
    return .usage
  | .ok (.answer question) =>
    Host.print (answerText question)
    return .success
  | .ok (.run o) =>
    match ← run o with
    | .ok () => return .success
    | .error e =>
      Host.report e.message
      return .failure

end WireSchema.CommandLine
