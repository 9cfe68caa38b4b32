import WireSchema.Diagnostic
import WireSchema.Files.Path
import WireSchema.Output.Confirm
import WireSchema.Target

/-!
# Options of a run
-/

namespace WireSchema.CommandLine

/-- What a run is to do. -/
structure Options where
  /-- the schema file -/
  input : Path
  /-- the directory for Go sources, if any are wanted -/
  goDirectory : Option Path
  /-- the directory for JavaScript sources, if any are wanted -/
  javaScriptDirectory : Option Path
  goPackage : String
  /-- reject 64-bit integers in JavaScript -/
  noBigint : Bool
  forceOverwrite : Bool
  collectErrors : Bool
  dumpSchema : Bool
  verbose : Bool
  deriving DecidableEq, Repr

namespace Options

/-- How the run reacts to a bad schema. -/
def errorMode (o : Options) : ErrorMode :=
  if o.collectErrors then .collect else .failFast

/-- What the run does about files that are there already. -/
def overwrite (o : Options) : Overwrite :=
  if o.forceOverwrite then .force else .ask

/-- The targets with their directories, Go first. -/
def targets (o : Options) : List (Target × Path) :=
  (o.goDirectory.map fun directory => (Target.go o.goPackage, directory)).toList
    ++ (o.javaScriptDirectory.map fun directory =>
      (Target.javaScript (!o.noBigint), directory)).toList

end Options

end WireSchema.CommandLine
