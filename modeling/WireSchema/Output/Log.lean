import WireSchema.Files.Host

/-!
# Log records

What a verbose run says about its progress on the error channel.
-/

namespace WireSchema

/-- How important a record is. -/
inductive Level where
  | info
  | debug
  deriving DecidableEq, Repr

/-- The word for a level. -/
def Level.name : Level → String
  | .info => "INFO"
  | .debug => "DEBUG"

/-- A log record. -/
structure LogRecord where
  level : Level
  /-- the part of the program that speaks -/
  origin : String
  message : String
  /-- names with values -/
  fields : List (String × String)
  deriving DecidableEq, Repr

/-- The line of a record. -/
def LogRecord.line (r : LogRecord) : String :=
  r.level.name ++ " " ++ r.origin ++ ": " ++ r.message
    ++ String.join (r.fields.map fun (name, value) => " " ++ name ++ "=" ++ value)

/-- Logs a record if the run is verbose. -/
def log {m : Type → Type} [Monad m] [Host m] (verbose : Bool) (r : LogRecord) : m Unit :=
  if verbose then Host.report r.line else pure ()

end WireSchema
