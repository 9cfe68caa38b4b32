import WireSchema.Token

/-!
# Diagnostics

What can be wrong with schema text, as causes, and the wording of each cause in one place.

* `SyntaxFault` — the characters or tokens do not form declarations;
* `SemanticFault` — well-formed declarations that describe no schema;
* `Diagnostic` — a fault with the location of the offending text;
* `Report` — the diagnostics of one run, at least one;
* `ErrorMode` — whether a run stops at its first diagnostic.
-/

namespace WireSchema

open Text (quote)

/-! ## Faults -/

/-- What a declaration needs at the place where something else was found. -/
inductive Expected where
  | symbol (spelling : String)
  | identifier
  | integer
  | literal
  | declaration
  deriving DecidableEq, Repr

/-- The wording of what was expected. -/
def Expected.describe : Expected → String
  | .symbol spelling => quote spelling
  | .identifier => "identifier"
  | .integer => "integer"
  | .literal => "literal"
  | .declaration => "\"message\", \"enum\", \"const\" or \"name\""

/-- A malformed text or token sequence. -/
inductive SyntaxFault where
  /-- no token starts with this character -/
  | invalidCharacter (c : Char)
  | unterminatedString
  | unterminatedComment
  /-- a backslash and the character after it, if any -/
  | invalidEscape (spelling : String)
  /-- `found` is `none` at the end of the text -/
  | unexpectedToken (expected : Expected) (found : Option Token)
  | invalidInteger (spelling : String)
  | invalidNumber (spelling : String)
  deriving DecidableEq, Repr

/-- Well-formed declarations that describe an invalid schema. -/
inductive SemanticFault where
  | duplicateDeclaration (name : String) (first : Location)
  | reservedName (name : String)
  | duplicateProtocolName
  | duplicateTag (message field other : String) (tag : Int)
  | duplicateField (message field : String)
  | invalidTag (message field : String) (tag : Int) (greatest : Nat)
  | duplicateEnumLabel (enum label : String)
  | duplicateEnumValue (enum label other : String) (value : Int)
  | enumValueOutOfRange (enum label : String) (value : Int)
  | unresolvedType (message field type : String)
  | conflictingModifiers (message field first second : String)
  /-- `value` is the literal as diagnostics show it -/
  | invalidConstant (name type value : String)
  deriving DecidableEq, Repr

/-- The wording of a syntax fault. -/
def SyntaxFault.message : SyntaxFault → String
  | .invalidCharacter c => s!"unexpected character {quote c.toString}"
  | .unterminatedString => "unterminated string literal"
  | .unterminatedComment => "unterminated block comment"
  | .invalidEscape spelling => s!"invalid escape sequence {quote spelling}"
  | .unexpectedToken expected found =>
    s!"expected {expected.describe} but found {(found.map Token.display).getD Token.endOfFile}"
  | .invalidInteger spelling => s!"invalid integer {quote spelling}"
  | .invalidNumber spelling => s!"invalid number {quote spelling}"

/-- The wording of a semantic fault. -/
def SemanticFault.message : SemanticFault → String
  | .duplicateDeclaration name first =>
    s!"the name {quote name} is declared twice (first declared at {first.describe})"
  | .reservedName name => s!"the name {quote name} is reserved"
  | .duplicateProtocolName => "the protocol name is declared twice"
  | .duplicateTag message field other tag =>
    s!"the tag {tag} of field {quote field} in message {quote message} is already used by field " ++
      quote other
  | .duplicateField message field =>
    s!"the field {quote field} is declared twice in message {quote message}"
  | .invalidTag message field tag greatest =>
    s!"the tag of field {quote field} in message {quote message} must be between " ++
      s!"1 and {greatest}, found {tag}"
  | .duplicateEnumLabel enum label =>
    s!"the label {quote label} is declared twice in enum {quote enum}"
  | .duplicateEnumValue enum label other value =>
    s!"the value {value} of {quote label} in enum {quote enum} is already used by {quote other}"
  | .enumValueOutOfRange enum label value =>
    s!"the value of {quote label} in enum {quote enum} must fit in 32 bits, found {value}"
  | .unresolvedType message field type =>
    s!"the type {quote type} of field {quote field} in message {quote message} is not defined"
  | .conflictingModifiers message field first second =>
    s!"the field {quote field} in message {quote message} combines the modifiers {quote first} " ++
      s!"and {quote second}"
  | .invalidConstant name type value =>
    s!"the constant {quote name} of type {quote type} cannot hold {value}"

/-! ## Diagnostics and reports -/

/-- What is wrong with a schema text. -/
inductive Fault where
  | syntactic (fault : SyntaxFault)
  | semantic (fault : SemanticFault)
  deriving DecidableEq, Repr

/-- A fault and the location of the offending text. -/
structure Diagnostic where
  fault : Fault
  location : Location
  deriving DecidableEq, Repr

/-- The text shown for a diagnostic. -/
def Diagnostic.message (d : Diagnostic) : String :=
  match d.fault with
  | .syntactic fault => s!"Syntax error at {d.location.describe}: {fault.message}"
  | .semantic fault => s!"Semantic error at {d.location.describe}: {fault.message}"

/-- How a run reacts to a bad schema. -/
inductive ErrorMode where
  /-- stop at the first diagnostic -/
  | failFast
  /-- keep going and report every diagnostic found -/
  | collect
  deriving DecidableEq, Repr

/-- The diagnostics of a failed run, at least one, in the order in which they were found. -/
structure Report where
  first : Diagnostic
  others : List Diagnostic
  deriving DecidableEq, Repr

namespace Report

/-- All diagnostics of a report. -/
def diagnostics (r : Report) : List Diagnostic :=
  r.first :: r.others

/-- What a mode shows of a report. -/
def inMode (mode : ErrorMode) (r : Report) : Report :=
  match mode with
  | .failFast => ⟨r.first, []⟩
  | .collect => r

/-- The text shown for a report: one diagnostic per line. -/
def message (r : Report) : String :=
  "\n".intercalate (r.diagnostics.map Diagnostic.message)

/-- A result, unless there are diagnostics. -/
def guard {α : Type} (result : α) : List Diagnostic → Except Report α
  | [] => .ok result
  | first :: others => .error ⟨first, others⟩

end Report

end WireSchema
