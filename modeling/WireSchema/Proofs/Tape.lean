import WireSchema.Declaration.Recovery

/-!
# Reading tokens by index

The parser of declarations once more, over a table of tokens instead of a list that is used up. Here
the state is an index, and a table has a mark behind its last token. Every access is checked: an
index or a slice outside of the table, a string without its quotes and a loop that makes no progress
all end the run with `Stop.outOfRange`. None of this happens, and the results are those of `Parser`,
as `WireSchema.Proofs.TapeFollows` shows. Only indices are checked: the depth of braces is a number
without a bound.
-/

namespace WireSchema

/-- Why reading by index stops. -/
inductive Stop where
  | outOfRange
  /-- a syntax error, with the index of the blamed token -/
  | failure (fault : SyntaxFault) (index : Nat)
  deriving DecidableEq, Repr

/-- Tokens by index. The last entry marks the end and is no token. -/
abbrev Tape : Type :=
  List (Option Token)

/-- Moves an index over a tape. -/
abbrev Cursor (α : Type) : Type :=
  StateT Nat (Except Stop) α

namespace Tape

variable {α : Type} (tape : Tape)

/-- The tape of some tokens. -/
def ofTokens (tokens : List Token) : Tape :=
  tokens.map some ++ [none]

/-! ## Accesses -/

/-- What is at an index. -/
def get (i : Nat) : Except Stop (Option Token) :=
  (tape[i]?).elim (.error .outOfRange) .ok

/-- The entries from one index up to another. -/
def slice (start stop : Nat) : Except Stop (List (Option Token)) :=
  if start ≤ stop ∧ stop ≤ tape.length then .ok ((tape.take stop).drop start)
  else .error .outOfRange

/-- The next index; the mark of the end is never passed. -/
def advance (i : Nat) : Except Stop Nat :=
  (tape.get i).map fun entry => if entry.isSome then i + 1 else i

/-! ## Single tokens -/

/-- Takes one token and what `read` makes of it. Nothing is made of a token that cannot be cut as
`read` has to. -/
def token (expected : Expected) (read : Token → Option (Except SyntaxFault α)) : Cursor α :=
  fun i => do
    match ← tape.get i with
    | none => .error (.failure (.unexpectedToken expected none) i)
    | some t =>
      match read t with
      | none => .error .outOfRange
      | some (.error fault) => .error (.failure fault i)
      | some (.ok a) => return (a, ← tape.advance i)

/-- Takes a symbol. -/
def symbol (spelling : String) : Cursor Token :=
  tape.token (.symbol spelling) fun t =>
    some (Parser.accept (.symbol spelling) (·.isSymbol spelling) t)

/-- Takes an identifier. -/
def identifier : Cursor Token :=
  tape.token .identifier fun t => some (Parser.accept .identifier (·.isIdentifier) t)

/-- Takes an integer, with its location. -/
def integer : Cursor (Int × Location) :=
  tape.token .integer fun t => some ((Parser.integerOf .integer t).map (·, t.location))

/-- The next index if a symbol is there. -/
def passSymbol (spelling : String) (i : Nat) : Except Stop Nat := do
  let entry ← tape.get i
  if entry.any (·.isSymbol spelling) then tape.advance i else return i

/-- Takes a symbol if it is there. -/
def optionalSymbol (spelling : String) : Cursor Unit :=
  fun i => (tape.passSymbol spelling i).map ((), ·)

/-- Does a text have its two quotes? -/
def isQuoted (text : String) : Bool :=
  2 ≤ text.length && text.toList.head? = some '"' && text.toList.getLast? = some '"'

/-- Takes a literal. The body of a string is cut out between its quotes. -/
def literal : Cursor Literal :=
  tape.token .literal fun t =>
    if t.kind = .string && !isQuoted t.text then none else some (Parser.literalOf t)

/-! ## Declarations -/

/-- Takes a label, `=`, an integer and `;`. -/
def variant : Cursor Written.Variant := do
  let label ← tape.identifier
  let _ ← tape.symbol "="
  let (value, _) ← tape.integer
  let _ ← tape.symbol ";"
  return { label := label.text, value, location := label.location }

/-- Takes modifiers: modifier words that another identifier follows. -/
def modifiersFrom (i : Nat) : Except Stop (List Written.Modifier × Nat) :=
  match _ : tape[i]? with
  | none => .error .outOfRange
  | some none => .ok ([], i)
  | some (some t) =>
    match Parser.modifierWord? t with
    | none => .ok ([], i)
    | some word => do
      let next ← tape.get (i + 1)
      if next.any (·.isIdentifier) then
        let (later, j) ← modifiersFrom (i + 1)
        return (⟨word, t.location⟩ :: later, j)
      else return ([], i)
termination_by tape.length - i
decreasing_by
  have := (List.getElem?_eq_some_iff.mp ‹tape[i]? = some (some t)›).1
  omega

/-- Takes a name, `:`, modifiers, a type word, `=`, a tag and `;`. -/
def field : Cursor Written.Field := do
  let name ← tape.identifier
  let _ ← tape.symbol ":"
  let modifiers ← tape.modifiersFrom
  let type ← tape.identifier
  let _ ← tape.symbol "="
  let (tag, tagLocation) ← tape.integer
  let _ ← tape.symbol ";"
  return {
    name := name.text, modifiers, type := type.text, typeLocation := type.location,
    tag, tagLocation, location := name.location }

/-- Takes items up to and with the closing brace. -/
def itemsFrom (item : Cursor α) (i : Nat) : Except Stop (List α × Nat) := do
  let entry ← tape.get i
  if entry.any (·.isSymbol "\x7d") then return ([], ← tape.advance i)
  else
    let (a, j) ← item.run i
    if i < j ∧ j < tape.length then
      let (as, k) ← itemsFrom item j
      return (a :: as, k)
    else .error .outOfRange
termination_by tape.length - i

/-- Takes the keyword that opens a declaration, with its location. -/
def keyword : Cursor (Keyword × Location) :=
  tape.token .declaration fun t =>
    some ((Keyword.ofToken? t).elim (.error (.unexpectedToken .declaration (some t)))
      fun word => .ok (word, t.location))

/-- Takes what follows the keyword of a protocol name. -/
def protocolName (location : Location) : Cursor Written.ProtocolName := do
  let name ← tape.identifier
  let _ ← tape.symbol ";"
  return { name := name.text, location }

/-- Takes what follows the keyword of a constant. -/
def constant (location : Location) : Cursor Written.Constant := do
  let name ← tape.identifier
  let _ ← tape.symbol ":"
  let type ← tape.identifier
  let _ ← tape.symbol "="
  let value ← tape.literal
  let _ ← tape.symbol ";"
  return { name := name.text, type := type.text, value, location }

/-- Takes what follows the keyword of an enum; a semicolon may follow the closing brace. -/
def enumeration : Cursor Written.Enum := do
  let name ← tape.identifier
  let _ ← tape.symbol "\x7b"
  let variants ← tape.itemsFrom tape.variant
  tape.optionalSymbol ";"
  return { name := name.text, variants, location := name.location }

/-- Takes what follows the keyword of a message; a semicolon may follow the closing brace. -/
def message : Cursor Written.Message := do
  let name ← tape.identifier
  let _ ← tape.symbol "\x7b"
  let fields ← tape.itemsFrom tape.field
  tape.optionalSymbol ";"
  return { name := name.text, fields, location := name.location }

/-- Takes what follows the keyword `word`. -/
def body (word : Keyword) (location : Location) : Cursor Written.Declaration :=
  match word with
  | .name => return .name (← tape.protocolName location)
  | .const => return .constant (← tape.constant location)
  | .enum => return .enum (← tape.enumeration)
  | .message => return .message (← tape.message)

/-- Takes a declaration. -/
def declaration : Cursor Written.Declaration := do
  let (word, location) ← tape.keyword
  tape.body word location

/-! ## Resuming after a failure -/

/-- Outside all braces: is a token a keyword that an identifier follows? -/
def startsDeclaration (depth : Int) (t : Token) (i : Nat) : Except Stop Bool :=
  if depth = 0 && (Keyword.ofToken? t).isSome then
    (tape.get (i + 1)).map (·.any (·.isIdentifier))
  else .ok false

/-- Skips the rest of a broken declaration that is inside `depth` braces. -/
def skip (depth : Int) (i : Nat) : Except Stop Nat :=
  match h : tape[i]? with
  | none => .error .outOfRange
  | some none => .ok i
  | some (some t) =>
    if depth = 0 && t.isSymbol ";" then tape.advance i
    else do
      let next ← tape.startsDeclaration depth t i
      if next then .ok i
      else if t.isSymbol "\x7b" then skip (depth + 1) (i + 1)
      else if t.isSymbol "\x7d" then
        if depth - 1 ≤ 0 then tape.passSymbol ";" (i + 1) else skip (depth - 1) (i + 1)
      else skip depth (i + 1)
termination_by tape.length - i
decreasing_by
  all_goals
    have := (List.getElem?_eq_some_iff.mp h).1
    omega

/-- The index of a failure, or the next one if nothing was taken before it. -/
def passOne (start stop : Nat) : Except Stop Nat :=
  if stop = start then tape.advance stop else .ok stop

/-- Where reading resumes after a declaration that starts at `start` failed at `stop`. -/
def recover (start stop : Nat) : Except Stop Nat := do
  let index ← tape.passOne start stop
  let passed ← tape.slice start index
  let depth := Parser.braceBalance (passed.filterMap id)
  if depth < 0 then .ok index else tape.skip depth index

/-- The declarations from an index on, and the failures on the way with their indices. -/
def declarationsFrom (mode : ErrorMode) (i : Nat) :
    Except Stop (List Written.Declaration × List (SyntaxFault × Nat)) := do
  match ← tape.get i with
  | none => return ([], [])
  | some _ =>
    match tape.declaration.run i with
    | .ok (d, j) =>
      if i < j ∧ j < tape.length then
        let (ds, fs) ← declarationsFrom mode j
        return (d :: ds, fs)
      else .error .outOfRange
    | .error .outOfRange => .error .outOfRange
    | .error (.failure fault index) =>
      match mode with
      | .failFast => return ([], [(fault, index)])
      | .collect =>
        let j ← tape.recover i index
        if i < j ∧ j < tape.length then
          let (ds, fs) ← declarationsFrom .collect j
          return (ds, (fault, index) :: fs)
        else .error .outOfRange
termination_by tape.length - i

end Tape

end WireSchema
