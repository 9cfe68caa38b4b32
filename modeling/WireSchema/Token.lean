import WireSchema.Location
import WireSchema.Text.Quoted

/-!
# Tokens

A token is a piece of schema text that carries meaning, with its exact spelling and the location of
its first character. A `TokenStream` is what a text without bad pieces consists of: its tokens in
order and the location of its end.
-/

namespace WireSchema

/-- The kinds of token. -/
inductive Token.Kind where
  /-- a word: ASCII letters, digits and underscores, not starting with a digit -/
  | identifier
  /-- digits with an optional minus sign -/
  | integer
  /-- an integer with a fraction and an optional exponent -/
  | number
  /-- a quoted text, spelled with its quotes and escapes -/
  | string
  /-- one punctuation character -/
  | symbol
  deriving DecidableEq, Repr

/-- A token of schema text. -/
structure Token where
  kind : Token.Kind
  /-- the spelling in the text -/
  text : String
  /-- where the spelling starts -/
  location : Location
  deriving DecidableEq, Repr

namespace Token

/-- The name of a kind of token. -/
def Kind.describe : Kind → String
  | .identifier => "identifier"
  | .integer => "integer"
  | .number => "number"
  | .string => "string"
  | .symbol => "symbol"

/-- How a token is shown in diagnostics: a string is quoted already. -/
def display (t : Token) : String :=
  match t.kind with
  | .string => t.text
  | _ => Text.quote t.text

/-- How the end of the text is shown in diagnostics. -/
def endOfFile : String :=
  "end of file"

/-- Is `t` the symbol spelled `s`? -/
def isSymbol (t : Token) (s : String) : Bool :=
  t.kind = .symbol && t.text = s

/-- Is `t` an identifier? -/
def isIdentifier (t : Token) : Bool :=
  t.kind = .identifier

end Token

/-- The tokens of a text in order, and the location of its end. -/
structure TokenStream where
  tokens : List Token
  finish : Location
  deriving DecidableEq, Repr

end WireSchema
