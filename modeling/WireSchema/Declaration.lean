import WireSchema.Decimal.Binary64
import WireSchema.Location

/-!
# Declarations as written

The declarations of a schema text before names are bound: type words are plain words, tags and
values are whatever integers were written, and every item keeps the location of its text.
-/

namespace WireSchema

/-- A literal value. -/
inductive Literal where
  | integer (value : Int)
  | number (value : Binary64)
  | string (value : String)
  | bool (value : Bool)
  deriving DecidableEq, Repr

namespace Written

/-- The protocol's name; located at the keyword. -/
structure ProtocolName where
  name : String
  location : Location
  deriving DecidableEq, Repr

/-- A named constant; located at the keyword. -/
structure Constant where
  name : String
  /-- the type word -/
  type : String
  value : Literal
  location : Location
  deriving DecidableEq, Repr

/-- A label of an enum with its value; located at the label. -/
structure Variant where
  label : String
  value : Int
  location : Location
  deriving DecidableEq, Repr

/-- An enum; located at its name. -/
structure Enum where
  name : String
  variants : List Variant
  location : Location
  deriving DecidableEq, Repr

/-- The words that may stand in front of a field's type. -/
inductive ModifierWord where
  | repeated
  | optional
  deriving DecidableEq, Repr

/-- The spelling of a modifier word. -/
def ModifierWord.text : ModifierWord → String
  | .repeated => "repeated"
  | .optional => "optional"

/-- The modifier word that a text spells; case matters. -/
def ModifierWord.ofText? (text : String) : Option ModifierWord :=
  if text = "repeated" then some .repeated
  else if text = "optional" then some .optional
  else none

/-- A modifier word and its location. -/
structure Modifier where
  word : ModifierWord
  location : Location
  deriving DecidableEq, Repr

/-- A field of a message; located at its name. -/
structure Field where
  name : String
  modifiers : List Modifier
  /-- the type word -/
  type : String
  typeLocation : Location
  tag : Int
  tagLocation : Location
  location : Location
  deriving DecidableEq, Repr

/-- A message; located at its name. -/
structure Message where
  name : String
  fields : List Field
  location : Location
  deriving DecidableEq, Repr

/-- A declaration at the top level of a schema text. -/
inductive Declaration where
  | name (declaration : ProtocolName)
  | constant (declaration : Constant)
  | enum (declaration : Enum)
  | message (declaration : Message)
  deriving DecidableEq, Repr

end Written

end WireSchema
