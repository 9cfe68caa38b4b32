import WireSchema.Declaration
import WireSchema.Primitive

/-!
# Schemas

A resolved schema: messages, enums and constants in the order of their declarations, with every
field type bound. A message or enum type is referred to by its index in the schema, never by
nesting, so a message may refer to itself. `Schema.closed` says that every index is in range.
-/

namespace WireSchema

/-! ## The model -/

/-- A field's type. -/
inductive TypeRef where
  | primitive (type : Primitive)
  /-- an index in the messages of the schema -/
  | message (index : Nat)
  /-- an index in the enums of the schema -/
  | enum (index : Nat)
  deriving DecidableEq, Repr

/-- How many values a field has. -/
inductive Modifier where
  | single
  | optional
  | repeated
  deriving DecidableEq, Repr

/-- The word for a modifier. -/
def Modifier.name : Modifier → String
  | .single => "single"
  | .optional => "optional"
  | .repeated => "repeated"

/-- A field of a message. -/
structure Field where
  name : String
  type : TypeRef
  tag : Nat
  modifier : Modifier
  location : Location
  deriving DecidableEq, Repr

/-- A message: fields in the order of their declarations. -/
structure Message where
  name : String
  fields : List Field
  location : Location
  deriving DecidableEq, Repr

/-- A label of an enum. -/
structure Variant where
  label : String
  value : Int
  location : Location
  deriving DecidableEq, Repr

/-- An enum: variants in the order of their declarations. -/
structure Enum where
  name : String
  variants : List Variant
  location : Location
  deriving DecidableEq, Repr

/-- A named constant of a primitive type. -/
structure Constant where
  name : String
  type : Primitive
  value : Literal
  location : Location
  deriving DecidableEq, Repr

/-- A schema. -/
structure Schema where
  name : String
  messages : List Message
  enums : List Enum
  constants : List Constant
  deriving DecidableEq, Repr

/-! ## Views -/

/-- Is the field repeated? -/
def Field.isRepeated (f : Field) : Bool :=
  f.modifier = .repeated

/-- Is the field optional? -/
def Field.isOptional (f : Field) : Bool :=
  f.modifier = .optional

namespace Message

/-- The fields in ascending order of their tags, the order of the wire. -/
def fieldsByTag (m : Message) : List Field :=
  m.fields.mergeSort fun a b => a.tag ≤ b.tag

/-- The first field with a tag. -/
def fieldByTag? (m : Message) (tag : Nat) : Option Field :=
  m.fields.find? (·.tag = tag)

/-- The first field with a name. -/
def field? (m : Message) (name : String) : Option Field :=
  m.fields.find? (·.name = name)

end Message

/-- The variants in ascending order of their values. -/
def Enum.variantsByValue (e : Enum) : List Variant :=
  e.variants.mergeSort fun a b => a.value ≤ b.value

namespace Schema

/-- The name of a schema that declares none. -/
def defaultName : String :=
  "protocol"

/-- Does the schema declare nothing but a name? -/
def isEmpty (s : Schema) : Bool :=
  s.messages.isEmpty && s.enums.isEmpty && s.constants.isEmpty

/-- The index of the first message with a name. -/
def messageIndex? (s : Schema) (name : String) : Option Nat :=
  s.messages.findIdx? (·.name = name)

/-- The index of the first enum with a name. -/
def enumIndex? (s : Schema) (name : String) : Option Nat :=
  s.enums.findIdx? (·.name = name)

/-- The name of the message at an index; empty if there is none. -/
def messageName (s : Schema) (index : Nat) : String :=
  (s.messages[index]?.map Message.name).getD ""

/-- The name of the enum at an index; empty if there is none. -/
def enumName (s : Schema) (index : Nat) : String :=
  (s.enums[index]?.map Enum.name).getD ""

/-- The word for a type in schema text. -/
def typeName (s : Schema) : TypeRef → String
  | .primitive p => p.name
  | .message index => s.messageName index
  | .enum index => s.enumName index

/-- Does a type refer to something the schema has? -/
def hasType (s : Schema) : TypeRef → Bool
  | .primitive _ => true
  | .message index => index < s.messages.length
  | .enum index => index < s.enums.length

/-- Do all field types refer to something the schema has? -/
def closed (s : Schema) : Bool :=
  s.messages.all fun m => m.fields.all fun f => s.hasType f.type

end Schema

end WireSchema
