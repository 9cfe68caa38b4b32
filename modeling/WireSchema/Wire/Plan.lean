import WireSchema.Schema

/-!
# Wire plan

How messages are laid out on the wire. A message is written as pairs of a tag and a value in
ascending order of the tags, followed by the tag zero; repeated values are preceded by their count.
The plan says for each field how a value is encoded (`Wire.Kind`) and when the field is written
(`Wire.Presence`). Targets never decide an encoding on their own: both render from the plan.
-/

namespace WireSchema.Wire

/-- The encoding of a single value. -/
inductive Kind where
  /-- one byte, `0` or `1` -/
  | bool
  /-- one byte -/
  | uint8
  /-- one byte, two's complement -/
  | int8
  /-- zigzag varint of a signed integer type wider than a byte -/
  | signedVarint (type : Primitive)
  /-- varint of an unsigned integer type wider than a byte -/
  | unsignedVarint (type : Primitive)
  /-- four bytes, lowest first -/
  | float32
  /-- eight bytes, lowest first -/
  | float64
  /-- length in bytes as a varint, then UTF-8 -/
  | string
  /-- length as a varint, then the bytes -/
  | bytes
  /-- zigzag varint of the variant's value -/
  | enum (index : Nat)
  /-- a nested message with its terminator -/
  | message (index : Nat)
  deriving DecidableEq, Repr

namespace Kind

/-- The encoding of a primitive type. -/
def ofPrimitive : Primitive → Kind
  | .bool => .bool
  | .uint8 => .uint8
  | .int8 => .int8
  | .int16 => .signedVarint .int16
  | .int32 => .signedVarint .int32
  | .int64 => .signedVarint .int64
  | .uint16 => .unsignedVarint .uint16
  | .uint32 => .unsignedVarint .uint32
  | .uint64 => .unsignedVarint .uint64
  | .float32 => .float32
  | .float64 => .float64
  | .string => .string
  | .bytes => .bytes

/-- The encoding of a type. -/
def ofType : TypeRef → Kind
  | .primitive p => ofPrimitive p
  | .enum index => .enum index
  | .message index => .message index

/-- Do values of this kind need 64-bit integers? -/
def is64Bit : Kind → Bool
  | .signedVarint type | .unsignedVarint type => type.is64Bit
  | _ => false

/-- Is it a nested message? -/
def isMessage : Kind → Bool
  | .message _ => true
  | _ => false

end Kind

/-- When a field is written. -/
inductive Presence where
  /-- always, with a zero value when unset -/
  | always
  /-- only when it has a value -/
  | whenSet
  deriving DecidableEq, Repr

/-- A field's place in the plan. -/
structure Field where
  field : WireSchema.Field
  kind : Kind
  repeated : Bool
  presence : Presence
  deriving DecidableEq, Repr

/-- A message's place in the plan. -/
structure Message where
  /-- the message's index in the schema -/
  index : Nat
  message : WireSchema.Message
  /-- in ascending order of their tags -/
  fields : List Field
  deriving DecidableEq, Repr

/-- A field is left out when unset if it is optional or a single nested message. -/
def presenceOf (modifier : Modifier) (kind : Kind) : Presence :=
  match modifier with
  | .repeated => .always
  | .optional => .whenSet
  | .single => if kind.isMessage then .whenSet else .always

/-- The plan of a field. -/
def Field.ofField (f : WireSchema.Field) : Field :=
  { field := f
    kind := .ofType f.type
    repeated := f.isRepeated
    presence := presenceOf f.modifier (.ofType f.type) }

/-- The tag of a field. -/
def Field.tag (f : Field) : Nat :=
  f.field.tag

/-- The plan of a message. -/
def Message.ofMessage (index : Nat) (m : WireSchema.Message) : Message :=
  { index, message := m, fields := m.fieldsByTag.map Field.ofField }

end WireSchema.Wire

namespace WireSchema

/-- The plan of every message, in the order of the declarations. -/
def Schema.plan (s : Schema) : List Wire.Message :=
  s.messages.mapIdx Wire.Message.ofMessage

end WireSchema
