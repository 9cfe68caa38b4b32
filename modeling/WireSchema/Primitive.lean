/-!
# Primitive types

The built-in scalar types of the schema language.
-/

namespace WireSchema

/-- A built-in scalar type. -/
inductive Primitive where
  | bool
  | int8
  | int16
  | int32
  | int64
  | uint8
  | uint16
  | uint32
  | uint64
  | float32
  | float64
  | string
  | bytes
  deriving DecidableEq, Repr

namespace Primitive

/-- All primitive types. -/
def all : List Primitive :=
  [.bool, .int8, .int16, .int32, .int64, .uint8, .uint16, .uint32, .uint64, .float32, .float64,
    .string, .bytes]

/-- The word for a primitive type in schema text. -/
def name : Primitive → String
  | .bool => "bool"
  | .int8 => "int8"
  | .int16 => "int16"
  | .int32 => "int32"
  | .int64 => "int64"
  | .uint8 => "uint8"
  | .uint16 => "uint16"
  | .uint32 => "uint32"
  | .uint64 => "uint64"
  | .float32 => "float32"
  | .float64 => "float64"
  | .string => "string"
  | .bytes => "bytes"

/-- The primitive type that a word names. -/
def ofName? (word : String) : Option Primitive :=
  all.find? (·.name = word)

/-- The least and the greatest value of an integer type. -/
def integerRange? : Primitive → Option (Int × Int)
  | .int8 => some (-128, 127)
  | .int16 => some (-32768, 32767)
  | .int32 => some (-2147483648, 2147483647)
  | .int64 => some (-9223372036854775808, 9223372036854775807)
  | .uint8 => some (0, 255)
  | .uint16 => some (0, 65535)
  | .uint32 => some (0, 4294967295)
  | .uint64 => some (0, 18446744073709551615)
  | _ => none

/-- Is it an integer type? -/
def isInteger (p : Primitive) : Bool :=
  p.integerRange?.isSome

/-- Is it a floating-point type? -/
def isFloat : Primitive → Bool
  | .float32 | .float64 => true
  | _ => false

/-- Has it integers that a double cannot hold exactly? -/
def is64Bit : Primitive → Bool
  | .int64 | .uint64 => true
  | _ => false

end Primitive

end WireSchema
