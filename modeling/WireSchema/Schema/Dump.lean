import WireSchema.Json
import WireSchema.Schema.Fingerprint

/-!
# Schema dump

A schema as a JSON document, with everything the schema holds: indices, tags, modifiers, locations
and constants.
-/

namespace WireSchema

/-- The document of a location. -/
def Location.toJson (loc : Location) : Json :=
  .object [("line", .integer loc.line), ("column", .integer loc.column)]

/-- The document of a field's type: what it is, and which one. -/
def TypeRef.toJson : TypeRef → Json
  | .primitive p => .object [("kind", .string "primitive"), ("ref", .string p.name)]
  | .message index => .object [("kind", .string "message"), ("ref", .integer index)]
  | .enum index => .object [("kind", .string "enum"), ("ref", .integer index)]

/-- The document of a field. -/
def Field.toJson (f : Field) : Json :=
  .object [("name", .string f.name), ("ty", f.type.toJson), ("tag", .integer f.tag),
    ("modifier", .string f.modifier.name), ("location", f.location.toJson)]

/-- The document of a message. -/
def Message.toJson (m : Message) : Json :=
  .object [("name", .string m.name), ("fields", .array (m.fields.map Field.toJson)),
    ("location", m.location.toJson)]

/-- The document of a variant. -/
def Variant.toJson (v : Variant) : Json :=
  .object [("label", .string v.label), ("value", .integer v.value),
    ("location", v.location.toJson)]

/-- The document of an enum. -/
def Enum.toJson (e : Enum) : Json :=
  .object [("name", .string e.name), ("variants", .array (e.variants.map Variant.toJson)),
    ("location", e.location.toJson)]

/-- The document of a constant's value. -/
def Literal.toJson : Literal → Json
  | .integer value => .integer value
  | .number value => .number value
  | .string value => .string value
  | .bool value => .bool value

/-- The document of a constant. -/
def Constant.toJson (c : Constant) : Json :=
  .object [("name", .string c.name), ("ty", .string c.type.name), ("value", c.value.toJson),
    ("location", c.location.toJson)]

namespace Schema

/-- The document of a schema. -/
def toJson (s : Schema) : Json :=
  .object [("name", .string s.name), ("messages", .array (s.messages.map Message.toJson)),
    ("enums", .array (s.enums.map Enum.toJson)),
    ("constants", .array (s.constants.map Constant.toJson))]

/-- The compact text of a schema. -/
def dump (s : Schema) : String :=
  s.toJson.compact

/-- The text that shows a schema and its protocol version: indented, with the keys in order. -/
def dumpPretty (s : Schema) : String :=
  (Json.object [("version", .string s.fingerprint.text), ("schema", s.toJson)]).sortKeys.pretty

end Schema

end WireSchema
