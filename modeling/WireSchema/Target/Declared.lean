import WireSchema.Schema

/-!
# Declarations by name

How the messages of a generation failure name the declarations of a schema.
-/

namespace WireSchema

/-- A constant, as failures name it. -/
def Constant.declared (c : Constant) : String :=
  "const " ++ c.name

/-- An enum, as failures name it. -/
def Enum.declared (e : Enum) : String :=
  "enum " ++ e.name

/-- A variant of an enum, as failures name it. -/
def Enum.variantDeclared (e : Enum) (v : Variant) : String :=
  "enum value " ++ e.name ++ "." ++ v.label

/-- A message, as failures name it. -/
def Message.declared (m : Message) : String :=
  "message " ++ m.name

/-- A field of a message, as failures name it. -/
def Message.fieldDeclared (m : Message) (f : Field) : String :=
  "field " ++ m.name ++ "." ++ f.name

end WireSchema
