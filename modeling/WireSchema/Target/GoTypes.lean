import WireSchema.Decimal.Layout
import WireSchema.Schema.Fingerprint
import WireSchema.Target.GeneratedFile
import WireSchema.Target.GoNames
import WireSchema.Text.Quoted
import WireSchema.Wire.Plan

/-!
# Go types

The file with a schema's constants, enums and structs. A nested message is a pointer, so a message
may refer to itself; any other optional field is a pointer too, and a repeated field is a slice.
-/

namespace WireSchema.Go

/-! ## Types -/

/-- The type of a primitive. -/
def primitiveType : Primitive → String
  | .bytes => "[]byte"
  | p => p.name

/-- The type of a single value. -/
def elementType (s : Schema) : TypeRef → String
  | .primitive p => primitiveType p
  | .enum index => Naming.pascal (s.enumName index)
  | .message index => "*" ++ Naming.pascal (s.messageName index)

/-- Is the field a pointer to its value? A nested message is one already. -/
def isBoxed (f : Wire.Field) : Bool :=
  f.field.isOptional && !f.kind.isMessage

/-- The type of a field. -/
def fieldType (s : Schema) (f : Wire.Field) : String :=
  if f.repeated then "[]" ++ elementType s f.field.type
  else if isBoxed f then "*" ++ elementType s f.field.type
  else elementType s f.field.type

/-! ## Blocks of aligned rows -/

/-- A row of a struct or constant block. -/
structure Row where
  name : String
  type : String
  rest : String

/-- Pads a text with blanks to a number of characters. -/
def padded (width : Nat) (text : String) : String :=
  text ++ String.ofList (List.replicate (width - text.length) ' ')

/-- The greatest size of some texts in bytes. -/
def columnWidth (texts : List String) : Nat :=
  (texts.map String.utf8ByteSize).foldl max 0

/-- The lines of a block: one indented line a row, with names and types padded to columns. A
column's width is in bytes, while the padding counts characters. -/
def aligned (rows : List Row) : List String :=
  let names := columnWidth (rows.map Row.name)
  let types := columnWidth (rows.map Row.type)
  rows.map fun row =>
    "\t" ++ padded names row.name ++ " " ++ padded types row.type ++ " " ++ row.rest

/-- A block of constants. -/
def constBlock (rows : List Row) : List String :=
  "const (" :: aligned rows ++ [")"]

/-! ## Declarations -/

/-- The literal for a constant's value. -/
def literal : Literal → String
  | .integer i => toString i
  | .number x => x.display
  | .string s => Text.quote s
  | .bool b => if b then "true" else "false"

/-- The row of a constant. -/
def constantRow (c : Constant) : Row :=
  ⟨constantName c, primitiveType c.type, "= " ++ literal c.value⟩

/-- The row of an enum's variant. -/
def variantRow (e : Enum) (v : Variant) : Row :=
  ⟨variantName e v, enumType e, "= " ++ toString v.value⟩

/-- The type of an enum, its values, and a method that names them. -/
def enumLines (e : Enum) : List String :=
  ["type " ++ enumType e ++ " int32"]
    ++ (if e.variants.isEmpty then [] else "" :: constBlock (e.variants.map (variantRow e)))
    ++ ["",
      "func (v " ++ enumType e ++ ") String() string \x7b",
      "\tswitch v \x7b"]
    ++ e.variantsByValue.flatMap (fun v =>
      ["\tcase " ++ variantName e v ++ ":",
        "\t\treturn " ++ Text.quote v.label])
    ++ ["\t\x7d",
      "\treturn fmt.Sprintf(\"" ++ enumType e ++ "(%d)\", int32(v))",
      "\x7d"]

/-- The row of a field. -/
def fieldRow (s : Schema) (f : Field) : Row :=
  ⟨fieldName f, fieldType s (.ofField f),
    "`ango:\"" ++ toString f.tag ++ "\" json:\"" ++ f.name ++ "\"`"⟩

/-- The struct of a message. -/
def structLines (s : Schema) (m : Message) : List String :=
  ("type " ++ structName m ++ " struct \x7b") :: aligned (m.fields.map (fieldRow s)) ++ ["\x7d"]

/-! ## The file -/

/-- The first lines of a file of the package. -/
def header (s : Schema) (package : String) : List String :=
  [GeneratedFile.notice s, "", "package " ++ package, ""]

/-- The lines of the types file. -/
def typesLines (s : Schema) (version : Fingerprint) (package : String) : List String :=
  header s package
    ++ (if s.enums.isEmpty then [] else ["import \"fmt\"", ""])
    ++ ["// " ++ versionConstant ++ " identifies the wire shape of schema " ++ s.name ++ ".",
      "const " ++ versionConstant ++ " = " ++ Text.quote version.text]
    ++ (if s.constants.isEmpty then [] else "" :: constBlock (s.constants.map constantRow))
    ++ s.enums.flatMap (fun e => "" :: enumLines e)
    ++ s.messages.flatMap (fun m => "" :: structLines s m)
    ++ [""]

end WireSchema.Go
