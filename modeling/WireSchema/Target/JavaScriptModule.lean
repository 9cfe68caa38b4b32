import WireSchema.Decimal.Layout
import WireSchema.Schema.Fingerprint
import WireSchema.Target.GeneratedFile
import WireSchema.Target.JavaScriptNames
import WireSchema.Text.Quoted

/-!
# JavaScript modules

The module with a schema's constants, enums and message classes. Integers of up to 32 bits are
numbers and 64-bit integers are `BigInt`. A class is built from the plan as statements (`Statement`
for the writer, `Case` for the reader) and rendered afterwards, so that what is written on the wire
can be read off without the text.
-/

namespace WireSchema.JavaScript

/-! ## Statements -/

/-- A pair of a writer's and a reader's method; a signed byte has a reader's method only. -/
inductive Coder where
  | bool
  | byte
  | int8
  | varUint
  | varInt
  | varUint64
  | varInt64
  | float32
  | float64
  | string
  | bytes
  deriving DecidableEq, Repr

/-- The common part of the names of a coder's methods. -/
def Coder.suffix : Coder → String
  | .bool => "Bool"
  | .byte => "Byte"
  | .int8 => "Int8"
  | .varUint => "VarUint"
  | .varInt => "VarInt"
  | .varUint64 => "VarUint64"
  | .varInt64 => "VarInt64"
  | .float32 => "Float32"
  | .float64 => "Float64"
  | .string => "String"
  | .bytes => "Bytes"

/-- The writer's method. -/
def Coder.writer (c : Coder) : String :=
  "write" ++ c.suffix

/-- The reader's method. -/
def Coder.reader (c : Coder) : String :=
  "read" ++ c.suffix

/-- How a value is written or read. -/
inductive ValueCoder where
  /-- by a method of the writer or reader -/
  | call (coder : Coder)
  /-- by the class of a nested message -/
  | nested (name : String)
  deriving DecidableEq, Repr

/-- Where a value is read from. -/
inductive Operand where
  /-- a property -/
  | member (name : String)
  /-- the element of the current round of a loop -/
  | element
  deriving DecidableEq, Repr

/-- A single write. -/
inductive Step where
  | tag (value : Nat)
  | count (member : String)
  | value (coder : ValueCoder) (operand : Operand)
  deriving DecidableEq, Repr

/-- A statement of a class's writer. -/
inductive Statement where
  | step (s : Step)
  | ifSet (member : String) (steps : List Step)
  | forEach (member : String) (steps : List Step)
  deriving DecidableEq, Repr

/-- What a class's reader does after the tag of a field. -/
inductive Case where
  /-- stores one value -/
  | store (member : String) (coder : ValueCoder)
  /-- stores as many values as a count says -/
  | collect (member : String) (coder : ValueCoder)
  deriving DecidableEq, Repr

/-- The class of a message. -/
structure MessageClass where
  name : String
  /-- the properties with their defaults, in the order of the declarations -/
  properties : List (String × String)
  /-- the writer between the test for an unset message and the terminator -/
  writer : List Statement
  /-- the reader's tags, each with what follows it -/
  reader : List (Nat × Case)
  deriving DecidableEq, Repr

/-! ## From the plan to statements -/

/-- How a kind of value is written. -/
def valueWriter (s : Schema) : Wire.Kind → ValueCoder
  | .bool => .call .bool
  | .uint8 | .int8 => .call .byte
  | .signedVarint .int64 => .call .varInt64
  | .signedVarint _ => .call .varInt
  | .unsignedVarint .uint64 => .call .varUint64
  | .unsignedVarint _ => .call .varUint
  | .float32 => .call .float32
  | .float64 => .call .float64
  | .string => .call .string
  | .bytes => .call .bytes
  | .enum _ => .call .varInt
  | .message index => .nested (Naming.pascal (s.messageName index))

/-- How a kind of value is read. -/
def valueReader (s : Schema) : Wire.Kind → ValueCoder
  | .bool => .call .bool
  | .uint8 => .call .byte
  | .int8 => .call .int8
  | .signedVarint .int64 => .call .varInt64
  | .signedVarint _ => .call .varInt
  | .unsignedVarint .uint64 => .call .varUint64
  | .unsignedVarint _ => .call .varUint
  | .float32 => .call .float32
  | .float64 => .call .float64
  | .string => .call .string
  | .bytes => .call .bytes
  | .enum _ => .call .varInt
  | .message index => .nested (Naming.pascal (s.messageName index))

/-- The value of a property that is not given. -/
def defaultValue (f : Wire.Field) : String :=
  if f.repeated then "[]"
  else if f.presence = .whenSet then "null"
  else match f.kind with
    | .bool => "false"
    | .string => "\"\""
    | .bytes => "new Uint8Array(0)"
    | kind => if kind.is64Bit then "0n" else "0"

/-- The statements that write a field. -/
def writeField (s : Schema) (f : Wire.Field) : List Statement :=
  let name := property f.field
  let coder := valueWriter s f.kind
  if f.repeated then
    [.step (.tag f.tag), .step (.count name), .forEach name [.value coder .element]]
  else
    match f.presence with
    | .always => [.step (.tag f.tag), .step (.value coder (.member name))]
    | .whenSet => [.ifSet name [.tag f.tag, .value coder (.member name)]]

/-- What the reader does after a field's tag. -/
def readField (s : Schema) (f : Wire.Field) : Case :=
  if f.repeated then .collect (property f.field) (valueReader s f.kind)
  else .store (property f.field) (valueReader s f.kind)

/-- The class of a message. -/
def messageClass (s : Schema) (m : Wire.Message) : MessageClass :=
  { name := className m.message
    properties := m.message.fields.map fun f => (property f, defaultValue (.ofField f))
    writer := m.fields.flatMap (writeField s)
    reader := m.fields.map fun f => (f.tag, readField s f) }

/-! ## Rendering -/

/-- The expression for a property. -/
def memberText (name : String) : String :=
  "m." ++ name

/-- The expression for an operand. -/
def Operand.text : Operand → String
  | .member name => memberText name
  | .element => "v"

/-- The statement that writes a value. -/
def ValueCoder.writeText (operand : String) : ValueCoder → String
  | .call coder => "w." ++ coder.writer ++ "(" ++ operand ++ ");"
  | .nested name => name ++ "._write(w, " ++ operand ++ ");"

/-- The expression that reads a value. -/
def ValueCoder.readText : ValueCoder → String
  | .call coder => "r." ++ coder.reader ++ "()"
  | .nested name => name ++ "._read(r)"

/-- The line of a write. -/
def Step.text : Step → String
  | .tag n => "w.writeVarUint(" ++ toString n ++ ");"
  | .count member => "w.writeVarUint(" ++ memberText member ++ ".length);"
  | .value coder operand => coder.writeText operand.text

/-- Lines inside a block. -/
def indented (lines : List String) : List String :=
  lines.map ("  " ++ ·)

/-- The lines of a statement. -/
def Statement.lines : Statement → List String
  | .step s => [s.text]
  | .ifSet member steps =>
    ("if (" ++ memberText member ++ " != null) \x7b") :: indented (steps.map Step.text) ++ ["\x7d"]
  | .forEach member steps =>
    ("for (const v of " ++ memberText member ++ ") \x7b") :: indented (steps.map Step.text)
      ++ ["\x7d"]

/-- The lines of a reader's case with its label. -/
def caseLines (tag : Nat) : Case → List String
  | .store member coder =>
    ["case " ++ toString tag ++ ":",
      "  " ++ memberText member ++ " = " ++ coder.readText ++ ";",
      "  break;"]
  | .collect member coder =>
    ["case " ++ toString tag ++ ": \x7b",
      "  const n = r.readLength();",
      "  const items = [];",
      "  for (let i = 0; i < n; i++) \x7b",
      "    items.push(" ++ coder.readText ++ ");",
      "  \x7d",
      "  " ++ memberText member ++ " = items;",
      "  break;",
      "\x7d"]

/-- The constructor: properties that are not given have their defaults. -/
def constructorLines (properties : List (String × String)) : List String :=
  ["constructor(init = \x7b\x7d) \x7b"]
    ++ properties.map (fun (name, default) =>
      "  this." ++ name ++ " = init." ++ name ++ " ?? " ++ default ++ ";")
    ++ ["\x7d"]

/-- The method that encodes a message into bytes. -/
def encodeLines (name : String) : List String :=
  ["encode() \x7b",
    "  const w = new " ++ writerClass ++ "();",
    "  " ++ name ++ "._write(w, this);",
    "  return w.finish();",
    "\x7d"]

/-- The method that decodes a message from bytes. -/
def decodeLines (name : String) : List String :=
  ["static decode(bytes) \x7b",
    "  const r = new " ++ readerClass ++ "(bytes);",
    "  const m = " ++ name ++ "._read(r);",
    "  r.expectEnd(" ++ Text.quote name ++ ");",
    "  return m;",
    "\x7d"]

/-- The writer: an unset message is written as an empty one. -/
def writeLines (statements : List Statement) : List String :=
  ["static _write(w, m) \x7b",
    "  if (m == null) \x7b",
    "    w.writeVarUint(0);",
    "    return;",
    "  \x7d"]
    ++ indented (statements.flatMap Statement.lines)
    ++ ["  w.writeVarUint(0);",
      "\x7d"]

/-- The reader: reads tags up to the terminator. -/
def readLines (name : String) (cases : List (Nat × Case)) : List String :=
  ["static _read(r) \x7b",
    "  const m = new " ++ name ++ "();",
    "  for (;;) \x7b",
    "    const tag = r.readVarUint();",
    "    switch (tag) \x7b",
    "      case 0:",
    "        return m;"]
    ++ (cases.flatMap fun (tag, body) => caseLines tag body).map ("      " ++ ·)
    ++ ["      default:",
      "        throw new Error(`ango: unknown tag $\x7btag\x7d in " ++ name ++ "`);",
      "    \x7d",
      "  \x7d",
      "\x7d"]

/-- The lines of a class. -/
def MessageClass.lines (c : MessageClass) : List String :=
  ["export class " ++ c.name ++ " \x7b"]
    ++ indented (constructorLines c.properties) ++ [""]
    ++ indented (encodeLines c.name) ++ [""]
    ++ indented (decodeLines c.name) ++ [""]
    ++ indented (writeLines c.writer) ++ [""]
    ++ indented (readLines c.name c.reader)
    ++ ["\x7d"]

/-- The literal for a constant's value; 64-bit integers are `BigInt` literals. -/
def literal (c : Constant) : String :=
  match c.value with
  | .integer i => if c.type.is64Bit then toString i ++ "n" else toString i
  | .number x => x.display
  | .string s => Text.quote s
  | .bool b => if b then "true" else "false"

/-- The line of a constant. -/
def constantLine (c : Constant) : String :=
  "export const " ++ constantName c ++ " = " ++ literal c ++ ";"

/-- The object of an enum. -/
def enumLines (e : Enum) : List String :=
  ["export const " ++ enumObject e ++ " = Object.freeze(\x7b"]
    ++ e.variants.map (fun v => "  " ++ v.label ++ ": " ++ toString v.value ++ ",")
    ++ ["\x7d);"]

/-! ## The file -/

/-- The part of the module that depends on the schema. -/
def declarationLines (s : Schema) (version : Fingerprint) : List String :=
  [GeneratedFile.notice s, "",
    "export const " ++ versionConstant ++ " = " ++ Text.quote version.text ++ ";"]
    ++ (if s.constants.isEmpty then [] else "" :: s.constants.map constantLine)
    ++ s.enums.flatMap (fun e => "" :: enumLines e)
    ++ s.plan.flatMap (fun m => "" :: (messageClass s m).lines)

/-- The lines of the module. -/
def moduleLines (s : Schema) (version : Fingerprint) (bigint : Bool) : List String :=
  declarationLines s version ++ [""] ++ supportLines bigint ++ [""]

end WireSchema.JavaScript
