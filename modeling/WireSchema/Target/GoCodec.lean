import WireSchema.Target.GoSupport
import WireSchema.Target.GoTypes

/-!
# Go codecs

The file with the encoder and decoder of every message. A codec is built from the plan as
statements (`Statement` for the encoder, `Case` for the decoder) and rendered afterwards, so that
what is written on the wire can be read off without the text.
-/

namespace WireSchema.Go

/-! ## Statements -/

/-- A pair of a writer's and a reader's method. -/
inductive Coder where
  | bool
  | byte
  | varUint
  | varInt
  | float32
  | float64
  | string
  | bytes
  deriving DecidableEq, Repr

/-- The common part of the names of a coder's methods. -/
def Coder.suffix : Coder → String
  | .bool => "Bool"
  | .byte => "Byte"
  | .varUint => "VarUint"
  | .varInt => "VarInt"
  | .float32 => "Float32"
  | .float64 => "Float64"
  | .string => "String"
  | .bytes => "Bytes"

/-- The writer's method. -/
def Coder.writer (c : Coder) : String :=
  "write" ++ c.suffix

/-- The reader's method. -/
def Coder.reader (c : Coder) : String :=
  "read" ++ c.suffix

/-- How a value is written. -/
inductive ValueWriter where
  /-- by a writer's method, after a conversion if one is given -/
  | call (coder : Coder) (conversion : Option String)
  /-- by the encoder of the nested message -/
  | nested
  deriving DecidableEq, Repr

/-- Where a value is read from. -/
inductive Operand where
  /-- a struct field -/
  | member (name : String)
  /-- what a struct field points to -/
  | pointee (name : String)
  /-- the element of the current round of a loop -/
  | element
  deriving DecidableEq, Repr

/-- A single write. -/
inductive Step where
  | tag (value : Nat)
  | count (member : String)
  | value (writer : ValueWriter) (operand : Operand)
  deriving DecidableEq, Repr

/-- A statement of an encoder. -/
inductive Statement where
  | step (s : Step)
  | ifSet (member : String) (steps : List Step)
  | forEach (member : String) (steps : List Step)
  deriving DecidableEq, Repr

/-- How a value is read. -/
inductive ValueReader where
  /-- by a reader's method, before a conversion if one is given -/
  | call (coder : Coder) (conversion : Option String)
  /-- by the decoder of a nested message's struct -/
  | nested (struct : String)
  deriving DecidableEq, Repr

/-- What a decoder does after the tag of a field. -/
inductive Case where
  /-- stores one value, or its address -/
  | store (member : String) (reader : ValueReader) (address : Bool)
  /-- stores as many values as a count says -/
  | collect (member : String) (element : String) (reader : ValueReader)
  deriving DecidableEq, Repr

/-- The codec of a message. -/
structure Codec where
  /-- the message's struct -/
  struct : String
  /-- the encoder between the test for an unset message and the terminator -/
  encoder : List Statement
  /-- the decoder's tags, each with what follows it -/
  decoder : List (Nat × Case)
  deriving DecidableEq, Repr

/-! ## From the plan to statements -/

/-- The writer of a kind of value. -/
def valueWriter : Wire.Kind → ValueWriter
  | .bool => .call .bool none
  | .uint8 => .call .byte none
  | .int8 => .call .byte (some "byte")
  | .signedVarint _ => .call .varInt (some "int64")
  | .unsignedVarint _ => .call .varUint (some "uint64")
  | .float32 => .call .float32 none
  | .float64 => .call .float64 none
  | .string => .call .string none
  | .bytes => .call .bytes none
  | .enum _ => .call .varInt (some "int64")
  | .message _ => .nested

/-- The reader of a kind of value. -/
def valueReader (s : Schema) : Wire.Kind → ValueReader
  | .bool => .call .bool none
  | .uint8 => .call .byte none
  | .int8 => .call .byte (some "int8")
  | .signedVarint .int64 => .call .varInt none
  | .signedVarint type => .call .varInt (some type.name)
  | .unsignedVarint .uint64 => .call .varUint none
  | .unsignedVarint type => .call .varUint (some type.name)
  | .float32 => .call .float32 none
  | .float64 => .call .float64 none
  | .string => .call .string none
  | .bytes => .call .bytes none
  | .enum index => .call .varInt (some (Naming.pascal (s.enumName index)))
  | .message index => .nested (Naming.pascal (s.messageName index))

/-- The statements that write a field. -/
def encodeField (f : Wire.Field) : List Statement :=
  let name := fieldName f.field
  let writer := valueWriter f.kind
  if f.repeated then
    [.step (.tag f.tag), .step (.count name), .forEach name [.value writer .element]]
  else
    match f.presence with
    | .always => [.step (.tag f.tag), .step (.value writer (.member name))]
    | .whenSet =>
      let operand := if f.kind.isMessage then Operand.member name else .pointee name
      [.ifSet name [.tag f.tag, .value writer operand]]

/-- What the decoder does after a field's tag. -/
def decodeField (s : Schema) (f : Wire.Field) : Case :=
  let name := fieldName f.field
  let reader := valueReader s f.kind
  if f.repeated then .collect name (elementType s f.field.type) reader
  else .store name reader (isBoxed f)

/-- The codec of a message. -/
def codec (s : Schema) (m : Wire.Message) : Codec :=
  { struct := structName m.message
    encoder := m.fields.flatMap encodeField
    decoder := m.fields.map fun f => (f.tag, decodeField s f) }

/-! ## Rendering -/

/-- The expression for a struct field. -/
def memberText (name : String) : String :=
  "m." ++ name

/-- The expression for an operand. -/
def Operand.text : Operand → String
  | .member name => memberText name
  | .pointee name => "*" ++ memberText name
  | .element => "v"

/-- The statement that writes a value. -/
def ValueWriter.text (operand : String) : ValueWriter → String
  | .call coder none => "w." ++ coder.writer ++ "(" ++ operand ++ ")"
  | .call coder (some conversion) =>
    "w." ++ coder.writer ++ "(" ++ conversion ++ "(" ++ operand ++ "))"
  | .nested => operand ++ ".encodeTo(w)"

/-- The line of a write. -/
def Step.text : Step → String
  | .tag n => "w.writeVarUint(" ++ toString n ++ ")"
  | .count member => "w.writeVarUint(uint64(len(" ++ memberText member ++ ")))"
  | .value writer operand => writer.text operand.text

/-- Lines inside a block. -/
def indented (lines : List String) : List String :=
  lines.map ("\t" ++ ·)

/-- The lines of a statement. -/
def Statement.lines : Statement → List String
  | .step s => [s.text]
  | .ifSet member steps =>
    ("if " ++ memberText member ++ " != nil \x7b") :: indented (steps.map Step.text) ++ ["\x7d"]
  | .forEach member steps =>
    ("for _, v := range " ++ memberText member ++ " \x7b") :: indented (steps.map Step.text)
      ++ ["\x7d"]

/-- Lines that leave the decoder after a failure. -/
def errorCheck : List String :=
  ["if err != nil \x7b", "\treturn err", "\x7d"]

/-- Lines that leave a value that was read in `val`. -/
def ValueReader.lines : ValueReader → List String
  | .call coder none => ("val, err := r." ++ coder.reader ++ "()") :: errorCheck
  | .call coder (some conversion) =>
    ("raw, err := r." ++ coder.reader ++ "()") :: errorCheck ++ ["val := " ++ conversion ++ "(raw)"]
  | .nested struct =>
    ["val := &" ++ struct ++ "\x7b\x7d",
      "if err := val.decodeFrom(r); err != nil \x7b",
      "\treturn err",
      "\x7d"]

/-- The lines of a case. -/
def Case.lines : Case → List String
  | .store member reader address =>
    reader.lines ++ [memberText member ++ " = " ++ (if address then "&val" else "val")]
  | .collect member element reader =>
    "n, err := r.readLength()" :: errorCheck
      ++ [memberText member ++ " = make([]" ++ element ++ ", 0, n)",
        "for i := 0; i < n; i++ \x7b"]
      ++ indented (reader.lines
        ++ [memberText member ++ " = append(" ++ memberText member ++ ", val)"])
      ++ ["\x7d"]

/-- The lines of a decoder's case with its label. -/
def caseLines (tag : Nat) (body : Case) : List String :=
  ("case " ++ toString tag ++ ":") :: indented body.lines

/-- The method that encodes a message into bytes. -/
def marshalLines (struct : String) : List String :=
  ["// MarshalAngo encodes m. A nil m encodes as an empty " ++ struct ++ ".",
    "func (m *" ++ struct ++ ") MarshalAngo() []byte \x7b",
    "\tw := &angoWriter\x7b\x7d",
    "\tm.encodeTo(w)",
    "\treturn w.buf",
    "\x7d"]

/-- The method that decodes a message from bytes. -/
def unmarshalLines (struct : String) : List String :=
  ["// UnmarshalAngo replaces m with the message encoded in data, which must",
    "// hold exactly one message.",
    "func (m *" ++ struct ++ ") UnmarshalAngo(data []byte) error \x7b",
    "\tr := &angoReader\x7bbuf: data\x7d",
    "\t*m = " ++ struct ++ "\x7b\x7d",
    "\tif err := m.decodeFrom(r); err != nil \x7b",
    "\t\treturn err",
    "\t\x7d",
    "\tif r.remaining() != 0 \x7b",
    "\t\treturn errors.New(\"ango: trailing data after " ++ struct ++ "\")",
    "\t\x7d",
    "\treturn nil",
    "\x7d"]

/-- The encoder: an unset message is written as an empty one. -/
def encoderLines (c : Codec) : List String :=
  ["func (m *" ++ c.struct ++ ") encodeTo(w *angoWriter) \x7b",
    "\tif m == nil \x7b",
    "\t\tw.writeVarUint(0)",
    "\t\treturn",
    "\t\x7d"]
    ++ indented (c.encoder.flatMap Statement.lines)
    ++ ["\tw.writeVarUint(0)",
      "\x7d"]

/-- The decoder: reads tags up to the terminator. -/
def decoderLines (c : Codec) : List String :=
  ["func (m *" ++ c.struct ++ ") decodeFrom(r *angoReader) error \x7b",
    "\tfor \x7b",
    "\t\ttag, err := r.readVarUint()",
    "\t\tif err != nil \x7b",
    "\t\t\treturn err",
    "\t\t\x7d",
    "\t\tswitch tag \x7b",
    "\t\tcase 0:",
    "\t\t\treturn nil"]
    ++ indented (indented (c.decoder.flatMap fun (tag, body) => caseLines tag body))
    ++ ["\t\tdefault:",
      "\t\t\treturn angoUnknownTag(" ++ Text.quote c.struct ++ ", tag)",
      "\t\t\x7d",
      "\t\x7d",
      "\x7d"]

/-- The four methods of a message's struct. -/
def Codec.lines (c : Codec) : List String :=
  marshalLines c.struct ++ [""] ++ unmarshalLines c.struct ++ [""] ++ encoderLines c ++ [""]
    ++ decoderLines c

/-- The lines of the codec file. -/
def codecLines (s : Schema) (package : String) : List String :=
  header s package ++ supportLines ++ s.plan.flatMap (fun m => "" :: (codec s m).lines) ++ [""]

end WireSchema.Go
