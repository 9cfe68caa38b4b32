/-!
# Support code in JavaScript

The part of a generated JavaScript module that does not depend on the schema: a writer and a reader
class. Their methods are listed by name. The methods for 64-bit integers use `BigInt` literals and
are there only if `BigInt` is allowed.
-/

namespace WireSchema.JavaScript

/-- A method of a class. -/
structure SupportMethod where
  name : String
  parameters : String
  /-- comment lines before the method -/
  comment : List String := []
  /-- the statements, without the indentation of the method -/
  body : List String

/-- The lines of a method in a class. -/
def SupportMethod.lines (m : SupportMethod) : List String :=
  m.comment.map ("  " ++ ·)
    ++ ("  " ++ m.name ++ "(" ++ m.parameters ++ ") \x7b") :: m.body.map ("    " ++ ·)
    ++ ["  \x7d"]

/-- The lines of a class: its methods with a blank line between them. -/
def classLines (name : String) (methods : List SupportMethod) : List String :=
  ("class " ++ name ++ " \x7b") :: List.intercalate [""] (methods.map SupportMethod.lines)
    ++ ["\x7d"]

/-- The name of the writer class. -/
def writerClass : String :=
  "AngoWriter"

/-- The name of the reader class. -/
def readerClass : String :=
  "AngoReader"

/-- The constants that the classes share. -/
def supportConstants : List String :=
  ["const angoTextEncoder = new TextEncoder();",
   "const angoTextDecoder = new TextDecoder(\"utf-8\", \x7b fatal: true \x7d);"]

/-- The methods of the writer that need no `BigInt`. -/
def writerMethods : List SupportMethod :=
  [{ name := "constructor", parameters := "",
      body :=
        ["this.bytes = [];"] },
    { name := "finish", parameters := "",
      body :=
        ["return Uint8Array.from(this.bytes);"] },
    { name := "writeByte", parameters := "v",
      body :=
        ["this.bytes.push(v & 0xff);"] },
    { name := "writeBool", parameters := "v",
      body :=
        ["this.bytes.push(v ? 1 : 0);"] },
    { name := "writeVarUint", parameters := "v",
      body :=
        ["while (v >= 0x80) \x7b",
         "  this.bytes.push((v % 0x80) + 0x80);",
         "  v = Math.floor(v / 0x80);",
         "\x7d",
         "this.bytes.push(v);"] },
    { name := "writeVarInt", parameters := "v",
      body :=
        ["this.writeVarUint(v >= 0 ? v * 2 : -v * 2 - 1);"] },
    { name := "writeFloat32", parameters := "v",
      body :=
        ["const view = new DataView(new ArrayBuffer(4));",
         "view.setFloat32(0, v, true);",
         "this.bytes.push(...new Uint8Array(view.buffer));"] },
    { name := "writeFloat64", parameters := "v",
      body :=
        ["const view = new DataView(new ArrayBuffer(8));",
         "view.setFloat64(0, v, true);",
         "this.bytes.push(...new Uint8Array(view.buffer));"] },
    { name := "writeBytes", parameters := "v",
      body :=
        ["this.writeVarUint(v.length);",
         "for (const b of v) \x7b",
         "  this.bytes.push(b);",
         "\x7d"] },
    { name := "writeString", parameters := "v",
      body :=
        ["this.writeBytes(angoTextEncoder.encode(v));"] }]

/-- The methods of the writer for 64-bit integers. -/
def writerMethods64 : List SupportMethod :=
  [{ name := "writeVarUint64", parameters := "v",
      body :=
        ["v = BigInt.asUintN(64, BigInt(v));",
         "while (v >= 0x80n) \x7b",
         "  this.bytes.push(Number(v & 0x7fn) + 0x80);",
         "  v >>= 7n;",
         "\x7d",
         "this.bytes.push(Number(v));"] },
    { name := "writeVarInt64", parameters := "v",
      body :=
        ["v = BigInt.asIntN(64, BigInt(v));",
         "this.writeVarUint64(v >= 0n ? v * 2n : -v * 2n - 1n);"] }]

/-- The methods of the reader that need no `BigInt`. -/
def readerMethods : List SupportMethod :=
  [{ name := "constructor", parameters := "bytes",
      body :=
        ["this.bytes = bytes instanceof Uint8Array ? bytes : new Uint8Array(bytes);",
         "this.view = new DataView(this.bytes.buffer, this.bytes.byteOffset, this.bytes.byteLength);",
         "this.pos = 0;"] },
    { name := "remaining", parameters := "",
      body :=
        ["return this.bytes.length - this.pos;"] },
    { name := "need", parameters := "n",
      body :=
        ["if (this.remaining() < n) \x7b",
         "  throw new Error(\"ango: unexpected end of data\");",
         "\x7d"] },
    { name := "expectEnd", parameters := "name",
      body :=
        ["if (this.remaining() !== 0) \x7b",
         "  throw new Error(`ango: trailing data after $\x7bname\x7d`);",
         "\x7d"] },
    { name := "readByte", parameters := "",
      body :=
        ["this.need(1);",
         "return this.bytes[this.pos++];"] },
    { name := "readInt8", parameters := "",
      body :=
        ["return (this.readByte() << 24) >> 24;"] },
    { name := "readBool", parameters := "",
      body :=
        ["return this.readByte() !== 0;"] },
    { name := "readVarUint", parameters := "",
      body :=
        ["let v = 0;",
         "let scale = 1;",
         "for (let i = 0; i < 10; i++) \x7b",
         "  const b = this.readByte();",
         "  v += (b % 0x80) * scale;",
         "  if (b < 0x80) \x7b",
         "    return v;",
         "  \x7d",
         "  scale *= 0x80;",
         "\x7d",
         "throw new Error(\"ango: varint overflows 64 bits\");"] },
    { name := "readVarInt", parameters := "",
      body :=
        ["const u = this.readVarUint();",
         "return u % 2 === 0 ? u / 2 : -(u + 1) / 2;"] },
    { name := "readFloat32", parameters := "",
      body :=
        ["this.need(4);",
         "const v = this.view.getFloat32(this.pos, true);",
         "this.pos += 4;",
         "return v;"] },
    { name := "readFloat64", parameters := "",
      body :=
        ["this.need(8);",
         "const v = this.view.getFloat64(this.pos, true);",
         "this.pos += 8;",
         "return v;"] },
    { name := "readLength", parameters := "",
      comment :=
        ["// Every encoded element takes at least one byte, so a count past the end",
         "// of the input is truncated data."],
      body :=
        ["const n = this.readVarUint();",
         "this.need(n);",
         "return n;"] },
    { name := "readBytes", parameters := "",
      body :=
        ["const n = this.readLength();",
         "const v = this.bytes.slice(this.pos, this.pos + n);",
         "this.pos += n;",
         "return v;"] },
    { name := "readString", parameters := "",
      body :=
        ["return angoTextDecoder.decode(this.readBytes());"] }]

/-- The methods of the reader for 64-bit integers. -/
def readerMethods64 : List SupportMethod :=
  [{ name := "readVarUint64", parameters := "",
      body :=
        ["let v = 0n;",
         "for (let shift = 0n; shift < 70n; shift += 7n) \x7b",
         "  const b = this.readByte();",
         "  v |= BigInt(b & 0x7f) << shift;",
         "  if (b < 0x80) \x7b",
         "    return BigInt.asUintN(64, v);",
         "  \x7d",
         "\x7d",
         "throw new Error(\"ango: varint overflows 64 bits\");"] },
    { name := "readVarInt64", parameters := "",
      body :=
        ["const u = this.readVarUint64();",
         "return (u >> 1n) ^ -(u & 1n);"] }]

/-- The writer's methods under a `BigInt` setting. -/
def writerMethodsFor (bigint : Bool) : List SupportMethod :=
  writerMethods ++ if bigint then writerMethods64 else []

/-- The reader's methods under a `BigInt` setting. -/
def readerMethodsFor (bigint : Bool) : List SupportMethod :=
  readerMethods ++ if bigint then readerMethods64 else []

/-- The text of the support code under a `BigInt` setting. -/
def supportLines (bigint : Bool) : List String :=
  supportConstants ++ [""] ++ classLines writerClass (writerMethodsFor bigint)
    ++ [""] ++ classLines readerClass (readerMethodsFor bigint)

end WireSchema.JavaScript
