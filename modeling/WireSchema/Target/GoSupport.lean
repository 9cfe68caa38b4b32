/-!
# Support code in Go

The part of a generated Go codec that does not depend on the schema: the packages it imports, and
the reader and writer that the codecs of all messages share. Each declaration is listed with its
name, so that the names the support code takes can be read off the list.
-/

namespace WireSchema.Go

/-- A declaration of the support code: a method if it has a receiver type, otherwise a package-level
name. -/
structure SupportDeclaration where
  receiver : Option String
  name : String
  /-- the text, with leading comments -/
  lines : List String

/-- The packages that the support code uses. -/
def supportImports : List String :=
  ["encoding/binary", "errors", "fmt", "math", "unicode/utf8"]

/-- The lines that import packages. -/
def importLines (packages : List String) : List String :=
  ["import ("] ++ packages.map (fun package => "\t\"" ++ package ++ "\"") ++ [")"]

/-- The declarations of the support code. -/
def supportDeclarations : List SupportDeclaration :=
  [{ receiver := none, name := "errAngoTruncated",
      lines :=
        ["var errAngoTruncated = errors.New(\"ango: unexpected end of data\")"] },
    { receiver := none, name := "angoWriter",
      lines :=
        ["type angoWriter struct \x7b",
         "\tbuf []byte",
         "\x7d"] },
    { receiver := some "angoWriter", name := "writeByte",
      lines :=
        ["func (w *angoWriter) writeByte(v byte) \x7b",
         "\tw.buf = append(w.buf, v)",
         "\x7d"] },
    { receiver := some "angoWriter", name := "writeBool",
      lines :=
        ["func (w *angoWriter) writeBool(v bool) \x7b",
         "\tif v \x7b",
         "\t\tw.buf = append(w.buf, 1)",
         "\t\x7d else \x7b",
         "\t\tw.buf = append(w.buf, 0)",
         "\t\x7d",
         "\x7d"] },
    { receiver := some "angoWriter", name := "writeVarUint",
      lines :=
        ["func (w *angoWriter) writeVarUint(v uint64) \x7b",
         "\tfor v >= 0x80 \x7b",
         "\t\tw.buf = append(w.buf, byte(v)|0x80)",
         "\t\tv >>= 7",
         "\t\x7d",
         "\tw.buf = append(w.buf, byte(v))",
         "\x7d"] },
    { receiver := some "angoWriter", name := "writeVarInt",
      lines :=
        ["func (w *angoWriter) writeVarInt(v int64) \x7b",
         "\tw.writeVarUint(uint64(v<<1) ^ uint64(v>>63))",
         "\x7d"] },
    { receiver := some "angoWriter", name := "writeFloat32",
      lines :=
        ["func (w *angoWriter) writeFloat32(v float32) \x7b",
         "\tw.buf = binary.LittleEndian.AppendUint32(w.buf, math.Float32bits(v))",
         "\x7d"] },
    { receiver := some "angoWriter", name := "writeFloat64",
      lines :=
        ["func (w *angoWriter) writeFloat64(v float64) \x7b",
         "\tw.buf = binary.LittleEndian.AppendUint64(w.buf, math.Float64bits(v))",
         "\x7d"] },
    { receiver := some "angoWriter", name := "writeBytes",
      lines :=
        ["func (w *angoWriter) writeBytes(v []byte) \x7b",
         "\tw.writeVarUint(uint64(len(v)))",
         "\tw.buf = append(w.buf, v...)",
         "\x7d"] },
    { receiver := some "angoWriter", name := "writeString",
      lines :=
        ["func (w *angoWriter) writeString(v string) \x7b",
         "\tw.writeVarUint(uint64(len(v)))",
         "\tw.buf = append(w.buf, v...)",
         "\x7d"] },
    { receiver := none, name := "angoReader",
      lines :=
        ["type angoReader struct \x7b",
         "\tbuf []byte",
         "\tpos int",
         "\x7d"] },
    { receiver := some "angoReader", name := "remaining",
      lines :=
        ["func (r *angoReader) remaining() int \x7b",
         "\treturn len(r.buf) - r.pos",
         "\x7d"] },
    { receiver := some "angoReader", name := "readByte",
      lines :=
        ["func (r *angoReader) readByte() (byte, error) \x7b",
         "\tif r.pos >= len(r.buf) \x7b",
         "\t\treturn 0, errAngoTruncated",
         "\t\x7d",
         "\tv := r.buf[r.pos]",
         "\tr.pos++",
         "\treturn v, nil",
         "\x7d"] },
    { receiver := some "angoReader", name := "readBool",
      lines :=
        ["func (r *angoReader) readBool() (bool, error) \x7b",
         "\tv, err := r.readByte()",
         "\treturn v != 0, err",
         "\x7d"] },
    { receiver := some "angoReader", name := "readVarUint",
      lines :=
        ["func (r *angoReader) readVarUint() (uint64, error) \x7b",
         "\tvar v uint64",
         "\tfor shift := uint(0); shift < 64; shift += 7 \x7b",
         "\t\tb, err := r.readByte()",
         "\t\tif err != nil \x7b",
         "\t\t\treturn 0, err",
         "\t\t\x7d",
         "\t\tv |= uint64(b&0x7f) << shift",
         "\t\tif b < 0x80 \x7b",
         "\t\t\treturn v, nil",
         "\t\t\x7d",
         "\t\x7d",
         "\treturn 0, errors.New(\"ango: varint overflows 64 bits\")",
         "\x7d"] },
    { receiver := some "angoReader", name := "readVarInt",
      lines :=
        ["func (r *angoReader) readVarInt() (int64, error) \x7b",
         "\tu, err := r.readVarUint()",
         "\treturn int64(u>>1) ^ -int64(u&1), err",
         "\x7d"] },
    { receiver := some "angoReader", name := "readFloat32",
      lines :=
        ["func (r *angoReader) readFloat32() (float32, error) \x7b",
         "\tif r.remaining() < 4 \x7b",
         "\t\treturn 0, errAngoTruncated",
         "\t\x7d",
         "\tv := math.Float32frombits(binary.LittleEndian.Uint32(r.buf[r.pos:]))",
         "\tr.pos += 4",
         "\treturn v, nil",
         "\x7d"] },
    { receiver := some "angoReader", name := "readFloat64",
      lines :=
        ["func (r *angoReader) readFloat64() (float64, error) \x7b",
         "\tif r.remaining() < 8 \x7b",
         "\t\treturn 0, errAngoTruncated",
         "\t\x7d",
         "\tv := math.Float64frombits(binary.LittleEndian.Uint64(r.buf[r.pos:]))",
         "\tr.pos += 8",
         "\treturn v, nil",
         "\x7d"] },
    { receiver := some "angoReader", name := "readLength",
      lines :=
        ["// readLength reads a length or element count. Every encoded element takes",
         "// at least one byte, so a count past the end of the input is truncated data.",
         "func (r *angoReader) readLength() (int, error) \x7b",
         "\tn, err := r.readVarUint()",
         "\tif err != nil \x7b",
         "\t\treturn 0, err",
         "\t\x7d",
         "\tif n > uint64(r.remaining()) \x7b",
         "\t\treturn 0, errAngoTruncated",
         "\t\x7d",
         "\treturn int(n), nil",
         "\x7d"] },
    { receiver := some "angoReader", name := "readBytes",
      lines :=
        ["func (r *angoReader) readBytes() ([]byte, error) \x7b",
         "\tn, err := r.readLength()",
         "\tif err != nil \x7b",
         "\t\treturn nil, err",
         "\t\x7d",
         "\tv := make([]byte, n)",
         "\tcopy(v, r.buf[r.pos:r.pos+n])",
         "\tr.pos += n",
         "\treturn v, nil",
         "\x7d"] },
    { receiver := some "angoReader", name := "readString",
      lines :=
        ["func (r *angoReader) readString() (string, error) \x7b",
         "\tn, err := r.readLength()",
         "\tif err != nil \x7b",
         "\t\treturn \"\", err",
         "\t\x7d",
         "\traw := r.buf[r.pos : r.pos+n]",
         "\tif !utf8.Valid(raw) \x7b",
         "\t\treturn \"\", errors.New(\"ango: string is not valid UTF-8\")",
         "\t\x7d",
         "\tr.pos += n",
         "\treturn string(raw), nil",
         "\x7d"] },
    { receiver := none, name := "angoUnknownTag",
      lines :=
        ["func angoUnknownTag(message string, tag uint64) error \x7b",
         "\treturn fmt.Errorf(\"ango: unknown tag %d in %s\", tag, message)",
         "\x7d"] }]

/-- The names that the support code declares in the package. -/
def supportNames : List String :=
  (supportDeclarations.filter (·.receiver.isNone)).map (·.name)

/-- The text of the support code: an import block and the declarations, each after a blank line. -/
def supportLines : List String :=
  importLines supportImports ++ supportDeclarations.flatMap ("" :: ·.lines)

end WireSchema.Go
