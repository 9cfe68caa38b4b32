import WireSchema.Proofs.AcceptedPlan
import WireSchema.Proofs.WireProgram
import WireSchema.Target.JavaScriptModule

/-!
# Wire programs in JavaScript

The same for the classes of a module: the blocks of their writers and readers are forms that can be
told apart (`writeForms`, `readForms`), the methods of a class are read as one program
(`emits_moduleLines`), and it is the one that the plan asks for (`follows_program`). The writer and
the reader are the last methods of a class; no line before them closes it.
-/

namespace WireSchema.JavaScript

open Source
open Source.Part (word)

/-! ## Writers -/

/-- The line that writes a tag. -/
def tagLine : List Part :=
  ["w.writeVarUint(", word, ");"]

/-- A value that is always written. -/
def alwaysLines (value : List Part) : List (List Part) :=
  [tagLine, value]

/-- A value that is written if a property is set. -/
def whenSetLines (value : List Part) : List (List Part) :=
  [["if (", "m.", word, " != null) \x7b"],
    "  " :: tagLine,
    "  " :: value,
    ["\x7d"]]

/-- A value for every element of a property, after their count. -/
def forEachLines (value : List Part) : List (List Part) :=
  [tagLine,
    ["w.writeVarUint(", "m.", word, ".length);"],
    ["for (const v of ", "m.", word, ") \x7b"],
    "  " :: value,
    ["\x7d"]]

/-- A property. -/
def memberParts : List Part :=
  ["m.", word]

/-- The element of the current round of a loop. -/
def elementParts : List Part :=
  ["v"]

/-- A method of the writer. -/
def callLine (operand : List Part) : List Part :=
  "w." :: word :: "(" :: (operand ++ [.text ");"])

/-- The writer of a nested message. -/
def nestedLine (operand : List Part) : List Part :=
  word :: "._write(w, " :: (operand ++ [.text ");"])

/-- The blocks of a writer. -/
def writeForms : List (Form WriteStep) :=
  [{ lines := alwaysLines (callLine memberParts)
     meaning
      | [tag, method, x] => writes? .always false tag [x] (.call method none)
      | _ => none },
    { lines := whenSetLines (callLine memberParts)
      meaning
      | [x, tag, method, y] => writes? .whenSet false tag [x, y] (.call method none)
      | _ => none },
    { lines := whenSetLines (nestedLine memberParts)
      meaning
      | [x, tag, name, y] => writes? .whenSet false tag [x, y] (.nested (some name))
      | _ => none },
    { lines := forEachLines (callLine elementParts)
      meaning
      | [tag, x, y, method] => writes? .always true tag [x, y] (.call method none)
      | _ => none },
    { lines := forEachLines (nestedLine elementParts)
      meaning
      | [tag, x, y, name] => writes? .always true tag [x, y] (.nested (some name))
      | _ => none }]

/-- No text is rendered by two of the forms for writing. -/
theorem distinct_writeForms : Form.Distinct writeForms := by
  decide +kernel

/-- The call that writes a value. -/
def ValueCoder.writeTransfer : ValueCoder → Transfer
  | .call coder => .call coder.writer none
  | .nested name => .nested (some name)

/-- What the writer does for a field. -/
def writeStep (s : Schema) (f : Wire.Field) : WriteStep :=
  ⟨f.tag, f.presence, f.repeated, property f.field, (valueWriter s f.kind).writeTransfer⟩

theorem isName_writer (coder : Coder) : isName coder.writer = true := by
  cases coder <;> decide +kernel

theorem isName_reader (coder : Coder) : isName coder.reader = true := by
  cases coder <;> decide +kernel

theorem spells_member {name : String} (hname : isName name = true) :
    SpellsLine memberParts [name] (memberText name) :=
  (SpellsLine.literal "m.").append (.name hname)

/-- The line that writes a tag. -/
theorem spells_tag (n : Nat) : SpellsLine tagLine [toString n] (Step.tag n).text :=
  ((SpellsLine.literal "w.writeVarUint(").append (.name (isName_toString n))).before ");"

/-- The parts and the open words of the line that writes a value. -/
def ValueCoder.parts (operand : List Part) : ValueCoder → List Part
  | .call _ => callLine operand
  | .nested _ => nestedLine operand

def ValueCoder.words (operand : List String) : ValueCoder → List String
  | .call coder => coder.writer :: operand
  | .nested name => name :: operand

/-- The line that writes a value. -/
theorem spells_value {coder : ValueCoder} {operand : Operand}
    (hname : ∀ name, coder = .nested name → isName name = true)
    {parts : List Part} {words : List String} (h : SpellsLine parts words operand.text) :
    SpellsLine (coder.parts parts) (coder.words words) (Step.value coder operand).text := by
  cases coder with
  | call coder =>
    have hcall := ((SpellsLine.literal "w.").append (.name (isName_writer coder))).before "("
    exact (hcall.append h).before ");"
  | nested name =>
    have hcall := (SpellsLine.name (hname name rfl)).before "._write(w, "
    exact (hcall.append h).before ");"

/-- The lines for a field that is always written. -/
theorem spells_always (n : Nat) {value : Step} {parts : List Part} {words : List String}
    (hvalue : SpellsLine parts words value.text) :
    Spells (alwaysLines parts) (toString n :: (words ++ []))
      ([Statement.step (.tag n), .step value].flatMap Statement.lines) :=
  .cons (spells_tag n) (.cons hvalue .nil)

/-- The lines for a field that is written if it is set. -/
theorem spells_whenSet (n : Nat) {member : String} (hmember : isName member = true)
    {value : Step} {parts : List Part} {words : List String}
    (hvalue : SpellsLine parts words value.text) :
    Spells (whenSetLines parts) (member :: toString n :: (words ++ []))
      ([Statement.ifSet member [.tag n, value]].flatMap Statement.lines) :=
  .cons (((SpellsLine.literal "if (").append (spells_member hmember)).before " != null) \x7b") <|
    .cons (.text "  " (spells_tag n)) <| .cons (.text "  " hvalue) <|
    .cons (.literal "\x7d") .nil

/-- The lines for a repeated field. -/
theorem spells_forEach (n : Nat) {member : String} (hmember : isName member = true)
    {value : Step} {parts : List Part} {words : List String}
    (hvalue : SpellsLine parts words value.text) :
    Spells (forEachLines parts) (toString n :: member :: member :: (words ++ []))
      ([Statement.step (.tag n), .step (.count member), .forEach member [value]].flatMap
        Statement.lines) :=
  .cons (spells_tag n) <|
    .cons (((SpellsLine.literal "w.writeVarUint(").append (spells_member hmember)).before
      ".length);") <|
    .cons (((SpellsLine.literal "for (const v of ").append (spells_member hmember)).before
      ") \x7b") <|
    .cons (.text "  " hvalue) <| .cons (.literal "\x7d") .nil

/-- Only messages are written by classes. -/
theorem isMessage_of_valueWriter {s : Schema} {kind : Wire.Kind} {name : String}
    (h : valueWriter s kind = .nested name) : kind.isMessage = true := by
  cases kind with
  | message index => rfl
  | signedVarint type => cases type <;> cases h
  | unsignedVarint type => cases type <;> cases h
  | _ => cases h

/-- What is emitted for a field is a block of its own. -/
theorem renders_writeField {s : Schema} {f : Wire.Field} (hf : f = .ofField f.field)
    (hname : isName (property f.field) = true)
    (hnested : ∀ name, valueWriter s f.kind = .nested name → isName name = true) :
    ∃ form ∈ writeForms,
      form.Renders ((writeField s f).flatMap Statement.lines) (writeStep s f) := by
  have hsole : sole? [property f.field, property f.field] = some (property f.field) := by
    simp [sole?]
  have hmember : SpellsLine memberParts [property f.field] (Operand.member _).text :=
    spells_member hname
  have helement : SpellsLine elementParts [] Operand.element.text := .literal "v"
  rcases Wire.planned_cases hf with ⟨hrep, hpres⟩ | ⟨hrep, hpres, hmessage⟩ | ⟨hrep, hpres⟩ <;>
    rw [writeStep, writeField, hrep, hpres]
  · have hspells := spells_forEach f.tag hname (spells_value hnested helement)
    cases hwriter : valueWriter s f.kind <;> rw [hwriter] at hspells
    · exact Form.exists_renders 3 rfl hspells (writes?_toString _ _ _ hsole _)
    · exact Form.exists_renders 4 rfl hspells (writes?_toString _ _ _ hsole _)
  · have hspells := spells_always f.tag (spells_value hnested hmember)
    cases hwriter : valueWriter s f.kind <;> rw [hwriter] at hspells
    · exact Form.exists_renders 0 rfl hspells (writes?_toString _ _ _ rfl _)
    · exact absurd (isMessage_of_valueWriter hwriter) (by simp [hmessage])
  · have hspells := spells_whenSet f.tag hname (spells_value hnested hmember)
    cases hwriter : valueWriter s f.kind <;> rw [hwriter] at hspells
    · exact Form.exists_renders 1 rfl hspells (writes?_toString _ _ _ hsole _)
    · exact Form.exists_renders 2 rfl hspells (writes?_toString _ _ _ hsole _)

/-! ## Readers -/

/-- The line that stores a value. -/
def storeLine (read : List Part) : List Part :=
  "  " :: "m." :: word :: " = " :: (read ++ [.text ";"])

/-- The line that stores an element. -/
def pushLine (read : List Part) : List Part :=
  "    items.push(" :: (read ++ [.text ");"])

/-- A case that stores one value. -/
def storeLines (read : List Part) : List (List Part) :=
  [["case ", word, ":"],
    storeLine read,
    ["  break;"]]

/-- A case that stores as many values as a count says. -/
def collectLines (read : List Part) : List (List Part) :=
  [["case ", word, ": \x7b"],
    ["  const n = r.readLength();"],
    ["  const items = [];"],
    ["  for (let i = 0; i < n; i++) \x7b"],
    pushLine read,
    ["  \x7d"],
    ["  ", "m.", word, " = items;"],
    ["  break;"],
    ["\x7d"]]

/-- A method of the reader. -/
def callRead : List Part :=
  ["r.", word, "()"]

/-- The reader of a nested message. -/
def nestedRead : List Part :=
  [word, "._read(r)"]

/-- The blocks of a reader. -/
def readForms : List (Form ReadStep) :=
  [{ lines := storeLines callRead
     meaning
      | [tag, x, method] => reads? false tag [x] (.call method none)
      | _ => none },
    { lines := storeLines nestedRead
      meaning
      | [tag, x, name] => reads? false tag [x] (.nested (some name))
      | _ => none },
    { lines := collectLines callRead
      meaning
      | [tag, method, x] => reads? true tag [x] (.call method none)
      | _ => none },
    { lines := collectLines nestedRead
      meaning
      | [tag, name, x] => reads? true tag [x] (.nested (some name))
      | _ => none }]

/-- No text is rendered by two of the forms for reading. -/
theorem distinct_readForms : Form.Distinct readForms := by
  decide +kernel

/-- The call that reads a value. -/
def ValueCoder.readTransfer : ValueCoder → Transfer
  | .call coder => .call coder.reader none
  | .nested name => .nested (some name)

/-- What the reader does after a field's tag. -/
def readStep (s : Schema) (f : Wire.Field) : ReadStep :=
  ⟨f.tag, f.repeated, property f.field, (valueReader s f.kind).readTransfer⟩

/-- Reading by a method of the reader. -/
theorem spells_callRead (coder : Coder) :
    SpellsLine callRead [coder.reader] (ValueCoder.call coder).readText :=
  ((SpellsLine.literal "r.").append (.name (isName_reader coder))).before "()"

/-- Reading by a nested class. -/
theorem spells_nestedRead {name : String} (hname : isName name = true) :
    SpellsLine nestedRead [name] (ValueCoder.nested name).readText :=
  (SpellsLine.name hname).before "._read(r)"

theorem spells_label (n : Nat) (text : String) :
    SpellsLine ["case ", word, text] [toString n] ("case " ++ toString n ++ text) :=
  ((SpellsLine.literal "case ").append (.name (isName_toString n))).before text

/-- The case of a field that holds one value. -/
theorem spells_store (n : Nat) {member : String} (hmember : isName member = true)
    {coder : ValueCoder} {parts : List Part} {words : List String}
    (hread : SpellsLine parts words coder.readText) :
    Spells (storeLines parts) (toString n :: member :: (words ++ []))
      (caseLines n (.store member coder)) := by
  have hstore : SpellsLine (storeLine parts) (member :: words)
      ("  " ++ memberText member ++ " = " ++ coder.readText ++ ";") :=
    ((((SpellsLine.literal "  ").append (spells_member hmember)).before " = ").append hread).before
      ";"
  exact .cons (spells_label n ":") (.cons hstore (.cons (.literal "  break;") .nil))

/-- The case of a repeated field. -/
theorem spells_collect (n : Nat) {member : String} (hmember : isName member = true)
    {coder : ValueCoder} {parts : List Part} {words : List String}
    (hread : SpellsLine parts words coder.readText) :
    Spells (collectLines parts) (toString n :: (words ++ [member]))
      (caseLines n (.collect member coder)) := by
  have hpush : SpellsLine (pushLine parts) words
      ("    items.push(" ++ coder.readText ++ ");") :=
    ((SpellsLine.literal "    items.push(").append hread).before ");"
  have hstore : SpellsLine ["  ", "m.", word, " = items;"] [member]
      ("  " ++ memberText member ++ " = items;") :=
    ((SpellsLine.literal "  ").append (spells_member hmember)).before " = items;"
  -- from the innermost lines outwards, so that the open words fall into their order
  have hend := Spells.cons (.literal "  \x7d") <| .cons hstore <| .cons (.literal "  break;") <|
    .cons (.literal "\x7d") .nil
  have hbody := Spells.cons (.literal "  const n = r.readLength();") <|
    .cons (.literal "  const items = [];") <|
    .cons (.literal "  for (let i = 0; i < n; i++) \x7b") (.cons hpush hend)
  exact .cons (spells_label n ": \x7b") hbody

/-- Nested messages are read as they are written. -/
theorem valueReader_eq_nested_iff {s : Schema} {kind : Wire.Kind} {name : String} :
    valueReader s kind = .nested name ↔ valueWriter s kind = .nested name := by
  cases kind with
  | signedVarint type => cases type <;> exact ⟨nofun, nofun⟩
  | unsignedVarint type => cases type <;> exact ⟨nofun, nofun⟩
  | message index => exact Iff.rfl
  | _ => exact ⟨nofun, nofun⟩

/-- What is emitted for a field's case is a block of its own. -/
theorem renders_readField {s : Schema} {f : Wire.Field}
    (hname : isName (property f.field) = true)
    (hnested : ∀ name, valueWriter s f.kind = .nested name → isName name = true) :
    ∃ form ∈ readForms, form.Renders (caseLines f.tag (readField s f)) (readStep s f) := by
  rw [readStep, readField]
  cases hreader : valueReader s f.kind with
  | call coder =>
    have hread := spells_callRead coder
    cases f.repeated with
    | false =>
      exact Form.exists_renders 0 rfl (spells_store f.tag hname hread)
        (reads?_toString _ _ rfl _)
    | true =>
      exact Form.exists_renders 2 rfl (spells_collect f.tag hname hread)
        (reads?_toString _ _ rfl _)
  | nested name =>
    have hread := spells_nestedRead (hnested name (valueReader_eq_nested_iff.mp hreader))
    cases f.repeated with
    | false =>
      exact Form.exists_renders 1 rfl (spells_store f.tag hname hread)
        (reads?_toString _ _ rfl _)
    | true =>
      exact Form.exists_renders 3 rfl (spells_collect f.tag hname hread)
        (reads?_toString _ _ rfl _)

/-! ## Files -/

/-- The writer of a class, with the lines between the test for an unset message and the
terminator. -/
def writerText (body : List String) : List String :=
  ["static _write(w, m) \x7b",
    "  if (m == null) \x7b",
    "    w.writeVarUint(0);",
    "    return;",
    "  \x7d"]
    ++ body
    ++ ["  w.writeVarUint(0);",
      "\x7d"]

/-- The reader of a class, with the cases after the one for the terminator. -/
def readerText (name : String) (body : List String) : List String :=
  ["static _read(r) \x7b",
    "  const m = new " ++ name ++ "();",
    "  for (;;) \x7b",
    "    const tag = r.readVarUint();",
    "    switch (tag) \x7b",
    "      case 0:",
    "        return m;"]
    ++ body
    ++ ["      default:",
      "        throw new Error(`ango: unknown tag $\x7btag\x7d in " ++ name ++ "`);",
      "    \x7d",
      "  \x7d",
      "\x7d"]

/-- A class that ends with its writer and its reader. -/
def classText (name : String) (others writer reader : List String) : List String :=
  ["export class " ++ name ++ " \x7b"]
    ++ others
    ++ indented (writerText writer) ++ [""]
    ++ indented (readerText name reader)
    ++ ["\x7d"]

/-- `Emits file name p` says that a file holds the wire program `p` as the methods of a class. -/
def Emits (file : GeneratedFile) (name : String) (p : Program) : Prop :=
  ∃ others writer reader, classText name others writer reader <:+: linesOf file.contents ∧
    "\x7d" ∉ others ∧
    read? writeForms writer = some p.writes ∧
    read? readForms reader = some p.reads

/-- The identifiers that the class of a message is made of are words. -/
structure Named (s : Schema) (m : Wire.Message) : Prop where
  name : isName (className m.message) = true
  fields : ∀ f ∈ m.message.fields, isName (property f) = true
  types : ∀ f ∈ m.fields, ∀ name, valueWriter s f.kind = .nested name → isName name = true

/-- The wire program of a message. -/
def program (s : Schema) (m : Wire.Message) : Program :=
  ⟨m.fields.map (writeStep s), m.fields.map (readStep s)⟩

/-- A value is written in the coding of its kind. -/
theorem coding?_valueWriter (s : Schema) (kind : Wire.Kind) :
    (valueWriter s kind).writeTransfer.coding? = some (.ofKind kind) := by
  cases kind with
  | signedVarint type => cases type <;> rfl
  | unsignedVarint type => cases type <;> rfl
  | _ => rfl

/-- Every kind of value is read with the counterpart of the call that writes it. -/
theorem counterpart_transfer (s : Schema) (kind : Wire.Kind) :
    Counterpart (valueWriter s kind).writeTransfer (valueReader s kind).readTransfer := by
  cases kind with
  | int8 => exact .signedByte
  | signedVarint type =>
    cases type with
    | int64 => exact .method "VarInt64" none none
    | _ => exact .method "VarInt" none none
  | unsignedVarint type =>
    cases type with
    | uint64 => exact .method "VarUint64" none none
    | _ => exact .method "VarUint" none none
  | bool => exact .method "Bool" none none
  | uint8 => exact .method "Byte" none none
  | float32 => exact .method "Float32" none none
  | float64 => exact .method "Float64" none none
  | string => exact .method "String" none none
  | bytes => exact .method "Bytes" none none
  | enum _ => exact .method "VarInt" none none
  | message index => exact .nested (Naming.pascal (s.messageName index))

/-- A nested value is written by the class that its type refers to. -/
theorem nested?_valueWriter {s : Schema} {type : TypeRef} (h : s.Refers type) :
    (valueWriter s (.ofType type)).writeTransfer.nested? = nestedName? s (.ofType type) := by
  cases type with
  | primitive p => cases p <;> rfl
  | enum index => rfl
  | message index =>
    obtain ⟨nested, hnested, hname⟩ := h
    rw [Wire.Kind.ofType, valueWriter, hname, nestedName?, hnested]
    rfl

/-- It is read by the same class. -/
theorem nested?_valueReader (s : Schema) (kind : Wire.Kind) :
    (valueReader s kind).readTransfer.nested? = (valueWriter s kind).writeTransfer.nested? := by
  cases kind with
  | signedVarint type => cases type <;> rfl
  | unsignedVarint type => cases type <;> rfl
  | _ => rfl

/-- Only signed bytes are read as such. -/
theorem readsSignedByte_valueReader (s : Schema) (type : TypeRef) :
    (valueReader s (.ofType type)).readTransfer.readsSignedByte =
      decide (Wire.Kind.ofType type = .int8) := by
  cases type with
  | primitive p => cases p <;> rfl
  | enum index => rfl
  | message index => rfl

/-- The program of a message follows its plan. -/
theorem follows_program {s : Schema} {m : Wire.Message} (hordered : m.Ordered)
    (hrefers : ∀ f ∈ m.fields, s.Refers f.field.type) :
    (program s m).Follows s m property := by
  refine Program.follows_of_fields fun f hf => ?_
  refine ⟨?_, rfl, ⟨rfl, rfl, rfl, counterpart_transfer s f.kind⟩, ?_, ?_⟩
  · rw [WriteStep.step?, writeStep, coding?_valueWriter]
    rfl
  · rw [readStep, nested?_valueReader, hordered.kind_eq hf]
    exact nested?_valueWriter (hrefers f hf)
  · rw [readStep, hordered.kind_eq hf]
    exact readsSignedByte_valueReader s f.field.type

/-- The writer names the messages that the reader names. -/
theorem nested?_writes (s : Schema) (m : Wire.Message) :
    (program s m).writes.map (·.transfer.nested?) =
      (program s m).reads.map (·.transfer.nested?) := by
  rw [program, List.map_map, List.map_map]
  exact List.map_congr_left fun f _ => (nested?_valueReader s f.kind).symm

/-- The lines of a class before its writer. -/
def otherLines (c : MessageClass) : List String :=
  indented (constructorLines c.properties) ++ [""] ++ indented (encodeLines c.name) ++ [""]
    ++ indented (decodeLines c.name) ++ [""]

/-- The text of a class, with its two methods for fields set apart. -/
theorem lines_messageClass (s : Schema) (m : Wire.Message) :
    (messageClass s m).lines = classText (className m.message) (otherLines (messageClass s m))
      (indented (m.fields.flatMap fun f => (writeField s f).flatMap Statement.lines))
      ((m.fields.flatMap fun f => caseLines f.tag (readField s f)).map ("      " ++ ·)) := by
  have hwriter : writeLines (messageClass s m).writer =
      writerText (indented ((m.fields.flatMap (writeField s)).flatMap Statement.lines)) := rfl
  have hreader : readLines (className m.message) (messageClass s m).reader =
      readerText (className m.message) (((m.fields.map fun f => (f.tag, readField s f)).flatMap
        fun case => caseLines case.1 case.2).map ("      " ++ ·)) := rfl
  have hname : (messageClass s m).name = className m.message := rfl
  rw [List.flatMap_assoc] at hwriter
  rw [List.flatMap_map] at hreader
  rw [MessageClass.lines, hname, hwriter, hreader]
  simp only [classText, otherLines, hname, List.append_assoc]

theorem newline_notMem_defaultValue (f : Wire.Field) : '\n' ∉ (defaultValue f).toList := by
  unfold defaultValue
  split_ifs
  · decide
  · decide
  · split
    · decide
    · decide
    · decide +kernel
    · split_ifs <;> decide

/-- The other lines of a class have no line break within them. -/
theorem unbroken_otherLines {c : MessageClass} (hname : isName c.name = true)
    (hproperties : ∀ p ∈ c.properties, isName p.1 = true ∧ '\n' ∉ p.2.toList) :
    Unbroken (otherLines c) := by
  have hbreak := newline_notMem_name hname
  have hconstructor : Unbroken (constructorLines c.properties) := by
    simp only [constructorLines, unbroken_append]
    refine ⟨⟨by decide +kernel, ?_⟩, by decide +kernel⟩
    intro line hline
    obtain ⟨p, hp, rfl⟩ := List.mem_map.mp hline
    obtain ⟨hproperty, hdefault⟩ := hproperties p hp
    simp [newline_notMem_name hproperty, hdefault]
  have hencode : Unbroken (encodeLines c.name) := by
    simp only [encodeLines, unbroken_cons]
    refine ⟨by decide +kernel, by decide +kernel, ?_, by decide +kernel⟩
    simp [hbreak]
  have hdecode : Unbroken (decodeLines c.name) := by
    simp only [decodeLines, unbroken_cons]
    refine ⟨by decide +kernel, by decide +kernel, ?_, ?_, by decide +kernel⟩
    · simp [hbreak]
    · have hquote := newline_notMem_quote c.name
      simp only [String.toList_append, List.mem_append, hquote, or_false]
      decide +kernel
  have hindent {lines : List String} : Unbroken lines → Unbroken (indented lines) :=
    unbroken_indented "  " (by decide)
  have hblank : Unbroken [""] := by decide
  simp only [otherLines, unbroken_append]
  exact ⟨⟨⟨⟨⟨hindent hconstructor, hblank⟩, hindent hencode⟩, hblank⟩, hindent hdecode⟩, hblank⟩

/-- None of them ends the class. -/
theorem close_notMem_otherLines (c : MessageClass) : "\x7d" ∉ otherLines c := by
  have hindented : ∀ lines, "\x7d" ∉ indented lines := by
    -- an indented line starts with a blank
    intro lines hmem
    obtain ⟨line, -, hline⟩ := List.mem_map.mp hmem
    have hchars := congrArg String.toList hline
    simp at hchars
  simp only [otherLines, List.mem_append, hindented]
  decide

/-- A class has no line break within a line. -/
theorem unbroken_classText {name : String} (hname : isName name = true)
    {others writer reader : List String} (hothers : Unbroken others) (hwriter : Unbroken writer)
    (hreader : Unbroken reader) : Unbroken (classText name others writer reader) := by
  have hbreak := newline_notMem_name hname
  have hindent {lines : List String} : Unbroken lines → Unbroken (indented lines) :=
    unbroken_indented "  " (by decide)
  have hwriter : Unbroken (writerText writer) := by
    simp only [writerText, unbroken_append]
    exact ⟨⟨by decide +kernel, hwriter⟩, by decide +kernel⟩
  have hreader : Unbroken (readerText name reader) := by
    simp only [readerText, unbroken_append, unbroken_cons]
    refine ⟨⟨⟨by decide +kernel, ?_, by decide +kernel⟩, hreader⟩, by decide +kernel, ?_,
      by decide +kernel⟩
    · simp [hbreak]
    · simp [hbreak]
  have hhead : Unbroken ["export class " ++ name ++ " \x7b"] := by
    simp [Unbroken, hbreak]
  simp only [classText, unbroken_append]
  exact ⟨⟨⟨⟨⟨hhead, hothers⟩, hindent hwriter⟩, by decide⟩, hindent hreader⟩, by decide⟩

/-- The class of a planned message stands in the module. -/
theorem lines_infix_moduleLines {s : Schema} {m : Wire.Message} (hm : m ∈ s.plan)
    (version : Fingerprint) (bigint : Bool) :
    (messageClass s m).lines <:+: moduleLines s version bigint := by
  have hclass : (messageClass s m).lines <:+:
      s.plan.flatMap fun m => "" :: (messageClass s m).lines :=
    (List.infix_cons (List.infix_refl _)).trans
      (List.infix_of_mem_flatten (List.mem_map_of_mem hm))
  have hdeclarations : (messageClass s m).lines <:+: declarationLines s version :=
    List.infix_append_of_infix_right hclass
  exact List.infix_append_of_infix_left
    (List.infix_append_of_infix_left (List.infix_append_of_infix_left hdeclarations))

/-- **The module holds the wire program of every message.** -/
theorem emits_moduleLines {s : Schema} {m : Wire.Message} (hm : m ∈ s.plan) (hordered : m.Ordered)
    (hnamed : Named s m) (path : String) (version : Fingerprint) (bigint : Bool) :
    Emits (.ofLines path (moduleLines s version bigint)) (className m.message) (program s m) := by
  have hlines := lines_infix_moduleLines hm version bigint
  rw [lines_messageClass] at hlines
  have hne : moduleLines s version bigint ≠ [] := by
    simp [moduleLines]
  have hfields : ∀ f ∈ m.fields, isName (property f.field) = true :=
    fun f hf => hnamed.fields f.field (Schema.field_mem_of_mem_plan hm hf)
  have hwrites : ∀ f ∈ m.fields, ∃ form ∈ writeForms,
      form.Renders ((writeField s f).flatMap Statement.lines) (writeStep s f) :=
    fun f hf => renders_writeField (hordered.planned f hf) (hfields f hf) (hnamed.types f hf)
  have hreads : ∀ f ∈ m.fields, ∃ form ∈ readForms,
      form.Renders (caseLines f.tag (readField s f)) (readStep s f) :=
    fun f hf => renders_readField (hfields f hf) (hnamed.types f hf)
  refine ⟨_, _, _, infix_linesOf ?_ hne hlines path, close_notMem_otherLines _, ?_, ?_⟩
  · refine unbroken_classText hnamed.name (unbroken_otherLines hnamed.name ?_)
      (unbroken_indented "  " (by decide) (unbroken_of_renders distinct_writeForms hwrites))
      (unbroken_indented "      " (by decide) (unbroken_of_renders distinct_readForms hreads))
    intro p hp
    obtain ⟨f, hf, rfl⟩ := List.mem_map.mp hp
    exact ⟨hnamed.fields f hf, newline_notMem_defaultValue _⟩
  · exact (read?_indented _ rfl rfl _).trans (read?_of_renders distinct_writeForms hwrites)
  · exact (read?_indented _ rfl rfl _).trans (read?_of_renders distinct_readForms hreads)

end WireSchema.JavaScript
