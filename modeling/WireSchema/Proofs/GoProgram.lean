import WireSchema.Proofs.AcceptedPlan
import WireSchema.Proofs.WireProgram
import WireSchema.Target.GoCodec

/-!
# Wire programs in Go

Every block that an encoder or a decoder can have for a field is a form (`writeForms`, `readForms`),
and they can be told apart. So the methods of a struct, as they stand in the codec file, are read as
one program (`emits_codecLines`), and it is the one that the plan asks for (`follows_program`). What
the forms leave open are words once the names have been checked (`Named`).
-/

namespace WireSchema.Go

open Source
open Source.Part (word)

/-! ## Encoders -/

/-- The line that writes a tag. -/
def tagLine : List Part :=
  ["w.writeVarUint(", word, ")"]

/-- A value that is always written. -/
def alwaysLines (value : List Part) : List (List Part) :=
  [tagLine, value]

/-- A value that is written if a member is set. -/
def whenSetLines (value : List Part) : List (List Part) :=
  [["if ", "m.", word, " != nil \x7b"],
    "\t" :: tagLine,
    "\t" :: value,
    ["\x7d"]]

/-- A value for every element of a member, after their count. -/
def forEachLines (value : List Part) : List (List Part) :=
  [tagLine,
    ["w.writeVarUint(uint64(len(", "m.", word, ")))"],
    ["for _, v := range ", "m.", word, " \x7b"],
    "\t" :: value,
    ["\x7d"]]

/-- A member. -/
def memberParts : List Part :=
  ["m.", word]

/-- What a member points to. -/
def pointeeParts : List Part :=
  ["*", "m.", word]

/-- The element of the current round of a loop. -/
def elementParts : List Part :=
  ["v"]

/-- A method of the writer. -/
def plainCall (operand : List Part) : List Part :=
  "w." :: word :: "(" :: (operand ++ [.text ")"])

/-- A method of the writer after a conversion. -/
def convertedCall (operand : List Part) : List Part :=
  "w." :: word :: "(" :: word :: "(" :: (operand ++ [.text "))"])

/-- The encoder of a nested message. -/
def nestedCall (operand : List Part) : List Part :=
  operand ++ [.text ".encodeTo(w)"]

/-- The blocks of an encoder. -/
def writeForms : List (Form WriteStep) :=
  [{ lines := alwaysLines (plainCall memberParts)
     meaning
      | [tag, method, x] => writes? .always false tag [x] (.call method none)
      | _ => none },
    { lines := alwaysLines (convertedCall memberParts)
      meaning
      | [tag, method, type, x] => writes? .always false tag [x] (.call method (some type))
      | _ => none },
    { lines := whenSetLines (plainCall pointeeParts)
      meaning
      | [x, tag, method, y] => writes? .whenSet false tag [x, y] (.call method none)
      | _ => none },
    { lines := whenSetLines (convertedCall pointeeParts)
      meaning
      | [x, tag, method, type, y] => writes? .whenSet false tag [x, y] (.call method (some type))
      | _ => none },
    { lines := whenSetLines (nestedCall memberParts)
      meaning
      | [x, tag, y] => writes? .whenSet false tag [x, y] (.nested none)
      | _ => none },
    { lines := forEachLines (plainCall elementParts)
      meaning
      | [tag, x, y, method] => writes? .always true tag [x, y] (.call method none)
      | _ => none },
    { lines := forEachLines (convertedCall elementParts)
      meaning
      | [tag, x, y, method, type] => writes? .always true tag [x, y] (.call method (some type))
      | _ => none },
    { lines := forEachLines (nestedCall elementParts)
      meaning
      | [tag, x, y] => writes? .always true tag [x, y] (.nested none)
      | _ => none }]

/-- No text is rendered by two of the forms for writing. -/
theorem distinct_writeForms : Form.Distinct writeForms := by
  decide +kernel

/-- The call that a writer of values stands for. -/
def ValueWriter.transfer : ValueWriter → Transfer
  | .call coder conversion => .call coder.writer conversion
  | .nested => .nested none

/-- What the encoder does for a field. -/
def writeStep (f : Wire.Field) : WriteStep :=
  ⟨f.tag, f.presence, f.repeated, fieldName f.field, (valueWriter f.kind).transfer⟩

theorem isName_writer (coder : Coder) : isName coder.writer = true := by
  cases coder <;> decide +kernel

theorem isName_reader (coder : Coder) : isName coder.reader = true := by
  cases coder <;> decide +kernel

/-- A conversion in front of a value is to a named type. -/
theorem isName_of_valueWriter {kind : Wire.Kind} {coder : Coder} {type : String}
    (h : valueWriter kind = .call coder (some type)) : isName type = true := by
  cases kind <;> cases h <;> decide +kernel

/-- Only messages write themselves. -/
theorem isMessage_iff_valueWriter {kind : Wire.Kind} :
    kind.isMessage = true ↔ valueWriter kind = .nested := by
  cases kind <;> simp [Wire.Kind.isMessage, valueWriter]

theorem spells_member {name : String} (hname : isName name = true) :
    SpellsLine memberParts [name] (memberText name) :=
  (SpellsLine.literal "m.").append (.name hname)

/-- The line that writes a tag. -/
theorem spells_tag (n : Nat) : SpellsLine tagLine [toString n] (Step.tag n).text :=
  ((SpellsLine.literal "w.writeVarUint(").append (.name (isName_toString n))).before ")"

/-- The parts and the open words of a call. -/
def ValueWriter.parts (operand : List Part) : ValueWriter → List Part
  | .call _ none => plainCall operand
  | .call _ (some _) => convertedCall operand
  | .nested => nestedCall operand

def ValueWriter.words (operand : List String) : ValueWriter → List String
  | .call coder none => coder.writer :: operand
  | .call coder (some type) => coder.writer :: type :: operand
  | .nested => operand

/-- The line that writes a value. -/
theorem spells_value {writer : ValueWriter} {operand : Operand}
    (htype : ∀ coder type, writer = .call coder (some type) → isName type = true)
    {parts : List Part} {words : List String} (h : SpellsLine parts words operand.text) :
    SpellsLine (writer.parts parts) (writer.words words) (Step.value writer operand).text := by
  cases writer with
  | call coder conversion =>
    have hcall : SpellsLine ["w.", word, "("] [coder.writer] ("w." ++ coder.writer ++ "(") :=
      ((SpellsLine.literal "w.").append (.name (isName_writer coder))).before "("
    cases conversion with
    | none => exact (hcall.append h).before ")"
    | some type =>
      have htype := SpellsLine.name (htype coder type rfl)
      exact (((hcall.append htype).before "(").append h).before "))"
  | nested => exact h.before ".encodeTo(w)"

/-- The lines for a field that is always written. -/
theorem spells_always (n : Nat) {value : Step} {parts : List Part} {words : List String}
    (hvalue : SpellsLine parts words value.text) :
    Spells (alwaysLines parts) (toString n :: (words ++ []))
      ([Statement.step (.tag n), .step value].flatMap Statement.lines) :=
  .cons (spells_tag n) (.cons hvalue .nil)

/-- The lines for a field that is written if it is set. -/
theorem spells_whenSet (n : Nat) {member : String} (hmember : isName member = true)
    {value : Step} {parts : List Part} {words : List String}
    (hvalue : SpellsLine parts words value.text) :
    Spells (whenSetLines parts) (member :: toString n :: (words ++ []))
      ([Statement.ifSet member [.tag n, value]].flatMap Statement.lines) :=
  .cons (((SpellsLine.literal "if ").append (spells_member hmember)).before " != nil \x7b") <|
    .cons (.text "\t" (spells_tag n)) <| .cons (.text "\t" hvalue) <|
    .cons (.literal "\x7d") .nil

/-- The lines for a repeated field. -/
theorem spells_forEach (n : Nat) {member : String} (hmember : isName member = true)
    {value : Step} {parts : List Part} {words : List String}
    (hvalue : SpellsLine parts words value.text) :
    Spells (forEachLines parts) (toString n :: member :: member :: (words ++ []))
      ([Statement.step (.tag n), .step (.count member), .forEach member [value]].flatMap
        Statement.lines) :=
  .cons (spells_tag n) <|
    .cons (((SpellsLine.literal "w.writeVarUint(uint64(len(").append
      (spells_member hmember)).before ")))") <|
    .cons (((SpellsLine.literal "for _, v := range ").append (spells_member hmember)).before
      " \x7b") <|
    .cons (.text "\t" hvalue) <| .cons (.literal "\x7d") .nil

/-- What is emitted for a field is a block of its own. -/
theorem renders_encodeField {f : Wire.Field} (hf : f = .ofField f.field)
    (hname : isName (fieldName f.field) = true) :
    ∃ form ∈ writeForms, form.Renders ((encodeField f).flatMap Statement.lines) (writeStep f) := by
  have hmember : SpellsLine memberParts [fieldName f.field] (Operand.member _).text :=
    spells_member hname
  have hpointee : SpellsLine pointeeParts [fieldName f.field] (Operand.pointee _).text :=
    (SpellsLine.literal "*").append (spells_member hname)
  have helement : SpellsLine elementParts [] Operand.element.text := .literal "v"
  have hsole : sole? [fieldName f.field, fieldName f.field] = some (fieldName f.field) := by
    simp [sole?]
  have htype : ∀ coder type, valueWriter f.kind = .call coder (some type) → isName type = true :=
    fun _ _ => isName_of_valueWriter
  rcases Wire.planned_cases hf with ⟨hrep, hpres⟩ | ⟨hrep, hpres, hmessage⟩ | ⟨hrep, hpres⟩ <;>
    rw [writeStep, encodeField, hrep, hpres]
  · -- a list is written by a loop, and a loop's element is the value itself
    have hspells := spells_forEach f.tag hname (spells_value htype helement)
    cases hwriter : valueWriter f.kind with
    | call coder conversion =>
      rw [hwriter] at hspells
      cases conversion with
      | none => exact Form.exists_renders 5 rfl hspells (writes?_toString _ _ _ hsole _)
      | some type => exact Form.exists_renders 6 rfl hspells (writes?_toString _ _ _ hsole _)
    | nested =>
      rw [hwriter] at hspells
      exact Form.exists_renders 7 rfl hspells (writes?_toString _ _ _ hsole _)
  · -- a single value that is always written is no message
    have hspells := spells_always f.tag (spells_value htype hmember)
    cases hwriter : valueWriter f.kind with
    | call coder conversion =>
      rw [hwriter] at hspells
      cases conversion with
      | none => exact Form.exists_renders 0 rfl hspells (writes?_toString _ _ _ rfl _)
      | some type => exact Form.exists_renders 1 rfl hspells (writes?_toString _ _ _ rfl _)
    | nested => exact absurd (isMessage_iff_valueWriter.mpr hwriter) (by simp [hmessage])
  · -- what can be unset is behind a pointer: a message is written through it, any other value is
    -- taken out first
    cases hwriter : valueWriter f.kind with
    | call coder conversion =>
      have hmessage : f.kind.isMessage = false := by
        rw [Bool.eq_false_iff, ne_eq, isMessage_iff_valueWriter, hwriter]
        exact nofun
      have hspells := spells_whenSet f.tag hname (spells_value htype hpointee)
      rw [hwriter] at hspells
      rw [hmessage]
      cases conversion with
      | none => exact Form.exists_renders 2 rfl hspells (writes?_toString _ _ _ hsole _)
      | some type => exact Form.exists_renders 3 rfl hspells (writes?_toString _ _ _ hsole _)
    | nested =>
      have hspells := spells_whenSet f.tag hname (spells_value htype hmember)
      rw [hwriter] at hspells
      rw [isMessage_iff_valueWriter.mpr hwriter]
      exact Form.exists_renders 4 rfl hspells (writes?_toString _ _ _ hsole _)

/-! ## Decoders -/

/-- Lines that leave the decoder after a failure. -/
def checkLines : List (List Part) :=
  [["if err != nil \x7b"], ["\treturn err"], ["\x7d"]]

/-- The line that converts what was read. -/
def convertLine : List Part :=
  ["val := ", word, "(raw)"]

/-- A method of the reader. -/
def plainRead : List (List Part) :=
  ["val, err := r.", word, "()"] :: checkLines

/-- A method of the reader before a conversion. -/
def convertedRead : List (List Part) :=
  ["raw, err := r.", word, "()"] :: (checkLines ++ [convertLine])

/-- The decoder of a nested message. -/
def nestedRead : List (List Part) :=
  [["val := &", word, "\x7b\x7d"],
    ["if err := val.decodeFrom(r); err != nil \x7b"],
    ["\treturn err"],
    ["\x7d"]]

/-- The label of a case. -/
def labelLine : List Part :=
  ["case ", word, ":"]

/-- The line that stores a value. -/
def storeLine (value : String) : List Part :=
  ["m.", word, " = ", value]

/-- The line that makes room for elements. -/
def makeLine (element : List Part) : List Part :=
  "m." :: word :: " = make([]" :: (element ++ [.text ", 0, n)"])

/-- The line that stores an element. -/
def appendLine : List Part :=
  ["m.", word, " = append(", "m.", word, ", val)"]

/-- Lines inside a block. -/
def inner (block : List (List Part)) : List (List Part) :=
  block.map (.text "\t" :: ·)

/-- A case that stores one value. -/
def storeLines (read : List (List Part)) (value : String) : List (List Part) :=
  labelLine :: inner (read ++ [storeLine value])

/-- A case that stores as many values as a count says. -/
def collectLines (element : List Part) (read : List (List Part)) : List (List Part) :=
  labelLine :: inner
    (["n, err := r.readLength()"] :: (checkLines
      ++ (makeLine element :: ["for i := 0; i < n; i++ \x7b"] ::
        (inner (read ++ [appendLine]) ++ [[.text "\x7d"]]))))

/-- The blocks of a decoder. -/
def readForms : List (Form ReadStep) :=
  [{ lines := storeLines plainRead "val"
     meaning
      | [tag, method, x] => reads? false tag [x] (.call method none)
      | _ => none },
    { lines := storeLines plainRead "&val"
      meaning
      | [tag, method, x] => reads? false tag [x] (.call method none)
      | _ => none },
    { lines := storeLines convertedRead "val"
      meaning
      | [tag, method, type, x] => reads? false tag [x] (.call method (some type))
      | _ => none },
    { lines := storeLines convertedRead "&val"
      meaning
      | [tag, method, type, x] => reads? false tag [x] (.call method (some type))
      | _ => none },
    { lines := storeLines nestedRead "val"
      meaning
      | [tag, name, x] => reads? false tag [x] (.nested (some name))
      | _ => none },
    { lines := collectLines ["[]byte"] plainRead
      meaning
      | [tag, x, method, y, z] => reads? true tag [x, y, z] (.call method none)
      | _ => none },
    { lines := collectLines [word] plainRead
      meaning
      | [tag, x, _, method, y, z] => reads? true tag [x, y, z] (.call method none)
      | _ => none },
    { lines := collectLines [word] convertedRead
      meaning
      | [tag, x, element, method, type, y, z] =>
        if element = type then reads? true tag [x, y, z] (.call method (some type)) else none
      | _ => none },
    { lines := collectLines ["*", word] nestedRead
      meaning
      | [tag, x, element, name, y, z] =>
        if element = name then reads? true tag [x, y, z] (.nested (some name)) else none
      | _ => none }]

/-- No text is rendered by two of the forms for reading. -/
theorem distinct_readForms : Form.Distinct readForms := by
  decide +kernel

/-- The call that a reader of values stands for. -/
def ValueReader.transfer : ValueReader → Transfer
  | .call coder conversion => .call coder.reader conversion
  | .nested struct => .nested (some struct)

/-- What the decoder does after a field's tag. -/
def readStep (s : Schema) (f : Wire.Field) : ReadStep :=
  ⟨f.tag, f.repeated, fieldName f.field, (valueReader s f.kind).transfer⟩

/-- The lines and the open words of a reader of values. -/
def ValueReader.block : ValueReader → List (List Part)
  | .call _ none => plainRead
  | .call _ (some _) => convertedRead
  | .nested _ => nestedRead

def ValueReader.words : ValueReader → List String
  | .call coder none => [coder.reader]
  | .call coder (some type) => [coder.reader, type]
  | .nested struct => [struct]

/-- Only messages are read into structs. -/
theorem isMessage_of_valueReader {s : Schema} {kind : Wire.Kind} {struct : String}
    (h : valueReader s kind = .nested struct) : kind.isMessage = true := by
  cases kind with
  | message index => rfl
  | signedVarint type => cases type <;> cases h
  | unsignedVarint type => cases type <;> cases h
  | _ => cases h

theorem spells_check : Spells checkLines [] errorCheck :=
  .cons (.literal "if err != nil \x7b") <| .cons (.literal "\treturn err") <|
    .cons (.literal "\x7d") .nil

/-- The lines that read a value. -/
theorem spells_reader {reader : ValueReader} (hwords : ∀ w ∈ reader.words, isName w = true) :
    Spells reader.block reader.words reader.lines := by
  cases reader with
  | call coder conversion =>
    cases conversion with
    | none =>
      have hcoder := SpellsLine.name (hwords coder.reader List.mem_cons_self)
      exact .cons (((SpellsLine.literal "val, err := r.").append hcoder).before "()") spells_check
    | some type =>
      have hcoder := SpellsLine.name (hwords coder.reader List.mem_cons_self)
      have htype := SpellsLine.name (hwords type (List.mem_cons_of_mem _ List.mem_cons_self))
      exact .cons (((SpellsLine.literal "raw, err := r.").append hcoder).before "()") <|
        spells_check.append
          (.cons (((SpellsLine.literal "val := ").append htype).before "(raw)") .nil)
  | nested struct =>
    have hstruct := SpellsLine.name (hwords struct List.mem_cons_self)
    exact .cons (((SpellsLine.literal "val := &").append hstruct).before "\x7b\x7d") <|
      .cons (.literal "if err := val.decodeFrom(r); err != nil \x7b") <|
      .cons (.literal "\treturn err") <| .cons (.literal "\x7d") .nil

theorem spells_label (n : Nat) :
    SpellsLine labelLine [toString n] ("case " ++ toString n ++ ":") :=
  ((SpellsLine.literal "case ").append (.name (isName_toString n))).before ":"

/-- The case of a field that holds one value. -/
theorem spells_store (n : Nat) {member : String} (hmember : isName member = true)
    {reader : ValueReader} (hwords : ∀ w ∈ reader.words, isName w = true) (address : Bool) :
    Spells (storeLines reader.block (if address then "&val" else "val"))
      (toString n :: (reader.words ++ [member]))
      (caseLines n (.store member reader address)) :=
  .cons (spells_label n) <| Spells.indent "\t" <| (spells_reader hwords).append <|
    .cons (((spells_member hmember).before " = ").append (.literal _)) .nil

/-- The case of a repeated field. -/
theorem spells_collect (n : Nat) {member : String} (hmember : isName member = true)
    {element : String} {parts : List Part} {elementWords : List String}
    (helement : SpellsLine parts elementWords element) {reader : ValueReader}
    (hwords : ∀ w ∈ reader.words, isName w = true) :
    Spells (collectLines parts reader.block)
      (toString n :: member :: (elementWords ++ (reader.words ++ [member, member] ++ [])))
      (caseLines n (.collect member element reader)) := by
  have hmake : SpellsLine (makeLine parts) (member :: elementWords)
      (memberText member ++ " = make([]" ++ element ++ ", 0, n)") :=
    (((spells_member hmember).before " = make([]").append helement).before ", 0, n)"
  have happend : SpellsLine appendLine [member, member]
      (memberText member ++ " = append(" ++ memberText member ++ ", val)") :=
    (((spells_member hmember).before " = append(").append (spells_member hmember)).before ", val)"
  -- from the innermost lines outwards, so that the open words fall into their order
  have hround := ((spells_reader hwords).append (.cons happend .nil)).indent "\t"
  have hloop := Spells.cons (.literal "for i := 0; i < n; i++ \x7b")
    (hround.append (.cons (.literal "\x7d") .nil))
  have hbody := Spells.cons (.literal "n, err := r.readLength()")
    (spells_check.append (.cons hmake hloop))
  exact .cons (spells_label n) (hbody.indent "\t")

theorem isName_primitive (p : Primitive) : isName p.name = true := by
  cases p <;> decide +kernel

/-- How the element of a list is read, and how its type is written. -/
theorem element_cases (s : Schema) (type : TypeRef) :
    (valueReader s (.ofType type) = .call .bytes none ∧ elementType s type = "[]byte") ∨
      (∃ coder, valueReader s (.ofType type) = .call coder none ∧
        isName (elementType s type) = true) ∨
      (∃ coder, valueReader s (.ofType type) = .call coder (some (elementType s type))) ∨
      ∃ name, valueReader s (.ofType type) = .nested name ∧ elementType s type = "*" ++ name := by
  cases type with
  | enum index => exact .inr (.inr (.inl ⟨.varInt, rfl⟩))
  | message index => exact .inr (.inr (.inr ⟨_, rfl, rfl⟩))
  | primitive p =>
    cases p with
    | bytes => exact .inl ⟨rfl, rfl⟩
    | int8 => exact .inr (.inr (.inl ⟨.byte, rfl⟩))
    | int16 | int32 => exact .inr (.inr (.inl ⟨.varInt, rfl⟩))
    | uint16 | uint32 => exact .inr (.inr (.inl ⟨.varUint, rfl⟩))
    | _ => exact .inr (.inl ⟨_, rfl, isName_primitive _⟩)

/-- What is emitted for a field's case is a block of its own. -/
theorem renders_decodeField {s : Schema} {f : Wire.Field} (hf : f = .ofField f.field)
    (hname : isName (fieldName f.field) = true)
    (hwords : ∀ w ∈ (valueReader s f.kind).words, isName w = true) :
    ∃ form ∈ readForms, form.Renders (caseLines f.tag (decodeField s f)) (readStep s f) := by
  have hsole : sole? [fieldName f.field, fieldName f.field, fieldName f.field] =
      some (fieldName f.field) := by
    simp [sole?]
  have hkind : f.kind = .ofType f.field.type := congrArg Wire.Field.kind hf
  rw [readStep, decodeField]
  cases hrep : f.repeated with
  | true =>
    rw [hkind] at hwords ⊢
    rcases element_cases s f.field.type with
      ⟨hreader, helement⟩ | ⟨coder, hreader, helement⟩ | ⟨coder, hreader⟩
        | ⟨name, hreader, helement⟩
    · rw [hreader] at hwords ⊢
      rw [helement]
      exact Form.exists_renders 5 rfl (spells_collect f.tag hname (.literal "[]byte") hwords)
        (reads?_toString _ _ hsole _)
    · rw [hreader] at hwords ⊢
      exact Form.exists_renders 6 rfl (spells_collect f.tag hname (.name helement) hwords)
        (reads?_toString _ _ hsole _)
    · rw [hreader] at hwords ⊢
      have helement : isName (elementType s f.field.type) = true :=
        hwords _ (List.mem_cons_of_mem _ List.mem_cons_self)
      exact Form.exists_renders 7 rfl (spells_collect f.tag hname (.name helement) hwords)
        ((if_pos rfl).trans (reads?_toString _ _ hsole _))
    · rw [hreader] at hwords ⊢
      rw [helement]
      have hstar := (SpellsLine.literal "*").append (.name (hwords name List.mem_cons_self))
      exact Form.exists_renders 8 rfl (spells_collect f.tag hname hstar hwords)
        ((if_pos rfl).trans (reads?_toString _ _ hsole _))
  | false =>
    have hspells := spells_store f.tag hname hwords (isBoxed f)
    cases hreader : valueReader s f.kind with
    | call coder conversion =>
      rw [hreader] at hspells
      cases conversion <;> cases hboxed : isBoxed f <;> rw [hboxed] at hspells
      · exact Form.exists_renders 0 rfl hspells (reads?_toString _ _ rfl _)
      · exact Form.exists_renders 1 rfl hspells (reads?_toString _ _ rfl _)
      · exact Form.exists_renders 2 rfl hspells (reads?_toString _ _ rfl _)
      · exact Form.exists_renders 3 rfl hspells (reads?_toString _ _ rfl _)
    | nested struct =>
      have hboxed : isBoxed f = false := by
        rw [isBoxed, isMessage_of_valueReader hreader, Bool.not_true, Bool.and_false]
      rw [hreader, hboxed] at hspells
      rw [hboxed]
      exact Form.exists_renders 4 rfl hspells (reads?_toString _ _ rfl _)

/-! ## Files -/

/-- The encoder of a struct, with the lines between the test for an unset message and the
terminator. -/
def encoderText (struct : String) (body : List String) : List String :=
  ["func (m *" ++ struct ++ ") encodeTo(w *angoWriter) \x7b",
    "\tif m == nil \x7b",
    "\t\tw.writeVarUint(0)",
    "\t\treturn",
    "\t\x7d"]
    ++ body
    ++ ["\tw.writeVarUint(0)",
      "\x7d"]

/-- The decoder of a struct, with the cases after the one for the terminator. -/
def decoderText (struct : String) (body : List String) : List String :=
  ["func (m *" ++ struct ++ ") decodeFrom(r *angoReader) error \x7b",
    "\tfor \x7b",
    "\t\ttag, err := r.readVarUint()",
    "\t\tif err != nil \x7b",
    "\t\t\treturn err",
    "\t\t\x7d",
    "\t\tswitch tag \x7b",
    "\t\tcase 0:",
    "\t\t\treturn nil"]
    ++ body
    ++ ["\t\tdefault:",
      "\t\t\treturn angoUnknownTag(" ++ Text.quote struct ++ ", tag)",
      "\t\t\x7d",
      "\t\x7d",
      "\x7d"]

/-- `Emits file struct p` says that a file holds the wire program `p` as the methods of a struct. -/
structure Emits (file : GeneratedFile) (struct : String) (p : Program) : Prop where
  encoder : ∃ body, encoderText struct body <:+: linesOf file.contents ∧
    read? writeForms body = some p.writes
  decoder : ∃ body, decoderText struct body <:+: linesOf file.contents ∧
    read? readForms body = some p.reads

/-- An encoder has no line break within a line. -/
theorem unbroken_encoderText {struct : String} (hstruct : isName struct = true)
    {body : List String} (hbody : Unbroken body) : Unbroken (encoderText struct body) := by
  have hhead : '\n' ∉ ("func (m *" ++ struct ++ ") encodeTo(w *angoWriter) \x7b").toList := by
    simp [newline_notMem_name hstruct]
  simp only [encoderText, unbroken_append, unbroken_cons]
  exact ⟨⟨⟨hhead, by decide +kernel⟩, hbody⟩, by decide +kernel⟩

/-- Neither has a decoder. -/
theorem unbroken_decoderText {struct : String} (hstruct : isName struct = true)
    {body : List String} (hbody : Unbroken body) : Unbroken (decoderText struct body) := by
  have hhead :
      '\n' ∉ ("func (m *" ++ struct ++ ") decodeFrom(r *angoReader) error \x7b").toList := by
    simp [newline_notMem_name hstruct]
  have hunknown : '\n' ∉
      ("\t\t\treturn angoUnknownTag(" ++ Text.quote struct ++ ", tag)").toList := by
    have hquote := newline_notMem_quote struct
    simp only [String.toList_append, List.mem_append, hquote, or_false]
    decide +kernel
  -- the lines that hold the name are taken out, all others are known
  simp only [decoderText, unbroken_append, unbroken_cons]
  exact ⟨⟨⟨hhead, by decide +kernel⟩, hbody⟩, by decide +kernel, hunknown, by decide +kernel⟩

/-- The identifiers that the codec of a message is made of are words. -/
structure Named (s : Schema) (m : Wire.Message) : Prop where
  struct : isName (structName m.message) = true
  fields : ∀ f ∈ m.fields, isName (fieldName f.field) = true
  types : ∀ f ∈ m.fields, ∀ w ∈ (valueReader s f.kind).words, isName w = true

/-- The wire program of a message. -/
def program (s : Schema) (m : Wire.Message) : Program :=
  ⟨m.fields.map writeStep, m.fields.map (readStep s)⟩

/-- A value is written in the coding of its kind. -/
theorem coding?_valueWriter (kind : Wire.Kind) :
    (valueWriter kind).transfer.coding? = some (.ofKind kind) := by
  cases kind <;> rfl

/-- **A value is read as it was written.** -/
theorem counterpart_transfer (s : Schema) (kind : Wire.Kind) :
    Counterpart (valueWriter kind).transfer (valueReader s kind).transfer := by
  cases kind with
  | message index => exact .value _
  | signedVarint type => cases type <;> exact .method Coder.varInt.suffix _ _
  | unsignedVarint type => cases type <;> exact .method Coder.varUint.suffix _ _
  | _ => exact .method _ _ _

/-- A nested value is read by the struct that its type refers to. -/
theorem nested?_valueReader {s : Schema} {type : TypeRef} (h : s.Refers type) :
    (valueReader s (.ofType type)).transfer.nested? = nestedName? s (.ofType type) := by
  cases type with
  | primitive p => cases p <;> rfl
  | enum index => rfl
  | message index =>
    obtain ⟨nested, hnested, hname⟩ := h
    rw [Wire.Kind.ofType, valueReader, hname, nestedName?, hnested]
    rfl

/-- Only signed bytes are read as such. -/
theorem readsSignedByte_valueReader (s : Schema) (type : TypeRef) :
    (valueReader s (.ofType type)).transfer.readsSignedByte =
      decide (Wire.Kind.ofType type = .int8) := by
  cases type with
  | primitive p => cases p <;> rfl
  | enum index => rfl
  | message index => rfl

/-- The program of a message follows its plan. -/
theorem follows_program {s : Schema} {m : Wire.Message} (hordered : m.Ordered)
    (hrefers : ∀ f ∈ m.fields, s.Refers f.field.type) :
    (program s m).Follows s m fieldName := by
  refine Program.follows_of_fields fun f hf => ?_
  refine ⟨?_, rfl, ⟨rfl, rfl, rfl, counterpart_transfer s f.kind⟩, ?_, ?_⟩
  · rw [WriteStep.step?, writeStep, coding?_valueWriter]
    rfl
  · rw [readStep, hordered.kind_eq hf]
    exact nested?_valueReader (hrefers f hf)
  · rw [readStep, hordered.kind_eq hf]
    exact readsSignedByte_valueReader s f.field.type

/-- The codec of a planned message stands in the file of codecs. -/
theorem lines_infix_codecLines {s : Schema} {m : Wire.Message} (hm : m ∈ s.plan)
    (package : String) : (codec s m).lines <:+: codecLines s package := by
  have hcodec : (codec s m).lines <:+: s.plan.flatMap fun m => "" :: (codec s m).lines :=
    (List.infix_cons (List.infix_refl _)).trans
      (List.infix_of_mem_flatten (List.mem_map_of_mem hm))
  exact hcodec.trans (List.infix_append (header s package ++ supportLines) _ [""])

/-- The encoder stands in the codec. -/
theorem encoderText_within_codec {s : Schema} {m : Wire.Message} :
    encoderText (structName m.message)
        (indented (m.fields.flatMap fun f => (encodeField f).flatMap Statement.lines)) <:+:
      (codec s m).lines := by
  have hencoder : encoderLines (codec s m) = encoderText (structName m.message)
      (indented ((m.fields.flatMap encodeField).flatMap Statement.lines)) := rfl
  rw [← List.flatMap_assoc, ← hencoder, Codec.lines, List.append_assoc _ [""] (decoderLines _)]
  exact List.infix_append _ _ _

/-- So does the decoder. -/
theorem decoderText_within_codec {s : Schema} {m : Wire.Message} :
    decoderText (structName m.message)
        (indented (indented (m.fields.flatMap fun f => caseLines f.tag (decodeField s f)))) <:+:
      (codec s m).lines := by
  have hdecoder : decoderLines (codec s m) = decoderText (structName m.message)
      (indented (indented ((m.fields.map fun f => (f.tag, decodeField s f)).flatMap
        fun case => caseLines case.1 case.2))) := rfl
  rw [List.flatMap_map] at hdecoder
  rw [← hdecoder, Codec.lines]
  exact List.infix_append_of_infix_right (List.infix_refl _)

/-- **The codec file holds the wire program of every message.** -/
theorem emits_codecLines {s : Schema} {m : Wire.Message} (hm : m ∈ s.plan) (hordered : m.Ordered)
    (hnamed : Named s m) (path package : String) :
    Emits (.ofLines path (codecLines s package)) (structName m.message) (program s m) := by
  have hlines := lines_infix_codecLines hm package
  have hne : codecLines s package ≠ [] := by
    simp [codecLines]
  have hwrites : ∀ f ∈ m.fields, ∃ form ∈ writeForms,
      form.Renders ((encodeField f).flatMap Statement.lines) (writeStep f) :=
    fun f hf => renders_encodeField (hordered.planned f hf) (hnamed.fields f hf)
  have hreads : ∀ f ∈ m.fields, ∃ form ∈ readForms,
      form.Renders (caseLines f.tag (decodeField s f)) (readStep s f) :=
    fun f hf => renders_decodeField (hordered.planned f hf) (hnamed.fields f hf)
      (hnamed.types f hf)
  refine ⟨⟨_, infix_linesOf ?_ hne (encoderText_within_codec.trans hlines) path, ?_⟩,
    ⟨_, infix_linesOf ?_ hne (decoderText_within_codec.trans hlines) path, ?_⟩⟩
  · exact unbroken_encoderText hnamed.struct
      (unbroken_indented "\t" (by decide)
        (unbroken_of_renders distinct_writeForms hwrites))
  · exact (read?_indented _ rfl rfl _).trans (read?_of_renders distinct_writeForms hwrites)
  · exact unbroken_decoderText hnamed.struct
      (unbroken_indented "\t" (by decide) (unbroken_indented "\t" (by decide)
        (unbroken_of_renders distinct_readForms hreads)))
  · rw [indented, indented, read?_indented _ rfl rfl, read?_indented _ rfl rfl]
    exact read?_of_renders distinct_readForms hreads

end WireSchema.Go
