import WireSchema.Proofs.ClaimedNames
import WireSchema.Proofs.GoProgram
import WireSchema.Proofs.NumberText

/-!
# Names in generated Go

Every line of the two files is followed piece by piece. The names in it are those that the schema's
declarations get, the name of the package, a few exported names of the generated code, and words
that start with no capital (`Expected`).
-/

namespace WireSchema.Go

open Source

/-! ## Expected names -/

/-- The names with a capital that are in every generated package. -/
def exportedNames : List String :=
  versionConstant :: "String" :: messageMethods

/-- What a name in a generated file can be. -/
def Expected (s : Schema) (package : String) (w : String) : Prop :=
  w ∈ packageNames s ∨ w ∈ fieldNames s ∨ w = package ∨ w ∈ exportedNames ∨
    ∀ c ∈ w.toList.head?, c.isUpper = false

/-- Does the name belong to generated code itself? -/
def isOwn (cs : List Char) : Bool :=
  !cs.head?.any Char.isUpper || (exportedNames.map String.toList).contains cs

/-- What the files need to be read: the names of a schema are words, its types are there and its
constants are numbers. -/
structure Legible (s : Schema) (package : String) : Prop where
  name : isName s.name = true
  package : isName package = true
  packageNames : ∀ p ∈ packageNames s, isName p = true
  fields : ∀ m ∈ s.messages, ∀ f ∈ m.fields, isName (fieldName f) = true ∧ isName f.name = true
  types : ∀ m ∈ s.messages, ∀ f ∈ m.fields, s.Refers f.type
  numbers : ∀ c ∈ s.constants, ∀ x, c.value = .number x → x.isNaN = false

section

variable {s : Schema} {package : String}

/-- The words that the generator writes itself are expected in every file. -/
theorem expected_of_isOwn (cs : List Char) (h : isOwn cs = true) :
    Expected s package (String.ofList cs) := by
  rw [isOwn, Bool.or_eq_true] at h
  rcases h with h | h
  · refine .inr (.inr (.inr (.inr fun c hc => ?_)))
    rw [String.toList_ofList] at hc
    rw [Option.mem_def.mp hc] at h
    simpa using h
  · obtain ⟨w, hw, rfl⟩ := List.mem_map.mp (List.contains_iff_mem.mp h)
    rw [String.ofList_toList]
    exact .inr (.inr (.inr (.inl hw)))

/-- A name of the package can be read in code. -/
theorem reads_packageName (h : Legible s package) {p : String} (hp : p ∈ packageNames s) :
    Reads (Expected s package) .code p .code :=
  reads_name (h.packageNames p hp) fun _ => .inl hp

theorem mem_packageNames_enum {e : Enum} (he : e ∈ s.enums) : enumType e ∈ packageNames s :=
  List.mem_append_left _ (List.mem_append_right _
    (List.mem_flatMap.mpr ⟨e, he, List.mem_cons_self⟩))

theorem mem_packageNames_variant {e : Enum} (he : e ∈ s.enums) {v : Variant} (hv : v ∈ e.variants) :
    variantName e v ∈ packageNames s :=
  List.mem_append_left _ (List.mem_append_right _
    (List.mem_flatMap.mpr ⟨e, he, List.mem_cons_of_mem _ (List.mem_map_of_mem hv)⟩))

theorem mem_packageNames_message {m : Message} (hm : m ∈ s.messages) :
    structName m ∈ packageNames s :=
  List.mem_append_right _ (List.mem_map_of_mem hm)

theorem mem_packageNames_constant {c : Constant} (hc : c ∈ s.constants) :
    constantName c ∈ packageNames s :=
  List.mem_append_left _ (List.mem_append_left _ (List.mem_map_of_mem hc))

/-! ## Types -/

/-- A primitive type is a word of the language. -/
theorem reads_primitiveType (p : Primitive) :
    Reads (Expected s package) .code (primitiveType p) .code := by
  cases p <;> exact (Fills.start _).readsCode expected_of_isOwn (by decide)

/-- The type of a value names a primitive type or something that the package declares. -/
theorem reads_elementType (h : Legible s package) {type : TypeRef} (htype : s.Refers type) :
    Reads (Expected s package) .code (elementType s type) .code := by
  cases type with
  | primitive p => exact reads_primitiveType p
  | enum index =>
    obtain ⟨e, he, hname⟩ := htype
    rw [elementType, hname]
    exact reads_packageName h (mem_packageNames_enum (List.mem_of_getElem? he))
  | message index =>
    obtain ⟨m, hm, hname⟩ := htype
    have hstruct := reads_packageName h (mem_packageNames_message (List.mem_of_getElem? hm))
    rw [elementType, hname]
    exact ((Fills.start _).phrase hstruct).readsCode expected_of_isOwn (by decide)

/-- So does the type of a field, whether it is repeated, optional or neither. -/
theorem reads_fieldType (h : Legible s package) {f : Wire.Field} (htype : s.Refers f.field.type) :
    Reads (Expected s package) .code (fieldType s f) .code := by
  have helement := reads_elementType h htype
  rw [fieldType]
  split
  · exact ((Fills.start _).phrase helement).readsCode expected_of_isOwn (by decide)
  · split
    · exact ((Fills.start _).phrase helement).readsCode expected_of_isOwn (by decide)
    · exact helement

/-! ## The types file -/

/-- The columns of a row can be read. The last may be a number. -/
def Row.Sound (ok : String → Prop) (row : Row) : Prop :=
  Reads ok .code row.name .code ∧ Reads ok .code row.type .code ∧
    ∃ q : Place, q.isNumberEnd = true ∧ Reads ok .code row.rest q

/-- Rows stay sound when they are padded to columns. -/
theorem refers_aligned {rows : List Row} (h : ∀ row ∈ rows, row.Sound (Expected s package)) :
    ∀ line ∈ aligned rows, Refers (Expected s package) line := by
  intro line hline
  obtain ⟨row, hrow, rfl⟩ := List.mem_map.mp hline
  obtain ⟨hname, htype, q, hq, hrest⟩ := h row hrow
  refine Reads.refers ?_ (Place.isDone_of_isNumberEnd hq)
  exact ((((Fills.start _).phrase (hname.padded _)).text _).phrase (htype.padded _)).text _
    |>.readsThen expected_of_isOwn hrest (by decide)

/-- A literal names nothing, unless it is the number that is none. -/
theorem reads_literal {value : Literal} (h : ∀ x, value = .number x → x.isNaN = false) :
    ∃ q : Place, q.isNumberEnd = true ∧ Reads (Expected s package) .code (literal value) q := by
  cases value with
  | integer i => exact ⟨.code, rfl, reads_int i⟩
  | number x => exact reads_display (expected_of_isOwn ['i', 'n', 'f'] rfl) (h x rfl)
  | string text => exact ⟨.code, rfl, reads_quote text⟩
  | bool b =>
    refine ⟨.code, rfl, ?_⟩
    cases b <;> exact (Fills.start _).readsCode expected_of_isOwn (by decide)

/-- A block of constants refers to what its rows refer to. -/
theorem refers_constBlock {rows : List Row} (h : ∀ row ∈ rows, row.Sound (Expected s package)) :
    ∀ line ∈ constBlock rows, Refers (Expected s package) line := by
  refine List.forall_mem_append.mpr ⟨List.forall_mem_cons.mpr ⟨?_, refers_aligned h⟩,
    List.forall_mem_singleton.mpr ?_⟩
  · exact (Fills.start _).refers expected_of_isOwn (by decide)
  · exact (Fills.start _).refers expected_of_isOwn (by decide)

theorem refers_blank : Refers (Expected s package) "" :=
  Fills.nil.refers expected_of_isOwn (by decide)

variable (h : Legible s package)

include h

/-- The head of a file names its package only. -/
theorem refers_header : ∀ line ∈ header s package, Refers (Expected s package) line := by
  have hpackage : Reads (Expected s package) .code package .code :=
    reads_name h.package fun _ => .inr (.inr (.inl rfl))
  exact Shaped.refers expected_of_isOwn
    (.cons (((Fills.start _).silent h.name).text _) <| .cons .nil <|
      .cons ((Fills.start _).phrase hpackage) <| .cons .nil .nil) (by decide)

/-- The constants of a schema refer to nothing unexpected. -/
theorem refers_constants :
    ∀ line ∈ constBlock (s.constants.map constantRow), Refers (Expected s package) line := by
  refine refers_constBlock fun row hrow => ?_
  obtain ⟨c, hc, rfl⟩ := List.mem_map.mp hrow
  obtain ⟨q, hq, hvalue⟩ :
      ∃ q : Place, q.isNumberEnd = true ∧ Reads (Expected s package) .code _ q :=
    reads_literal (h.numbers c hc)
  refine ⟨reads_packageName h (mem_packageNames_constant hc), reads_primitiveType c.type, q, hq, ?_⟩
  exact (Fills.start _).readsThen expected_of_isOwn hvalue (by decide)

/-- The lines of an enum refer to its type and its values. -/
theorem refers_enum {e : Enum} (he : e ∈ s.enums) :
    ∀ line ∈ enumLines e, Refers (Expected s package) line := by
  have htype := reads_packageName h (mem_packageNames_enum he)
  have hname := h.packageNames _ (mem_packageNames_enum he)
  rw [enumLines]
  simp only [List.forall_mem_append, and_assoc]
  refine ⟨?_, ?_, ?_, ?_, ?_⟩
  · exact Shaped.refers expected_of_isOwn (.cons (((Fills.start _).phrase htype).text _) .nil)
      (by decide)
  · -- the values, if there are any
    split
    · exact nofun
    · refine List.forall_mem_cons.mpr ⟨refers_blank, refers_constBlock fun row hrow => ?_⟩
      obtain ⟨v, hv, rfl⟩ := List.mem_map.mp hrow
      refine ⟨reads_packageName h (mem_packageNames_variant he hv), htype, .code, rfl, ?_⟩
      exact (Fills.start _).readsThen expected_of_isOwn (reads_int v.value) (by decide)
  · exact Shaped.refers expected_of_isOwn
      (.cons .nil <| .cons (((Fills.start _).phrase htype).text _) <| .cons (.start _) .nil)
      (by decide)
  · refine List.forall_mem_flatMap.mpr fun v hv => ?_
    have hvalue := reads_packageName h
      (mem_packageNames_variant he ((List.mergeSort_perm _ _).mem_iff.mp hv))
    exact Shaped.refers expected_of_isOwn
      (.cons (((Fills.start _).phrase hvalue).text _) <|
        .cons ((Fills.start _).phrase (reads_quote _)) .nil) (by decide)
  · exact Shaped.refers expected_of_isOwn
      (.cons (.start _) <| .cons (((Fills.start _).silent hname).text _) <| .cons (.start _) .nil)
      (by decide)

/-- The lines of a struct refer to types of the package. -/
theorem refers_struct {m : Message} (hm : m ∈ s.messages) :
    ∀ line ∈ structLines s m, Refers (Expected s package) line := by
  have hstruct := reads_packageName h (mem_packageNames_message hm)
  refine List.forall_mem_append.mpr ⟨List.forall_mem_cons.mpr ⟨?_, ?_⟩, ?_⟩
  · exact (((Fills.start _).phrase hstruct).text _).refers expected_of_isOwn (by decide)
  · refine refers_aligned fun row hrow => ?_
    obtain ⟨f, hf, rfl⟩ := List.mem_map.mp hrow
    obtain ⟨hfield, hname⟩ := h.fields m hm f hf
    have hmem : fieldName f ∈ fieldNames s :=
      List.mem_flatMap.mpr ⟨m, hm, List.mem_map_of_mem hf⟩
    refine ⟨reads_name hfield fun _ => .inr (.inl hmem), reads_fieldType h (h.types m hm f hf),
      .code, rfl, ?_⟩
    exact (((((Fills.start _).silent (isName_toString f.tag)).text _).silent hname).text
      _).readsCode
      expected_of_isOwn (by decide)
  · exact Spelled.refers (by repeat constructor) expected_of_isOwn (by decide)

/-- **Every name in the types file is expected.** -/
theorem refers_typesLines (version : Fingerprint) :
    ∀ line ∈ typesLines s version package, Refers (Expected s package) line := by
  have hversion : Reads (Expected s package) .code versionConstant .code :=
    reads_name (by decide) fun _ => .inr (.inr (.inr (.inl List.mem_cons_self)))
  rw [typesLines]
  simp only [List.forall_mem_append, and_assoc]
  refine ⟨refers_header h, ?_, ?_, ?_, ?_, ?_, List.forall_mem_singleton.mpr refers_blank⟩
  · split
    · exact nofun
    · exact Spelled.refers (by repeat constructor) expected_of_isOwn (by decide)
  · refine List.forall_mem_cons.mpr ⟨?_, List.forall_mem_singleton.mpr ?_⟩
    · exact (((((Fills.start _).silent (by decide)).text _).silent h.name).text _).refers
        expected_of_isOwn (by decide)
    · exact ((((Fills.start _).phrase hversion).text _).phrase (reads_quote _)).refers
        expected_of_isOwn (by decide)
  · split
    · exact nofun
    · exact List.forall_mem_cons.mpr ⟨refers_blank, refers_constants h⟩
  · exact List.forall_mem_flatMap.mpr fun e he =>
      List.forall_mem_cons.mpr ⟨refers_blank, refers_enum h he⟩
  · exact List.forall_mem_flatMap.mpr fun m hm =>
      List.forall_mem_cons.mpr ⟨refers_blank, refers_struct h hm⟩

end

/-! ## Encoders -/

/-- The name of a member, where one is used, is a word. -/
def Operand.Named : Operand → Prop
  | .member name | .pointee name => isName name = true
  | .element => True

/-- A conversion can be read. -/
def ValueWriter.Sound (ok : String → Prop) : ValueWriter → Prop
  | .call _ (some conversion) => Reads ok .code conversion .code
  | .call _ none | .nested => True

def Step.Sound (ok : String → Prop) : Step → Prop
  | .tag _ => True
  | .count member => isName member = true
  | .value writer operand => writer.Sound ok ∧ operand.Named

def Statement.Sound (ok : String → Prop) : Statement → Prop
  | .step s => s.Sound ok
  | .ifSet member steps | .forEach member steps =>
    isName member = true ∧ ∀ s ∈ steps, s.Sound ok

section

variable {s : Schema} {package : String}

/-- Indenting lines adds no reference. -/
theorem refers_indentedLines {lines : List String}
    (h : ∀ line ∈ lines, Refers (Expected s package) line) :
    ∀ line ∈ indented lines, Refers (Expected s package) line :=
  refers_indented rfl rfl h

theorem reads_member {name : String} (h : isName name = true) :
    Reads (Expected s package) .code (memberText name) .code :=
  ((Fills.start _).silent h).readsCode expected_of_isOwn (by decide)

/-- An operand is a member or the item of a loop. -/
theorem reads_operand {operand : Operand} (h : operand.Named) :
    Reads (Expected s package) .code operand.text .code := by
  cases operand with
  | member name => exact reads_member h
  | pointee name =>
    exact ((Fills.start _).phrase (reads_member h)).readsCode expected_of_isOwn (by decide)
  | element => exact (Fills.start _).readsCode expected_of_isOwn (by decide)

/-- A sound step of an encoder refers to expected names. -/
theorem refers_step {step : Step} (h : step.Sound (Expected s package)) :
    Refers (Expected s package) step.text := by
  cases step with
  | tag n =>
    exact (((Fills.start _).phrase (reads_nat n)).text _).refers expected_of_isOwn
      (by decide)
  | count member =>
    exact (((Fills.start _).phrase (reads_member h)).text _).refers expected_of_isOwn
      (by decide)
  | value writer operand =>
    obtain ⟨hwriter, hoperand⟩ := h
    have hoperand : Reads (Expected s package) .code operand.text .code := reads_operand hoperand
    cases writer with
    | call coder conversion =>
      cases conversion with
      | none =>
        exact (((((Fills.start _).silent (isName_writer coder)).text _).phrase hoperand).text
          _).refers expected_of_isOwn (by decide)
      | some conversion =>
        exact (((((((Fills.start _).silent (isName_writer coder)).text _).phrase hwriter).text
          _).phrase hoperand).text _).refers expected_of_isOwn (by decide)
    | nested =>
      exact ((Fills.startPhrase hoperand).text _).refers expected_of_isOwn (by decide)

/-- So does a sound statement, with all its lines. -/
theorem refers_statement {statement : Statement} (h : statement.Sound (Expected s package)) :
    ∀ line ∈ statement.lines, Refers (Expected s package) line := by
  have hsteps : ∀ {steps : List Step}, (∀ step ∈ steps, step.Sound (Expected s package)) →
      ∀ line ∈ indented (steps.map Step.text), Refers (Expected s package) line := by
    intro steps hsteps
    refine refers_indentedLines fun line hline => ?_
    obtain ⟨step, hstep, rfl⟩ := List.mem_map.mp hline
    exact refers_step (hsteps step hstep)
  have hclose : ∀ line ∈ ["\x7d"], Refers (Expected s package) line :=
    Spelled.refers (by repeat constructor) expected_of_isOwn (by decide)
  cases statement with
  | step step => exact List.forall_mem_singleton.mpr (refers_step h)
  | ifSet member steps =>
    refine List.forall_mem_append.mpr ⟨List.forall_mem_cons.mpr ⟨?_, hsteps h.2⟩, hclose⟩
    exact (((Fills.start _).phrase (reads_member h.1)).text _).refers expected_of_isOwn
      (by decide)
  | forEach member steps =>
    refine List.forall_mem_append.mpr ⟨List.forall_mem_cons.mpr ⟨?_, hsteps h.2⟩, hclose⟩
    exact (((Fills.start _).phrase (reads_member h.1)).text _).refers expected_of_isOwn
      (by decide)

/-- Every value is written by a method that the support code has. -/
theorem sound_valueWriter (kind : Wire.Kind) : (valueWriter kind).Sound (Expected s package) := by
  cases kind with
  | int8 | signedVarint type | unsignedVarint type | enum index =>
    exact (Fills.start _).readsCode expected_of_isOwn (by decide)
  | _ => trivial

/-- The encoder of a field is sound. -/
theorem sound_encodeField {f : Wire.Field} (h : isName (fieldName f.field) = true) :
    ∀ statement ∈ encodeField f, statement.Sound (Expected s package) := by
  have hwriter : (valueWriter f.kind).Sound (Expected s package) := sound_valueWriter f.kind
  rw [encodeField]
  split
  · exact List.forall_mem_cons.mpr ⟨trivial, List.forall_mem_cons.mpr ⟨h,
      List.forall_mem_singleton.mpr ⟨h, List.forall_mem_singleton.mpr ⟨hwriter, trivial⟩⟩⟩⟩
  · split
    · exact List.forall_mem_cons.mpr ⟨trivial, List.forall_mem_singleton.mpr ⟨hwriter, h⟩⟩
    · refine List.forall_mem_singleton.mpr ⟨h, List.forall_mem_cons.mpr ⟨trivial,
        List.forall_mem_singleton.mpr ⟨hwriter, ?_⟩⟩⟩
      split <;> exact h

end

/-! ## Decoders -/

/-- A conversion and a nested struct can be read. -/
def ValueReader.Sound (ok : String → Prop) : ValueReader → Prop
  | .call _ (some conversion) => Reads ok .code conversion .code
  | .call _ none => True
  | .nested struct => Reads ok .code struct .code

def Case.Sound (ok : String → Prop) : Case → Prop
  | .store member reader _ => isName member = true ∧ reader.Sound ok
  | .collect member element reader =>
    isName member = true ∧ Reads ok .code element .code ∧ reader.Sound ok

section

variable {s : Schema} {package : String}

theorem refers_errorCheck : ∀ line ∈ errorCheck, Refers (Expected s package) line :=
  Spelled.refers (by repeat constructor) expected_of_isOwn (by decide)

/-- Reading a value refers to expected names if the reader is sound. -/
theorem refers_reader {reader : ValueReader} (h : reader.Sound (Expected s package)) :
    ∀ line ∈ reader.lines, Refers (Expected s package) line := by
  cases reader with
  | call coder conversion =>
    have hreader := isName_reader coder
    cases conversion with
    | none =>
      refine List.forall_mem_cons.mpr ⟨?_, refers_errorCheck⟩
      exact (((Fills.start _).silent hreader).text _).refers expected_of_isOwn (by decide)
    | some conversion =>
      refine List.forall_mem_append.mpr ⟨List.forall_mem_cons.mpr ⟨?_, refers_errorCheck⟩,
        List.forall_mem_singleton.mpr ?_⟩
      · exact (((Fills.start _).silent hreader).text _).refers expected_of_isOwn (by decide)
      · exact (((Fills.start _).phrase h).text _).refers expected_of_isOwn (by decide)
  | nested struct =>
    refine List.forall_mem_cons.mpr ⟨?_, ?_⟩
    · exact (((Fills.start _).phrase h).text _).refers expected_of_isOwn (by decide)
    · exact Spelled.refers (by repeat constructor) expected_of_isOwn (by decide)

/-- So does a case of a decoder. -/
theorem refers_case {body : Case} (h : body.Sound (Expected s package)) :
    ∀ line ∈ body.lines, Refers (Expected s package) line := by
  cases body with
  | store member reader address =>
    obtain ⟨hmember, hreader⟩ := h
    have hmember : Reads (Expected s package) .code (memberText member) .code :=
      reads_member hmember
    refine List.forall_mem_append.mpr ⟨refers_reader hreader, List.forall_mem_singleton.mpr ?_⟩
    cases address <;> exact (((Fills.startPhrase hmember).text _).text _).refers expected_of_isOwn
      (by decide)
  | collect member element reader =>
    obtain ⟨hmember, helement, hreader⟩ := h
    have hmember : Reads (Expected s package) .code (memberText member) .code :=
      reads_member hmember
    refine List.forall_mem_append.mpr ⟨List.forall_mem_append.mpr ⟨List.forall_mem_append.mpr
      ⟨List.forall_mem_cons.mpr ⟨?_, refers_errorCheck⟩, List.forall_mem_cons.mpr ⟨?_, ?_⟩⟩,
      refers_indentedLines (List.forall_mem_append.mpr
        ⟨refers_reader hreader, List.forall_mem_singleton.mpr ?_⟩)⟩, ?_⟩
    · exact (Fills.start _).refers expected_of_isOwn (by decide)
    · exact ((((Fills.startPhrase hmember).text _).phrase helement).text _).refers expected_of_isOwn
        (by decide)
    · exact Spelled.refers (by repeat constructor) expected_of_isOwn (by decide)
    · exact ((((Fills.startPhrase hmember).text _).phrase hmember).text _).refers expected_of_isOwn
        (by decide)
    · exact Spelled.refers (by repeat constructor) expected_of_isOwn (by decide)

theorem refers_caseLines (tag : Nat) {body : Case} (h : body.Sound (Expected s package)) :
    ∀ line ∈ caseLines tag body, Refers (Expected s package) line := by
  refine List.forall_mem_cons.mpr ⟨?_, refers_indentedLines (refers_case h)⟩
  exact (((Fills.start _).phrase (reads_nat tag)).text _).refers expected_of_isOwn (by decide)

/-- Every value is read by a method of the support code, or into a type of the package. -/
theorem sound_valueReader (h : Legible s package) {type : TypeRef} (htype : s.Refers type) :
    (valueReader s (.ofType type)).Sound (Expected s package) := by
  cases type with
  | primitive p =>
    cases p with
    | int8 | int16 | int32 | uint16 | uint32 =>
      exact (Fills.start _).readsCode expected_of_isOwn (by decide)
    | _ => trivial
  | enum index => exact reads_elementType h htype
  | message index =>
    obtain ⟨m, hm, hname⟩ := htype
    rw [Wire.Kind.ofType, valueReader, hname]
    exact reads_packageName h (mem_packageNames_message (List.mem_of_getElem? hm))

/-- The decoder of a field is sound. -/
theorem sound_decodeField (h : Legible s package) {f : Wire.Field}
    (hkind : f.kind = .ofType f.field.type) (htype : s.Refers f.field.type)
    (hname : isName (fieldName f.field) = true) :
    (decodeField s f).Sound (Expected s package) := by
  have hreader := sound_valueReader h htype
  rw [decodeField, hkind]
  split
  · exact ⟨hname, reads_elementType h htype, hreader⟩
  · exact ⟨hname, hreader⟩

end

/-! ## The codec file -/

section

variable {s : Schema} {package : String}

/-- The support code refers to what it declares itself. -/
theorem refers_supportLines : ∀ line ∈ supportLines, Refers (Expected s package) line := by
  have himport : ∀ path ∈ supportImports, Refers (Expected s package) ("\t\"" ++ path ++ "\"") := by
    refine List.forall_mem_cons.mpr ⟨?_, List.forall_mem_cons.mpr ⟨?_, List.forall_mem_cons.mpr
      ⟨?_, List.forall_mem_cons.mpr ⟨?_, List.forall_mem_singleton.mpr ?_⟩⟩⟩⟩ <;>
    exact (((Fills.start _).text _).text _).refers expected_of_isOwn (by decide)
  refine List.forall_mem_append.mpr ⟨List.forall_mem_append.mpr ⟨List.forall_mem_append.mpr
    ⟨?_, List.forall_mem_map.mpr himport⟩, ?_⟩, ?_⟩
  · exact Spelled.refers (by repeat constructor) expected_of_isOwn (by decide)
  · exact Spelled.refers (by repeat constructor) expected_of_isOwn (by decide)
  · exact Spelled.refers (by repeat constructor) expected_of_isOwn (by decide +kernel)

section

variable {struct : String} (hstruct : Reads (Expected s package) .code struct .code)

include hstruct

theorem refers_marshal (hname : isName struct = true) :
    ∀ line ∈ marshalLines struct, Refers (Expected s package) line :=
  Shaped.refers expected_of_isOwn
    (.cons (((Fills.start _).silent hname).text _) <|
      .cons (((Fills.start _).phrase hstruct).text _) <| .cons (.start _) <| .cons (.start _) <|
      .cons (.start _) <| .cons (.start _) .nil) (by decide)

theorem refers_unmarshal (hname : isName struct = true) :
    ∀ line ∈ unmarshalLines struct, Refers (Expected s package) line :=
  Shaped.refers expected_of_isOwn
    (.cons (.start _) <| .cons (.start _) <| .cons (((Fills.start _).phrase hstruct).text _) <|
      .cons (.start _) <| .cons (((Fills.start _).phrase hstruct).text _) <| .cons (.start _) <|
      .cons (.start _) <| .cons (.start _) <| .cons (.start _) <|
      .cons (((Fills.start _).silent hname).text _) <| .cons (.start _) <| .cons (.start _) <|
      .cons (.start _) .nil) (by decide)

/-- An encoder refers to what its statements refer to. -/
theorem refers_encoder {statements : List Statement}
    (h : ∀ statement ∈ statements, statement.Sound (Expected s package))
    (decoder : List (Nat × Case)) :
    ∀ line ∈ encoderLines ⟨struct, statements, decoder⟩, Refers (Expected s package) line := by
  refine List.forall_mem_append.mpr ⟨List.forall_mem_append.mpr ⟨?_, ?_⟩, ?_⟩
  · exact Shaped.refers expected_of_isOwn
      (.cons (((Fills.start _).phrase hstruct).text _) <| .cons (.start _) <| .cons (.start _) <|
        .cons (.start _) <| .cons (.start _) .nil) (by decide)
  · exact refers_indentedLines (List.forall_mem_flatMap.mpr fun statement hstatement =>
      refers_statement (h statement hstatement))
  · exact Spelled.refers (by repeat constructor) expected_of_isOwn (by decide)

/-- A decoder refers to what its cases refer to. -/
theorem refers_decoder {cases : List (Nat × Case)}
    (h : ∀ c ∈ cases, c.2.Sound (Expected s package)) (encoder : List Statement) :
    ∀ line ∈ decoderLines ⟨struct, encoder, cases⟩, Refers (Expected s package) line := by
  refine List.forall_mem_append.mpr ⟨List.forall_mem_append.mpr ⟨?_, ?_⟩, ?_⟩
  · exact Shaped.refers expected_of_isOwn
      (.cons (((Fills.start _).phrase hstruct).text _) <| .cons (.start _) <| .cons (.start _) <|
        .cons (.start _) <| .cons (.start _) <| .cons (.start _) <| .cons (.start _) <|
        .cons (.start _) <| .cons (.start _) .nil) (by decide)
  · exact refers_indentedLines (refers_indentedLines (List.forall_mem_flatMap.mpr fun c hc =>
      refers_caseLines c.1 (h c hc)))
  · exact Shaped.refers expected_of_isOwn
      (.cons (.start _) <| .cons (((Fills.start _).phrase (reads_quote _)).text _) <|
        .cons (.start _) <| .cons (.start _) <| .cons (.start _) .nil) (by decide)

end

/-- **The codec of a planned message refers to expected names only.** -/
theorem refers_codec (h : Legible s package) {m : Wire.Message} (hm : m ∈ s.plan)
    (hordered : m.Ordered) : ∀ line ∈ (codec s m).lines, Refers (Expected s package) line := by
  have hmessage := Schema.message_mem_of_mem_plan hm
  have hname := h.packageNames _ (mem_packageNames_message hmessage)
  have hstruct := reads_packageName h (mem_packageNames_message hmessage)
  have hblank : ∀ line ∈ [""], Refers (Expected s package) line :=
    List.forall_mem_singleton.mpr refers_blank
  have hfield : ∀ f ∈ m.fields, isName (fieldName f.field) = true := fun f hf =>
    (h.fields _ hmessage _ (Schema.field_mem_of_mem_plan hm hf)).1
  rw [Codec.lines]
  simp only [List.forall_mem_append, and_assoc]
  refine ⟨refers_marshal hstruct hname, hblank, refers_unmarshal hstruct hname, hblank,
    ?_, hblank, ?_⟩
  · refine refers_encoder hstruct (List.forall_mem_flatMap.mpr fun f hf => ?_) _
    exact sound_encodeField (hfield f hf)
  · refine refers_decoder hstruct (List.forall_mem_map.mpr fun f hf => ?_) _
    have hmem := Schema.field_mem_of_mem_plan hm hf
    exact sound_decodeField h (hordered.kind_eq hf) (h.types _ hmessage _ hmem) (hfield f hf)

/-- **Every name in the codec file is expected.** -/
theorem refers_codecLines (h : Legible s package) (hordered : ∀ m ∈ s.plan, m.Ordered) :
    ∀ line ∈ codecLines s package, Refers (Expected s package) line := by
  rw [codecLines]
  simp only [List.forall_mem_append, and_assoc]
  refine ⟨refers_header h, refers_supportLines, ?_, List.forall_mem_singleton.mpr refers_blank⟩
  exact List.forall_mem_flatMap.mpr fun m hm =>
    List.forall_mem_cons.mpr ⟨refers_blank, refers_codec h hm (hordered m hm)⟩

end

/-! ## Accepted schemas -/

/-- A target that can be generated has two files, one with types and one with codecs. -/
theorem files_of_generate {package : String} {s : Schema} {files : List GeneratedFile}
    (h : generate package s = .ok files) :
    isPackageName package = true ∧ ∃ path path', files =
      [.ofLines path (typesLines s s.fingerprint package),
        .ofLines path' (codecLines s package)] := by
  rw [generate] at h
  split at h
  · cases h
  · rename_i hpackage
    obtain ⟨_, -, hfiles⟩ := bind_eq_ok_iff.mp h
    cases hfiles
    exact ⟨by simpa using hpackage, _, _, rfl⟩

/-- The files of an accepted schema can be read. -/
theorem legible_of_ofText {mode : ErrorMode} {text : String} {s : Schema}
    (h : Schema.ofText mode text = .ok s) {package : String} {scope : Naming.Scope}
    (hpackage : isPackageName package = true) (hnames : checkNames s = .ok scope) :
    Legible s package := by
  have hs := Schema.ofText_worded h
  have hword : Text.isWord package = true := by
    rw [isPackageName, Bool.and_eq_true, Bool.and_eq_true] at hpackage
    exact hpackage.1.1
  refine ⟨isName_of_isWord hs.name, isName_of_isWord hword, fun p hp => ?_, fun m hm f hf => ?_,
    Schema.ofText_refers h, fun c hc x hx => Schema.ofText_constants_isNaN h hc hx⟩
  · exact isName_of_isWord (packageNames_checked hnames p hp).1
  · exact ⟨isName_of_isWord (((isWord_of_checkNames hnames).2 m hm).2 f hf),
      isName_of_isWord ((hs.messages m hm).2 f hf)⟩

/-- **Every name in the generated files is expected.** -/
theorem refers_of_generate {mode : ErrorMode} {text : String} {s : Schema}
    (h : Schema.ofText mode text = .ok s) {package : String} {files : List GeneratedFile}
    (hfiles : generate package s = .ok files) :
    ∀ file ∈ files, ∀ line ∈ linesOf file.contents, Refers (Expected s package) line := by
  obtain ⟨-, scope, hnames⟩ := generate_eq_ok hfiles
  obtain ⟨hpackage, path, path', rfl⟩ := files_of_generate hfiles
  have hlegible := legible_of_ofText h hpackage hnames
  refine List.forall_mem_cons.mpr ⟨?_, List.forall_mem_singleton.mpr ?_⟩
  · exact refers_linesOf (List.cons_ne_nil _ _) (refers_typesLines hlegible s.fingerprint) path
  · exact refers_linesOf (List.cons_ne_nil _ _)
      (refers_codecLines hlegible (Schema.ofText_plan_ordered h)) path'

end WireSchema.Go
