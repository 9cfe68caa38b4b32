import WireSchema.Proofs.Relocation
import WireSchema.Target

/-!
# Nothing that is generated depends on a location

Relocating a schema changes neither its canonical form, nor its plan apart from the locations in it,
nor the files of any target. Each function between a schema and a file is taken in turn: it either
reads no location at all, or passes the items that carry one on to a function that does not.
-/

namespace WireSchema

variable (g : Location → Location)

/-! ## Canonical form -/

namespace Schema

@[simp] theorem messageName_relocate (s : Schema) (index : Nat) :
    (s.relocate g).messageName index = s.messageName index := by
  simp only [messageName, relocate, List.getElem?_map, Option.map_map]
  rfl

@[simp] theorem enumName_relocate (s : Schema) (index : Nat) :
    (s.relocate g).enumName index = s.enumName index := by
  simp only [enumName, relocate, List.getElem?_map, Option.map_map]
  rfl

/-- The label of a type does not depend on locations. -/
theorem typeLabel_relocate (s : Schema) (type : TypeRef) :
    (s.relocate g).typeLabel type = s.typeLabel type := by
  cases type with
  | primitive p => rfl
  | message index => simp only [typeLabel, messageName_relocate]
  | enum index => simp only [typeLabel, enumName_relocate]

end Schema

/-- Moving fields does not change their order by tag. -/
theorem Message.fieldsByTag_relocate (m : Message) :
    (m.relocate g).fieldsByTag = m.fieldsByTag.map (Field.relocate g) := by
  simp only [Message.fieldsByTag, Message.relocate]
  exact Eq.symm (List.map_mergeSort fun _ _ _ _ => by rfl)

/-- Moving variants does not change their order by value. -/
theorem Enum.variantsByValue_relocate (e : Enum) :
    (e.relocate g).variantsByValue = e.variantsByValue.map (Variant.relocate g) := by
  simp only [Enum.variantsByValue, Enum.relocate]
  exact Eq.symm (List.map_mergeSort fun _ _ _ _ => by rfl)

namespace Schema

/-- The canonical line of a field has no location in it. -/
theorem canonicalField_relocate (s : Schema) (f : Field) :
    (s.relocate g).canonicalField (f.relocate g) = s.canonicalField f := by
  simp only [canonicalField, typeLabel_relocate, Field.relocate]

/-- Neither has that of an enum. -/
theorem canonicalEnum_relocate (e : Enum) : canonicalEnum (e.relocate g) = canonicalEnum e := by
  rw [canonicalEnum, Enum.variantsByValue_relocate, List.map_map]
  rfl

/-- Nor that of a message. -/
theorem canonicalMessage_relocate (s : Schema) (m : Message) :
    (s.relocate g).canonicalMessage (m.relocate g) = s.canonicalMessage m := by
  rw [canonicalMessage, Message.fieldsByTag_relocate, List.map_map]
  simp only [Function.comp_def, canonicalField_relocate]
  rfl

/-- Moving enums does not change their order by name. -/
theorem enumsByName_relocate (s : Schema) :
    (s.relocate g).enumsByName = s.enumsByName.map (Enum.relocate g) := by
  simp only [enumsByName, relocate]
  exact Eq.symm (List.map_mergeSort fun _ _ _ _ => by rfl)

/-- Moving messages does not change their order by name. -/
theorem messagesByName_relocate (s : Schema) :
    (s.relocate g).messagesByName = s.messagesByName.map (Message.relocate g) := by
  simp only [messagesByName, relocate]
  exact Eq.symm (List.map_mergeSort fun _ _ _ _ => by rfl)

/-- The canonical form shows no location. -/
theorem canonicalForm_relocate (s : Schema) :
    (s.relocate g).canonicalForm = s.canonicalForm := by
  simp only [canonicalForm, enumsByName_relocate, messagesByName_relocate, List.map_map,
    Function.comp_def, canonicalEnum_relocate, canonicalMessage_relocate]
  rfl

/-- **The fingerprint of a schema does not depend on locations.** -/
theorem fingerprint_relocate (s : Schema) : (s.relocate g).fingerprint = s.fingerprint := by
  rw [fingerprint, canonicalForm_relocate, fingerprint]

end Schema

/-! ## Plan -/

def Wire.Field.relocate (f : Wire.Field) : Wire.Field :=
  { f with field := f.field.relocate g }

def Wire.Message.relocate (m : Wire.Message) : Wire.Message :=
  { m with message := m.message.relocate g, fields := m.fields.map (Wire.Field.relocate g) }

/-- The plan of a moved message is the plan, moved. -/
theorem Wire.Message.ofMessage_relocate (index : Nat) (m : WireSchema.Message) :
    Wire.Message.ofMessage index (m.relocate g) = (Wire.Message.ofMessage index m).relocate g := by
  rw [ofMessage, Message.fieldsByTag_relocate, List.map_map, ofMessage, relocate, List.map_map]
  rfl

/-- The plan is relocated with the schema. -/
theorem Schema.plan_relocate (s : Schema) :
    (s.relocate g).plan = s.plan.map (Wire.Message.relocate g) := by
  refine List.ext_getElem? fun i => ?_
  simp only [plan, relocate, List.getElem?_mapIdx, List.getElem?_map, Option.map_map,
    Function.comp_def, Wire.Message.ofMessage_relocate]

/-! ## Go -/

namespace Go

theorem enumClaims_relocate (e : Enum) : enumClaims (e.relocate g) = enumClaims e := by
  simp only [enumClaims, Enum.relocate, List.map_map]
  rfl

theorem messageGroup_relocate (m : Message) : messageGroup (m.relocate g) = messageGroup m := by
  simp only [messageGroup, Message.relocate, List.map_map]
  rfl

/-- The names that a package claims do not depend on locations. -/
theorem checkNames_relocate (s : Schema) : checkNames (s.relocate g) = checkNames s := by
  have hconstants : constantClaims (s.relocate g) = constantClaims s := by
    simp only [constantClaims, Schema.relocate, List.map_map]
    rfl
  have henums : (s.relocate g).enums.flatMap enumClaims = s.enums.flatMap enumClaims := by
    simp only [Schema.relocate, List.flatMap_map, enumClaims_relocate]
  have hmessages : (s.relocate g).messages.map messageGroup = s.messages.map messageGroup := by
    simp only [Schema.relocate, List.map_map, Function.comp_def, messageGroup_relocate]
  rw [checkNames, hconstants, henums, hmessages, checkNames]

/-- The type of a value does not depend on locations. -/
theorem elementType_relocate (s : Schema) (type : TypeRef) :
    elementType (s.relocate g) type = elementType s type := by
  cases type with
  | primitive p => rfl
  | message index => simp only [elementType, Schema.messageName_relocate]
  | enum index => simp only [elementType, Schema.enumName_relocate]

/-- The row of a field has no location in it. -/
theorem fieldRow_relocate (s : Schema) (f : Field) :
    fieldRow (s.relocate g) (f.relocate g) = fieldRow s f := by
  simp only [fieldRow, fieldType, elementType_relocate]
  rfl

/-- A struct is the same for a moved message. -/
theorem structLines_relocate (s : Schema) (m : Message) :
    structLines (s.relocate g) (m.relocate g) = structLines s m := by
  simp only [structLines, Message.relocate, List.map_map, Function.comp_def, fieldRow_relocate]
  rfl

theorem enumLines_relocate (e : Enum) : enumLines (e.relocate g) = enumLines e := by
  simp only [enumLines, Enum.variantsByValue_relocate, List.flatMap_map]
  simp only [Enum.relocate, List.isEmpty_map, List.map_map]
  rfl

/-- The file of types is the same for a moved schema. -/
theorem typesLines_relocate (s : Schema) (version : Fingerprint) (package : String) :
    typesLines (s.relocate g) version package = typesLines s version package := by
  have hconstants : (s.relocate g).constants.map constantRow = s.constants.map constantRow := by
    simp only [Schema.relocate, List.map_map]
    rfl
  have henums : (s.relocate g).enums.flatMap (fun e => "" :: enumLines e) =
      s.enums.flatMap fun e => "" :: enumLines e := by
    simp only [Schema.relocate, List.flatMap_map, enumLines_relocate]
  have hmessages : (s.relocate g).messages.flatMap (fun m => "" :: structLines (s.relocate g) m) =
      s.messages.flatMap fun m => "" :: structLines s m := by
    rw [show (s.relocate g).messages = s.messages.map (Message.relocate g) from rfl,
      List.flatMap_map]
    simp only [structLines_relocate]
  have hnone : (s.relocate g).enums.isEmpty = s.enums.isEmpty := List.isEmpty_map
  have hnone' : (s.relocate g).constants.isEmpty = s.constants.isEmpty := List.isEmpty_map
  rw [typesLines, hconstants, henums, hmessages, hnone, hnone']
  rfl

/-- The decoder of a moved field is the same. -/
theorem decodeField_relocate (s : Schema) (f : Wire.Field) :
    decodeField (s.relocate g) (f.relocate g) = decodeField s f := by
  have hreader : valueReader (s.relocate g) f.kind = valueReader s f.kind := by
    cases f.kind with
    | enum index => simp only [valueReader, Schema.enumName_relocate]
    | message index => simp only [valueReader, Schema.messageName_relocate]
    | signedVarint type | unsignedVarint type => cases type <;> rfl
    | _ => rfl
  simp only [decodeField, elementType_relocate, Wire.Field.relocate, hreader]
  rfl

/-- The codec of a moved message is the same. -/
theorem codec_relocate (s : Schema) (m : Wire.Message) :
    codec (s.relocate g) (m.relocate g) = codec s m := by
  simp only [codec, Wire.Message.relocate, List.flatMap_map, List.map_map, Function.comp_def,
    decodeField_relocate]
  rfl

/-- **The Go files of a schema do not depend on locations**, and neither do the failures to generate
them. -/
theorem generate_relocate (package : String) (s : Schema) :
    generate package (s.relocate g) = generate package s := by
  have hcodecs : codecLines (s.relocate g) package = codecLines s package := by
    simp only [codecLines, Schema.plan_relocate, List.flatMap_map, codec_relocate]
    rfl
  rw [generate, Schema.fingerprint_relocate, checkNames_relocate, typesLines_relocate, hcodecs]
  rfl

end Go

/-! ## JavaScript -/

namespace JavaScript

/-- Whether a schema needs 64-bit integers does not depend on locations. -/
theorem check64_relocate (s : Schema) : check64 (s.relocate g) = check64 s := by
  have hdeclarations : declarations64 (s.relocate g) = declarations64 s := by
    simp only [declarations64, Schema.plan_relocate, List.flatMap_map, Wire.Message.relocate]
    simp only [Schema.relocate, List.filter_map, List.map_map]
    rfl
  rw [check64, hdeclarations, check64]

theorem enumGroup_relocate (e : Enum) : enumGroup (e.relocate g) = enumGroup e := by
  simp only [enumGroup, Enum.relocate, List.map_map]
  rfl

theorem messageGroup_relocate (m : Message) : messageGroup (m.relocate g) = messageGroup m := by
  simp only [messageGroup, Message.relocate, List.map_map]
  rfl

/-- The names that a module claims do not depend on locations. -/
theorem checkNames_relocate (s : Schema) : checkNames (s.relocate g) = checkNames s := by
  have hconstants : constantClaims (s.relocate g) = constantClaims s := by
    simp only [constantClaims, Schema.relocate, List.map_map]
    rfl
  have henums : (s.relocate g).enums.map enumGroup = s.enums.map enumGroup := by
    simp only [Schema.relocate, List.map_map, Function.comp_def, enumGroup_relocate]
  have hmessages : (s.relocate g).messages.map messageGroup = s.messages.map messageGroup := by
    simp only [Schema.relocate, List.map_map, Function.comp_def, messageGroup_relocate]
  rw [checkNames, hconstants, henums, hmessages, checkNames]

/-- Values are written in the same way. -/
theorem valueWriter_relocate (s : Schema) (kind : Wire.Kind) :
    valueWriter (s.relocate g) kind = valueWriter s kind := by
  cases kind with
  | message index => simp only [valueWriter, Schema.messageName_relocate]
  | signedVarint type | unsignedVarint type => cases type <;> rfl
  | _ => rfl

/-- Values are read in the same way. -/
theorem valueReader_relocate (s : Schema) (kind : Wire.Kind) :
    valueReader (s.relocate g) kind = valueReader s kind := by
  cases kind with
  | message index => simp only [valueReader, Schema.messageName_relocate]
  | signedVarint type | unsignedVarint type => cases type <;> rfl
  | _ => rfl

/-- The class of a moved message is the same. -/
theorem messageClass_relocate (s : Schema) (m : Wire.Message) :
    messageClass (s.relocate g) (m.relocate g) = messageClass s m := by
  have hwriter : ∀ f : Wire.Field,
      writeField (s.relocate g) (f.relocate g) = writeField s f := by
    intro f
    simp only [writeField, valueWriter_relocate]
    rfl
  have hreader : ∀ f : Wire.Field, readField (s.relocate g) (f.relocate g) = readField s f := by
    intro f
    simp only [readField, valueReader_relocate]
    rfl
  simp only [messageClass, Wire.Message.relocate, Message.relocate, List.flatMap_map, List.map_map,
    Function.comp_def, hwriter, hreader]
  rfl

/-- **The JavaScript module of a schema does not depend on locations**, and neither do the failures
to generate it. -/
theorem generate_relocate (bigint : Bool) (s : Schema) :
    generate bigint (s.relocate g) = generate bigint s := by
  have hconstants : (s.relocate g).constants.map constantLine = s.constants.map constantLine := by
    simp only [Schema.relocate, List.map_map]
    rfl
  have hnone : (s.relocate g).constants.isEmpty = s.constants.isEmpty := List.isEmpty_map
  have henums : (s.relocate g).enums.flatMap (fun e => "" :: enumLines e) =
      s.enums.flatMap fun e => "" :: enumLines e := by
    simp only [Schema.relocate, List.flatMap_map, enumLines, Enum.relocate, List.map_map]
    rfl
  have hmodule : ∀ version, moduleLines (s.relocate g) version bigint =
      moduleLines s version bigint := by
    intro version
    rw [moduleLines, declarationLines, hconstants, hnone, henums, Schema.plan_relocate,
      List.flatMap_map]
    simp only [messageClass_relocate]
    rfl
  rw [generate, Schema.fingerprint_relocate, check64_relocate, checkNames_relocate, hmodule]
  rfl

end JavaScript

/-- **The files of a target show no location**, and neither does the failure to generate them. -/
theorem Target.generate_relocate (target : Target) (s : Schema) :
    target.generate (s.relocate g) = target.generate s := by
  cases target with
  | go package => exact Go.generate_relocate g package s
  | javaScript bigint => exact JavaScript.generate_relocate g bigint s

end WireSchema
