import Mathlib.Data.List.Forall2
import WireSchema.Decimal.Numeral
import WireSchema.Proofs.SourceForms
import WireSchema.Wire.Plan

/-!
# Wire programs

What the generated code of a message does on the wire, as far as it can be read off the source: the
fields that its encoder writes and the cases of its decoder, each with its tag, the member of the
message and the call that does the work. The two sides fit together if every case reads with the
counterpart of the call that writes its tag (`ReadsBack`). What other programs can tell of an
encoder is less: how a value is encoded, but not by which method (`Wire.Step`).
-/

namespace WireSchema

/-! ## Steps on the wire -/

namespace Wire

/-- The encodings that can be told apart on the wire. -/
inductive Coding where
  | bool
  | byte
  | unsigned
  | signed
  | float32
  | float64
  | string
  | bytes
  | message
  deriving DecidableEq, Repr

/-- The encoding of a kind of value. -/
def Coding.ofKind : Kind → Coding
  | .bool => .bool
  | .uint8 | .int8 => .byte
  | .signedVarint _ | .enum _ => .signed
  | .unsignedVarint _ => .unsigned
  | .float32 => .float32
  | .float64 => .float64
  | .string => .string
  | .bytes => .bytes
  | .message _ => .message

/-- A field as an encoder writes it. -/
structure Step where
  tag : Nat
  presence : Presence
  repeated : Bool
  coding : Coding
  deriving DecidableEq, Repr

/-- The step that the plan asks for. -/
def Step.ofField (f : Field) : Step :=
  ⟨f.tag, f.presence, f.repeated, .ofKind f.kind⟩

/-- A planned field is repeated, single and always there, or left out when unset; a single message
is never always there. -/
theorem planned_cases {f : Field} (hf : f = .ofField f.field) :
    (f.repeated = true ∧ f.presence = .always) ∨
      (f.repeated = false ∧ f.presence = .always ∧ f.kind.isMessage = false) ∨
      (f.repeated = false ∧ f.presence = .whenSet) := by
  rw [hf]
  cases hmodifier : f.field.modifier <;>
    simp [Field.ofField, presenceOf, WireSchema.Field.isRepeated, hmodifier]

end Wire

namespace Source

/-! ## Steps in source code -/

/-- The call that writes or reads a value. -/
inductive Transfer where
  /-- a method of the writer or reader, with a type that the value is converted to -/
  | call (method : String) (conversion : Option String)
  /-- the code of a nested message, which is not named where it is a method of the value -/
  | nested (name : Option String)
  deriving DecidableEq, Repr

/-- The methods that write a value, with its encoding. -/
def writeMethods : List (String × Wire.Coding) :=
  [("writeBool", .bool), ("writeByte", .byte), ("writeVarUint", .unsigned),
    ("writeVarUint64", .unsigned), ("writeVarInt", .signed), ("writeVarInt64", .signed),
    ("writeFloat32", .float32), ("writeFloat64", .float64), ("writeString", .string),
    ("writeBytes", .bytes)]

/-- How a value is encoded. -/
def Transfer.coding? : Transfer → Option Wire.Coding
  | .call method _ => writeMethods.lookup method
  | .nested _ => some .message

/-- The nested message that the code names. -/
def Transfer.nested? : Transfer → Option String
  | .call _ _ => none
  | .nested name => name

/-- Does the call read a byte as a signed number? -/
def Transfer.readsSignedByte (t : Transfer) : Bool :=
  t = .call "readInt8" none || t = .call "readByte" (some "int8")

/-- `Counterpart write read` says that `read` reads what `write` writes. -/
inductive Counterpart : Transfer → Transfer → Prop
  /-- methods that differ in the verb only -/
  | method (coder : String) (written read : Option String) :
    Counterpart (.call ("write" ++ coder) written) (.call ("read" ++ coder) read)
  /-- a signed byte has a method of its own for reading -/
  | signedByte : Counterpart (.call "writeByte" none) (.call "readInt8" none)
  /-- the code of one message -/
  | nested (name : String) : Counterpart (.nested (some name)) (.nested (some name))
  /-- the value's own code -/
  | value (name : String) : Counterpart (.nested none) (.nested (some name))

/-- A field as the source of an encoder writes it. -/
structure WriteStep where
  tag : Nat
  presence : Wire.Presence
  repeated : Bool
  member : String
  transfer : Transfer
  deriving DecidableEq, Repr

/-- What can be told of it on the wire. -/
def WriteStep.step? (w : WriteStep) : Option Wire.Step :=
  w.transfer.coding?.map (⟨w.tag, w.presence, w.repeated, ·⟩)

/-- A case of a decoder. -/
structure ReadStep where
  tag : Nat
  repeated : Bool
  member : String
  transfer : Transfer
  deriving DecidableEq, Repr

/-- `ReadsBack w r` says that the case `r` is for what `w` writes. -/
structure ReadsBack (w : WriteStep) (r : ReadStep) : Prop where
  tag : r.tag = w.tag
  repeated : r.repeated = w.repeated
  member : r.member = w.member
  transfer : Counterpart w.transfer r.transfer

/-- The encoder and the decoder of a message. -/
structure Program where
  writes : List WriteStep
  reads : List ReadStep
  deriving DecidableEq, Repr

/-- What can be told of the encoder on the wire. -/
def Program.steps? (p : Program) : Option (List Wire.Step) :=
  p.writes.mapM WriteStep.step?

/-- The nested message that a value of a kind is, as the targets name it. -/
def nestedName? (s : Schema) : Wire.Kind → Option String
  | .message index => s.messages[index]?.map fun m => Naming.pascal m.name
  | _ => none

/-- `p.Follows s m member` says that a program is the one that the plan of a message asks for, with
`member` for the names of its fields. -/
structure Program.Follows (p : Program) (s : Schema) (m : Wire.Message)
    (member : Field → String) : Prop where
  steps : p.steps? = some (m.fields.map .ofField)
  members : p.writes.map WriteStep.member = m.fields.map fun f => member f.field
  readsBack : List.Forall₂ ReadsBack p.writes p.reads
  nested : p.reads.map (·.transfer.nested?) = m.fields.map fun f => nestedName? s f.kind
  signed : p.reads.map (·.transfer.readsSignedByte) = m.fields.map fun f => decide (f.kind = .int8)

theorem tags_of_mapM_step? {writes : List WriteStep} {steps : List Wire.Step}
    (h : writes.mapM WriteStep.step? = some steps) :
    writes.map WriteStep.tag = steps.map Wire.Step.tag := by
  induction writes generalizing steps with
  | nil =>
    obtain rfl := Option.some.inj h
    rfl
  | cons w writes ih =>
    rw [List.mapM_cons] at h
    obtain ⟨first, hfirst, h⟩ := Option.bind_eq_some_iff.mp h
    obtain ⟨later, hlater, h⟩ := Option.bind_eq_some_iff.mp h
    obtain ⟨coding, -, rfl⟩ := Option.map_eq_some_iff.mp hfirst
    obtain rfl := Option.some.inj h
    rw [List.map_cons, List.map_cons, ih hlater]

/-- The tags of an encoder are those of the plan. -/
theorem Program.Follows.tags {p : Program} {s : Schema} {m : Wire.Message}
    {member : Field → String} (h : p.Follows s m member) :
    p.writes.map WriteStep.tag = m.fields.map Wire.Field.tag := by
  rw [tags_of_mapM_step? h.steps, List.map_map]
  rfl

/-- The same for a single field. -/
structure FollowsField (s : Schema) (member : Field → String) (f : Wire.Field) (w : WriteStep)
    (r : ReadStep) : Prop where
  step : w.step? = some (.ofField f)
  member : w.member = member f.field
  readsBack : ReadsBack w r
  nested : r.transfer.nested? = nestedName? s f.kind
  signed : r.transfer.readsSignedByte = decide (f.kind = .int8)

theorem mapM_step?_map {fields : List Wire.Field} {write : Wire.Field → WriteStep}
    (h : ∀ f ∈ fields, (write f).step? = some (.ofField f)) :
    (fields.map write).mapM WriteStep.step? = some (fields.map .ofField) := by
  induction fields with
  | nil => rfl
  | cons f fields ih =>
    obtain ⟨hfirst, hrest⟩ := List.forall_mem_cons.mp h
    rw [List.map_cons, List.mapM_cons, hfirst, ih hrest]
    rfl

/-- A program follows the plan if it does so field by field. -/
theorem Program.follows_of_fields {s : Schema} {m : Wire.Message} {member : Field → String}
    {write : Wire.Field → WriteStep} {read : Wire.Field → ReadStep}
    (h : ∀ f ∈ m.fields, FollowsField s member f (write f) (read f)) :
    Follows ⟨m.fields.map write, m.fields.map read⟩ s m member where
  steps := mapM_step?_map fun f hf => (h f hf).step
  members := by
    rw [List.map_map]
    exact List.map_congr_left fun f hf => (h f hf).member
  readsBack := List.forall₂_map_left_iff.mpr <| List.forall₂_map_right_iff.mpr <|
    List.forall₂_same.mpr fun f hf => (h f hf).readsBack
  nested := by
    rw [List.map_map]
    exact List.map_congr_left fun f hf => (h f hf).nested
  signed := by
    rw [List.map_map]
    exact List.map_congr_left fun f hf => (h f hf).signed

/-! ## Steps from the open words of a form -/

/-- The tag that a word spells. -/
def tag? (word : String) : Option Nat :=
  Decimal.readDigits? word.toList

/-- The member that all words name. -/
def sole? : List String → Option String
  | [] => none
  | member :: others => if others.all (· = member) then some member else none

/-- A step whose tag and members are spelled by words. -/
def writes? (presence : Wire.Presence) (repeated : Bool) (tag : String) (members : List String)
    (transfer : Transfer) : Option WriteStep := do
  let tag ← tag? tag
  let member ← sole? members
  return ⟨tag, presence, repeated, member, transfer⟩

/-- A case whose tag and members are spelled by words. -/
def reads? (repeated : Bool) (tag : String) (members : List String) (transfer : Transfer) :
    Option ReadStep := do
  let tag ← tag? tag
  let member ← sole? members
  return ⟨tag, repeated, member, transfer⟩

theorem isName_toString (n : Nat) : isName (toString n) = true := by
  refine isName_iff.mpr ⟨Decimal.toList_toString_ne_nil n, fun c hc => ?_⟩
  have hdigit := Decimal.isDigit_of_mem_toString hc
  simp [Text.isWordRest, Char.isAlphanum, hdigit]

/-- A number is read as it was spelled. -/
theorem tag?_toString (n : Nat) : tag? (toString n) = some n :=
  Decimal.readDigits?_toString n

theorem writes?_toString (presence : Wire.Presence) (repeated : Bool) (n : Nat) {member : String}
    {members : List String} (hmembers : sole? members = some member) (transfer : Transfer) :
    writes? presence repeated (toString n) members transfer =
      some ⟨n, presence, repeated, member, transfer⟩ := by
  rw [writes?, tag?_toString, hmembers]
  rfl

theorem reads?_toString (repeated : Bool) (n : Nat) {member : String} {members : List String}
    (hmembers : sole? members = some member) (transfer : Transfer) :
    reads? repeated (toString n) members transfer = some ⟨n, repeated, member, transfer⟩ := by
  rw [reads?, tag?_toString, hmembers]
  rfl

end Source

end WireSchema
