import WireSchema.Wire.Bytes
import WireSchema.Wire.Plan

/-!
# Records on the wire

A record is a message's data: values by the tags of its fields. `encode` writes a record by walking
the plan of its message, and `decode` reads one by looking up every tag that it meets. A nested
message is written in place, with a terminator of its own.
-/

namespace WireSchema.Wire

/-! ## Records -/

/-- A value of a field. Floating-point numbers are taken as their bits. -/
inductive Value where
  | bool (value : Bool)
  | int (value : Int)
  | uint (value : Nat)
  | float32 (bits : UInt32)
  | float64 (bits : UInt64)
  | string (text : String)
  | bytes (bytes : List UInt8)
  /-- values by the tags of fields, in ascending order of the tags -/
  | message (entries : List (Nat × Value))
  | list (items : List Value)

/-- Values by the tags of fields, in ascending order of the tags. -/
abbrev Record : Type :=
  List (Nat × Value)

/-- Sets the value of a tag, in place of the one that it may have. -/
def Record.insert (tag : Nat) (value : Value) : Record → Record
  | [] => [(tag, value)]
  | e :: r =>
    if tag < e.1 then (tag, value) :: e :: r
    else if tag = e.1 then (tag, value) :: r
    else e :: insert tag value r

theorem sizeOf_lt_of_lookup {tag : Nat} {value : Value} {r : Record}
    (h : r.lookup tag = some value) : sizeOf value < sizeOf r := by
  induction r with
  | nil => cases h
  | cons e r ih =>
    obtain ⟨key, v⟩ := e
    rw [List.lookup_cons] at h
    simp only [List.cons.sizeOf_spec, Prod.mk.sizeOf_spec]
    split at h
    · obtain rfl := Option.some.inj h
      omega
    · have := ih h
      omega

/-! ## Well-typed values -/

/-- Is an integer in the range of a primitive type? -/
def InRange (type : Primitive) (i : Int) : Prop :=
  ∃ least greatest, type.integerRange? = some (least, greatest) ∧ least ≤ i ∧ i ≤ greatest

/-- The values of a field by its kind, one value or a list of them. A record has a value for every
field that is always written, and a value for no tag but those of its message. The bytes or the
items of a value are at most as many as 64 bits can count. -/
inductive Fits (plan : List Message) : (repeated : Bool) → Kind → Value → Prop
  | bool (b : Bool) : Fits plan false .bool (.bool b)
  | uint8 {n : Nat} (range : InRange .uint8 n) : Fits plan false .uint8 (.uint n)
  | int8 {i : Int} (range : InRange .int8 i) : Fits plan false .int8 (.int i)
  | signedVarint {type : Primitive} {i : Int} (range : InRange type i) :
      Fits plan false (.signedVarint type) (.int i)
  | unsignedVarint {type : Primitive} {n : Nat} (range : InRange type n) :
      Fits plan false (.unsignedVarint type) (.uint n)
  | float32 (bits : UInt32) : Fits plan false .float32 (.float32 bits)
  | float64 (bits : UInt64) : Fits plan false .float64 (.float64 bits)
  | string {text : String} (size : text.utf8ByteSize < wordSize) :
      Fits plan false .string (.string text)
  | bytes {bytes : List UInt8} (size : bytes.length < wordSize) :
      Fits plan false .bytes (.bytes bytes)
  | enum {index : Nat} {i : Int} (range : InRange .int64 i) :
      Fits plan false (.enum index) (.int i)
  | message {index : Nat} {m : Message} {r : Record} (planned : plan[index]? = some m)
      (ascending : r.Pairwise fun e e' => e.1 < e'.1)
      (known : ∀ e ∈ r, ∃ f ∈ m.fields, f.tag = e.1)
      (complete : ∀ f ∈ m.fields, f.presence = .always → ∃ e ∈ r, e.1 = f.tag)
      (typed : ∀ e ∈ r, ∀ f ∈ m.fields, f.tag = e.1 → Fits plan f.repeated f.kind e.2) :
      Fits plan false (.message index) (.message r)
  | list {kind : Kind} {items : List Value} (size : items.length < wordSize)
      (typed : ∀ v ∈ items, Fits plan false kind v) :
      Fits plan true kind (.list items)

/-! ## Encoding -/

/-- The bytes of a single value other than a message; none if it is not of the kind. -/
def encodeScalar : Kind → Value → Option (List UInt8)
  | .bool, .bool b => some [if b then 1 else 0]
  | .uint8, .uint n => some [UInt8.ofNat n]
  | .int8, .int i => some [signedByte i]
  | .signedVarint _, .int i => some (varint (zigzag i))
  | .unsignedVarint _, .uint n => some (varint n)
  | .float32, .float32 bits => some (littleEndian 4 bits.toNat)
  | .float64, .float64 bits => some (littleEndian 8 bits.toNat)
  | .string, .string text => some (countedText text)
  | .bytes, .bytes bs => some (counted bs)
  | .enum _, .int i => some (varint (zigzag i))
  | _, _ => none

mutual

/-- The bytes of a single value. A message ends with the tag zero. -/
def encodeValue (plan : List Message) (kind : Kind) (value : Value) : Option (List UInt8) :=
  match kind, value with
  | .message index, .message r =>
    match plan[index]? with
    | none => none
    | some m => (encodeFields plan m.fields r).map (· ++ varint 0)
  | kind, value => encodeScalar kind value
termination_by (sizeOf value, 0)

/-- The bytes of values one after the other. -/
def encodeItems (plan : List Message) (kind : Kind) (items : List Value) : Option (List UInt8) :=
  match items with
  | [] => some []
  | v :: vs => do
    let first ← encodeValue plan kind v
    let others ← encodeItems plan kind vs
    return first ++ others
termination_by (sizeOf items, 0)

/-- The bytes of what follows a tag: one value, or a list behind its length. -/
def encodeField (plan : List Message) (repeated : Bool) (kind : Kind) (value : Value) :
    Option (List UInt8) :=
  match value with
  | .list items =>
    if repeated then (encodeItems plan kind items).map (varint items.length ++ ·) else none
  | value => encodeValue plan kind value
termination_by (sizeOf value, 1)

/-- The bytes of some fields of a record, each behind its tag. A field without a value is left out
if it may be. -/
def encodeFields (plan : List Message) (fields : List Field) (r : Record) : Option (List UInt8) :=
  match fields with
  | [] => some []
  | f :: fields =>
    match h : r.lookup f.tag with
    | none => if f.presence = .whenSet then encodeFields plan fields r else none
    | some value => do
      have := sizeOf_lt_of_lookup h
      let first ← encodeField plan f.repeated f.kind value
      let others ← encodeFields plan fields r
      return varint f.tag ++ first ++ others
termination_by (sizeOf r, fields.length)

end

/-- The bytes of a record of a message; none if it is not of that message. -/
def encode (plan : List Message) (index : Nat) (r : Record) : Option (List UInt8) :=
  encodeValue plan (.message index) (.message r)

/-! ## Decoding -/

/-- A single value other than a message. -/
def readScalar : Kind → Reader Value 1
  | .bool => readByte.weaken.map fun b => .bool (b ≠ 0)
  | .uint8 => readByte.weaken.map fun b => .uint b.toNat
  | .int8 => readByte.weaken.map fun b => .int (ofSignedByte b)
  | .signedVarint _ | .enum _ => readVarint.weaken.map fun n => .int (unzigzag n)
  | .unsignedVarint _ => readVarint.weaken.map .uint
  | .float32 => (readLittleEndian 4).map fun n => .float32 (UInt32.ofNat n)
  | .float64 => (readLittleEndian 8).map fun n => .float64 (UInt64.ofNat n)
  | .string => readText.map .string
  | .bytes => readCounted.map .bytes
  | .message index => .fail (.unknownMessage index)

mutual

/-- A single value. -/
def readValue (plan : List Message) (kind : Kind) : Reader Value 1 := fun bs =>
  match kind with
  | .message index =>
    match plan[index]? with
    | none => .error (.unknownMessage index)
    | some m => (readEntries plan m [] bs).map (·.map .message)
  | kind => readScalar kind bs
termination_by bs => (bs.length, 1, 0)

/-- A number of values. -/
def readItems (plan : List Message) (kind : Kind) (count : Nat) : Reader (List Value) 1 := fun bs =>
  match count with
  | 0 => return ⟨[], bs, Nat.lt_succ_self _⟩
  | count + 1 => do
    let first ← readValue plan kind bs
    have := first.short
    let others ← readItems plan kind count first.rest
    return (others.map (first.value :: ·)).relax first.short
termination_by bs => (bs.length, 2, count)
decreasing_by
  · decreasing_tactic
  · exact Prod.Lex.right' _ (Nat.le_of_lt_succ this) (.right _ (Nat.lt_succ_self _))

/-- What follows a tag: one value, or a list behind its length. -/
def readField (plan : List Message) (repeated : Bool) (kind : Kind) : Reader Value 1 := fun bs =>
  if repeated then do
    let count ← readVarint bs
    have := count.short
    let items ← readItems plan kind count.value count.rest
    return (items.map .list).relax (by omega)
  else readValue plan kind bs
termination_by bs => (bs.length, 3, 0)

/-- The entries of a record up to its terminator, after those that were read before. -/
def readEntries (plan : List Message) (m : Message) (r : Record) : Reader Record 1 := fun bs => do
  let tag ← readVarint bs
  if tag.value = 0 then return (tag.map fun _ => r).relax (Nat.le_succ _)
  else
    match m.fields.find? (·.tag = tag.value) with
    | none => throw (.unknownTag tag.value m.message.name)
    | some f =>
      have := tag.short
      let value ← readField plan f.repeated f.kind tag.rest
      have := value.short
      let all ← readEntries plan m (Record.insert f.tag value.value r) value.rest
      return all.relax (by omega)
termination_by bs => (bs.length, 0, 0)

end

/-- The record of a message that some bytes are, and nothing else. -/
def decode (plan : List Message) (index : Nat) (bs : List UInt8) : Except DecodeError Record := do
  match plan[index]? with
  | none => throw (.unknownMessage index)
  | some m =>
    let t ← readEntries plan m [] bs
    if t.rest.isEmpty then return t.value else throw .trailing

end WireSchema.Wire
