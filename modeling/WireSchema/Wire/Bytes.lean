import WireSchema.Text.Utf8

/-!
# Bytes on the wire

How numbers are written as bytes and read back from the front of a list of bytes:

* `varint` — seven bits a byte, lowest first, every byte but the last with its high bit set;
* `zigzag` — signed integers as natural numbers, so that small magnitudes have short varints;
* `littleEndian` — a fixed number of bytes, lowest first.

What is read comes with the bytes behind it (`Taken`). The type of a `Reader` bounds how many of
them there are, which is what makes the loops over fields and values end.
-/

namespace WireSchema.Wire

/-! ## Reading -/

/-- Why bytes are refused. -/
inductive DecodeError where
  /-- the bytes end inside a value -/
  | truncated
  /-- a varint goes on after ten bytes -/
  | overlong
  /-- the bytes of a text are no UTF-8 -/
  | notText
  | unknownTag (tag : Nat) (message : String)
  /-- the plan has no message with this index -/
  | unknownMessage (index : Nat)
  /-- bytes are left behind the message -/
  | trailing
  deriving DecidableEq, Repr

/-- What was read from the front of some bytes, and the bytes behind it: fewer than `bound`. -/
structure Taken (α : Type) (bound : Nat) where
  value : α
  rest : List UInt8
  short : rest.length < bound

namespace Taken

variable {α β : Type} {bound bound' : Nat}

/-- Something else made of what was read. -/
def map (f : α → β) (t : Taken α bound) : Taken β bound :=
  ⟨f t.value, t.rest, t.short⟩

/-- A greater bound. -/
def relax (h : bound ≤ bound') (t : Taken α bound) : Taken α bound' :=
  ⟨t.value, t.rest, Nat.lt_of_lt_of_le t.short h⟩

end Taken

/-- Reads from the front of some bytes. With no slack it takes at least one of them. -/
abbrev Reader (α : Type) (slack : Nat) : Type :=
  (bs : List UInt8) → Except DecodeError (Taken α (bs.length + slack))

namespace Reader

variable {α β : Type} {slack : Nat}

/-- Takes nothing. -/
def give (a : α) : Reader α 1 := fun bs =>
  .ok ⟨a, bs, Nat.lt_succ_self _⟩

/-- Refuses all bytes. -/
def fail (error : DecodeError) : Reader α 1 := fun _ =>
  .error error

/-- Something else made of what is read. -/
def map (f : α → β) (r : Reader α slack) : Reader β slack := fun bs =>
  (r bs).map (·.map f)

/-- A reader of at least one byte among those that may take none. -/
def weaken (r : Reader α 0) : Reader α 1 := fun bs =>
  (r bs).map (·.relax (Nat.le_succ _))

/-- Reads one thing, and then another one behind it that may depend on it. -/
def andThen (r : Reader α 1) (next : α → Reader β 1) : Reader β 1 := fun bs => do
  let t ← r bs
  let t' ← next t.value t.rest
  return t'.relax t.short

end Reader

/-- The first byte. -/
def readByte : Reader UInt8 0
  | [] => .error .truncated
  | b :: bs => .ok ⟨b, bs, Nat.lt_succ_self _⟩

/-- The first `n` bytes. -/
def readBytes (n : Nat) : Reader (List UInt8) 1 := fun bs =>
  if n ≤ bs.length then .ok ⟨bs.take n, bs.drop n, by rw [List.length_drop]; omega⟩
  else .error .truncated

/-! ## Varints -/

/-- A natural number in as few bytes as possible, seven bits a byte. -/
def varint (n : Nat) : List UInt8 :=
  if n < 128 then [UInt8.ofNat n] else UInt8.ofNat (n % 128 + 128) :: varint (n / 128)
termination_by n
decreasing_by omega

/-- A varint of at most `limit` bytes. -/
def readVarintUpTo : (limit : Nat) → Reader Nat 0
  | 0, _ => .error .overlong
  | _ + 1, [] => .error .truncated
  | limit + 1, b :: bs =>
    if b.toNat < 128 then .ok ⟨b.toNat, bs, Nat.lt_succ_self _⟩
    else
      (readVarintUpTo limit bs).map fun t =>
        ⟨b.toNat - 128 + 128 * t.value, t.rest, Nat.lt_succ_of_lt t.short⟩

/-- One more than the greatest number of 64 bits. -/
def wordSize : Nat :=
  18446744073709551616

/-- A varint of at most ten bytes. Of the seventy bits that they can hold the low 64 count. -/
def readVarint : Reader Nat 0 :=
  (readVarintUpTo 10).map (· % wordSize)

/-- Bytes with their number in front. -/
def counted (bs : List UInt8) : List UInt8 :=
  varint bs.length ++ bs

/-- As many bytes as a number in front of them says. -/
def readCounted : Reader (List UInt8) 1 :=
  readVarint.weaken.andThen readBytes

/-- A text in UTF-8, behind its length in bytes. -/
def countedText (text : String) : List UInt8 :=
  counted (Text.utf8 text)

/-- Gives the text that bytes are in UTF-8. -/
def giveText (bytes : List UInt8) : Reader String 1 :=
  match String.fromUTF8? bytes.toByteArray with
  | none => .fail .notText
  | some text => .give text

/-- A text behind its length in bytes. -/
def readText : Reader String 1 :=
  readCounted.andThen giveText

/-! ## Signed integers -/

/-- A signed integer as a natural number: `0`, `-1`, `1`, `-2`, … in this order. -/
def zigzag (value : Int) : Nat :=
  if 0 ≤ value then 2 * value.toNat else 2 * (-value).toNat - 1

/-- The signed integer that a natural number stands for. -/
def unzigzag (n : Nat) : Int :=
  if n % 2 = 0 then n / 2 else -(n / 2) - 1

/-- A signed integer as a byte, in two's complement. -/
def signedByte (value : Int) : UInt8 :=
  UInt8.ofNat (value % 256).toNat

/-- The signed integer that a byte is in two's complement. -/
def ofSignedByte (b : UInt8) : Int :=
  if b.toNat < 128 then b.toNat else b.toNat - 256

/-! ## Fixed widths -/

/-- A number as `width` bytes, lowest first. -/
def littleEndian : (width n : Nat) → List UInt8
  | 0, _ => []
  | width + 1, n => UInt8.ofNat (n % 256) :: littleEndian width (n / 256)

/-- The number that bytes are, lowest first. -/
def ofLittleEndian : List UInt8 → Nat
  | [] => 0
  | b :: bs => b.toNat + 256 * ofLittleEndian bs

/-- A number of `width` bytes. -/
def readLittleEndian (width : Nat) : Reader Nat 1 :=
  (readBytes width).map ofLittleEndian

end WireSchema.Wire
