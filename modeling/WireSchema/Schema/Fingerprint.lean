import WireSchema.Digest.Sha256
import WireSchema.Schema.Canonical

/-!
# Fingerprints

The protocol version of a schema: the first eight bytes of the SHA-256 digest of its canonical form,
in hexadecimal.
-/

namespace WireSchema

/-- The protocol version of a schema, as sixteen hexadecimal digits. -/
structure Fingerprint where
  text : String
  deriving DecidableEq, Repr

/-- The two hexadecimal digits of a byte. -/
def hexByte (b : UInt8) : List Char :=
  [Nat.digitChar (b.toNat / 16), Nat.digitChar (b.toNat % 16)]

/-- How many bytes of the digest are kept. -/
def Fingerprint.size : Nat :=
  8

/-- The fingerprint of a schema. -/
def Schema.fingerprint (s : Schema) : Fingerprint :=
  let digest := Digest.Sha256.hash s.canonicalForm.toUTF8.toList
  ⟨String.ofList ((digest.take Fingerprint.size).flatMap hexByte)⟩

end WireSchema
