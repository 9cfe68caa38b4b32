import WireSchema.Naming.Case
import WireSchema.Naming.Scope
import WireSchema.Target.Declared

/-!
# Names in Go

The identifiers that a schema's declarations have in a Go package, and the check that they do not
clash. Constants, enums, enum values and messages share the package; every struct has a namespace of
its own for its fields and methods.
-/

namespace WireSchema.Go

open Naming

/-- The words of Go that are no identifiers. -/
def keywords : List String :=
  ["break", "case", "chan", "const", "continue", "default", "defer", "else", "fallthrough", "for",
    "func", "go", "goto", "if", "import", "interface", "map", "package", "range", "return",
    "select", "struct", "switch", "type", "var"]

/-- The constant that holds the protocol version. -/
def versionConstant : String :=
  "ProtocolVersion"

/-- The exported methods of every generated struct. -/
def messageMethods : List String :=
  ["MarshalAngo", "UnmarshalAngo"]

/-! ## Identifiers -/

/-- The identifier of a constant. -/
def constantName (c : Constant) : String :=
  pascal c.name

/-- The type of an enum. -/
def enumType (e : Enum) : String :=
  pascal e.name

/-- The constant for a variant of an enum. -/
def variantName (e : Enum) (v : Variant) : String :=
  enumType e ++ pascal v.label

/-- The struct of a message. -/
def structName (m : Message) : String :=
  pascal m.name

/-- The struct field of a field. -/
def fieldName (f : Field) : String :=
  pascal f.name

/-! ## The check -/

/-- Is the text a package name? -/
def isPackageName (package : String) : Bool :=
  Text.isWord package && package != "_" && !keywords.contains package

/-- The failure for a text that is no package name. -/
def packageError (package : String) : GenerationError :=
  ⟨.go, "package " ++ package, .invalidIdentifier ("package " ++ package)⟩

/-- What the constants of a schema claim in the package. -/
def constantClaims (s : Schema) : List Claim :=
  s.constants.map fun c => ⟨c.declared, constantName c⟩

/-- What an enum claims in the package: its type, then its values. -/
def enumClaims (e : Enum) : List Claim :=
  ⟨e.declared, enumType e⟩ :: e.variants.map fun v => ⟨e.variantDeclared v, variantName e v⟩

/-- What a message claims: its struct in the package, and its fields in the struct. -/
def messageGroup (m : Message) : Group :=
  { head := ⟨m.declared, structName m⟩
    inner := .reserving .go messageMethods
    members := m.fields.map fun f => ⟨m.fieldDeclared f, fieldName f⟩ }

/-- Checks that all identifiers of a schema are valid and different. The result holds what the
package declares. -/
def checkNames (s : Schema) : Except GenerationError Scope := do
  let package ← (Scope.reserving .go [versionConstant]).claimAll
    (constantClaims s ++ s.enums.flatMap enumClaims)
  package.claimGroups (s.messages.map messageGroup)

end WireSchema.Go
