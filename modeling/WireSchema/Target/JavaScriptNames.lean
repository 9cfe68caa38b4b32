import WireSchema.Naming.Case
import WireSchema.Naming.Scope
import WireSchema.Target.Declared
import WireSchema.Target.JavaScriptSupport
import WireSchema.Wire.Plan

/-!
# Names in JavaScript

The identifiers that a schema's declarations have in a JavaScript module, and the checks before
generation: that 64-bit integers are there only if `BigInt` is allowed, and that identifiers do not
clash. Constants, enums and messages share the module; every enum has a namespace for its labels and
every class one for its properties.
-/

namespace WireSchema.JavaScript

open Naming

/-- The constant that holds the protocol version. -/
def versionConstant : String :=
  "PROTOCOL_VERSION"

/-- The globals that the support code refers to. A declaration of that name would hide one. -/
def globals : List String :=
  ["ArrayBuffer", "BigInt", "DataView", "Error", "Math", "Number", "Object", "TextDecoder",
    "TextEncoder", "Uint8Array"]

/-- The identifiers of the module that no declaration may have. -/
def reservedNames : List String :=
  [versionConstant, writerClass, readerClass] ++ globals

/-- The members of an object that a property would hide. -/
def classMembers : List String :=
  ["encode", "constructor"]

/-- The key of an object literal that sets the prototype in place of a property. -/
def prototypeKey : String :=
  "__proto__"

/-! ## Identifiers -/

/-- The identifier of a constant. -/
def constantName (c : Constant) : String :=
  screaming c.name

/-- The object of an enum. -/
def enumObject (e : Enum) : String :=
  pascal e.name

/-- The class of a message. -/
def className (m : Message) : String :=
  pascal m.name

/-- The property of a field. -/
def property (f : Field) : String :=
  camel f.name

/-! ## The checks -/

/-- The failure for a declaration that needs `BigInt`. -/
def error64 (declaration : String) : GenerationError :=
  ⟨.javaScript, declaration,
    .unsupportedType declaration "64-bit integers need BigInt, which is disabled"⟩

/-- The declarations that need `BigInt`: constants, then fields in the order of the plan. -/
def declarations64 (s : Schema) : List String :=
  (s.constants.filter (·.type.is64Bit)).map Constant.declared
    ++ s.plan.flatMap fun m =>
      (m.fields.filter (·.kind.is64Bit)).map fun f => m.message.fieldDeclared f.field

/-- Checks that no declaration needs `BigInt`. -/
def check64 (s : Schema) : Except GenerationError Unit :=
  match declarations64 s with
  | [] => .ok ()
  | declaration :: _ => .error (error64 declaration)

/-- What the constants of a schema claim in the module. -/
def constantClaims (s : Schema) : List Claim :=
  s.constants.map fun c => ⟨c.declared, constantName c⟩

/-- What an enum claims: its object in the module, and its labels in the object. -/
def enumGroup (e : Enum) : Group :=
  { head := ⟨e.declared, enumObject e⟩
    inner := .reserving .javaScript [prototypeKey]
    members := e.variants.map fun v => ⟨e.variantDeclared v, v.label⟩ }

/-- What a message claims: its class in the module, and its properties in the class. -/
def messageGroup (m : Message) : Group :=
  { head := ⟨m.declared, className m⟩
    inner := .reserving .javaScript classMembers
    members := m.fields.map fun f => ⟨m.fieldDeclared f, property f⟩ }

/-- Checks that all identifiers of a schema are valid and different. The result holds what the
module declares. -/
def checkNames (s : Schema) : Except GenerationError Scope := do
  let module ← (Scope.reserving .javaScript reservedNames).claimAll (constantClaims s)
  module.claimGroups (s.enums.map enumGroup ++ s.messages.map messageGroup)

end WireSchema.JavaScript
