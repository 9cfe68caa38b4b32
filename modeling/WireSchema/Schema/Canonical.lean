import WireSchema.Schema

/-!
# Canonical form

The canonical form of a schema is a text of what matters on the wire: the protocol's name, the enums
and the messages. Enums and messages are listed by name, variants by value and fields by tag, and a
type is spelled by the name it refers to, so neither the layout of the schema text nor the order of
its declarations shows. Constants never reach the wire and are left out.
-/

namespace WireSchema.Schema

/-- The first line of every canonical form. -/
def canonicalVersion : String :=
  "ango-schema/1"

/-- The spelling of a type in the canonical form. -/
def typeLabel (s : Schema) : TypeRef → String
  | .primitive p => p.name
  | .message index => "message " ++ s.messageName index
  | .enum index => "enum " ++ s.enumName index

/-- The entry of a variant. -/
def canonicalVariant (v : Variant) : String :=
  s!" {v.value}={v.label};"

/-- The entry of a field. -/
def canonicalField (s : Schema) (f : Field) : String :=
  s!" {f.tag}:{f.name}:{f.modifier.name}:{s.typeLabel f.type};"

/-- The line of an enum. -/
def canonicalEnum (e : Enum) : String :=
  "enum " ++ e.name ++ " \x7b" ++ String.join (e.variantsByValue.map canonicalVariant) ++ " \x7d\n"

/-- The line of a message. -/
def canonicalMessage (s : Schema) (m : Message) : String :=
  "message " ++ m.name ++ " \x7b" ++ String.join (m.fieldsByTag.map s.canonicalField) ++ " \x7d\n"

/-- The enums in the order of their names. -/
def enumsByName (s : Schema) : List Enum :=
  s.enums.mergeSort fun a b => a.name ≤ b.name

/-- The messages in the order of their names. -/
def messagesByName (s : Schema) : List Message :=
  s.messages.mergeSort fun a b => a.name ≤ b.name

/-- The canonical form of a schema. -/
def canonicalForm (s : Schema) : String :=
  canonicalVersion ++ "\n" ++ "name " ++ s.name ++ "\n"
    ++ String.join (s.enumsByName.map canonicalEnum)
    ++ String.join (s.messagesByName.map s.canonicalMessage)

end WireSchema.Schema
