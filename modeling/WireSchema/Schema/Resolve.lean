import WireSchema.Decimal.Layout
import WireSchema.Diagnostic
import WireSchema.Schema

/-!
# From declarations to a schema

Binds type words to declarations and checks what a schema must satisfy. Each check runs over its
items from left to right and decides for every item whether it is kept or reported (`outcomes`):

1. declarations — messages, enums and constants share one namespace, in which the words for
   primitive types are reserved; the protocol is named at most once;
2. variants of each kept enum;
3. fields of each kept message;
4. kept constants.

A kept item is in the schema and a reported one is not; the diagnostics are those of the reported
items in this order.
-/

namespace WireSchema

namespace Resolve

open Text (quote)

/-! ## Keeping or reporting items -/

/-- What happened to an item: kept, or reported. -/
abbrev Outcome (β : Type) : Type :=
  Except Diagnostic β

variable {σ α β : Type}

/-- Runs a check over items from left to right. The state carries what earlier items have taken. -/
def outcomes (check : σ → α → σ × Outcome β) (state : σ) : List α → List (Outcome β)
  | [] => []
  | a :: as => (check state a).2 :: outcomes check (check state a).1 as

/-- The state after all items. -/
def stateAfter (check : σ → α → σ × Outcome β) (state : σ) : List α → σ
  | [] => state
  | a :: as => stateAfter check (check state a).1 as

/-- The kept items. -/
def kept (results : List (Outcome β)) : List β :=
  results.filterMap Except.toOption

/-- The diagnostic of a reported item. -/
def Outcome.diagnostic? : Outcome β → Option Diagnostic
  | .ok _ => none
  | .error d => some d

/-- The diagnostics of the reported items. -/
def reported (results : List (Outcome β)) : List Diagnostic :=
  results.filterMap Outcome.diagnostic?

/-- Reports an item. -/
def report (fault : SemanticFault) (location : Location) : Outcome β :=
  .error ⟨.semantic fault, location⟩

/-! ## Declarations -/

/-- What a declared name stands for: a kept message or enum, by its place among those of its kind,
or a constant. -/
inductive Slot where
  | message (index : Nat)
  | enum (index : Nat)
  | constant

/-- The entry of a declared name. -/
structure NameEntry where
  /-- where the declaration is -/
  location : Location
  slot : Slot

/-- The declared names, the latest first. -/
abbrev NameTable : Type :=
  List (String × NameEntry)

/-- What earlier declarations have taken. -/
structure DeclarationState where
  /-- has the protocol been named? -/
  named : Bool := false
  names : NameTable := []
  /-- how many messages are kept -/
  messages : Nat := 0
  /-- how many enums are kept -/
  enums : Nat := 0

/-- Gives a name its entry, and counts the declaration. -/
def DeclarationState.enter (state : DeclarationState) (name : String) (entry : NameEntry) :
    DeclarationState :=
  let state := { state with names := (name, entry) :: state.names }
  match entry.slot with
  | .message _ => { state with messages := state.messages + 1 }
  | .enum _ => { state with enums := state.enums + 1 }
  | .constant => state

/-- Checks a name in the namespace of messages, enums and constants. -/
def checkName (state : DeclarationState) (name : String) (entry : NameEntry)
    (declaration : Written.Declaration) : DeclarationState × Outcome Written.Declaration :=
  if (Primitive.ofName? name).isSome then (state, report (.reservedName name) entry.location)
  else
    match state.names.lookup name with
    | some first => (state, report (.duplicateDeclaration name first.location) entry.location)
    | none => (state.enter name entry, .ok declaration)

/-- Checks a declaration. A message and an enum get the next free index of their kind. -/
def checkDeclaration (state : DeclarationState) (declaration : Written.Declaration) :
    DeclarationState × Outcome Written.Declaration :=
  match declaration with
  | .name n =>
    if state.named then (state, report .duplicateProtocolName n.location)
    else ({ state with named := true }, .ok declaration)
  | .constant c => checkName state c.name ⟨c.location, .constant⟩ declaration
  | .enum e => checkName state e.name ⟨e.location, .enum state.enums⟩ declaration
  | .message m => checkName state m.name ⟨m.location, .message state.messages⟩ declaration

/-- The declarations of each kind, in the order of the text. -/
structure Sorted where
  names : List Written.ProtocolName
  constants : List Written.Constant
  enums : List Written.Enum
  messages : List Written.Message

/-- Sorts declarations by kind. -/
def Sorted.ofDeclarations (declarations : List Written.Declaration) : Sorted :=
  { names := declarations.filterMap fun | .name n => some n | _ => none
    constants := declarations.filterMap fun | .constant c => some c | _ => none
    enums := declarations.filterMap fun | .enum e => some e | _ => none
    messages := declarations.filterMap fun | .message m => some m | _ => none }

/-! ## Enums -/

/-- What earlier variants of an enum have taken. -/
structure VariantState where
  labels : List String := []
  /-- values with the labels that have them -/
  values : List (Int × String) := []

/-- Does a value fit in 32 bits? -/
def fitsEnum (value : Int) : Bool :=
  -2147483648 ≤ value && value ≤ 2147483647

/-- Checks a variant. A label counts as taken even if its value is refused. -/
def checkVariant (enum : String) (state : VariantState) (v : Written.Variant) :
    VariantState × Outcome Variant :=
  if state.labels.contains v.label then
    (state, report (.duplicateEnumLabel enum v.label) v.location)
  else
    let state := { state with labels := v.label :: state.labels }
    if !fitsEnum v.value then
      (state, report (.enumValueOutOfRange enum v.label v.value) v.location)
    else
      match state.values.lookup v.value with
      | some other => (state, report (.duplicateEnumValue enum v.label other v.value) v.location)
      | none =>
        ({ state with values := (v.value, v.label) :: state.values },
          .ok { label := v.label, value := v.value, location := v.location })

/-- What happens to the variants of an enum. -/
def variantOutcomes (e : Written.Enum) : List (Outcome Variant) :=
  outcomes (checkVariant e.name) {} e.variants

/-- The enum made of the kept variants. -/
def resolveEnum (e : Written.Enum) : Enum :=
  { name := e.name, variants := kept (variantOutcomes e), location := e.location }

/-! ## Messages -/

/-- The greatest tag: tags have twenty-nine bits. -/
def greatestTag : Nat :=
  536870911

/-- The tag that an integer is, if it is one. -/
def tag? (value : Int) : Option Nat :=
  if 1 ≤ value ∧ value ≤ greatestTag then some value.toNat else none

/-- The type that a declared name stands for, if it is not that of a constant. -/
def Slot.type? : Slot → Option TypeRef
  | .message index => some (.message index)
  | .enum index => some (.enum index)
  | .constant => none

/-- The type that a word names: a primitive type, or a kept message or enum. -/
def type? (names : NameTable) (word : String) : Option TypeRef :=
  match Primitive.ofName? word with
  | some p => some (.primitive p)
  | none => (names.lookup word).bind (·.slot.type?)

/-- What earlier fields of a message have taken. -/
structure FieldState where
  /-- tags with the names of the fields that have them -/
  tags : List (Nat × String) := []
  names : List String := []

/-- The modifier that the words before a type stand for. -/
def modifierOf (message : String) (f : Written.Field) : Outcome Modifier :=
  match f.modifiers with
  | [] => .ok .single
  | [only] =>
    match only.word with
    | .repeated => .ok .repeated
    | .optional => .ok .optional
  | first :: second :: _ =>
    report (.conflictingModifiers message f.name first.word.text second.word.text) second.location

/-- The type of a field. -/
def typeOf (names : NameTable) (message : String) (f : Written.Field) : Outcome TypeRef :=
  match type? names f.type with
  | some type => .ok type
  | none => report (.unresolvedType message f.name f.type) f.typeLocation

/-- Checks what a field says apart from its tag and name. -/
def fieldOf (names : NameTable) (message : String) (f : Written.Field) (tag : Nat) :
    Outcome Field := do
  let modifier ← modifierOf message f
  let type ← typeOf names message f
  return { name := f.name, type, tag, modifier, location := f.location }

/-- Checks a field. Its tag counts as taken even if its name is refused, and both count even if its
modifiers or its type are. -/
def checkField (names : NameTable) (message : String) (state : FieldState) (f : Written.Field) :
    FieldState × Outcome Field :=
  match tag? f.tag with
  | none => (state, report (.invalidTag message f.name f.tag greatestTag) f.tagLocation)
  | some tag =>
    match state.tags.lookup tag with
    | some other => (state, report (.duplicateTag message f.name other f.tag) f.tagLocation)
    | none =>
      let state := { state with tags := (tag, f.name) :: state.tags }
      if state.names.contains f.name then
        (state, report (.duplicateField message f.name) f.location)
      else
        ({ state with names := f.name :: state.names }, fieldOf names message f tag)

/-- What happens to the fields of a message. -/
def fieldOutcomes (names : NameTable) (m : Written.Message) : List (Outcome Field) :=
  outcomes (checkField names m.name) {} m.fields

/-- The message made of the kept fields. -/
def resolveMessage (names : NameTable) (m : Written.Message) : Message :=
  { name := m.name, fields := kept (fieldOutcomes names m), location := m.location }

/-! ## Constants -/

/-- A literal as diagnostics show it. -/
def describeLiteral : Literal → String
  | .integer value => toString value
  | .number value => value.display
  | .string value => quote value
  | .bool value => if value then "true" else "false"

/-- The value of a literal as a constant of a type, if it fits. An integer that stands for a
floating-point number becomes the nearest one. -/
def constantValue? (type : Primitive) (literal : Literal) : Option Literal :=
  match literal, type with
  | .bool value, .bool => some (.bool value)
  | .string value, .string => some (.string value)
  | .integer value, .float32 => some (.number (.ofInt value))
  | .integer value, .float64 => some (.number (.ofInt value))
  | .number value, .float32 =>
    if value.magnitude ≤ Binary64.greatestSingle then some (.number value) else none
  | .number value, .float64 => if value.isFinite then some (.number value) else none
  | .integer value, type =>
    match type.integerRange? with
    | some (least, greatest) =>
      if least ≤ value ∧ value ≤ greatest then some (.integer value) else none
    | none => none
  | _, _ => none

/-- Checks a constant. -/
def constantOutcome (c : Written.Constant) : Outcome Constant :=
  match (Primitive.ofName? c.type).bind fun type =>
      (constantValue? type c.value).map (type, ·) with
  | some (type, value) => .ok { name := c.name, type, value, location := c.location }
  | none => report (.invalidConstant c.name c.type (describeLiteral c.value)) c.location

/-! ## Whole schemas -/

/-- What happens to the declarations of a text. -/
def declarationOutcomes (declarations : List Written.Declaration) :
    List (Outcome Written.Declaration) :=
  outcomes checkDeclaration {} declarations

/-- The kept declarations by kind. -/
def declaredOf (declarations : List Written.Declaration) : Sorted :=
  .ofDeclarations (kept (declarationOutcomes declarations))

/-- The names of the kept declarations, with what they stand for. -/
def namesOf (declarations : List Written.Declaration) : NameTable :=
  (stateAfter checkDeclaration {} declarations).names

/-- The schema made of everything that is kept. -/
def schemaOf (declarations : List Written.Declaration) : Schema :=
  let declared := declaredOf declarations
  { name := (declared.names.head?.map (·.name)).getD Schema.defaultName
    messages := declared.messages.map (resolveMessage (namesOf declarations))
    enums := declared.enums.map resolveEnum
    constants := kept (declared.constants.map constantOutcome) }

/-- The diagnostics of everything that is reported. -/
def diagnosticsOf (declarations : List Written.Declaration) : List Diagnostic :=
  let declared := declaredOf declarations
  reported (declarationOutcomes declarations)
    ++ declared.enums.flatMap (fun e => reported (variantOutcomes e))
    ++ declared.messages.flatMap (fun m => reported (fieldOutcomes (namesOf declarations) m))
    ++ reported (declared.constants.map constantOutcome)

end Resolve

/-- The schema that declarations describe. -/
def Schema.ofDeclarations (mode : ErrorMode) (declarations : List Written.Declaration) :
    Except Report Schema :=
  (Report.guard (Resolve.schemaOf declarations) (Resolve.diagnosticsOf declarations)).mapError
    (·.inMode mode)

end WireSchema
