import WireSchema.Text.Word

/-!
# Scopes

A scope is one namespace of generated source: the identifiers taken so far, each with the
declaration that took it. Claiming an identifier fails if it is no identifier or already taken.
-/

namespace WireSchema

/-- The languages that sources are generated in. -/
inductive Language where
  | go
  | javaScript
  deriving DecidableEq, Repr

/-- The name of a language. -/
def Language.name : Language → String
  | .go => "Go"
  | .javaScript => "JavaScript"

/-- Why a declaration has no rendering in a language. -/
inductive GenerationCause where
  | unsupportedType (what reason : String)
  | nameCollision (first second identifier : String)
  | invalidIdentifier (what : String)
  deriving DecidableEq, Repr

/-- The wording of a cause. -/
def GenerationCause.message : GenerationCause → String
  | .unsupportedType what reason => s!"{what} cannot be represented: {reason}"
  | .nameCollision first second identifier =>
    s!"{first} and {second} both map to the identifier {identifier}"
  | .invalidIdentifier what => s!"{what} does not map to a valid identifier"

/-- A failure to generate sources in one language. -/
structure GenerationError where
  language : Language
  declaration : String
  cause : GenerationCause
  deriving DecidableEq, Repr

/-- The text shown for a failure. -/
def GenerationError.message (e : GenerationError) : String :=
  s!"Cannot generate {e.language.name} for {e.declaration}: {e.cause.message}"

namespace Naming

/-- A declaration and the identifier that it maps to. -/
structure Claim where
  declaration : String
  identifier : String
  deriving DecidableEq, Repr

/-- The identifiers taken in one namespace, the latest first, with the declarations that took
them. -/
structure Scope where
  language : Language
  taken : List (String × String)
  deriving DecidableEq, Repr

namespace Scope

/-- A scope in which nothing is taken. -/
def empty (language : Language) : Scope :=
  ⟨language, []⟩

/-- Takes an identifier for generated code itself, whoever had it before. -/
def reserve (s : Scope) (identifier : String) : Scope :=
  { s with taken := (identifier, "generated " ++ identifier) :: s.taken }

/-- A scope in which only generated code's own identifiers are taken. -/
def reserving (language : Language) (identifiers : List String) : Scope :=
  identifiers.foldl reserve (empty language)

/-- Takes an identifier for a declaration. -/
def claim (s : Scope) (c : Claim) : Except GenerationError Scope :=
  if !Text.isWord c.identifier then
    .error ⟨s.language, c.declaration, .invalidIdentifier c.declaration⟩
  else
    match s.taken.lookup c.identifier with
    | some first =>
      .error ⟨s.language, c.declaration, .nameCollision first c.declaration c.identifier⟩
    | none => .ok { s with taken := (c.identifier, c.declaration) :: s.taken }

/-- Takes identifiers in order. -/
def claimAll (s : Scope) : List Claim → Except GenerationError Scope
  | [] => .ok s
  | c :: cs =>
    match s.claim c with
    | .ok s => s.claimAll cs
    | .error e => .error e

end Scope

/-- A declaration whose members have a namespace of their own. -/
structure Group where
  head : Claim
  /-- the members' namespace before any of them is claimed -/
  inner : Scope
  members : List Claim
  deriving DecidableEq, Repr

/-- Takes the identifiers of groups in order, each group's members in their own namespace. -/
def Scope.claimGroups (s : Scope) : List Group → Except GenerationError Scope
  | [] => .ok s
  | g :: gs =>
    match s.claim g.head with
    | .error e => .error e
    | .ok s =>
      match g.inner.claimAll g.members with
      | .error e => .error e
      | .ok _ => s.claimGroups gs

end Naming

end WireSchema
