import WireSchema.Declaration.Recovery
import WireSchema.Schema.Resolve
import WireSchema.Token.Segment

/-!
# From text to a schema

Bad pieces of text end a run before declarations are read, and broken declarations end it before
names are bound.
-/

namespace WireSchema

/-- The schema that a text describes. -/
def Schema.ofText (mode : ErrorMode) (text : String) : Except Report Schema := do
  let stream ← (TokenStream.ofText text).mapError (·.inMode mode)
  let declarations ← Written.ofTokens mode stream
  Schema.ofDeclarations mode declarations

/-- The schema that a text describes, or the first thing that is wrong with the text. -/
def Schema.ofTextOrFirst (text : String) : Except Diagnostic Schema :=
  (Schema.ofText .failFast text).mapError Report.first

end WireSchema
