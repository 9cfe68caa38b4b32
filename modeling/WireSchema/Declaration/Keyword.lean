import WireSchema.Token

/-!
# Declaration keywords

The words that open a declaration. Case does not matter, and neither do the two letters outside
ASCII that fold to an ASCII letter: the long s and the Kelvin sign.
-/

namespace WireSchema

/-- The words that open a declaration. -/
inductive Keyword where
  | name
  | const
  | enum
  | message
  deriving DecidableEq, Repr

namespace Keyword

/-- A character with its case taken away, as far as ASCII letters are concerned. -/
def foldCase (c : Char) : Char :=
  if c = '\u017f' then 's' else if c = '\u212a' then 'k' else c.toLower

/-- The keyword that a text spells. -/
def ofText? (text : String) : Option Keyword :=
  let word := String.ofList (text.toList.map foldCase)
  if word = "name" then some .name
  else if word = "const" then some .const
  else if word = "enum" then some .enum
  else if word = "message" then some .message
  else none

/-- The keyword that a token is; only identifiers are keywords. -/
def ofToken? (t : Token) : Option Keyword :=
  if t.isIdentifier then ofText? t.text else none

end Keyword

end WireSchema
