/-!
# Words

A word is an ASCII identifier: letters, digits and underscores, not starting with a digit. Words are
the identifiers of schema text and of both target languages.
-/

namespace WireSchema.Text

/-- Can `c` start a word? -/
def isWordStart (c : Char) : Bool :=
  c.isAlpha || c = '_'

/-- Can `c` continue a word? -/
def isWordRest (c : Char) : Bool :=
  c.isAlphanum || c = '_'

/-- Is the list of characters a word? -/
def isWordChars : List Char → Bool
  | [] => false
  | c :: cs => isWordStart c && cs.all isWordRest

/-- Is the text a word? -/
def isWord (text : String) : Bool :=
  isWordChars text.toList

end WireSchema.Text
