import WireSchema.Text.CaseMap
import WireSchema.Text.CaseProperty

/-!
# Letter case

Upper and lower case for all characters:

* `isUpper`, `isLower` — the properties `Uppercase` and `Lowercase`;
* `upperOf`, `lowerOf` — the full mapping of one character, which may give several;
* `uppercase`, `lowercase` — the mapping of a text. Lower case is the only mapping that looks
  around: a capital sigma at the end of a word becomes a final sigma.

On ASCII each of them is the familiar test or shift; the tables speak only of what lies above.
-/

namespace WireSchema.Text

/-! ## Properties -/

/-- Has `c` the property `Uppercase`? -/
def isUpper (c : Char) : Bool :=
  if c.toNat < 128 then c.isUpper else Run.anyContains uppercaseRuns c.toNat

/-- Has `c` the property `Lowercase`? -/
def isLower (c : Char) : Bool :=
  if c.toNat < 128 then c.isLower else Run.anyContains lowercaseRuns c.toNat

/-- Has `c` the property `Cased`? -/
def isCased (c : Char) : Bool :=
  if c.toNat < 128 then c.isAlpha else Run.anyContains casedRuns c.toNat

/-- Has `c` the property `Case_Ignorable`? -/
def isCaseIgnorable (c : Char) : Bool :=
  if c.toNat < 128 then "'.:^`".toList.contains c else Run.anyContains caseIgnorableRuns c.toNat

/-! ## Mappings of one character -/

/-- The image of a character above ASCII: an expansion, a shift, or the character itself. -/
def mapAboveAscii (expansions : List (Nat × List Nat)) (shifts : List Shift) (c : Char) :
    List Char :=
  match expansions.lookup c.toNat with
  | some image => image.map Char.ofNat
  | none =>
    match Shift.apply? shifts c.toNat with
    | some image => [Char.ofNat image]
    | none => [c]

/-- The upper-case form of a character. -/
def upperOf (c : Char) : List Char :=
  if c.toNat < 128 then [c.toUpper] else mapAboveAscii upperExpansions upperShifts c

/-- The lower-case form of a character on its own. -/
def lowerOf (c : Char) : List Char :=
  if c.toNat < 128 then [c.toLower] else mapAboveAscii lowerExpansions lowerShifts c

theorem upperOf_ascii {c : Char} (h : c.toNat < 128) : upperOf c = [c.toUpper] := by
  simp [upperOf, h]

theorem lowerOf_ascii {c : Char} (h : c.toNat < 128) : lowerOf c = [c.toLower] := by
  simp [lowerOf, h]

/-! ## Mappings of a text -/

/-- The upper-case form of a text. -/
def uppercase (cs : List Char) : List Char :=
  cs.flatMap upperOf

/-- Is the first character that is not case-ignorable a cased one? -/
def meetsCased (cs : List Char) : Bool :=
  match cs.dropWhile isCaseIgnorable with
  | [] => false
  | c :: _ => isCased c

/-- The lower-case form of the rest of a text, where `before` holds the characters already passed,
nearest first. A capital sigma after a cased character and before none is a final sigma. -/
def lowercaseAfter (before : List Char) : List Char → List Char
  | [] => []
  | c :: cs =>
    let image :=
      if c = 'Σ' then
        if meetsCased before && !meetsCased cs then ['ς'] else ['σ']
      else lowerOf c
    image ++ lowercaseAfter (c :: before) cs

/-- The lower-case form of a text. -/
def lowercase (cs : List Char) : List Char :=
  lowercaseAfter [] cs

end WireSchema.Text
