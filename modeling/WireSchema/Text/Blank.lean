import WireSchema.Text.CodePoints

/-!
# Blank characters

The characters with the property `White_Space`. They separate tokens in schema text and are
trimmed from the answer to a prompt.
-/

namespace WireSchema.Text

/-- The code points with the property `White_Space`. -/
def blankRuns : List Run :=
  [⟨0x9, 0xD, 1⟩, ⟨0x20, 0x20, 1⟩, ⟨0x85, 0x85, 1⟩, ⟨0xA0, 0xA0, 1⟩, ⟨0x1680, 0x1680, 1⟩,
   ⟨0x2000, 0x200A, 1⟩, ⟨0x2028, 0x2029, 1⟩, ⟨0x202F, 0x202F, 1⟩, ⟨0x205F, 0x205F, 1⟩,
   ⟨0x3000, 0x3000, 1⟩]

/-- Is `c` a blank character? -/
def isBlank (c : Char) : Bool :=
  Run.anyContains blankRuns c.toNat

/-- `cs` without the blank characters at both ends. -/
def trim (cs : List Char) : List Char :=
  ((cs.dropWhile isBlank).reverse.dropWhile isBlank).reverse

end WireSchema.Text
