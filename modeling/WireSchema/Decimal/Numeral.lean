import WireSchema.Decimal.Binary64

/-!
# Numerals

Reading the spelling of a number as a value:

* `readInteger?` — an optional sign and ASCII digits, within a signed 128-bit integer;
* `Binary64.read?` — an optional sign and a decimal with optional fraction and exponent, or the
  words for infinity and NaN in any case; the value is the nearest double.

Anything else has no value. Digits of other scripts are not read.
-/

namespace WireSchema.Decimal

/-- The value of a list of ASCII digits. -/
def digitsValue (digits : List Char) : Nat :=
  digits.foldl (fun n c => 10 * n + (c.toNat - '0'.toNat)) 0

/-- The value of a non-empty list of ASCII digits. -/
def readDigits? (digits : List Char) : Option Nat :=
  if !digits.isEmpty && digits.all Char.isDigit then some (digitsValue digits) else none

theorem isDigit_of_mem_toString {n : Nat} {c : Char} (hc : c ∈ (toString n).toList) :
    c.isDigit = true := by
  change c ∈ n.repr.toList at hc
  rw [Nat.toList_repr] at hc
  exact Nat.isDigit_of_mem_toDigits (by decide) (by decide) hc

theorem toList_toString_ne_nil (n : Nat) : (toString n).toList ≠ [] := by
  change n.repr.toList ≠ []
  rw [Nat.toList_repr]
  exact Nat.toDigits_ne_nil

/-- A number is read as it is written. -/
theorem readDigits?_toString (n : Nat) : readDigits? (toString n).toList = some n := by
  have hne := List.isEmpty_eq_false_iff.mpr (toList_toString_ne_nil n)
  have hdigits : (toString n).toList.all Char.isDigit = true :=
    List.all_eq_true.mpr fun _ => isDigit_of_mem_toString
  have hvalue : digitsValue (toString n).toList = n := by
    change digitsValue n.repr.toList = n
    rw [Nat.toList_repr]
    exact Nat.ofDigitChars_toDigits (by decide) (by decide)
  rw [readDigits?, hne, hdigits, hvalue]
  rfl

/-- Splits off a sign. -/
def readSign (cs : List Char) : Bool × List Char :=
  match cs with
  | '-' :: rest => (true, rest)
  | '+' :: rest => (false, rest)
  | _ => (false, cs)

/-- Negates `n` if asked to. -/
def applySign (negative : Bool) (n : Nat) : Int :=
  if negative then -n else n

/-- The least integer that can be read. -/
def leastInteger : Int :=
  -170141183460469231731687303715884105728

/-- The greatest integer that can be read. -/
def greatestInteger : Int :=
  170141183460469231731687303715884105727

/-- The integer that a text spells, if it spells one that fits in 128 bits. -/
def readInteger? (text : String) : Option Int :=
  let (negative, digits) := readSign text.toList
  match readDigits? digits with
  | none => none
  | some n =>
    let value := applySign negative n
    if leastInteger ≤ value ∧ value ≤ greatestInteger then some value else none

/-- Reads an exponent: nothing, or a mark with an optional sign and digits. -/
def readExponent? (cs : List Char) : Option Int :=
  match cs with
  | [] => some 0
  | mark :: rest =>
    if mark = 'e' || mark = 'E' then
      let (negative, digits) := readSign rest
      (readDigits? digits).map (applySign negative)
    else none

/-- Reads an unsigned decimal as a coefficient and a power of ten. At least one digit must stand
before or after the point. -/
def readDecimal? (cs : List Char) : Option (Nat × Int) :=
  let whole := cs.takeWhile Char.isDigit
  let (fraction, rest) :=
    match cs.dropWhile Char.isDigit with
    | '.' :: after => (after.takeWhile Char.isDigit, after.dropWhile Char.isDigit)
    | after => ([], after)
  match readDigits? (whole ++ fraction), readExponent? rest with
  | some coefficient, some exponent => some (coefficient, exponent - fraction.length)
  | _, _ => none

/-- Reads the magnitude of a number without its sign. -/
def readMagnitude? (cs : List Char) : Option Nat :=
  match readDecimal? cs with
  | some (coefficient, exponent) => some (Binary64.roundScientific coefficient exponent)
  | none =>
    let word := String.ofList (cs.map Char.toLower)
    if word = "inf" ∨ word = "infinity" then some Binary64.infinityMagnitude
    else if word = "nan" then some (Binary64.infinityMagnitude + Nat.pow 2 51)
    else none

end WireSchema.Decimal

namespace WireSchema

/-- The double nearest to the number that a text spells, if it spells one. -/
def Binary64.read? (text : String) : Option Binary64 :=
  let (negative, unsigned) := Decimal.readSign text.toList
  (Decimal.readMagnitude? unsigned).map (Binary64.ofParts negative)

end WireSchema
