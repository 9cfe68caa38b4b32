/-!
# Double-precision numbers

A `Binary64` is an IEEE 754 double given by its bit pattern: a sign bit, eleven exponent bits and
fifty-two fraction bits. The bits below the sign are its **magnitude**; read as a natural number
they order the absolute values. All arithmetic here is on natural numbers, so rounding is exact:

* `significand`, `scale` — a finite magnitude as `significand * 2 ^ scale / 2 ^ 1074`;
* `roundRatio` — the magnitude nearest to a quotient of natural numbers;
* `roundScientific`, `ofInt` — the nearest to a decimal, and the double nearest to an integer.
-/

namespace WireSchema

/-- An IEEE 754 double, by its bit pattern. -/
structure Binary64 where
  bits : UInt64
  deriving DecidableEq, Repr

namespace Binary64

/-! ## Parts of a bit pattern -/

/-- Is the sign bit set? -/
def negative (x : Binary64) : Bool :=
  Nat.pow 2 63 ≤ x.bits.toNat

/-- The exponent and fraction bits. -/
def magnitude (x : Binary64) : Nat :=
  x.bits.toNat % Nat.pow 2 63

/-- The magnitude of infinity; every finite magnitude is less. -/
def infinityMagnitude : Nat :=
  2047 * Nat.pow 2 52

/-- Neither infinite nor a NaN. -/
def isFinite (x : Binary64) : Bool :=
  x.magnitude < infinityMagnitude

/-- Not a number. -/
def isNaN (x : Binary64) : Bool :=
  infinityMagnitude < x.magnitude

/-- The double with the given sign and magnitude. -/
def ofParts (negative : Bool) (magnitude : Nat) : Binary64 :=
  ⟨UInt64.ofNat ((if negative then Nat.pow 2 63 else 0) + magnitude)⟩

/-- The significand of a finite magnitude, with its leading bit when it is normal. -/
def significand (magnitude : Nat) : Nat :=
  if magnitude < Nat.pow 2 52 then magnitude else magnitude % Nat.pow 2 52 + Nat.pow 2 52

/-- The power of two by which the significand of a finite magnitude is scaled, counted from the
least one: a finite magnitude stands for `significand * 2 ^ scale / 2 ^ 1074`. -/
def scale (magnitude : Nat) : Nat :=
  magnitude / Nat.pow 2 52 - 1

/-- The magnitude of the greatest finite single-precision number, `(2 ^ 24 - 1) * 2 ^ 104`. -/
def greatestSingle : Nat :=
  (104 + 23 + 1023) * Nat.pow 2 52 + (Nat.pow 2 52 - Nat.pow 2 29)

/-! ## Rounding -/

/-- The quotient rounded to the nearest integer, a half to the even one. -/
def roundDiv (n d : Nat) : Nat :=
  let q := n / d
  let r := n % d
  if 2 * r < d then q
  else if d < 2 * r then q + 1
  else if q % 2 = 0 then q
  else q + 1

/-- The magnitude nearest to `n / d`; a half goes to the even one, and what lies past the greatest
finite magnitude is infinite. The quotient is measured in units of the least positive double; a
result that needs more than fifty-three bits gives up its low ones. -/
def roundRatio (n d : Nat) : Nat :=
  let units := n * Nat.pow 2 1074
  let dropped := (units / d).log2 - 52
  min infinityMagnitude (dropped * Nat.pow 2 52 + roundDiv units (d * Nat.pow 2 dropped))

/-- The number of decimal digits of `n`. -/
def decimalLength (n : Nat) : Nat :=
  (Nat.toDigits 10 n).length

/-- The magnitude nearest to `coefficient * 10 ^ exponent`. Products at or above `10 ^ 310` and
below `10 ^ (-330)` round to infinity and zero whatever their digits, and are answered without
computing the power. -/
def roundScientific (coefficient : Nat) (exponent : Int) : Nat :=
  let order := exponent + decimalLength coefficient
  if coefficient = 0 then 0
  else if 0 ≤ exponent then
    if 310 < order then infinityMagnitude
    else roundRatio (coefficient * Nat.pow 10 exponent.toNat) 1
  else if order < -330 then 0
  else roundRatio coefficient (Nat.pow 10 (-exponent).toNat)

/-- The double nearest to an integer. -/
def ofInt (i : Int) : Binary64 :=
  ofParts (i < 0) (roundRatio i.natAbs 1)

end Binary64

end WireSchema
