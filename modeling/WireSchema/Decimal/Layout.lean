import WireSchema.Decimal.Shortest

/-!
# Layouts of decimals

How a double is written. A `Layout` gathers the decisions of one format: how a tie between two
shortest decimals is broken, which exponents are written out in full, and whether a whole number
keeps a fraction. There are two:

* `Layout.plain` — diagnostics and generated sources;
* `Layout.json` — the schema dump.
-/

namespace WireSchema.Decimal

/-- The decisions of a number format. -/
structure Layout where
  /-- which of two equally near decimals is written -/
  tie : Tie
  /-- is a number whose first digit has this power of ten written without an exponent? -/
  positional : Int → Bool
  /-- what follows a whole number -/
  wholeSuffix : List Char

/-- Never an exponent, and no fraction on a whole number; a tie goes up. -/
def Layout.plain : Layout :=
  { tie := .up
    positional := fun _ => true
    wholeSuffix := [] }

/-- Exponents outside `-5 … 15` are written with a mark and a sign, whole numbers keep `.0`, and a
tie goes to the even digit. -/
def Layout.json : Layout :=
  { tie := .toEven
    positional := fun e => -5 ≤ e && e ≤ 15
    wholeSuffix := ['.', '0'] }

/-- Digits without an exponent: padded with zeros up to or down from the point. -/
def Digits.positional (d : Digits) (wholeSuffix : List Char) : List Char :=
  if d.exponent < 0 then
    '0' :: '.' :: (List.replicate ((-d.exponent).toNat - 1) '0' ++ d.digits)
  else
    let width := d.exponent.toNat + 1
    if d.digits.length ≤ width then
      d.digits ++ List.replicate (width - d.digits.length) '0' ++ wholeSuffix
    else d.digits.take width ++ '.' :: d.digits.drop width

/-- Digits with an exponent: the point after the first digit, if there are more. -/
def Digits.scientific (d : Digits) : List Char :=
  let sign := if d.exponent < 0 then '-' else '+'
  let mantissa :=
    match d.digits with
    | [] => []
    | [first] => [first]
    | first :: rest => first :: '.' :: rest
  mantissa ++ 'e' :: sign :: Nat.toDigits 10 d.exponent.natAbs

/-- A finite magnitude in a layout. -/
def Layout.magnitude (layout : Layout) (magnitude : Nat) : List Char :=
  if magnitude = 0 then '0' :: layout.wholeSuffix
  else
    let d := shortest layout.tie magnitude
    if layout.positional d.exponent then d.positional layout.wholeSuffix else d.scientific

/-- A finite double in a layout. -/
def Layout.write (layout : Layout) (x : Binary64) : String :=
  String.ofList ((if x.negative then ['-'] else []) ++ layout.magnitude x.magnitude)

end WireSchema.Decimal

namespace WireSchema

/-- A double as diagnostics and generated sources show it. -/
def Binary64.display (x : Binary64) : String :=
  if x.isNaN then "NaN"
  else if x.isFinite then Decimal.Layout.plain.write x
  else if x.negative then "-inf"
  else "inf"

end WireSchema
