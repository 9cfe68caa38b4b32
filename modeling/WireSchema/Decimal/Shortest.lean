import WireSchema.Decimal.Binary64

/-!
# Shortest decimals

The decimal with the **fewest digits that reads back** as a given double, and of those the one
nearest to it. The reals that round to a double form an interval around it, whose ends belong to it
exactly when the significand is even. `shortest` looks at the grids of multiples of `10 ^ k`, from
the coarsest that can have a point in the interval to finer ones; on each grid only the two
neighbours of the value need to be tried. When both neighbours lie in the interval and are equally
near, the caller's `Tie` decides.
-/

namespace WireSchema.Decimal

/-- Which of two equally near decimals is taken. -/
inductive Tie where
  /-- the greater one -/
  | up
  /-- the one whose last digit is even -/
  | toEven
  deriving DecidableEq, Repr

/-- A decimal: the digits `d₁ d₂ … dₙ` and the exponent of the first, standing for
`d₁.d₂…dₙ * 10 ^ exponent`. -/
structure Digits where
  digits : List Char
  exponent : Int
  deriving DecidableEq, Repr

/-- The interval of the reals that round to a finite positive magnitude, in quarters of the
distance to the next double: `low`, the value `mid` and `high` are multiples of
`2 ^ scale / 2 ^ 1076`. -/
structure Interval where
  low : Nat
  mid : Nat
  high : Nat
  /-- do the ends belong to the interval? -/
  closed : Bool
  scale : Nat

/-- The interval of a finite positive magnitude. Below a power of two the doubles are twice as
close together, except at the bottom of the range. -/
def Interval.ofMagnitude (magnitude : Nat) : Interval :=
  let m := Binary64.significand magnitude
  let nearBelow := m = Nat.pow 2 52 ∧ 0 < Binary64.scale magnitude
  { low := 4 * m - (if nearBelow then 1 else 2)
    mid := 4 * m
    high := 4 * m + 2
    closed := m % 2 = 0
    scale := Binary64.scale magnitude }

/-- A grid of decimals, compared with an interval: `units * numerator` quarters of the interval
against `points * denominator` points of the grid. -/
structure Grid where
  numerator : Nat
  denominator : Nat

/-- The grid of multiples of `10 ^ k` for an interval of the given scale. -/
def Grid.ofExponent (scale : Nat) (k : Int) : Grid :=
  { numerator := Nat.pow 2 scale * Nat.pow 10 (-k).toNat
    denominator := Nat.pow 2 1076 * Nat.pow 10 k.toNat }

/-- Does the grid point `c` lie in the interval? -/
def Interval.holds (i : Interval) (g : Grid) (c : Nat) : Bool :=
  let point := c * g.denominator
  let low := i.low * g.numerator
  let high := i.high * g.numerator
  if i.closed then low ≤ point && point ≤ high else low < point && point < high

/-- The grid point in the interval that is nearest to its value, if there is one. -/
def Interval.nearest? (i : Interval) (g : Grid) (tie : Tie) : Option Nat :=
  let value := i.mid * g.numerator
  let below := value / g.denominator
  let above := below + 1
  match i.holds g below, i.holds g above with
  | false, false => none
  | true, false => some below
  | false, true => some above
  | true, true =>
    let toBelow := value - below * g.denominator
    let toAbove := above * g.denominator - value
    if toBelow < toAbove then some below
    else if toAbove < toBelow then some above
    else
      match tie with
      | .up => some above
      | .toEven => if below % 2 = 0 then some below else some above

/-- Digits of `c * 10 ^ k` without trailing zeros. -/
def Digits.ofProduct (c : Nat) (k : Int) : Digits :=
  let digits := Nat.toDigits 10 c
  { digits := (digits.reverse.dropWhile (· = '0')).reverse
    exponent := k + digits.length - 1 }

/-- Tries the grids of `10 ^ k`, `10 ^ (k - 1)`, …; with seventeen digits every double has a
point. -/
def shortestFrom (tie : Tie) (i : Interval) (k : Int) : Nat → Digits
  | 0 => Digits.ofProduct (i.mid * (Grid.ofExponent i.scale k).numerator /
      (Grid.ofExponent i.scale k).denominator) k
  | n + 1 =>
    match i.nearest? (Grid.ofExponent i.scale k) tie with
    | some c => Digits.ofProduct c k
    | none => shortestFrom tie i (k - 1) n

/-- The power of ten of the first digit of a finite positive magnitude. -/
def leadingExponent (i : Interval) : Int :=
  Binary64.decimalLength (i.mid * Nat.pow 2 i.scale * Nat.pow 10 400 / Nat.pow 2 1076) - 401

/-- The shortest decimal of a finite positive magnitude. -/
def shortest (tie : Tie) (magnitude : Nat) : Digits :=
  let i := Interval.ofMagnitude magnitude
  shortestFrom tie i (leadingExponent i) 17

end WireSchema.Decimal
