/-!
# Sets and maps of code points

A character property or a case mapping is given by a short list of **runs**: code points from a
first to a last one in equal steps (`Run`), and runs that move by one offset (`Shift`).
-/

namespace WireSchema.Text

/-- The code points `first`, `first + step`, …, up to `last`. -/
structure Run where
  /-- the least code point of the run -/
  first : Nat
  /-- the greatest code point of the run -/
  last : Nat
  /-- the distance between neighbours -/
  step : Nat

/-- Does the run hold the code point `n`? -/
def Run.contains (r : Run) (n : Nat) : Bool :=
  r.first ≤ n && n ≤ r.last && (n - r.first) % r.step == 0

/-- Does one of the runs hold the code point `n`? -/
def Run.anyContains (rs : List Run) (n : Nat) : Bool :=
  rs.any (·.contains n)

/-- A run of code points that all map to the code point `offset` further on. -/
structure Shift where
  /-- the code points that move -/
  run : Run
  /-- how far they move, backwards when negative -/
  offset : Int

/-- The image of `n` under the first shift whose run holds it. -/
def Shift.apply? (shifts : List Shift) (n : Nat) : Option Nat :=
  (shifts.find? (·.run.contains n)).map fun s => ((n : Int) + s.offset).toNat

end WireSchema.Text
