import Mathlib
import WireSchema.Decimal.Shortest
import WireSchema.Proofs.Validity

/-!
# Rounding intervals

The reals that round to a magnitude form an interval. The intervals of neighbouring magnitudes meet
in one point, half way between the two values (`edge`), and the point belongs to the one whose
magnitude is even. So no number lies in two intervals (`Interval.contains_unique`).

The shortest decimal of a magnitude lies in its interval (`shortest_contains`). The search for it
tries seventeen grids, and this is enough because the points of the last one are closer together
than the ends of the interval.
-/

namespace WireSchema.Decimal

open Binary64 (scale significand unitsOf unitsOf_succ)

/-! ## Where intervals meet -/

/-- The number half way between a magnitude and the next one, in quarters of the least positive
double. -/
def edge (magnitude : Nat) : Nat :=
  4 * unitsOf magnitude + 2 * 2 ^ scale magnitude

theorem high_mul_scale (m : Nat) : (Interval.ofMagnitude m).high * 2 ^ scale m = edge m := by
  change (4 * significand m + 2) * 2 ^ scale m = _
  rw [edge, unitsOf]
  ring

theorem significand_eq (m : Nat) :
    significand m = if m < 2 ^ 52 then m else m % 2 ^ 52 + 2 ^ 52 :=
  rfl

/-- A magnitude whose significand is the least of its scale is nearer to the one below it. -/
theorem scale_succ (m : Nat) :
    scale (m + 1) = if significand (m + 1) = 2 ^ 52 ∧ 0 < scale (m + 1) then scale m + 1
      else scale m := by
  have hscale (n : Nat) : scale n = n / 2 ^ 52 - 1 := rfl
  rw [significand_eq, hscale, hscale]
  split_ifs <;> omega

/-- **The interval of a magnitude starts where the one before it ends.** -/
theorem low_mul_scale (m : Nat) :
    (Interval.ofMagnitude (m + 1)).low * 2 ^ scale (m + 1) = edge m := by
  have hstep := unitsOf_succ m
  have hscale := scale_succ m
  change (4 * significand (m + 1) -
    (if significand (m + 1) = 2 ^ 52 ∧ 0 < scale (m + 1) then 1 else 2)) * 2 ^ scale (m + 1) = _
  have hunits : 4 * significand (m + 1) * 2 ^ scale (m + 1) = 4 * unitsOf (m + 1) :=
    Nat.mul_assoc _ _ _
  rw [Nat.sub_mul, hunits, hstep, edge]
  split_ifs at hscale ⊢ <;> rw [hscale] <;> omega

theorem edge_strictMono : StrictMono edge := by
  refine strictMono_nat_of_lt_succ fun m => ?_
  have hpos : 0 < 2 ^ scale (m + 1) := Nat.two_pow_pos _
  rw [edge, edge, unitsOf_succ]
  omega

/-! ## Numbers in an interval -/

/-- How often a quarter of the least positive double goes into one. -/
def quarters : Nat :=
  Nat.pow 2 1076

theorem quarters_pos : 0 < quarters :=
  Nat.two_pow_pos 1076

/-- The number rounds to the magnitude of the interval. -/
def Interval.Contains (i : Interval) (x : ℚ) : Prop :=
  if i.closed then
    (i.low * 2 ^ i.scale : ℕ) ≤ x * quarters ∧ x * quarters ≤ (i.high * 2 ^ i.scale : ℕ)
  else (i.low * 2 ^ i.scale : ℕ) < x * quarters ∧ x * quarters < (i.high * 2 ^ i.scale : ℕ)

theorem closed_iff (m : Nat) : (Interval.ofMagnitude m).closed = true ↔ m % 2 = 0 := by
  change decide (significand m % 2 = 0) = true ↔ _
  rw [decide_eq_true_iff, significand_eq]
  split_ifs <;> omega

/-- The interval of a magnitude lies between two edges, and an end of it belongs to even magnitudes
only. -/
theorem Interval.Contains.between {m : Nat} {x : ℚ}
    (h : (Interval.ofMagnitude (m + 1)).Contains x) :
    edge m ≤ x * quarters ∧ x * quarters ≤ edge (m + 1) ∧
      ((m + 1) % 2 = 1 → edge m < x * quarters ∧ x * quarters < edge (m + 1)) := by
  have hlow : (Interval.ofMagnitude (m + 1)).low * 2 ^ (Interval.ofMagnitude (m + 1)).scale =
      edge m :=
    low_mul_scale m
  have hhigh : (Interval.ofMagnitude (m + 1)).high * 2 ^ (Interval.ofMagnitude (m + 1)).scale =
      edge (m + 1) := high_mul_scale (m + 1)
  rw [Interval.Contains, hlow, hhigh] at h
  split_ifs at h with hclosed
  · have heven := (closed_iff (m + 1)).mp hclosed
    exact ⟨h.1, h.2, fun hodd => by omega⟩
  · exact ⟨h.1.le, h.2.le, fun _ => h⟩

/-- Intervals come in the order of their magnitudes. -/
theorem Interval.not_contains_of_lt {m n : Nat} {x : ℚ} (hlt : m < n)
    (hm : (Interval.ofMagnitude (m + 1)).Contains x)
    (hn : (Interval.ofMagnitude (n + 1)).Contains x) : False := by
  obtain ⟨-, hhigh, hodd⟩ := hm.between
  obtain ⟨hlow, -, hodd'⟩ := hn.between
  have hmeet : (edge n : ℚ) ≤ edge (m + 1) := hlow.trans hhigh
  have hle : n ≤ m + 1 := edge_strictMono.le_iff_le.mp (by exact_mod_cast hmeet)
  obtain rfl : n = m + 1 := by omega
  -- of two neighbours one is odd, and its interval does not have the point where they meet
  rcases Nat.mod_two_eq_zero_or_one (m + 1) with heven | hone
  · exact absurd hhigh (not_le.mpr (hodd' (by omega)).1)
  · exact absurd hlow (not_le.mpr (hodd hone).2)

/-- **No number rounds to two magnitudes.** -/
theorem Interval.contains_unique {m n : Nat} {x : ℚ}
    (hm : (Interval.ofMagnitude (m + 1)).Contains x)
    (hn : (Interval.ofMagnitude (n + 1)).Contains x) : m = n := by
  rcases lt_trichotomy m n with hlt | heq | hlt
  · exact (not_contains_of_lt hlt hm hn).elim
  · exact heq
  · exact (not_contains_of_lt hlt hn hm).elim

theorem Interval.Contains.pos {m : Nat} {x : ℚ} (h : (Interval.ofMagnitude (m + 1)).Contains x) :
    0 < x := by
  have hedge : 0 < edge m := Nat.add_pos_right _ (Nat.mul_pos two_pos (Nat.two_pow_pos _))
  have hlow : (0 : ℚ) < x * quarters := lt_of_lt_of_le (by exact_mod_cast hedge) h.between.1
  exact pos_of_mul_pos_left hlow (Nat.cast_nonneg _)

/-! ## Grids -/

section Grid

variable {s c n : Nat} {k : Int}

theorem denominator_ofExponent (s : Nat) (k : Int) :
    (Grid.ofExponent s k).denominator = quarters * Nat.pow 10 k.toNat :=
  rfl

theorem pow_mul_pow_toNat (k : Int) :
    (10 : ℚ) ^ k * 10 ^ (-k).toNat = 10 ^ k.toNat := by
  rw [← zpow_natCast, ← zpow_natCast, ← zpow_add₀ (by norm_num)]
  congr 1
  omega

/-- A number of quarters of the interval and a point of the grid, over a common denominator. -/
theorem grid_scaled (s n c : Nat) (k : Int) :
    ((n * 2 ^ s : ℕ) : ℚ) * 10 ^ (-k).toNat = (n * (Grid.ofExponent s k).numerator : ℕ) ∧
      (c : ℚ) * 10 ^ k * quarters * 10 ^ (-k).toNat =
        (c * (Grid.ofExponent s k).denominator : ℕ) := by
  constructor
  · change _ = ((n * (2 ^ s * 10 ^ (-k).toNat) : ℕ) : ℚ)
    push_cast
    ring
  · rw [denominator_ofExponent, Nat.pow_eq]
    push_cast
    rw [← pow_mul_pow_toNat k]
    ring

theorem le_point_iff : n * (Grid.ofExponent s k).numerator ≤ c * (Grid.ofExponent s k).denominator ↔
    ((n * 2 ^ s : ℕ) : ℚ) ≤ c * 10 ^ k * quarters := by
  obtain ⟨hn, hc⟩ := grid_scaled s n c k
  have hpos : (0 : ℚ) < 10 ^ (-k).toNat := by positivity
  rw [← mul_le_mul_iff_of_pos_right hpos, hn, hc, Nat.cast_le]

theorem point_le_iff : c * (Grid.ofExponent s k).denominator ≤ n * (Grid.ofExponent s k).numerator ↔
    (c : ℚ) * 10 ^ k * quarters ≤ (n * 2 ^ s : ℕ) := by
  obtain ⟨hn, hc⟩ := grid_scaled s n c k
  have hpos : (0 : ℚ) < 10 ^ (-k).toNat := by positivity
  rw [← mul_le_mul_iff_of_pos_right hpos, hn, hc, Nat.cast_le]

/-- A point of a grid is in the interval if the number that it stands for is. -/
theorem Interval.holds_iff {i : Interval} :
    i.holds (Grid.ofExponent i.scale k) c = true ↔ i.Contains (c * 10 ^ k) := by
  rw [Interval.holds, Interval.Contains]
  split_ifs
  · rw [Bool.and_eq_true, decide_eq_true_iff, decide_eq_true_iff, le_point_iff, point_le_iff]
  · rw [Bool.and_eq_true, decide_eq_true_iff, decide_eq_true_iff, ← not_le, ← not_le, point_le_iff,
      le_point_iff, not_le, not_le]

end Grid

namespace Interval

variable {i : Interval} {g : Grid} {tie : Tie}

/-- Only points of the interval are chosen. -/
theorem holds_of_nearest? {c : Nat} (h : i.nearest? g tie = some c) : i.holds g c = true := by
  unfold nearest? at h
  simp only at h
  split at h
  · cases h
  · cases h
    assumption
  · cases h
    assumption
  · rename_i hbelow habove
    split_ifs at h
    · exact Option.some.inj h ▸ hbelow
    · exact Option.some.inj h ▸ habove
    · cases tie with
      | up => exact Option.some.inj h ▸ habove
      | toEven => exact Option.some.inj h ▸ hbelow
    · cases tie with
      | up => exact Option.some.inj h ▸ habove
      | toEven => exact Option.some.inj h ▸ habove

theorem holds_of_lt {c : Nat} (hlow : i.low * g.numerator < c * g.denominator)
    (hhigh : c * g.denominator < i.high * g.numerator) : i.holds g c = true := by
  rw [holds]
  split_ifs
  · simp [hlow.le, hhigh.le]
  · simp [hlow, hhigh]

/-- A point is chosen if one of the two neighbours of the value is in the interval. -/
theorem exists_nearest?_of_holds (h : i.holds g (i.mid * g.numerator / g.denominator) = true ∨
    i.holds g (i.mid * g.numerator / g.denominator + 1) = true) :
    ∃ c, i.nearest? g tie = some c := by
  unfold nearest?
  simp only
  split
  · rename_i hbelow habove
    rw [hbelow, habove] at h
    rcases h with h | h <;> cases h
  · exact ⟨_, rfl⟩
  · exact ⟨_, rfl⟩
  · split_ifs
    · exact ⟨_, rfl⟩
    · exact ⟨_, rfl⟩
    · cases tie <;> exact ⟨_, rfl⟩
    · cases tie <;> exact ⟨_, rfl⟩

/-- **If the points of a grid are closer together than the ends of an interval, one of them is in
it.** -/
theorem exists_nearest? (hlow : i.low < i.mid) (hhigh : i.mid < i.high) (hpos : 0 < g.numerator)
    (hgrid : 0 < g.denominator) (hclose : g.denominator < (i.high - i.low) * g.numerator) :
    ∃ c, i.nearest? g tie = some c := by
  apply exists_nearest?_of_holds
  have hbelow : i.mid * g.numerator / g.denominator * g.denominator ≤ i.mid * g.numerator :=
    Nat.div_mul_le_self _ _
  have habove : i.mid * g.numerator < (i.mid * g.numerator / g.denominator + 1) * g.denominator :=
    Nat.lt_mul_of_div_lt (Nat.lt_succ_self _) hgrid
  have hlow' := Nat.mul_lt_mul_of_pos_right hlow hpos
  have hhigh' := Nat.mul_lt_mul_of_pos_right hhigh hpos
  rw [Nat.sub_mul] at hclose
  generalize i.mid * g.numerator / g.denominator = below at hbelow habove ⊢
  rw [Nat.succ_mul] at habove
  by_cases hbetween : i.low * g.numerator < below * g.denominator
  · exact .inl (holds_of_lt hbetween (lt_of_le_of_lt hbelow hhigh'))
  · refine .inr (holds_of_lt ?_ ?_) <;> rw [Nat.succ_mul] <;> omega

end Interval

/-! ## Seventeen digits -/

/-- A positive number has no fewer digits than its size asks for. -/
theorem pow_decimalLength_le {n : Nat} (h : 0 < n) : 10 ^ (Binary64.decimalLength n - 1) ≤ n := by
  by_contra hlt
  have hle : Binary64.decimalLength n ≤ 1 := by
    by_contra hone
    have := Nat.toDigits_length 10 n (Binary64.decimalLength n - 1) (by omega) (not_le.mp hlt)
    rw [Binary64.decimalLength] at hone this
    omega
  rw [Nat.sub_eq_zero_of_le hle] at hlt
  omega

/-- The first digit of a value stands at its leading exponent or before it. -/
theorem pow_leadingExponent_le {i : Interval} (h : 4 ≤ i.mid) :
    (10 : ℚ) ^ leadingExponent i * quarters ≤ (i.mid * 2 ^ i.scale : ℕ) := by
  set n := i.mid * 2 ^ i.scale * 10 ^ 400 / quarters
  have hexponent : leadingExponent i = (Binary64.decimalLength n : Int) - 401 := rfl
  have hlength : 1 ≤ Binary64.decimalLength n := List.length_pos_iff.mpr Nat.toDigits_ne_nil
  have hsmall : quarters ≤ i.mid * 2 ^ i.scale * 10 ^ 400 := by
    calc quarters ≤ 4 * 1 * 10 ^ 400 := by decide +kernel
      _ ≤ i.mid * 2 ^ i.scale * 10 ^ 400 := by gcongr; exact Nat.one_le_two_pow
  have hpos : 0 < n := Nat.div_pos hsmall quarters_pos
  have hdigits := pow_decimalLength_le hpos
  have hle : 10 ^ (Binary64.decimalLength n - 1) * quarters ≤ i.mid * 2 ^ i.scale * 10 ^ 400 :=
    (Nat.mul_le_mul_right _ hdigits).trans (Nat.div_mul_le_self _ _)
  have hpow : (10 : ℚ) ^ leadingExponent i * 10 ^ 400 = 10 ^ (Binary64.decimalLength n - 1) := by
    rw [hexponent, ← zpow_natCast, ← zpow_natCast, ← zpow_add₀ (by norm_num)]
    congr 1
    omega
  refine le_of_mul_le_mul_right ?_ (show (0 : ℚ) < 10 ^ 400 by positivity)
  rw [mul_right_comm, hpow]
  exact_mod_cast hle

/-- The significand has at most fifty-three bits. -/
theorem significand_lt (m : Nat) : significand m < 2 ^ 53 := by
  rw [significand_eq]
  split_ifs <;> omega

theorem significand_pos {m : Nat} (h : 0 < m) : 0 < significand m := by
  rw [significand_eq]
  split_ifs <;> omega

/-- The value of a magnitude is less than `10 ^ 16` times the width of its interval. -/
theorem mid_lt_width {m : Nat} (h : 0 < m) :
    (Interval.ofMagnitude m).mid <
      ((Interval.ofMagnitude m).high - (Interval.ofMagnitude m).low) * 10 ^ 16 := by
  have hlt := significand_lt m
  have hpos := significand_pos h
  change 4 * significand m < (4 * significand m + 2 - (4 * significand m -
    (if significand m = 2 ^ 52 ∧ 0 < scale m then 1 else 2))) * 10 ^ 16
  split_ifs <;> omega

/-- **The points of the seventeenth grid are closer together than the ends of the interval.** -/
theorem grid_close {m : Nat} (h : 0 < m) {g : Grid}
    (hg : g = Grid.ofExponent (scale m) (leadingExponent (Interval.ofMagnitude m) - 16)) :
    g.denominator <
      ((Interval.ofMagnitude m).high - (Interval.ofMagnitude m).low) * g.numerator := by
  set i := Interval.ofMagnitude m
  have hmid : 4 ≤ i.mid := Nat.mul_le_mul_left 4 (significand_pos h)
  have hwidth : i.mid < (i.high - i.low) * 10 ^ 16 := mid_lt_width h
  have hleading : (10 : ℚ) ^ leadingExponent i * quarters ≤ (i.mid * 2 ^ scale m : ℕ) :=
    pow_leadingExponent_le hmid
  -- one step of the grid is the first digit's place, divided by `10 ^ 16`
  have hstep : (10 : ℚ) ^ (leadingExponent i - 16) * 10 ^ 16 = 10 ^ leadingExponent i := by
    rw [← zpow_natCast, ← zpow_add₀ (by norm_num)]
    congr 1
    omega
  have hbound : (10 : ℚ) ^ (leadingExponent i - 16) * quarters * 10 ^ 16 <
      ((i.high - i.low) * 2 ^ scale m : ℕ) * 10 ^ 16 := by
    calc (10 : ℚ) ^ (leadingExponent i - 16) * quarters * 10 ^ 16
        = 10 ^ leadingExponent i * quarters := by rw [mul_right_comm, hstep]
      _ ≤ (i.mid * 2 ^ scale m : ℕ) := hleading
      _ < ((i.high - i.low) * 10 ^ 16 * 2 ^ scale m : ℕ) := by
        exact_mod_cast Nat.mul_lt_mul_of_pos_right hwidth (Nat.two_pow_pos _)
      _ = ((i.high - i.low) * 2 ^ scale m : ℕ) * 10 ^ 16 := by push_cast; ring
  have hlt := lt_of_mul_lt_mul_right hbound (by positivity)
  have hle := not_congr (le_point_iff (s := scale m) (c := 1) (n := i.high - i.low)
    (k := leadingExponent i - 16))
  rw [not_le, not_le, Nat.one_mul, Nat.cast_one, one_mul] at hle
  rw [hg]
  exact hle.mpr hlt

/-! ## The search -/

variable {tie : Tie} {i : Interval}

/-- The search stops at the first grid that has a point in the interval. -/
theorem shortestFrom_eq {n j : Nat} {k : Int} (hj : j < n)
    (h : ∃ c, i.nearest? (Grid.ofExponent i.scale (k - j)) tie = some c) :
    ∃ c e, shortestFrom tie i k n = Digits.ofProduct c e ∧
      i.nearest? (Grid.ofExponent i.scale e) tie = some c := by
  induction n generalizing j k with
  | zero => exact absurd hj (Nat.not_lt_zero j)
  | succ n ih =>
    cases hfirst : i.nearest? (Grid.ofExponent i.scale k) tie with
    | some c => exact ⟨c, k, by rw [shortestFrom, hfirst], hfirst⟩
    | none =>
      obtain ⟨c, hc⟩ := h
      cases j with
      | zero =>
        rw [Nat.cast_zero, sub_zero, hfirst] at hc
        cases hc
      | succ j =>
        have hnext : k - ((j + 1 : ℕ) : Int) = k - 1 - j := by push_cast; ring
        rw [hnext] at hc
        rw [shortestFrom, hfirst]
        exact ih (Nat.lt_of_succ_lt_succ hj) ⟨c, hc⟩

/-- **The shortest decimal of a magnitude rounds to it.** -/
theorem shortest_contains (tie : Tie) {m : Nat} (h : 0 < m) :
    ∃ c k, shortest tie m = Digits.ofProduct c k ∧
      (Interval.ofMagnitude m).Contains (c * 10 ^ k) := by
  have hpos := significand_pos h
  have hlow : (Interval.ofMagnitude m).low < (Interval.ofMagnitude m).mid := by
    change 4 * significand m - (if significand m = 2 ^ 52 ∧ 0 < scale m then 1 else 2) <
      4 * significand m
    split_ifs <;> omega
  have hhigh : (Interval.ofMagnitude m).mid < (Interval.ofMagnitude m).high :=
    Nat.lt_add_of_pos_right (by decide)
  have hpoint : ∃ c, (Interval.ofMagnitude m).nearest? (Grid.ofExponent (scale m)
      (leadingExponent (Interval.ofMagnitude m) - (16 : ℕ))) tie = some c := by
    refine Interval.exists_nearest? hlow hhigh ?_ ?_ (grid_close h rfl)
    · exact Nat.mul_pos (Nat.two_pow_pos _) (Nat.pow_pos (by decide))
    · exact Nat.mul_pos quarters_pos (Nat.pow_pos (by decide))
  obtain ⟨c, k, heq, hnearest⟩ := shortestFrom_eq (by decide : 16 < 17) hpoint
  exact ⟨c, k, heq, Interval.holds_iff.mp (Interval.holds_of_nearest? hnearest)⟩

end WireSchema.Decimal
