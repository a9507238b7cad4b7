import LinkAtlas.Number.Shortest
import Mathlib.Data.Rat.Cast.Order
import Mathlib.Order.Monotone.Basic
import Mathlib.Tactic.FieldSimp
import Mathlib.Tactic.Linarith
import Mathlib.Tactic.Positivity
import Mathlib.Tactic.Ring

/-!
# Decimals of doubles

The doubles of one sign stand in a row, and the numbers that read back as one of them are those
between the two points halfway to its neighbours, with these points themselves if its place in the
row is even. So no number reads back as two of them. The shortest decimal of a double is such a
number, hence two doubles never have the same one.
-/

namespace LinkAtlas

namespace Double

/-- The place of a double in the row of those with its sign, which begins at zero. -/
def place (x : Double) : Nat := x.bits.toNat % 2 ^ 63

variable {x y : Double}

theorem exponentField_eq (x : Double) : x.exponentField = x.place / 2 ^ 52 := by
  have power : Nat.pow 2 52 = 2 ^ 52 ∧ Nat.pow 2 11 = 2 ^ 11 := ⟨rfl, rfl⟩
  rw [exponentField, place, power.1, power.2]
  omega

theorem fraction_eq (x : Double) : x.fraction = x.place % 2 ^ 52 := by
  have power : Nat.pow 2 52 = 2 ^ 52 := rfl
  rw [fraction, place, power]
  omega

theorem isZero_iff : x.isZero = true ↔ x.place = 0 := by
  rw [isZero, exponentField_eq, fraction_eq, Bool.and_eq_true, beq_iff_eq, beq_iff_eq]
  omega

/-- The sign and the place tell a double. -/
theorem eq_of_place_eq (sign : x.negative = y.negative) (same : x.place = y.place) : x = y := by
  have power : Nat.pow 2 63 = 2 ^ 63 := rfl
  have first := x.bits.toNat_lt
  have second := y.bits.toNat_lt
  have halves : x.bits.toNat / 2 ^ 63 = 1 ↔ y.bits.toNat / 2 ^ 63 = 1 := by
    rw [negative, negative, power] at sign
    rw [← beq_iff_eq, sign, beq_iff_eq]
  unfold place at same
  have bits : x.bits.toNat = y.bits.toNat := by omega
  cases x
  cases y
  exact congrArg mk (UInt64.toNat_inj.mp bits)

end Double

/-! ## The row of doubles -/

namespace Decimal

/-- What is counted at a place. From the second power of two on, the highest digit is unwritten. -/
def significandAt (place : Nat) : Nat :=
  if place / 2 ^ 52 = 0 then place % 2 ^ 52 else 2 ^ 52 + place % 2 ^ 52

/-- What it is counted in, as a power of two. The first two are the same. -/
def powerAt (place : Nat) : Int := (max (place / 2 ^ 52) 1 : Nat) - 1075

/-- The number at a place. -/
def valueAt (place : Nat) : ℚ := significandAt place * 2 ^ powerAt place

/-- The point halfway from a place to the next one. -/
def halfway (place : Nat) : ℚ := valueAt place + 2 ^ powerAt place / 2

theorem two_zpow_pos (power : Int) : (0 : ℚ) < 2 ^ power := zpow_pos two_pos power

/-- The place is the first one of another power of two, other than the first two powers. -/
def OpensPower (place : Nat) : Prop := 1 < place / 2 ^ 52 ∧ place % 2 ^ 52 = 0

instance (place : Nat) : Decidable (OpensPower place) := inferInstanceAs (Decidable (_ ∧ _))

theorem powerAt_succ (place : Nat) :
    powerAt (place + 1) = if OpensPower (place + 1) then powerAt place + 1 else powerAt place := by
  by_cases opens : OpensPower (place + 1)
  · rw [if_pos opens]
    unfold OpensPower at opens
    unfold powerAt
    omega
  · rw [if_neg opens]
    unfold OpensPower at opens
    unfold powerAt
    omega

theorem valueAt_succ (place : Nat) :
    valueAt (place + 1) = valueAt place + 2 ^ powerAt place := by
  rw [valueAt, valueAt, powerAt_succ]
  by_cases opens : OpensPower (place + 1)
  · obtain ⟨large, first⟩ := opens
    have next : significandAt (place + 1) = 2 ^ 52 := by
      rw [significandAt, if_neg (by omega), first, Nat.add_zero]
    have last : significandAt place + 1 = 2 ^ 52 * 2 := by
      rw [significandAt, if_neg (by omega)]
      omega
    have counted : (significandAt place + 1 : ℚ) = 2 ^ 52 * 2 := by exact_mod_cast last
    rw [if_pos ⟨large, first⟩, next, zpow_add_one₀ two_ne_zero]
    calc ((2 ^ 52 : Nat) * (2 ^ powerAt place * 2) : ℚ)
        = 2 ^ 52 * 2 * 2 ^ powerAt place := by
          push_cast
          ring
      _ = significandAt place * 2 ^ powerAt place + 2 ^ powerAt place := by
          rw [← counted]
          ring
  · have next : significandAt (place + 1) = significandAt place + 1 := by
      unfold OpensPower at opens
      unfold significandAt
      split <;> split <;> omega
    rw [if_neg opens, next]
    push_cast
    ring

theorem significandAt_pos {place : Nat} (nonzero : place ≠ 0) : 0 < significandAt place := by
  unfold significandAt
  split <;> omega

theorem halfway_eq_sub (place : Nat) :
    halfway place = valueAt (place + 1) - 2 ^ powerAt place / 2 := by
  rw [halfway, valueAt_succ]
  ring

theorem strictMono_halfway : StrictMono halfway := by
  refine strictMono_nat_of_lt_succ fun place => ?_
  have here := two_zpow_pos (powerAt place)
  have next := two_zpow_pos (powerAt (place + 1))
  rw [halfway_eq_sub, halfway]
  linarith

/-! ## Intervals -/

/-- The number is one of those that the interval is about. -/
def Interval.Holds (interval : Interval) (number : ℚ) : Prop :=
  if interval.closed = true then
    (interval.low * 2 ^ interval.unit : ℚ) ≤ number ∧ number ≤ interval.high * 2 ^ interval.unit
  else (interval.low * 2 ^ interval.unit : ℚ) < number ∧ number < interval.high * 2 ^ interval.unit

/-- The number that a decimal stands for. -/
def number (decimal : Decimal) : ℚ := decimal.coefficient * 10 ^ decimal.exponent

theorem zpow_mul_pow_toNat_neg {base : ℚ} (nonzero : base ≠ 0) (power : Int) :
    base ^ power * base ^ (-power).toNat = base ^ power.toNat := by
  rw [← zpow_natCast, ← zpow_natCast, ← zpow_add₀ nonzero]
  congr 1
  omega

namespace Interval

/-- What makes a number on a grid and the ends of an interval whole. -/
def common (interval : Interval) (grid : Int) : ℚ :=
  2 ^ (-interval.unit).toNat * 10 ^ (-grid).toNat

variable (interval : Interval) (grid : Int)

theorem common_pos : 0 < interval.common grid := by
  unfold common
  positivity

theorem number_mul_common (candidate : Nat) :
    number ⟨candidate, grid⟩ * interval.common grid =
      (candidate * interval.decimalFactor grid : Nat) := by
  have factor : interval.decimalFactor grid = 2 ^ (-interval.unit).toNat * 10 ^ grid.toNat := rfl
  have decimal := zpow_mul_pow_toNat_neg (by norm_num : (10 : ℚ) ≠ 0) grid
  rw [number, common, factor]
  push_cast
  rw [← decimal]
  ring

theorem end_mul_common (bound : Nat) :
    (bound * 2 ^ interval.unit : ℚ) * interval.common grid =
      (bound * interval.binaryFactor grid : Nat) := by
  have factor : interval.binaryFactor grid = 2 ^ interval.unit.toNat * 10 ^ (-grid).toNat := rfl
  have binary := zpow_mul_pow_toNat_neg (two_ne_zero : (2 : ℚ) ≠ 0) interval.unit
  rw [common, factor]
  push_cast
  rw [← binary]
  ring

theorem end_le_number (bound candidate : Nat) :
    (bound * 2 ^ interval.unit : ℚ) ≤ number ⟨candidate, grid⟩ ↔
      bound * interval.binaryFactor grid ≤ candidate * interval.decimalFactor grid := by
  rw [← mul_le_mul_iff_of_pos_right (interval.common_pos grid), end_mul_common, number_mul_common,
    Nat.cast_le]

theorem number_le_end (bound candidate : Nat) :
    number ⟨candidate, grid⟩ ≤ (bound * 2 ^ interval.unit : ℚ) ↔
      candidate * interval.decimalFactor grid ≤ bound * interval.binaryFactor grid := by
  rw [← mul_le_mul_iff_of_pos_right (interval.common_pos grid), end_mul_common, number_mul_common,
    Nat.cast_le]

/-- The comparisons of naturals are those of the numbers. -/
theorem holds_iff (candidate : Nat) :
    interval.holds grid candidate = true ↔ interval.Holds (number ⟨candidate, grid⟩) := by
  unfold holds Holds
  split
  · rw [end_le_number, number_le_end, Bool.and_eq_true, decide_eq_true_eq, decide_eq_true_eq]
  · rw [← not_le, ← not_le, end_le_number, number_le_end, Bool.and_eq_true, decide_eq_true_eq,
      decide_eq_true_eq, not_le, not_le]

theorem holds_middle (below : interval.low < interval.middle)
    (above : interval.middle < interval.high) :
    interval.Holds (interval.middle * 2 ^ interval.unit) := by
  have unit := two_zpow_pos interval.unit
  have lower := mul_lt_mul_of_pos_right (Nat.cast_lt.mpr below : (_ : ℚ) < _) unit
  have upper := mul_lt_mul_of_pos_right (Nat.cast_lt.mpr above : (_ : ℚ) < _) unit
  unfold Holds
  split
  · exact ⟨lower.le, upper.le⟩
  · exact ⟨lower, upper⟩

end Interval

variable {x y : Double}

/-- The interval in terms of the place of the double. Below a power of two the neighbour is only
half as far away. -/
theorem Interval.ofDouble_eq (x : Double) :
    Interval.ofDouble x =
      { low := 4 * significandAt x.place -
          if OpensPower x.place then 1 else 2
        middle := 4 * significandAt x.place
        high := 4 * significandAt x.place + 2
        closed := x.place % 2 == 0
        unit := powerAt x.place - 2 } := by
  have power : Nat.pow 2 52 = 2 ^ 52 := rfl
  have normal : (x.exponentField != 0) = true ↔ ¬ x.place / 2 ^ 52 = 0 := by
    rw [x.exponentField_eq, bne_iff_ne]
  have significand : (if (x.exponentField != 0) = true then Nat.pow 2 52 + x.fraction
      else x.fraction) = significandAt x.place := by
    rw [significandAt, if_congr normal rfl rfl, ite_not, x.fraction_eq, power]
  have unit : (if (x.exponentField != 0) = true then (x.exponentField - 1075 : Int) else -1074) =
      powerAt x.place := by
    rw [powerAt, if_congr normal rfl rfl, x.exponentField_eq]
    split <;> omega
  have narrow : (if (decide (x.exponentField > 1) && x.fraction == 0) = true then 1 else 2) =
      if OpensPower x.place then 1 else 2 := by
    refine if_congr ?_ rfl rfl
    rw [OpensPower, Bool.and_eq_true, decide_eq_true_eq, beq_iff_eq, x.exponentField_eq,
      x.fraction_eq]
  have parity : significandAt x.place % 2 = x.place % 2 := by
    unfold significandAt
    split <;> omega
  unfold Interval.ofDouble
  dsimp only
  rw [significand, unit, narrow, parity]

/-- The number is at least as near to the place behind `place` as to any other. Halfway between two
places it counts for the even one. -/
def Near (place : Nat) (number : ℚ) : Prop :=
  if (place + 1) % 2 = 0 then halfway place ≤ number ∧ number ≤ halfway (place + 1)
  else halfway place < number ∧ number < halfway (place + 1)

/-- The numbers that read back as a double are those near to its place. -/
theorem Interval.ofDouble_holds_iff {place : Nat} (here : x.place = place + 1) (number : ℚ) :
    (Interval.ofDouble x).Holds number ↔ Near place number := by
  have quarter : (2 : ℚ) ^ (powerAt (place + 1) - 2) = 2 ^ powerAt (place + 1) / 4 := by
    rw [zpow_sub₀ two_ne_zero]
    norm_num
  have counted : 0 < significandAt (place + 1) := significandAt_pos place.succ_ne_zero
  have high : ((4 * significandAt (place + 1) + 2 : Nat) * 2 ^ (powerAt (place + 1) - 2) : ℚ) =
      halfway (place + 1) := by
    rw [quarter, halfway, valueAt]
    push_cast
    ring
  have low : ((4 * significandAt (place + 1) -
      (if OpensPower (place + 1) then 1 else 2) : Nat) * 2 ^ (powerAt (place + 1) - 2) : ℚ) =
        halfway place := by
    rw [halfway_eq_sub, valueAt, quarter, powerAt_succ]
    split
    · rw [Nat.cast_sub (by omega), zpow_add_one₀ two_ne_zero]
      push_cast
      ring
    · rw [Nat.cast_sub (by omega)]
      push_cast
      ring
  rw [Interval.ofDouble_eq, here]
  simp only [Interval.Holds, Near, low, high, beq_iff_eq]

/-- If the numbers near to two places meet in a point, the places follow each other, so that only
one of them is even. -/
theorem not_near_of_lt {lower upper : Nat} (before : lower < upper) {number : ℚ}
    (below : Near lower number) : ¬ Near upper number := by
  intro above
  have order : halfway (lower + 1) ≤ halfway upper := strictMono_halfway.monotone before
  unfold Near at below above
  split at below
  · split at above
    · have meet : halfway (lower + 1) = halfway upper := by linarith
      have next := strictMono_halfway.injective meet
      omega
    · linarith
  · split at above <;> linarith

/-- No number reads back as two doubles. -/
theorem place_eq_of_holds {number : ℚ} (first : x.place ≠ 0) (second : y.place ≠ 0)
    (one : (Interval.ofDouble x).Holds number) (other : (Interval.ofDouble y).Holds number) :
    x.place = y.place := by
  obtain ⟨here, placed⟩ := Nat.exists_eq_succ_of_ne_zero first
  obtain ⟨there, set⟩ := Nat.exists_eq_succ_of_ne_zero second
  rw [Interval.ofDouble_holds_iff placed] at one
  rw [Interval.ofDouble_holds_iff set] at other
  rcases Nat.lt_trichotomy here there with before | same | after
  · exact absurd other (not_near_of_lt before one)
  · rw [placed, set, same]
  · exact absurd one (not_near_of_lt after other)

/-! ## Shortest decimals -/

theorem Interval.holds_of_nearest? {interval : Interval} {tie : TieRule} {grid : Int}
    {coefficient : Nat} (found : interval.nearest? tie grid = some coefficient) :
    interval.holds grid coefficient = true := by
  unfold nearest? at found
  dsimp only at found
  split at found
  · cases found
  · rename_i below above
    cases found
    exact below
  · rename_i below above
    cases found
    exact above
  · rename_i below above
    split at found
    · cases found
      exact below
    · cases found
      exact above
    · cases found
      split
      · exact below
      · exact above
    · cases found
      exact above

theorem holds_of_search {interval : Interval} {tie : TieRule} {steps : Nat} {grid : Int}
    {decimal : Decimal} (found : search interval tie steps grid = some decimal) :
    interval.Holds decimal.number := by
  induction steps generalizing grid with
  | zero => cases found
  | succ steps ih =>
      rw [search] at found
      split at found
      · rename_i coefficient nearest
        cases found
        exact (interval.holds_iff grid coefficient).mp (Interval.holds_of_nearest? nearest)
      · exact ih found

/-- The exact value, which is taken should no shorter decimal be found. -/
theorem number_exact (middle : Nat) (unit : Int) :
    number ⟨middle * Nat.pow 2 unit.toNat * Nat.pow 5 (-unit).toNat, min unit 0⟩ =
      middle * 2 ^ unit := by
  have powers : Nat.pow 2 unit.toNat = 2 ^ unit.toNat ∧
      Nat.pow 5 (-unit).toNat = 5 ^ (-unit).toNat := ⟨rfl, rfl⟩
  have exponent : min unit 0 = -((-unit).toNat : Int) := by omega
  have whole : (2 : ℚ) ^ unit * 2 ^ (-unit).toNat = 2 ^ unit.toNat :=
    zpow_mul_pow_toNat_neg two_ne_zero unit
  have tens : (10 : ℚ) ^ (-unit).toNat = 2 ^ (-unit).toNat * 5 ^ (-unit).toNat := by
    rw [← mul_pow]
    norm_num
  rw [number, powers.1, powers.2, exponent, zpow_neg, zpow_natCast, tens]
  push_cast
  rw [← whole]
  field_simp

/-- The shortest decimal of a double reads back as this double. -/
theorem holds_shortest (tie : TieRule) (nonzero : x.place ≠ 0) :
    (Interval.ofDouble x).Holds (shortest tie x).number := by
  unfold shortest
  dsimp only
  split
  · rename_i decimal found
    exact holds_of_search found
  · have counted := significandAt_pos nonzero
    rw [number_exact]
    refine Interval.holds_middle _ ?_ ?_
    · rw [Interval.ofDouble_eq]
      dsimp only
      split <;> omega
    · rw [Interval.ofDouble_eq]
      dsimp only
      omega

theorem halfway_pos (place : Nat) : 0 < halfway place := by
  have power := two_zpow_pos (powerAt place)
  have value : 0 ≤ valueAt place := by
    rw [valueAt]
    positivity
  rw [halfway]
  linarith

theorem number_shortest_pos (tie : TieRule) (nonzero : x.place ≠ 0) :
    0 < (shortest tie x).number := by
  obtain ⟨place, here⟩ := Nat.exists_eq_succ_of_ne_zero nonzero
  have held := (Interval.ofDouble_holds_iff here _).mp (holds_shortest tie nonzero)
  have positive := halfway_pos place
  unfold Near at held
  split at held <;> linarith

theorem coefficient_shortest_ne_zero (tie : TieRule) (nonzero : x.place ≠ 0) :
    (shortest tie x).coefficient ≠ 0 := by
  intro zero
  have positive := number_shortest_pos tie nonzero
  rw [number, zero, Nat.cast_zero, zero_mul] at positive
  exact lt_irrefl _ positive

/-- Doubles with the same shortest decimal have the same place. -/
theorem place_eq_of_number_eq {tie other : TieRule} (first : x.place ≠ 0) (second : y.place ≠ 0)
    (same : (shortest tie x).number = (shortest other y).number) : x.place = y.place := by
  have one := holds_shortest tie first
  rw [same] at one
  exact place_eq_of_holds first second one (holds_shortest other second)

end Decimal

end LinkAtlas
