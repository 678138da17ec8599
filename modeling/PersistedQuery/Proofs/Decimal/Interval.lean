import Mathlib.Algebra.Order.Field.Power
import Mathlib.Tactic.Linarith
import Mathlib.Tactic.Positivity
import Mathlib.Tactic.Ring
import PersistedQuery.Decimal.Shortest

/-!
# Rounding intervals

The decimals that are read as a double are the rationals of an interval around it (`Double.isRead_iff_covers`).  Between
a double and another one of greater magnitude stands the middle of the two, which neither interval passes and which
belongs to one of them at most, the one with the even significand.

* `Double.Covers.nearest`: the rationals of the interval are those to which the double is nearest.
* `Double.magnitude_eq_of_covers`: so no rational is read as two doubles of different magnitudes.
* `Double.ext_magnitude`: a double is its sign and its magnitude.
-/

namespace PersistedQuery

namespace Double

/-! ### The interval of a double -/

/-- The lower end of the interval, in quarters of the unit. -/
def lowEnd (x : Double) : Nat := 4 * x.significand - if x.isNarrowBelow then 1 else 2

/-- The upper end of the interval, in quarters of the unit. -/
def highEnd (x : Double) : Nat := 4 * x.significand + 2

/-- A quarter of the unit. -/
def quarter (x : Double) : ℚ := 2 ^ (x.exponent - 2)

/-- The rational is in the interval of the double, to which the ends belong if the significand is even. -/
def Covers (x : Double) (r : ℚ) : Prop :=
  if x.significand % 2 = 0 then x.lowEnd * x.quarter ≤ r ∧ r ≤ x.highEnd * x.quarter
  else x.lowEnd * x.quarter < r ∧ r < x.highEnd * x.quarter

theorem quarter_pos (x : Double) : 0 < x.quarter := by
  unfold quarter
  positivity

private theorem zpow_mul_pow_toNat_neg {b : ℚ} (hb : b ≠ 0) (k : Int) : b ^ k * b ^ (-k).toNat = b ^ k.toNat := by
  have split : k + ((-k).toNat : Int) = (k.toNat : Int) := by omega
  rw [← zpow_natCast, ← zpow_natCast, ← zpow_add₀ hb, split]

/-- A power of ten in quarters of the unit. -/
theorem stepNum_mul_quarter (x : Double) (k : Int) : (x.stepNum k : ℚ) * x.quarter = 10 ^ k * x.stepDen k := by
  have ten := zpow_mul_pow_toNat_neg (show (10 : ℚ) ≠ 0 by norm_num) k
  have two := zpow_mul_pow_toNat_neg (show (2 : ℚ) ≠ 0 by norm_num) (x.exponent - 2)
  rw [show -(x.exponent - 2) = 2 - x.exponent by omega] at two
  have num : (x.stepNum k : ℚ) = 10 ^ k.toNat * 2 ^ (2 - x.exponent).toNat := by
    unfold stepNum
    push_cast [Nat.pow_eq]
    rfl
  have den : (x.stepDen k : ℚ) = 10 ^ (-k).toNat * 2 ^ (x.exponent - 2).toNat := by
    unfold stepDen
    push_cast [Nat.pow_eq]
    rfl
  rw [num, den, ← ten, ← two, quarter]
  ring

theorem stepDen_pos (x : Double) (k : Int) : 0 < x.stepDen k := by
  unfold stepDen
  rw [Nat.pow_eq, Nat.pow_eq]
  positivity

/-- Multiples of a power of ten are read as the double exactly if they are in its interval. -/
theorem isRead_iff_covers (x : Double) (k : Int) (p : Nat) : x.isRead k p = true ↔ x.Covers (p * 10 ^ k) := by
  have den : (0 : ℚ) < x.stepDen k := by exact_mod_cast x.stepDen_pos k
  have quarter := x.quarter_pos
  have step := x.stepNum_mul_quarter k
  -- both sides of a comparison are counted in quarters, times the denominator of the step
  have scaled : (p : ℚ) * 10 ^ k * x.stepDen k = ((p * x.stepNum k : ℕ) : ℚ) * x.quarter := by
    push_cast
    rw [mul_assoc, ← step, mul_assoc]
  have le_iff (n : ℕ) : n * x.quarter ≤ p * 10 ^ k ↔ n * x.stepDen k ≤ p * x.stepNum k := by
    rw [← mul_le_mul_iff_left₀ den, scaled, mul_right_comm, mul_le_mul_iff_left₀ quarter]
    exact_mod_cast Iff.rfl
  have ge_iff (n : ℕ) : p * 10 ^ k ≤ n * x.quarter ↔ p * x.stepNum k ≤ n * x.stepDen k := by
    rw [← mul_le_mul_iff_left₀ den, scaled, mul_right_comm, mul_le_mul_iff_left₀ quarter]
    exact_mod_cast Iff.rfl
  have lt_iff (n : ℕ) : n * x.quarter < p * 10 ^ k ↔ n * x.stepDen k < p * x.stepNum k := by
    rw [← not_le, ge_iff, not_le]
  have gt_iff (n : ℕ) : p * 10 ^ k < n * x.quarter ↔ p * x.stepNum k < n * x.stepDen k := by
    rw [← not_le, le_iff, not_le]
  unfold isRead rounds Covers
  rw [le_iff, ge_iff, lt_iff, gt_iff]
  by_cases even : x.significand % 2 = 0
  · rw [if_pos even]
    simp [even, lowEnd, highEnd]
  · rw [if_neg even]
    simp [even, lowEnd, highEnd]

/-! ### Intervals of different magnitudes -/

/-- The bits without the sign. -/
def magnitude (x : Double) : Nat := x.exponentField * leadingBit + x.fraction

theorem fraction_lt (x : Double) : x.fraction < leadingBit := Nat.mod_lt _ (by decide)

theorem significand_add (x : Double) :
    x.significand + (max x.exponentField 1 - 1) * leadingBit = x.magnitude := by
  unfold significand magnitude leadingBit
  split
  · rename_i subnormal
    simp [subnormal]
  · omega

theorem significand_lt (x : Double) : x.significand < 2 * leadingBit := by
  have := x.fraction_lt
  unfold significand
  split <;> omega

private theorem significand_of_normal {x : Double} (h : 0 < x.exponentField) :
    x.significand = leadingBit + x.fraction := by
  unfold significand
  rw [if_neg (by omega)]

private theorem isNarrowBelow_iff (x : Double) :
    x.isNarrowBelow = true ↔ x.fraction = 0 ∧ 1 < x.exponentField := by
  simp [isNarrowBelow]

/-- The lower end is at most half a unit below. -/
private theorem lowEnd_eq (x : Double) :
    x.lowEnd = 4 * x.significand - 1 ∧ x.isNarrowBelow = true ∨
      x.lowEnd = 4 * x.significand - 2 ∧ x.isNarrowBelow = false := by
  unfold lowEnd
  cases x.isNarrowBelow <;> simp

/-- The middle between two doubles, in quarters of the unit of `x`, if the unit of `y` is `2 ^ j` of that. -/
private def middle (x y : Double) (j : Nat) : Nat := 2 * x.significand + 2 * (y.significand * 2 ^ j)

/-- The middle is not in front of the end of the lower interval and not behind the beginning of the upper one, and
outside of both if both significands are even. -/
private def Parts (x y : Double) (j : Nat) : Prop :=
  x.highEnd ≤ middle x y j ∧ middle x y j ≤ y.lowEnd * 2 ^ j ∧
    (x.significand % 2 = 0 → y.significand % 2 = 0 → x.highEnd < middle x y j ∧ middle x y j < y.lowEnd * 2 ^ j)

private theorem parts_of_same_exponent {x y : Double} (same : max x.exponentField 1 = max y.exponentField 1)
    (h : x.magnitude < y.magnitude) : Parts x y 0 := by
  have less : x.significand < y.significand := by
    rw [← significand_add, ← significand_add, same] at h
    omega
  unfold Parts middle highEnd
  rcases lowEnd_eq y with ⟨low, narrow⟩ | ⟨low, -⟩
  · -- no smaller significand has the exponent of a power of two
    obtain ⟨fraction, normal⟩ := (isNarrowBelow_iff y).1 narrow
    have := significand_of_normal (x := x) (by omega)
    have := significand_of_normal (x := y) (by omega)
    omega
  · omega

private theorem parts_of_lt_exponent {x y : Double} (lt : max x.exponentField 1 < max y.exponentField 1) (j : Nat) :
    Parts x y (j + 1) := by
  have bound := x.significand_lt
  have normal := significand_of_normal (x := y) (by omega)
  unfold leadingBit at bound normal
  have more (n : Nat) : 2 * n ≤ n * 2 ^ (j + 1) := by
    rw [Nat.pow_succ', Nat.mul_left_comm]
    exact Nat.mul_le_mul_left 2 (Nat.le_mul_of_pos_right n (Nat.two_pow_pos j))
  have upper := more y.significand
  have lower (c : Nat) (few : c ≤ 2) : 2 * (y.significand * 2 ^ (j + 1)) + 2 * (2 * y.significand - c) ≤
      (4 * y.significand - c) * 2 ^ (j + 1) := by
    have split : 4 * y.significand - c = 2 * y.significand + (2 * y.significand - c) := by omega
    rw [split, Nat.add_mul, Nat.mul_assoc]
    exact Nat.add_le_add_left (more _) _
  unfold Parts middle highEnd
  rcases lowEnd_eq y with ⟨low, -⟩ | ⟨low, wide⟩
  · have := lower 1 (by omega)
    rw [low]
    omega
  · -- above a power of two the whole unit below has the same length
    have fractional : y.fraction ≠ 0 := by
      intro zero
      have narrow := (isNarrowBelow_iff y).2 ⟨zero, by omega⟩
      rw [wide] at narrow
      cases narrow
    have := lower 2 (by omega)
    rw [low]
    omega

/-- The middle parts the intervals of doubles of different magnitudes. -/
private theorem exists_parts {x y : Double} (h : x.magnitude < y.magnitude) :
    ∃ j : Nat, y.exponent = x.exponent + j ∧ Parts x y j := by
  have order : max x.exponentField 1 ≤ max y.exponentField 1 := by
    have := y.fraction_lt
    unfold magnitude leadingBit at *
    omega
  obtain ⟨j, step⟩ := Nat.exists_eq_add_of_le order
  refine ⟨j, ?_, ?_⟩
  · unfold exponent
    omega
  · cases j with
    | zero => exact parts_of_same_exponent (by omega) h
    | succ j => exact parts_of_lt_exponent (by omega) j

/-! ### The nearest double -/

/-- The number that a finite double stands for, its sign apart. -/
def amount (x : Double) : ℚ := x.significand * 2 ^ x.exponent

private theorem amount_eq (x : Double) : x.amount = 4 * x.significand * x.quarter := by
  have unit : (2 : ℚ) ^ x.exponent = 4 * x.quarter := by
    rw [quarter, zpow_sub₀ (by norm_num)]
    norm_num
    ring
  rw [amount, unit]
  ring

private theorem middle_bounds {x y : Double} (h : x.magnitude < y.magnitude) :
    x.highEnd * x.quarter ≤ (x.amount + y.amount) / 2 ∧ (x.amount + y.amount) / 2 ≤ y.lowEnd * y.quarter ∧
      (x.significand % 2 = 0 → y.significand % 2 = 0 →
        x.highEnd * x.quarter < (x.amount + y.amount) / 2 ∧ (x.amount + y.amount) / 2 < y.lowEnd * y.quarter) := by
  obtain ⟨j, exponent, above, below, strict⟩ := exists_parts h
  have quarter := x.quarter_pos
  have scale : y.quarter = 2 ^ j * x.quarter := by
    unfold Double.quarter
    rw [exponent, ← zpow_natCast, ← zpow_add₀ (by norm_num)]
    congr 1
    omega
  have half : (x.amount + y.amount) / 2 = (middle x y j : ℕ) * x.quarter := by
    rw [amount_eq, amount_eq, scale, middle]
    push_cast
    ring
  have low : (y.lowEnd : ℚ) * y.quarter = ((y.lowEnd * 2 ^ j : ℕ) : ℚ) * x.quarter := by
    rw [scale]
    push_cast
    ring
  rw [half, low, mul_le_mul_iff_left₀ quarter, mul_le_mul_iff_left₀ quarter, mul_lt_mul_iff_left₀ quarter,
    mul_lt_mul_iff_left₀ quarter]
  exact ⟨by exact_mod_cast above, by exact_mod_cast below, fun evenX evenY => by exact_mod_cast strict evenX evenY⟩

theorem amount_lt {x y : Double} (h : x.magnitude < y.magnitude) : x.amount < y.amount := by
  have bounds := (middle_bounds h).1
  have quarter := x.quarter_pos
  have high : (x.highEnd : ℚ) * x.quarter = x.amount + 2 * x.quarter := by
    rw [amount_eq, highEnd]
    push_cast
    ring
  linarith

/-- The interval lies between its ends, and strictly so if the significand is odd. -/
theorem Covers.bounds {x : Double} {r : ℚ} (h : x.Covers r) :
    x.lowEnd * x.quarter ≤ r ∧ r ≤ x.highEnd * x.quarter ∧
      (x.significand % 2 ≠ 0 → x.lowEnd * x.quarter < r ∧ r < x.highEnd * x.quarter) := by
  unfold Covers at h
  split at h
  · rename_i even
    exact ⟨h.1, h.2, fun odd => absurd even odd⟩
  · exact ⟨h.1.le, h.2.le, fun _ => h⟩

private theorem abs_sub_le_of_le_middle {a b r : ℚ} (lt : a < b) (le : r ≤ (a + b) / 2) :
    |r - a| ≤ |r - b| ∧ (|r - a| = |r - b| → r = (a + b) / 2) := by
  have right : |r - b| = b - r := by
    rw [abs_sub_comm]
    exact abs_of_nonneg (by linarith)
  rw [right]
  refine ⟨abs_le.2 ⟨by linarith, by linarith⟩, fun same => ?_⟩
  rcases abs_cases (r - a) with ⟨eq, -⟩ | ⟨eq, -⟩
  · linarith
  · linarith

private theorem abs_sub_le_of_middle_le {a b r : ℚ} (lt : a < b) (le : (a + b) / 2 ≤ r) :
    |r - b| ≤ |r - a| ∧ (|r - b| = |r - a| → r = (a + b) / 2) := by
  have left : |r - a| = r - a := abs_of_nonneg (by linarith)
  rw [left]
  refine ⟨abs_le.2 ⟨by linarith, by linarith⟩, fun same => ?_⟩
  rcases abs_cases (r - b) with ⟨eq, -⟩ | ⟨eq, -⟩
  · linarith
  · linarith

/-- What a double covers is at least as near to it as to any double of another magnitude, and if it is as near to that
one, the significand of the first is even and that of the other one is odd. -/
theorem Covers.nearest {x y : Double} {r : ℚ} (h : x.Covers r) (ne : x.magnitude ≠ y.magnitude) :
    |r - x.amount| ≤ |r - y.amount| ∧
      (|r - x.amount| = |r - y.amount| → x.significand % 2 = 0 ∧ y.significand % 2 ≠ 0) := by
  obtain ⟨low, high, strict⟩ := h.bounds
  rcases Nat.lt_or_gt_of_ne ne with lt | gt
  · obtain ⟨end_le, -, apart⟩ := middle_bounds lt
    obtain ⟨near, tie⟩ := abs_sub_le_of_le_middle (amount_lt lt) (high.trans end_le)
    refine ⟨near, fun same => ?_⟩
    have half := tie same
    have even : x.significand % 2 = 0 := by
      by_contra odd
      linarith [(strict odd).2]
    refine ⟨even, fun evenY => ?_⟩
    linarith [(apart even evenY).1]
  · obtain ⟨-, le_start, apart⟩ := middle_bounds gt
    obtain ⟨near, tie⟩ := abs_sub_le_of_middle_le (amount_lt gt) (le_start.trans low)
    refine ⟨near, fun same => ?_⟩
    have half := tie same
    have even : x.significand % 2 = 0 := by
      by_contra odd
      linarith [(strict odd).1]
    refine ⟨even, fun evenY => ?_⟩
    linarith [(apart evenY even).2]

/-- A rational is read as doubles of one magnitude only. -/
theorem magnitude_eq_of_covers {x y : Double} {r : ℚ} (hx : x.Covers r) (hy : y.Covers r) :
    x.magnitude = y.magnitude := by
  by_contra ne
  obtain ⟨nearX, tie⟩ := hx.nearest ne
  obtain ⟨nearY, tie'⟩ := hy.nearest (Ne.symm ne)
  have same := le_antisymm nearX nearY
  exact (tie same).2 (tie' same.symm).1

/-- A double is its sign and its magnitude. -/
theorem ext_magnitude {x y : Double} (sign : x.isNegative = y.isNegative) (magnitude : x.magnitude = y.magnitude) :
    x = y := by
  have whole (z : Double) : z.bits.toNat = (if z.isNegative then 2 ^ 63 else 0) + z.magnitude := by
    have bound := z.bits.toNat_lt
    unfold isNegative Double.magnitude exponentField fraction leadingBit
    rw [Nat.testBit_eq_decide_div_mod_eq]
    simp only [decide_eq_true_eq]
    split <;> omega
  have bits : x.bits.toNat = y.bits.toNat := by
    rw [whole, whole, sign, magnitude]
  cases x
  cases y
  exact congrArg Double.mk (UInt64.toNat_inj.1 bits)

end Double

end PersistedQuery
