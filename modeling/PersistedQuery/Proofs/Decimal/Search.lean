import PersistedQuery.Proofs.Decimal.Interval

/-!
# The search for the shortest decimal

The last grid that is searched has steps of at most a quarter of the unit (`Double.stepNum_le_stepDen`), so it has a
point in the interval of the double just below the double itself.  The search therefore ends with a decimal that is read
as the double (`Double.isRead_shortest`).
-/

namespace PersistedQuery

namespace Double

/-- Of multiples that lie at most a quarter of the unit apart, the one below the double is read as it. -/
private theorem isRead_below {x : Double} {k : Int} (fine : x.stepNum k ≤ x.stepDen k) (positive : 0 < x.significand) :
    x.isRead k (4 * x.significand * x.stepDen k / x.stepNum k) = true := by
  have pos : 0 < x.stepNum k := by
    unfold stepNum
    rw [Nat.pow_eq, Nat.pow_eq]
    positivity
  unfold isRead rounds
  generalize x.stepNum k = num at *
  generalize x.stepDen k = den at *
  have le : 4 * x.significand * den / num * num ≤ 4 * x.significand * den := Nat.div_mul_le_self _ _
  have lt : 4 * x.significand * den < 4 * x.significand * den / num * num + num := Nat.lt_div_mul_add pos
  generalize 4 * x.significand * den / num = p at *
  have low (c : Nat) (positive : 0 < c) (few : c ≤ 2) : (4 * x.significand - c) * den < p * num := by
    have quarter : (4 * x.significand - c + 1) * den ≤ 4 * x.significand * den :=
      Nat.mul_le_mul_right den (by omega)
    rw [Nat.add_mul] at quarter
    omega
  have below : (4 * x.significand - if x.isNarrowBelow then 1 else 2) * den < p * num := by
    split
    · exact low 1 (by omega) (by omega)
    · exact low 2 (by omega) (by omega)
  have above : p * num < (4 * x.significand + 2) * den := by
    rw [Nat.add_mul]
    omega
  by_cases even : x.significand % 2 = 0
  · rw [if_pos even, decide_eq_true below.le, decide_eq_true above.le]
    rfl
  · rw [if_neg even, decide_eq_true below, decide_eq_true above]
    rfl

/-! ### Powers of ten and of two -/

private theorem ten_pow_le_two_pow {k n : Nat} (h : 196 * k ≤ 59 * n) : 10 ^ k ≤ 2 ^ n := by
  rw [← Nat.pow_le_pow_iff_left (show 59 ≠ 0 by decide)]
  calc (10 ^ k) ^ 59 = (10 ^ 59) ^ k := by rw [← Nat.pow_mul, ← Nat.pow_mul, Nat.mul_comm]
    _ ≤ (2 ^ 196) ^ k := Nat.pow_le_pow_left (by decide) k
    _ = 2 ^ (196 * k) := (Nat.pow_mul ..).symm
    _ ≤ 2 ^ (59 * n) := Nat.pow_le_pow_right (by decide) h
    _ = (2 ^ n) ^ 59 := by rw [← Nat.pow_mul, Nat.mul_comm]

private theorem two_pow_le_ten_pow {n k : Nat} (h : 28 * n ≤ 93 * k) : 2 ^ n ≤ 10 ^ k := by
  rw [← Nat.pow_le_pow_iff_left (show 28 ≠ 0 by decide)]
  calc (2 ^ n) ^ 28 = 2 ^ (28 * n) := by rw [← Nat.pow_mul, Nat.mul_comm]
    _ ≤ 2 ^ (93 * k) := Nat.pow_le_pow_right (by decide) h
    _ = (2 ^ 93) ^ k := Nat.pow_mul ..
    _ ≤ (10 ^ 28) ^ k := Nat.pow_le_pow_left (by decide) k
    _ = (10 ^ k) ^ 28 := by rw [← Nat.pow_mul, ← Nat.pow_mul, Nat.mul_comm]

theorem exponent_bounds {x : Double} (h : x.isFinite = true) : -1074 ≤ x.exponent ∧ x.exponent ≤ 971 := by
  have finite : x.exponentField ≠ 0x7ff := by simpa [isFinite] using h
  have field : x.exponentField < 0x800 := Nat.mod_lt _ (by decide)
  unfold exponent
  omega

/-- The steps of the last grid are at most a quarter of the unit of any finite double. -/
theorem stepNum_le_stepDen {x : Double} (h : x.isFinite = true) :
    x.stepNum (x.topExponent - 19) ≤ x.stepDen (x.topExponent - 19) := by
  have bounds := exponent_bounds h
  unfold stepNum stepDen topExponent
  rw [Nat.pow_eq, Nat.pow_eq, Nat.pow_eq, Nat.pow_eq]
  generalize x.exponent = q at *
  generalize top : (q + 54) * 30103 / 100000 + 1 - 19 = k
  by_cases ge : 0 ≤ k
  · have pow : 10 ^ k.toNat ≤ 2 ^ (q - 2).toNat := ten_pow_le_two_pow (by omega)
    rw [show (2 - q).toNat = 0 by omega, show (-k).toNat = 0 by omega]
    simpa using pow
  · rw [show k.toNat = 0 by omega]
    by_cases unit : 2 ≤ q
    · rw [show (2 - q).toNat = 0 by omega]
      have pos : 0 < 10 ^ (-k).toNat * 2 ^ (q - 2).toNat := by positivity
      rw [pow_zero, pow_zero, mul_one]
      exact pos
    · have pow : 2 ^ (2 - q).toNat ≤ 10 ^ (-k).toNat := two_pow_le_ten_pow (by omega)
      rw [show (q - 2).toNat = 0 by omega]
      simpa using pow

/-! ### The decimal that is found -/

private theorem nearest?_isSome {tie : Tie} {x : Double} {k : Int}
    (h : x.isRead k (4 * x.significand * x.stepDen k / x.stepNum k) = true) : (x.nearest? tie k).isSome := by
  unfold nearest?
  simp only [h]
  cases x.isRead k (4 * x.significand * x.stepDen k / x.stepNum k + 1) with
  | false => rfl
  | true =>
    simp only
    split <;> rfl

/-- The shortest decimal of a finite double other than zero is read as the double. -/
theorem isRead_shortest {x : Double} (tie : Tie) (h : x.isFinite = true) (positive : 0 < x.significand) :
    x.isRead (x.shortest tie).exponent (x.shortest tie).digits = true := by
  have last : (x.nearest? tie (x.topExponent - 19)).isSome :=
    nearest?_isSome (isRead_below (stepNum_le_stepDen h) positive)
  unfold shortest
  generalize search : (fun i : Nat => (x.nearest? tie (x.topExponent - i)).map
    fun digits => (⟨digits, x.topExponent - i⟩ : Decimal)) = candidate
  have found : ((List.range 20).findSome? candidate).isSome := by
    rw [List.findSome?_isSome_iff]
    refine ⟨19, by simp, ?_⟩
    rw [← search]
    simpa using last
  obtain ⟨d, eq⟩ := Option.isSome_iff_exists.1 found
  rw [eq, Option.getD_some]
  obtain ⟨i, _, step⟩ := List.exists_of_findSome?_eq_some eq
  rw [← search, Option.map_eq_some_iff] at step
  obtain ⟨digits, nearest, rfl⟩ := step
  exact isRead_of_nearest? nearest

end Double

end PersistedQuery
