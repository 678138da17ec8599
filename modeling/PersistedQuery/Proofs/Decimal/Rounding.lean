import PersistedQuery.Proofs.Decimal.Reading

/-!
# Rounding to the nearest double

Reading a number rounds the rational that it stands for to the nearest double, and of two that are equally near to the
one with the even significand; its sign is that of the text, also where the number is zero.  `Double.IsNearest` and
`Double.ReadFrom` say so without the interval that the search for the shortest decimal goes by.

* `Double.readFrom_text_iff`: what is read from the text of a finite double is the double itself.
-/

namespace PersistedQuery

/-- The rational of this absolute value and sign. -/
def signed (isNegative : Bool) (a : ℚ) : ℚ := if isNegative then -a else a

private theorem signed_sub_signed (b : Bool) (a c : ℚ) : |signed b a - signed b c| = |a - c| := by
  cases b with
  | false => rfl
  | true =>
    have swap : signed true a - signed true c = -(a - c) := by
      simp only [signed, if_true]
      ring
    rw [swap, abs_neg]

private theorem signed_sub_signed_of_ne {b b' : Bool} (h : b' ≠ b) {a c : ℚ} (ha : 0 ≤ a) (hc : 0 ≤ c) :
    |signed b a - signed b' c| = a + c := by
  cases b <;> cases b'
  · exact absurd rfl h
  · simp only [signed, if_true]
    rw [if_neg (by decide), sub_neg_eq_add, abs_of_nonneg (by linarith)]
  · simp only [signed, if_true]
    rw [if_neg (by decide), ← neg_add', abs_neg, abs_of_nonneg (by linarith)]
  · exact absurd rfl h

namespace Double

/-- The number that a finite double stands for. -/
def value (x : Double) : ℚ := signed x.isNegative x.amount

/-- The rational is rounded to the double.  From half a unit above the greatest finite double on it would be rounded to
an infinite one. -/
structure IsNearest (x : Double) (r : ℚ) : Prop where
  isFinite : x.isFinite = true
  inRange : |r| < 2 ^ 1024 - 2 ^ 970
  nearest (y : Double) (finite : y.isFinite = true) : |r - x.value| ≤ |r - y.value|
  even (y : Double) (finite : y.isFinite = true) (other : y.value ≠ x.value)
    (tie : |r - y.value| = |r - x.value|) : x.significand % 2 = 0

variable {x y : Double} {a : ℚ}

theorem amount_nonneg (x : Double) : 0 ≤ x.amount := by
  unfold amount
  positivity

private theorem Covers.nonneg (h : x.Covers a) : 0 ≤ a := by
  have low : 0 ≤ (x.lowEnd : ℚ) * x.quarter := mul_nonneg (Nat.cast_nonneg _) x.quarter_pos.le
  exact low.trans h.bounds.1

/-- Zero is not nearer than the double. -/
private theorem Covers.le_self (h : x.Covers a) :
    |a - x.amount| ≤ a ∧ (|a - x.amount| = a → x.significand % 2 = 0) := by
  have zero : (⟨0⟩ : Double).amount = 0 := by
    simp [amount, significand, fraction, exponentField]
  by_cases same : x.magnitude = (⟨0⟩ : Double).magnitude
  · have empty : x.significand = 0 := by
      have parts := x.significand_add
      rw [same, show (⟨0⟩ : Double).magnitude = 0 by decide] at parts
      omega
    refine ⟨?_, fun _ => by rw [empty]⟩
    rw [amount, empty, Nat.cast_zero, zero_mul, sub_zero, abs_of_nonneg h.nonneg]
  · obtain ⟨near, tie⟩ := h.nearest same
    rw [zero, sub_zero, abs_of_nonneg h.nonneg] at near tie
    exact ⟨near, fun same => (tie same).1⟩

/-- A double that covers a rational of its own sign is nearest to it, and if another one is as near, it is even. -/
private theorem Covers.nearest_value (h : x.Covers a) (y : Double) :
    |signed x.isNegative a - x.value| ≤ |signed x.isNegative a - y.value| ∧
      (|signed x.isNegative a - y.value| = |signed x.isNegative a - x.value| → y.value ≠ x.value →
        x.significand % 2 = 0) := by
  rw [value, signed_sub_signed, value]
  by_cases sign : y.isNegative = x.isNegative
  · rw [sign, signed_sub_signed]
    by_cases same : x.magnitude = y.magnitude
    · rw [ext_magnitude sign same.symm]
      exact ⟨le_rfl, fun _ other => absurd rfl other⟩
    · obtain ⟨near, tie⟩ := h.nearest same
      exact ⟨near, fun equal _ => (tie equal.symm).1⟩
  · rw [signed_sub_signed_of_ne sign h.nonneg y.amount_nonneg]
    obtain ⟨near, tie⟩ := h.le_self
    have more := y.amount_nonneg
    exact ⟨by linarith, fun equal _ => tie (by linarith)⟩

private theorem Covers.lt_bound (finite : x.isFinite = true) (h : x.Covers a) : a < 2 ^ 1024 - 2 ^ 970 := by
  obtain ⟨-, high, strict⟩ := h.bounds
  have unit : x.quarter ≤ 2 ^ 969 := by
    unfold quarter
    rw [← zpow_natCast]
    exact zpow_le_zpow_right₀ (by norm_num) (by have := (exponent_bounds finite).2; omega)
  have bound : (2 : ℚ) ^ 1024 - 2 ^ 970 = (2 ^ 55 - 2) * 2 ^ 969 := by
    rw [sub_mul, ← pow_add, ← pow_succ']
  rw [bound]
  generalize (2 : ℚ) ^ 969 = top at unit
  have few := x.significand_lt
  have quarter := x.quarter_pos
  unfold leadingBit at few
  have scaled (n : Nat) (le : n ≤ 2 ^ 55 - 2) : (n : ℚ) * x.quarter ≤ (2 ^ 55 - 2) * top := by
    have cast : (n : ℚ) ≤ 2 ^ 55 - 2 := by
      have real : ((2 ^ 55 - 2 : ℕ) : ℚ) = 2 ^ 55 - 2 := by norm_num
      rw [← real]
      exact_mod_cast le
    exact mul_le_mul cast unit quarter.le (by norm_num)
  by_cases even : x.significand % 2 = 0
  · have less := scaled (x.highEnd + 1) (by unfold highEnd; omega)
    push_cast at less
    linarith
  · have less := scaled x.highEnd (by unfold highEnd; omega)
    linarith [(strict even).2]

/-- Rationals of the sign of a double that it covers are rounded to it. -/
theorem Covers.isNearest (finite : x.isFinite = true) (h : x.Covers a) : x.IsNearest (signed x.isNegative a) where
  isFinite := finite
  inRange := by
    have size : |signed x.isNegative a| = a := by
      unfold signed
      split
      · rw [abs_neg, abs_of_nonneg h.nonneg]
      · exact abs_of_nonneg h.nonneg
    rw [size]
    exact h.lt_bound finite
  nearest y _ := (h.nearest_value y).1
  even y _ other tie := (h.nearest_value y).2 tie other

/-- They are rounded to no other double of that sign. -/
theorem Covers.eq_of_isNearest (finite : x.isFinite = true) (h : x.Covers a) (sign : y.isNegative = x.isNegative)
    (hy : y.IsNearest (signed x.isNegative a)) : y = x := by
  by_contra ne
  have magnitude : x.magnitude ≠ y.magnitude := fun same => ne (ext_magnitude sign same.symm)
  obtain ⟨near, tie⟩ := h.nearest magnitude
  have near' := hy.nearest x finite
  have even := hy.even x finite
  simp only [value, sign, signed_sub_signed] at near' even
  have equal := le_antisymm near near'
  have other : signed x.isNegative x.amount ≠ signed x.isNegative y.amount := by
    intro same
    have zero : |x.amount - y.amount| = 0 := by
      rw [← signed_sub_signed x.isNegative, same, sub_self, abs_zero]
    have amounts := sub_eq_zero.1 (abs_eq_zero.1 zero)
    rcases Nat.lt_or_gt_of_ne magnitude with lt | gt
    · exact (amount_lt lt).ne amounts
    · exact (amount_lt gt).ne' amounts
  exact (tie equal).2 (even other equal)

end Double

/-! ### Reading the text of a double -/

/-- The rational that a number stands for. -/
def Text.number (t : List Char) : ℚ := signed (t.head? = some '-') (Text.amount (Text.unsigned t))

/-- The number is read as the double: its rational is rounded to it, and the signs are the same. -/
structure Double.ReadFrom (x : Double) (t : List Char) : Prop where
  sign : x.isNegative = true ↔ t.head? = some '-'
  nearest : x.IsNearest (Text.number t)

/-- What is read from the text of a finite double is the double itself. -/
theorem Double.readFrom_text_iff (l : Layout) {x : Double} (finite : x.isFinite = true) (y : Double) :
    y.ReadFrom (x.text l) ↔ y = x := by
  have covers := covers_amount_text l finite
  have sign : x.isNegative = decide ((x.text l).head? = some '-') := by
    rw [Bool.eq_iff_iff, decide_eq_true_eq, head?_text_iff l finite]
  have number : Text.number (x.text l) = signed x.isNegative (Text.amount (Text.unsigned (x.text l))) := by
    rw [Text.number, sign]
  constructor
  · intro read
    have same : y.isNegative = x.isNegative := by
      rw [Bool.eq_iff_iff, read.sign, head?_text_iff l finite]
    have nearest := read.nearest
    rw [number] at nearest
    exact covers.eq_of_isNearest finite same nearest
  · rintro rfl
    refine ⟨(head?_text_iff l finite).symm, ?_⟩
    rw [number]
    exact covers.isNearest finite

end PersistedQuery
