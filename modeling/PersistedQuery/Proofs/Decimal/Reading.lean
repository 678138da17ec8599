import PersistedQuery.Decimal.Layout
import PersistedQuery.Proofs.Decimal.Search
import PersistedQuery.Proofs.Spelling

/-!
# Reading decimal text

`Text.amount` is the rational that a number stands for as it is written, its sign apart.  The text of a decimal is read
as that decimal in every layout (`Decimal.amount_text`), so the text of a finite double is read as a rational that
rounds to the double (`Double.covers_amount_text`).  Together with the sign in front the text tells the double
(`Double.text_inj`).
-/

namespace PersistedQuery

namespace Text

/-! ### Numbers as they are read -/

def readDigits (t : List Char) : Nat := Nat.ofDigitChars 10 t 0

/-- Digits after a sign, if there is one. -/
def readInt : List Char → Int
  | '-' :: t => -(readDigits t : Int)
  | '+' :: t | t => readDigits t

/-- What stands before the first mark and what stands after it. -/
def cut (isMark : Char → Bool) (t : List Char) : List Char × List Char :=
  (t.takeWhile (!isMark ·), (t.dropWhile (!isMark ·)).drop 1)

/-- Digits around a point, if there is one. -/
def readMantissa (t : List Char) : ℚ :=
  let (whole, fraction) := cut (· = '.') t
  readDigits (whole ++ fraction) * 10 ^ (-(fraction.length : Int))

/-- The rational that an unsigned number stands for: a mantissa and the power of ten behind a letter `e`, if there is
one. -/
def amount (t : List Char) : ℚ :=
  let (mantissa, exponent) := cut (fun c => c = 'e' || c = 'E') t
  readMantissa mantissa * 10 ^ readInt exponent

/-! ### Integers -/

theorem isDigit_of_mem_toDigits {n : Nat} : ∀ c ∈ Nat.toDigits 10 n, c.isDigit := fun _ mem =>
  Nat.isDigit_of_mem_toDigits (by decide) (by decide) mem

private theorem ne_of_isDigit {c : Char} (h : c.isDigit) (d : Char) (hd : d.isDigit = false) : c ≠ d := by
  rintro rfl
  rw [h] at hd
  cases hd

theorem unsigned_cons {c : Char} (h : c.isDigit) (t : List Char) : unsigned (c :: t) = c :: t := by
  have plus := ne_of_isDigit h '+' rfl
  have minus := ne_of_isDigit h '-' rfl
  unfold unsigned
  split <;> simp_all

theorem readInt_of_digits {t : List Char} (h : ∀ c ∈ t, c.isDigit) : readInt t = readDigits t := by
  unfold readInt
  split
  · exact absurd (h '-' (by simp)) (by decide)
  · exact absurd (h '+' (by simp)) (by decide)
  · rfl

theorem readInt_repr (n : Int) : readInt n.repr.toList = n := by
  rw [Int.repr_eq_if]
  split
  · rw [Nat.toList_repr, readInt_of_digits isDigit_of_mem_toDigits, readDigits, Nat.ofDigitChars_ten_toDigits]
    omega
  · rw [String.toList_append, Nat.toList_repr]
    change -(Nat.ofDigitChars 10 (Nat.toDigits 10 (-n).toNat) 0 : Int) = n
    rw [Nat.ofDigitChars_ten_toDigits]
    omega

/-! ### Parts of a number -/

private theorem cut_append {isMark : Char → Bool} {s : List Char} (hs : ∀ c ∈ s, isMark c = false) {d : Char}
    (hd : isMark d = true) (t : List Char) : cut isMark (s ++ d :: t) = (s, t) := by
  have free : ∀ c ∈ s, (!isMark c) = true := fun c mem => by simp [hs c mem]
  unfold cut
  rw [List.takeWhile_append_of_pos free, List.dropWhile_append_of_pos free]
  simp [hd]

private theorem cut_self {isMark : Char → Bool} {s : List Char} (hs : ∀ c ∈ s, isMark c = false) :
    cut isMark s = (s, []) := by
  induction s with
  | nil => rfl
  | cons c s ih =>
    rw [List.forall_mem_cons] at hs
    have rest := ih hs.2
    simp only [cut, Prod.mk.injEq] at rest ⊢
    simp [hs.1, rest]

private theorem not_point {t : List Char} (h : ∀ c ∈ t, c.isDigit) : ∀ c ∈ t, decide (c = '.') = false := by
  intro c mem
  simpa using ne_of_isDigit (h c mem) '.' rfl

theorem readMantissa_whole {whole : List Char} (h : ∀ c ∈ whole, c.isDigit) :
    readMantissa whole = readDigits whole := by
  have parts : cut (· = '.') whole = (whole, []) := cut_self (not_point h)
  unfold readMantissa
  simp [parts]

theorem readMantissa_point {whole : List Char} (h : ∀ c ∈ whole, c.isDigit) (fraction : List Char) :
    readMantissa (whole ++ '.' :: fraction) = readDigits (whole ++ fraction) * 10 ^ (-(fraction.length : Int)) := by
  have parts : cut (· = '.') (whole ++ '.' :: fraction) = (whole, fraction) :=
    cut_append (not_point h) rfl fraction
  unfold readMantissa
  rw [parts]

section

variable {mantissa : List Char} (h : ∀ c ∈ mantissa, c.isDigit ∨ c = '.')
include h

private theorem not_mark : ∀ c ∈ mantissa, (decide (c = 'e') || decide (c = 'E')) = false := by
  intro c mem
  rcases h c mem with digit | rfl
  · simp [ne_of_isDigit digit 'e' rfl, ne_of_isDigit digit 'E' rfl]
  · rfl

theorem amount_mantissa : amount mantissa = readMantissa mantissa := by
  unfold amount
  rw [cut_self (not_mark h)]
  simp [readInt, readDigits]

theorem amount_exponent (exponent : List Char) :
    amount (mantissa ++ 'e' :: exponent) = readMantissa mantissa * 10 ^ readInt exponent := by
  unfold amount
  rw [cut_append (not_mark h) rfl exponent]

end

/-! ### The layouts of a decimal -/

private theorem isDigit_of_mem_replicate (n : Nat) : ∀ c ∈ List.replicate n '0', c.isDigit := by
  intro c mem
  rw [List.eq_of_mem_replicate mem]
  rfl

section

variable {digits : List Char} (h : ∀ c ∈ digits, c.isDigit) (nonempty : digits ≠ [])
include h nonempty

/-- In positional notation there are digits on both sides of a point, and they are those of the decimal but for zeros
at either end.  The only zero that is added in front stands alone before the point. -/
theorem exists_positional (exponent : Int) : ∃ whole fraction shift,
    positional digits exponent = whole ++ '.' :: fraction ∧ (whole ≠ [] ∧ fraction ≠ []) ∧
      (∀ c ∈ whole, c.isDigit) ∧ (∀ c ∈ fraction, c.isDigit) ∧ (whole = ['0'] ∨ whole.head? = digits.head?) ∧
      readDigits (whole ++ fraction) = 10 ^ shift * readDigits digits ∧
      (fraction.length : Int) = (shift : Nat) - exponent := by
  simp only [positional]
  split
  · -- a whole number, of which some zeros may be written out
    rename_i nonneg
    obtain ⟨n, rfl⟩ := Int.eq_ofNat_of_zero_le nonneg
    refine ⟨digits ++ List.replicate n '0', ['0'], n + 1, rfl, by simp [nonempty], ?_, ?_, ?_, ?_, by simp⟩
    · exact List.forall_mem_append.2 ⟨h, isDigit_of_mem_replicate n⟩
    · exact List.forall_mem_singleton.2 rfl
    · exact .inr (List.head?_append_of_ne_nil _ nonempty)
    · unfold readDigits
      rw [Nat.ofDigitChars_append, Nat.ofDigitChars_append, Nat.ofDigitChars_replicate_zero]
      simp [Nat.ofDigitChars_cons, Nat.pow_succ', Nat.mul_assoc]
  · split
    · -- less than one
      rename_i neg small
      refine ⟨['0'], List.replicate (-(digits.length + exponent)).toNat '0' ++ digits, 0, ?_, ?_, ?_, ?_, ?_, ?_, ?_⟩
      · exact List.append_assoc ..
      · simp [nonempty]
      · exact List.forall_mem_singleton.2 rfl
      · exact List.forall_mem_append.2 ⟨isDigit_of_mem_replicate _, h⟩
      · exact .inl rfl
      · unfold readDigits
        rw [Nat.ofDigitChars_append, Nat.ofDigitChars_append, Nat.ofDigitChars_replicate_zero]
        simp [Nat.ofDigitChars_cons]
      · simp only [List.length_append, List.length_replicate]
        omega
    · -- the point stands between two of the digits
      rename_i neg large
      have length := List.length_pos_iff.2 nonempty
      generalize point : (digits.length + exponent).toNat = n
      refine ⟨digits.take n, digits.drop n, 0, rfl, ⟨?_, ?_⟩, ?_, ?_, ?_, ?_, ?_⟩
      · rw [← List.length_pos_iff, List.length_take]
        omega
      · rw [← List.length_pos_iff, List.length_drop]
        omega
      · exact fun c mem => h c (List.mem_of_mem_take mem)
      · exact fun c mem => h c (List.mem_of_mem_drop mem)
      · exact .inr (by rw [List.head?_take, if_neg (by omega)])
      · rw [List.take_append_drop, Nat.pow_zero, Nat.one_mul]
      · rw [List.length_drop]
        omega

theorem amount_positional (exponent : Int) :
    amount (positional digits exponent) = readDigits digits * 10 ^ exponent := by
  obtain ⟨whole, fraction, shift, eq, -, hw, hf, -, read, length⟩ := exists_positional h nonempty exponent
  have chars : ∀ c ∈ whole ++ '.' :: fraction, c.isDigit ∨ c = '.' := by
    grind
  have power : (10 : ℚ) ^ shift * 10 ^ (-(shift - exponent : Int)) = 10 ^ exponent := by
    rw [← zpow_natCast, ← zpow_add₀ (by norm_num)]
    congr 1
    omega
  rw [eq, amount_mantissa chars, readMantissa_point hw, read, length, ← power]
  push_cast
  ring

theorem amount_scientific (exponent : Int) :
    amount (scientific digits exponent) = readDigits digits * 10 ^ exponent := by
  unfold scientific
  obtain ⟨d, ds, rfl⟩ := List.exists_cons_of_ne_nil nonempty
  cases ds with
  | nil =>
    have chars : ∀ c ∈ [d], c.isDigit ∨ c = '.' := fun c mem => .inl (h c mem)
    simp only
    rw [amount_exponent chars, readMantissa_whole h, readInt_repr]
    simp
  | cons e ds =>
    have whole : ∀ c ∈ [d], c.isDigit := by simpa using h d (by simp)
    have chars : ∀ c ∈ d :: '.' :: e :: ds, c.isDigit ∨ c = '.' := by grind
    have power : (10 : ℚ) ^ (-((e :: ds).length : Int)) * 10 ^ (exponent + (d :: e :: ds).length - 1) =
        10 ^ exponent := by
      rw [← zpow_add₀ (by norm_num)]
      congr 1
      simp only [List.length_cons]
      omega
    have mantissa := readMantissa_point whole (e :: ds)
    simp only
    rw [amount_exponent chars, readInt_repr, ← power, ← mul_assoc]
    exact congrArg (· * _) mantissa

theorem exists_cons_scientific (exponent : Int) : ∃ c t, scientific digits exponent = c :: t ∧ c.isDigit := by
  unfold scientific
  obtain ⟨d, ds, rfl⟩ := List.exists_cons_of_ne_nil nonempty
  have first := h d (by simp)
  cases ds with
  | nil => exact ⟨d, _, rfl, first⟩
  | cons e ds => exact ⟨d, _, rfl, first⟩

end

end Text

/-! ### Decimals -/

namespace Decimal

variable (l : Layout) (d : Decimal)

/-- The text of a decimal is read as that decimal. -/
theorem amount_text : Text.amount (d.text l) = d.digits * 10 ^ d.exponent := by
  have digits : Text.readDigits (Nat.toDigits 10 d.digits) = d.digits := Nat.ofDigitChars_ten_toDigits
  simp only [Decimal.text]
  split
  · rw [Text.amount_positional Text.isDigit_of_mem_toDigits Nat.toDigits_ne_nil, digits]
  · rw [Text.amount_scientific Text.isDigit_of_mem_toDigits Nat.toDigits_ne_nil, digits]

theorem exists_cons_text : ∃ c t, d.text l = c :: t ∧ c.isDigit := by
  simp only [Decimal.text]
  split
  · obtain ⟨whole, fraction, _, eq, ⟨nonempty, -⟩, digits, _⟩ :=
      Text.exists_positional (Text.isDigit_of_mem_toDigits (n := d.digits)) Nat.toDigits_ne_nil d.exponent
    obtain ⟨c, t, rfl⟩ := List.exists_cons_of_ne_nil nonempty
    exact ⟨c, _, eq, digits c (by simp)⟩
  · exact Text.exists_cons_scientific Text.isDigit_of_mem_toDigits Nat.toDigits_ne_nil _

end Decimal

/-! ### Doubles -/

namespace Double

variable {x y : Double} (l : Layout)

private theorem covers_zero (h : x.significand = 0) : x.Covers 0 := by
  have quarter := x.quarter_pos
  unfold Covers lowEnd highEnd
  simp [h, quarter.le]

/-- A finite double is written as its sign and an unsigned number that is read as the double. -/
private theorem exists_text (h : x.isFinite = true) : ∃ c t, x.text l = (if x.isNegative then ['-'] else []) ++ c :: t ∧
    c.isDigit ∧ x.Covers (Text.amount (c :: t)) := by
  unfold Double.text
  rw [if_pos h]
  by_cases zero : x.significand = 0
  · refine ⟨'0', ['.', '0'], ?_, rfl, ?_⟩
    · rw [if_pos zero]
      rfl
    · have digit : ∀ c ∈ ['0'], c.isDigit := List.forall_mem_singleton.2 rfl
      have amount : Text.amount ['0', '.', '0'] = (0 : Nat) * 10 ^ (0 : Int) :=
        Text.amount_positional digit (by decide) 0
      rw [amount, Nat.cast_zero, zero_mul]
      exact covers_zero zero
  · rw [if_neg zero]
    obtain ⟨c, t, eq, digit⟩ := (x.shortest l.tie).exists_cons_text l
    refine ⟨c, t, by rw [eq], digit, ?_⟩
    rw [← eq, Decimal.amount_text, ← isRead_iff_covers]
    exact isRead_shortest l.tie h (Nat.pos_of_ne_zero zero)

/-- The text of a finite double is read as a rational that rounds to it. -/
theorem covers_amount_text (h : x.isFinite = true) : x.Covers (Text.amount (Text.unsigned (x.text l))) := by
  obtain ⟨c, t, eq, digit, covers⟩ := exists_text l h
  rw [eq]
  cases x.isNegative with
  | false =>
    change x.Covers (Text.amount (Text.unsigned (c :: t)))
    rwa [Text.unsigned_cons digit]
  | true => exact covers

theorem head?_text_iff (h : x.isFinite = true) : (x.text l).head? = some '-' ↔ x.isNegative = true := by
  obtain ⟨c, t, eq, digit, -⟩ := exists_text l h
  have ne : c ≠ '-' := by
    rintro rfl
    cases digit
  rw [eq]
  cases x.isNegative <;> simp [ne]

/-- Finite doubles with the same text are the same, also zeros of different signs. -/
theorem text_inj (hx : x.isFinite = true) (hy : y.isFinite = true) : x.text l = y.text l ↔ x = y := by
  constructor
  · intro same
    have sign : x.isNegative = y.isNegative := by
      rw [Bool.eq_iff_iff, ← head?_text_iff l hx, ← head?_text_iff l hy, same]
    have covers := covers_amount_text l hx
    rw [same] at covers
    exact ext_magnitude sign (magnitude_eq_of_covers covers (covers_amount_text l hy))
  · rintro rfl
    rfl

end Double

end PersistedQuery
