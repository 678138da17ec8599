import PersistedQuery.Document.Parsed
import PersistedQuery.Proofs.Decimal.Rounding

/-!
# Converted floats

The text of a finite double is a float of the grammar in every layout: there is a digit behind a point, or an exponent,
and no superfluous zero in front (`Double.isFloat_text`).

* `Value.ofParsed_float`: a finite float of a parsed document is converted to such a text, and it alone is read from it.
-/

namespace PersistedQuery

namespace Text

/-! ### Unsigned floats -/

/-- A float without a sign. -/
def IsUnsignedFloat (t : List Char) : Prop :=
  ∃ whole fraction exponent, t = whole ++ fraction ++ exponent ∧ isNatural whole ∧
    (fraction = [] ∨ isFraction fraction) ∧ (exponent = [] ∨ isExponent exponent) ∧
    ¬ (fraction = [] ∧ exponent = [])

theorem isInt_of_isNatural {t : List Char} (h : isNatural t) : isInt t := by
  unfold isInt
  split
  · cases h
  · exact h

theorem IsUnsignedFloat.isFloat {t : List Char} (h : IsUnsignedFloat t) : IsFloat t ∧ IsFloat ('-' :: t) := by
  obtain ⟨whole, fraction, exponent, rfl, natural, rest⟩ := h
  exact ⟨⟨whole, fraction, exponent, rfl, isInt_of_isNatural natural, rest⟩,
    ⟨'-' :: whole, fraction, exponent, rfl, natural, rest⟩⟩

theorem isDigits_iff {t : List Char} : isDigits t = true ↔ t ≠ [] ∧ ∀ c ∈ t, c.isDigit := by
  simp [isDigits]

/-- The digits of a number other than zero begin with another digit. -/
theorem head?_toDigits {n : Nat} (pos : 0 < n) : (Nat.toDigits 10 n).head? ≠ some '0' := by
  induction n using Nat.strongRecOn with
  | ind n ih =>
    by_cases less : n < 10
    · have single : ∀ m < 10, 0 < m → m.digitChar ≠ '0' := by decide
      rw [Nat.toDigits_of_lt_base less, List.head?_cons]
      exact fun zero => single n less pos (Option.some.inj zero)
    · rw [Nat.toDigits_of_base_le (by decide) (by omega), List.head?_append_of_ne_nil _ Nat.toDigits_ne_nil]
      exact ih (n / 10) (by omega) (by omega)

theorem isDigits_toDigits (n : Nat) : isDigits (Nat.toDigits 10 n) :=
  isDigits_iff.2 ⟨Nat.toDigits_ne_nil, isDigit_of_mem_toDigits⟩

theorem isDigits_unsigned_repr (n : Int) : isDigits (unsigned n.repr.toList) := by
  rw [Int.repr_eq_if]
  split
  · rw [Nat.toList_repr]
    obtain ⟨c, t, eq⟩ := List.exists_cons_of_ne_nil (Nat.toDigits_ne_nil (b := 10) (n := n.toNat))
    have digits := isDigits_toDigits n.toNat
    rw [eq] at digits ⊢
    rwa [unsigned_cons ((isDigits_iff.1 digits).2 c List.mem_cons_self)]
  · rw [String.toList_append, Nat.toList_repr]
    exact isDigits_toDigits (-n).toNat

/-! ### The layouts of a decimal -/

section

variable {digits : List Char} (hne : digits ≠ []) (h : ∀ c ∈ digits, c.isDigit)
include hne h

theorem isUnsignedFloat_positional (first : digits.head? ≠ some '0') (exponent : Int) :
    IsUnsignedFloat (positional digits exponent) := by
  obtain ⟨whole, fraction, _, eq, ⟨hw, hf⟩, whole_digits, fraction_digits, lead, -⟩ :=
    exists_positional h hne exponent
  have natural : isNatural whole := by
    have digits := isDigits_iff.2 ⟨hw, whole_digits⟩
    rcases lead with rfl | same
    · rfl
    · simp [isNatural, digits, same, first]
  refine ⟨whole, '.' :: fraction, [], by rw [eq, List.append_nil], natural, .inr ?_, .inl rfl, by simp⟩
  exact isDigits_iff.2 ⟨hf, fraction_digits⟩

theorem isUnsignedFloat_scientific (exponent : Int) : IsUnsignedFloat (scientific digits exponent) := by
  have power (n : Int) : isExponent ('e' :: n.repr.toList) := isDigits_unsigned_repr n
  obtain ⟨d, ds, rfl⟩ := List.exists_cons_of_ne_nil hne
  have digit : isNatural [d] := by
    have one := isDigits_iff.2 ⟨List.cons_ne_nil d [], List.forall_mem_singleton.2 (h d List.mem_cons_self)⟩
    rw [isNatural, one, Bool.true_and, Bool.or_eq_true]
    by_cases zero : d = '0'
    · exact .inl (by simp [zero])
    · exact .inr (by simp [zero])
  cases ds with
  | nil => exact ⟨[d], [], _, rfl, digit, .inl rfl, .inr (power _), by simp⟩
  | cons e ds =>
    have fraction : isFraction ('.' :: e :: ds) :=
      isDigits_iff.2 ⟨List.cons_ne_nil e ds, fun c mem => h c (List.mem_cons_of_mem d mem)⟩
    exact ⟨[d], '.' :: e :: ds, _, rfl, digit, .inr fraction, .inr (power _), by simp⟩

end

end Text

theorem Decimal.isUnsignedFloat_text (l : Layout) {d : Decimal} (pos : 0 < d.digits) :
    Text.IsUnsignedFloat (d.text l) := by
  simp only [Decimal.text]
  split
  · exact Text.isUnsignedFloat_positional Nat.toDigits_ne_nil Text.isDigit_of_mem_toDigits (Text.head?_toDigits pos) _
  · exact Text.isUnsignedFloat_scientific Nat.toDigits_ne_nil Text.isDigit_of_mem_toDigits _

/-! ### Doubles -/

namespace Double

/-- Only zero is written as zero. -/
theorem digits_shortest_pos {x : Double} (tie : Tie) (finite : x.isFinite = true) (positive : 0 < x.significand) :
    0 < (x.shortest tie).digits := by
  have covers := (x.isRead_iff_covers _ _).1 (isRead_shortest tie finite positive)
  by_contra zero
  rw [Nat.eq_zero_of_not_pos zero, Nat.cast_zero, zero_mul] at covers
  have low : 0 < (x.lowEnd : ℚ) * x.quarter := by
    have end_pos : 0 < x.lowEnd := by
      unfold lowEnd
      split <;> omega
    have quarter := x.quarter_pos
    positivity
  exact absurd low covers.bounds.1.not_gt

theorem isFloat_text (l : Layout) {x : Double} (finite : x.isFinite = true) : Text.IsFloat (x.text l) := by
  unfold Double.text
  rw [if_pos finite]
  have number : Text.IsUnsignedFloat (if x.significand = 0 then "0.0".toList else (x.shortest l.tie).text l) := by
    split
    · exact ⟨['0'], ['.', '0'], [], rfl, rfl, .inr rfl, .inl rfl, by simp⟩
    · rename_i nonzero
      exact Decimal.isUnsignedFloat_text l (digits_shortest_pos l.tie finite (Nat.pos_of_ne_zero nonzero))
  cases x.isNegative with
  | false => exact number.isFloat.1
  | true => exact number.isFloat.2

end Double

/-! ### Conversion -/

/-- A finite float is converted to a text that is a float and no integer, and the float is what is read from it: the
nearest double to the rational that the text stands for, even where two are as near, and with its sign.  No other finite
float is converted to that text. -/
theorem Value.ofParsed_float {x : Double} (finite : x.isFinite = true) : ∃ text,
    (Value.number (.float x)).ofParsed = .ok (.number (.float text)) ∧
      Text.IsFloat text.toList ∧ ¬ Text.isInt text.toList ∧ (∀ y : Double, y.ReadFrom text.toList ↔ y = x) ∧
      ∀ y : Double, y.isFinite = true →
        ((Value.number (.float y)).ofParsed = .ok (.number (.float text)) ↔ y.bits = x.bits) := by
  have converts {y : Double} (finite : y.isFinite = true) : (Value.number (.float y)).ofParsed =
      .ok (.number (.float (String.ofList (y.text documentFloat)))) := by
    have numeral : (Number.float y).numeral = .ok (.float (String.ofList (y.text documentFloat))) := by
      simp only [Number.numeral]
      rw [if_pos finite]
      rfl
    change Value.number <$> (Number.float y).numeral = _
    rw [numeral]
    rfl
  have float := Double.isFloat_text documentFloat finite
  refine ⟨String.ofList (x.text documentFloat), converts finite, ?_, ?_, ?_, ?_⟩
  · rwa [String.toList_ofList]
  · rw [String.toList_ofList]
    exact fun int => Text.not_isFloat_of_isInt int float
  · intro y
    rw [String.toList_ofList]
    exact Double.readFrom_text_iff documentFloat finite y
  · intro y finite'
    rw [converts finite', Except.ok.injEq, Value.number.injEq, Numeral.float.injEq, String.ofList_inj,
      Double.text_inj documentFloat finite' finite]
    constructor
    · rintro rfl
      rfl
    · exact congrArg Double.mk

/-- The least positive double is written with a single digit, though that stands for a rational just above it. -/
theorem Value.ofParsed_float_least :
    (⟨1⟩ : Double).isFinite = true ∧
      (Value.number (.float ⟨1⟩)).ofParsed = .ok (.number (.float "5e-324")) ∧
      Text.IsFloat "5e-324".toList ∧ (⟨1⟩ : Double).ReadFrom "5e-324".toList := by
  have finite : (⟨1⟩ : Double).isFinite = true := by decide
  obtain ⟨text, converts, float, -, read, -⟩ := Value.ofParsed_float finite
  have written : (Value.number (.float ⟨1⟩)).ofParsed = .ok (.number (.float "5e-324")) := by decide +kernel
  have same : text = "5e-324" := by
    rw [written] at converts
    cases converts
    rfl
  subst same
  exact ⟨finite, written, float, (read _).2 rfl⟩

end PersistedQuery
