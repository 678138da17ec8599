/-!
# Hexadecimal digits

* `length_hex`: a number is written with exactly the width asked for.
* `mem_hexDigits_of_mem_hex`: its digits are those of lower case.
-/

namespace PersistedQuery.Text

/-- The last `width` hexadecimal digits of a number, in lower case. -/
def hex : (width : Nat) → Nat → List Char
  | 0, _ => []
  | width + 1, n => hex width (n / 16) ++ [Nat.digitChar (n % 16)]

theorem length_hex (width n : Nat) : (hex width n).length = width := by
  induction width generalizing n with
  | zero => rfl
  | succ width ih => simp [hex, ih]

/-- The hexadecimal digits in lower case. -/
def hexDigits : List Char := "0123456789abcdef".toList

theorem digitChar_mem_hexDigits {n : Nat} (h : n < 16) : Nat.digitChar n ∈ hexDigits := by
  have digits : ∀ i : Fin 16, Nat.digitChar i ∈ hexDigits := by decide
  exact digits ⟨n, h⟩

theorem mem_hexDigits_of_mem_hex {width n : Nat} {c : Char} (h : c ∈ hex width n) : c ∈ hexDigits := by
  induction width generalizing n with
  | zero => cases h
  | succ width ih =>
    unfold hex at h
    rcases List.mem_append.1 h with h | h
    · exact ih h
    · rw [List.mem_singleton.1 h]
      exact digitChar_mem_hexDigits (Nat.mod_lt n (by decide))

end PersistedQuery.Text
