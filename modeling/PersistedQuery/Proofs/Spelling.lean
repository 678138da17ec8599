import PersistedQuery.Document.Canonical

/-!
# Spelling

Names, enum values and numerals are not checked when a document is built.  A `Spelling` says which of them may stand in
a document, and `Document.Spelled` that all of them are of that kind.  In a well-formed document they are spelled as the
grammar of GraphQL has it; the contents of strings are free.
-/

namespace PersistedQuery

namespace Text

/-! ### Words of the grammar -/

def isNameStart (c : Char) : Bool := c.isAlpha || c = '_'

def isNameChar (c : Char) : Bool := c.isAlphanum || c = '_'

/-- A letter or an underscore, and then letters, underscores and digits. -/
def isName : List Char → Bool
  | [] => false
  | c :: t => isNameStart c && t.all isNameChar

/-- At least one digit. -/
def isDigits (t : List Char) : Bool := !t.isEmpty && t.all Char.isDigit

/-- Digits without a superfluous zero in front. -/
def isNatural (t : List Char) : Bool := isDigits t && (t = ['0'] || t.head? ≠ some '0')

/-- A natural number, which may have a minus in front. -/
def isInt : List Char → Bool
  | '-' :: t => isNatural t
  | t => isNatural t

/-- A point and digits. -/
def isFraction : List Char → Bool
  | '.' :: t => isDigits t
  | _ => false

/-- The text without the sign in front, if there is one. -/
def unsigned : List Char → List Char
  | '+' :: t | '-' :: t | t => t

/-- A letter `e` of either case, a sign if there is one, and digits. -/
def isExponent : List Char → Bool
  | [] => false
  | c :: t => (c = 'e' || c = 'E') && isDigits (unsigned t)

/-- An integer with a fraction, with an exponent or with both. -/
def IsFloat (t : List Char) : Prop :=
  ∃ whole fraction exponent, t = whole ++ fraction ++ exponent ∧ isInt whole ∧ (fraction = [] ∨ isFraction fraction) ∧
    (exponent = [] ∨ isExponent exponent) ∧ ¬ (fraction = [] ∧ exponent = [])

end Text

/-! ### The words of a document -/

/-- Which names, enum values and numerals may stand in a document. -/
structure Spelling where
  name : String → Prop
  enum : String → Prop
  numeral : Numeral → Prop

section

variable (L : Spelling)

mutual

def Value.Spelled : Value Numeral → Prop
  | .variable name => L.name name
  | .number n => L.numeral n
  | .enum name => L.enum name
  | .list items => Value.ItemsSpelled items
  | .object fields => Value.FieldsSpelled fields
  | .string _ | .boolean _ | .null => True

def Value.ItemsSpelled : List (Value Numeral) → Prop
  | [] => True
  | v :: vs => v.Spelled ∧ Value.ItemsSpelled vs

def Value.FieldsSpelled : List (Binding (Value Numeral)) → Prop
  | [] => True
  | b :: bs => (L.name b.name ∧ b.value.Spelled) ∧ Value.FieldsSpelled bs

end

def Binding.Spelled (b : Binding (Value Numeral)) : Prop := L.name b.name ∧ b.value.Spelled L

theorem Value.itemsSpelled_iff (vs : List (Value Numeral)) : Value.ItemsSpelled L vs ↔ ∀ v ∈ vs, v.Spelled L := by
  induction vs with
  | nil => simp [Value.ItemsSpelled]
  | cons v vs ih => simp [Value.ItemsSpelled, ih]

theorem Value.fieldsSpelled_iff (bs : List (Binding (Value Numeral))) :
    Value.FieldsSpelled L bs ↔ ∀ b ∈ bs, b.Spelled L := by
  induction bs with
  | nil => simp [Value.FieldsSpelled]
  | cons b bs ih => simp [Value.FieldsSpelled, ih, Binding.Spelled]

def Directive.Spelled (d : Directive Numeral) : Prop := L.name d.name ∧ ∀ b ∈ d.arguments, b.Spelled L

def FragmentSpread.Spelled (s : FragmentSpread Numeral) : Prop := L.name s.name ∧ ∀ d ∈ s.directives, d.Spelled L

mutual

def Selection.Spelled : Selection Numeral → Prop
  | .field f =>
    ((∀ a ∈ f.aliasName, L.name a) ∧ L.name f.name ∧ (∀ b ∈ f.arguments, b.Spelled L) ∧
      ∀ d ∈ f.directives, d.Spelled L) ∧ SelectionSet.Spelled f.selectionSet
  | .spread s => s.Spelled L
  | .inlineFragment f =>
    ((∀ t ∈ f.typeCondition, L.name t) ∧ ∀ d ∈ f.directives, d.Spelled L) ∧ SelectionSet.Spelled f.selectionSet

def SelectionSet.Spelled : SelectionSet Numeral → Prop
  | [] => True
  | s :: set => s.Spelled ∧ SelectionSet.Spelled set

end

theorem SelectionSet.spelled_iff (set : SelectionSet Numeral) :
    SelectionSet.Spelled L set ↔ ∀ s ∈ set, s.Spelled L := by
  induction set with
  | nil => simp [SelectionSet.Spelled]
  | cons s set ih => simp [SelectionSet.Spelled, ih]

def TypeRef.Spelled : TypeRef → Prop
  | .named name => L.name name
  | .list item => item.Spelled
  | .nonNull inner => inner.Spelled

def VariableDefinition.Spelled (v : VariableDefinition Numeral) : Prop :=
  L.name v.name ∧ v.type.Spelled L ∧ (∀ value ∈ v.defaultValue, value.Spelled L) ∧ ∀ d ∈ v.directives, d.Spelled L

def Operation.Spelled (o : Operation Numeral) : Prop :=
  (∀ name ∈ o.name, L.name name) ∧ (∀ v ∈ o.variableDefinitions, v.Spelled L) ∧ (∀ d ∈ o.directives, d.Spelled L) ∧
    SelectionSet.Spelled L o.selectionSet

def Fragment.Spelled (f : Fragment Numeral) : Prop :=
  L.name f.name ∧ L.name f.typeCondition ∧ (∀ d ∈ f.directives, d.Spelled L) ∧ SelectionSet.Spelled L f.selectionSet

def Definition.Spelled : Definition Numeral → Prop
  | .operation o => o.Spelled L
  | .fragment f => f.Spelled L

def Document.Spelled (d : Document Numeral) : Prop := ∀ x ∈ d.definitions, x.Spelled L

end

/-! ### Well-formed documents -/

/-- The words that are no enum values, though they are names. -/
def reservedValues : List String := ["true", "false", "null"]

/-- Names, enum values and numerals as the grammar has them. -/
def Spelling.graphQL : Spelling where
  name s := Text.isName s.toList
  enum s := Text.isName s.toList ∧ s ∉ reservedValues
  numeral
    | .int t => Text.isInt t.toList
    | .float t => Text.IsFloat t.toList

instance (name : String) : Decidable (Spelling.graphQL.name name) :=
  inferInstanceAs (Decidable (Text.isName name.toList = true))

def Document.WellFormed (d : Document Numeral) : Prop := d.Spelled .graphQL

/-! ### Characters of the words -/

namespace Text

/-- The characters of names and numerals. -/
def isWordChar (c : Char) : Bool := isNameChar c || c ∈ ['-', '+', '.']

theorem isWordChar_of_isDigit {c : Char} (h : c.isDigit) : isWordChar c := by
  simp [isWordChar, isNameChar, Char.isAlphanum, h]

theorem isWordChar_of_isNameStart {c : Char} (h : isNameStart c) : isWordChar c := by
  simp only [isNameStart, Bool.or_eq_true] at h
  rcases h with h | h <;> simp [isWordChar, isNameChar, Char.isAlphanum, h]

theorem not_isNameStart_of_isDigit {c : Char} (h : c.isDigit) : isNameStart c = false := by
  have ne : c ≠ '_' := by
    rintro rfl
    exact absurd h (by decide)
  simp only [Char.isDigit, Bool.and_eq_true, decide_eq_true_eq, ge_iff_le, UInt32.le_iff_toNat_le] at h
  have : c.val.toNat = c.toNat := rfl
  have : '9'.val.toNat = 57 := rfl
  have : 'A'.val.toNat = 65 := rfl
  have : 'a'.val.toNat = 97 := rfl
  unfold isNameStart Char.isAlpha Char.isUpper Char.isLower
  simp [UInt32.le_iff_toNat_le, ne]
  omega

/-- A name begins like a name and has only characters of names. -/
theorem exists_cons_of_isName {t : List Char} (h : isName t) :
    ∃ c u, t = c :: u ∧ isNameStart c ∧ ∀ d ∈ t, isWordChar d := by
  cases t with
  | nil => cases h
  | cons c u =>
    simp only [isName, Bool.and_eq_true, List.all_eq_true] at h
    refine ⟨c, u, rfl, h.1, List.forall_mem_cons.2 ⟨isWordChar_of_isNameStart h.1, fun d hd => ?_⟩⟩
    simp [isWordChar, h.2 d hd]

private theorem all_isDigit {t : List Char} (h : isDigits t) : ∀ c ∈ t, c.isDigit := by
  simp only [isDigits, Bool.and_eq_true, List.all_eq_true] at h
  exact h.2

/-- An integer begins with a digit or a minus and has only such characters. -/
theorem exists_cons_of_isInt {t : List Char} (h : isInt t) :
    ∃ c u, t = c :: u ∧ ∀ d ∈ t, d = '-' ∨ d.isDigit := by
  have natural {u : List Char} (h : isNatural u) : u ≠ [] ∧ ∀ d ∈ u, d = '-' ∨ d.isDigit := by
    simp only [isNatural, Bool.and_eq_true] at h
    refine ⟨?_, fun d hd => .inr (all_isDigit h.1 d hd)⟩
    rintro rfl
    cases h.1
  unfold isInt at h
  split at h
  · rename_i u
    exact ⟨'-', u, rfl, List.forall_mem_cons.2 ⟨.inl rfl, (natural h).2⟩⟩
  · obtain ⟨c, u, rfl⟩ := List.exists_cons_of_ne_nil (natural h).1
    exact ⟨c, u, rfl, (natural h).2⟩

private theorem fraction_chars {t : List Char} (h : isFraction t) : '.' ∈ t ∧ ∀ c ∈ t, isWordChar c := by
  unfold isFraction at h
  split at h
  · refine ⟨by simp, List.forall_mem_cons.2 ⟨by decide, fun c hc => ?_⟩⟩
    exact isWordChar_of_isDigit (all_isDigit h c hc)
  · cases h

private theorem exponent_chars {t : List Char} (h : isExponent t) :
    ('e' ∈ t ∨ 'E' ∈ t) ∧ ∀ c ∈ t, isWordChar c := by
  have digits {u : List Char} (h : isDigits (unsigned u)) : ∀ c ∈ u, isWordChar c := by
    unfold unsigned at h
    split at h
    · exact List.forall_mem_cons.2 ⟨by decide, fun c hc => isWordChar_of_isDigit (all_isDigit h c hc)⟩
    · exact List.forall_mem_cons.2 ⟨by decide, fun c hc => isWordChar_of_isDigit (all_isDigit h c hc)⟩
    · exact fun c hc => isWordChar_of_isDigit (all_isDigit h c hc)
  cases t with
  | nil => cases h
  | cons c u =>
    simp only [isExponent, Bool.and_eq_true, Bool.or_eq_true, decide_eq_true_eq] at h
    obtain ⟨rfl | rfl, h⟩ := h
    · exact ⟨.inl (by simp), List.forall_mem_cons.2 ⟨by decide, digits h⟩⟩
    · exact ⟨.inr (by simp), List.forall_mem_cons.2 ⟨by decide, digits h⟩⟩

/-- A float begins like an integer and has only characters of words, one of which stands in no integer. -/
theorem exists_cons_of_isFloat {t : List Char} (h : IsFloat t) :
    ∃ c u, t = c :: u ∧ (c = '-' ∨ c.isDigit) ∧ (∀ d ∈ t, isWordChar d) ∧ ∃ d ∈ t, d = '.' ∨ d = 'e' ∨ d = 'E' := by
  obtain ⟨whole, fraction, exponent, rfl, hw, hf, he, marked⟩ := h
  obtain ⟨c, u, rfl, chars⟩ := exists_cons_of_isInt hw
  refine ⟨c, u ++ fraction ++ exponent, by simp, chars c (by simp), fun d hd => ?_, ?_⟩
  · simp only [List.mem_append] at hd
    rcases hd with (hd | hd) | hd
    · rcases chars d hd with rfl | digit
      · decide
      · exact isWordChar_of_isDigit digit
    · rcases hf with rfl | hf
      · cases hd
      · exact (fraction_chars hf).2 d hd
    · rcases he with rfl | he
      · cases hd
      · exact (exponent_chars he).2 d hd
  · rcases hf with rfl | hf
    · rcases he with rfl | he
      · exact absurd ⟨rfl, rfl⟩ marked
      · rcases (exponent_chars he).1 with mem | mem
        · exact ⟨'e', by simp [mem], by simp⟩
        · exact ⟨'E', by simp [mem], by simp⟩
    · exact ⟨'.', by simp [(fraction_chars hf).1], by simp⟩

theorem not_isFloat_of_isInt {t : List Char} (h : isInt t) : ¬ IsFloat t := by
  intro float
  obtain ⟨_, _, _, chars⟩ := exists_cons_of_isInt h
  obtain ⟨_, _, _, _, _, d, hd, mark⟩ := exists_cons_of_isFloat float
  rcases chars d hd with rfl | digit
  · simp at mark
  · rcases mark with rfl | rfl | rfl <;> exact absurd digit (by decide)

end Text

end PersistedQuery
