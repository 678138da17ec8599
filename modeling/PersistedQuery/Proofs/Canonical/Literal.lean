import PersistedQuery.Proofs.Canonical.Value

/-!
# String literals

`resolve` reads the body of a string literal from the left and resolves its escapes.  It accepts no body with a quote or
a backslash outside of an escape, no letter behind a backslash but those of the short escapes, and no number but one of
four digits.

* `Value.text_string_resolves`: a string is written as a literal without control characters whose body resolves to the
  string, and no other string is written as the beginning of the same text.
-/

namespace PersistedQuery

open Text

namespace Text

/-- The character that a letter behind a backslash stands for in a literal. -/
def shortEscape : Char → Option Char
  | '"' => some '"'
  | '\\' => some '\\'
  | 'n' => some '\n'
  | 'r' => some '\r'
  | 't' => some '\t'
  | 'b' => some '\x08'
  | 'f' => some '\x0c'
  | _ => none

/-- The contents of a literal with this body. -/
def resolve : List Char → Option (List Char)
  | [] => some []
  | '\\' :: 'u' :: a :: b :: c :: d :: t => do
    let n ← readHex [a, b, c, d]
    if n.isValidChar then (resolve t).map (Char.ofNat n :: ·) else none
  | '\\' :: letter :: t => do
    let c ← shortEscape letter
    (resolve t).map (c :: ·)
  | c :: t => if c = '"' ∨ c = '\\' then none else (resolve t).map (c :: ·)

variable {q : Quoting} {raw : Char → Bool}

private theorem resolve_short {c letter : Char} (h : sevenShort c = some letter) (t : List Char) :
    resolve ('\\' :: letter :: t) = (resolve t).map (c :: ·) := by
  unfold sevenShort at h
  split at h <;> cases h <;> simp [resolve, shortEscape]

private theorem resolve_numbered {c : Char} {digits : List Char} (length : digits.length = 4)
    (value : readHex digits = some c.toNat) (t : List Char) :
    resolve ('\\' :: 'u' :: digits ++ t) = (resolve t).map (c :: ·) := by
  obtain ⟨d₁, d₂, d₃, d₄, rfl⟩ : ∃ d₁ d₂ d₃ d₄, digits = [d₁, d₂, d₃, d₄] := by
    rcases digits with _ | ⟨d₁, _ | ⟨d₂, _ | ⟨d₃, _ | ⟨d₄, _ | _⟩⟩⟩⟩ <;> simp_all
  have valid : c.toNat.isValidChar := c.valid
  simp [resolve, value, valid, Char.ofNat_toNat]

private theorem resolve_plain {c : Char} (h : sevenShort c = none) (t : List Char) :
    resolve (c :: t) = (resolve t).map (c :: ·) := by
  have quote : c ≠ '"' := by
    rintro rfl
    cases h
  have backslash : c ≠ '\\' := by
    rintro rfl
    cases h
  simp [resolve, quote, backslash]

/-- A character of a quoted text is read back from its escape. -/
theorem Quoting.resolve_escape (hq : q.Plain raw) (c : Char) (t : List Char) :
    resolve (q.escape c ++ t) = (resolve t).map (c :: ·) := by
  unfold Quoting.escape
  rw [hq.short]
  split
  · rename_i letter short
    exact resolve_short short t
  · rename_i unescaped
    split
    · rename_i numbered
      obtain ⟨digits, eq, length, value⟩ := hq.numeral c numbered
      rw [eq]
      exact resolve_numbered length value t
    · exact resolve_plain unescaped t

/-- The body of a quoted text resolves to what is quoted. -/
theorem Quoting.resolve_body (hq : q.Plain raw) (content : List Char) :
    resolve (content.flatMap q.escape) = some content := by
  induction content with
  | nil => rfl
  | cons c content ih => rw [List.flatMap_cons, Quoting.resolve_escape hq, ih, Option.map_some]

end Text

/-- A string literal has no control characters, whatever it stands for. -/
theorem not_isControl_of_mem_stringLiteral {content : List Char} {c : Char} (h : c ∈ stringLiteral.quote content) :
    isControl c = false := by
  have graphic (d : Char) (hd : ' ' ≤ d ∧ d ≤ '~') : (!isControl d) = true := by
    have low : 0x20 ≤ d.toNat := hd.1
    have high : d.toNat ≤ 0x7e := hd.2
    simp only [isControl, Bool.not_eq_true', Bool.or_eq_false_iff, Bool.and_eq_false_iff, decide_eq_false_iff_not]
    omega
  have raw := Quoting.raw_of_mem_quote stringLiteral_plain graphic h
  simpa using raw

/-- A string is written between double quotes.  There is no control character in the literal, and its body, read from
the left, consists of escapes and of characters that stand for themselves, which together give the string back.
Whatever follows, a text begins with the literal of one string only. -/
theorem Value.text_string_resolves (s : String) :
    (∃ body, (Value.string s).text = '"' :: body ++ ['"'] ∧ resolve body = some s.toList) ∧
    (∀ c ∈ (Value.string s).text, isControl c = false) ∧
    ∀ (t : String) (u v : List Char), (Value.string s).text ++ u = (Value.string t).text ++ v ↔ s = t ∧ u = v := by
  refine ⟨⟨s.toList.flatMap stringLiteral.escape, ?_, ?_⟩, ?_, ?_⟩
  · rw [Value.text, Quoting.quote]
  · exact Quoting.resolve_body stringLiteral_plain s.toList
  · intro c mem
    rw [Value.text] at mem
    exact not_isControl_of_mem_stringLiteral mem
  · intro t u v
    constructor
    · intro same
      rw [Value.text, Value.text] at same
      obtain ⟨contents, rest⟩ := Quoting.quote_append_inj stringLiteral_plain same
      exact ⟨String.toList_inj.1 contents, rest⟩
    · rintro ⟨rfl, rfl⟩
      rfl

/-- A backslash before a letter is told apart from the control character that the two would stand for. -/
example : (Value.string "\\n\n\x01").text = "\"\\\\n\\n\\u0001\"".toList := by decide

end PersistedQuery
