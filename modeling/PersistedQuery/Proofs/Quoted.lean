import PersistedQuery.Text.Hex
import PersistedQuery.Text.Quoted

/-!
# Reading quoted text

`readQuoted` reads from an opening quote up to the closing one and resolves the escapes on the way, also those of
surrogate pairs.  A quoted text is read back whatever follows it (`Quoting.readQuoted_quote`), so it tells where it ends
and what is quoted (`Quoting.quote_append_inj`).  Between its quotes it has only characters that may stand there as they
are (`Quoting.raw_of_mem_quote`).
-/

namespace PersistedQuery.Text

/-! ### Hexadecimal digits -/

/-- The value of a hexadecimal digit, in lower case or in capitals. -/
def hexDigit? (c : Char) : Option Nat :=
  if c.isDigit then some (c.toNat - '0'.toNat)
  else if 'a' ≤ c ∧ c ≤ 'f' then some (c.toNat - 'a'.toNat + 10)
  else if 'A' ≤ c ∧ c ≤ 'F' then some (c.toNat - 'A'.toNat + 10)
  else none

/-- The number with the given hexadecimal digits. -/
def readHex (digits : List Char) : Option Nat :=
  digits.foldlM (fun n c => (hexDigit? c).map (16 * n + ·)) 0

/-- The digits of a number are read back, also when all of them are written in another way. -/
theorem readHex_map_hex {f : Char → Char} (hf : ∀ d < 16, hexDigit? (f (Nat.digitChar d)) = some d) (width n : Nat) :
    readHex ((hex width n).map f) = some (n % Nat.pow 16 width) := by
  induction width generalizing n with
  | zero => exact congrArg some (Nat.mod_one n).symm
  | succ width ih =>
    have power : Nat.pow 16 (width + 1) = 16 * Nat.pow 16 width := Nat.mul_comm _ _
    have step : 16 * (n / 16 % Nat.pow 16 width) + n % 16 = n % Nat.pow 16 (width + 1) := by
      rw [power, Nat.mod_mul]
      omega
    have first : List.foldlM (fun n c => (hexDigit? c).map (16 * n + ·)) 0 ((hex width (n / 16)).map f) =
        some (n / 16 % Nat.pow 16 width) := ih (n / 16)
    have last := hf (n % 16) (Nat.mod_lt _ (by decide))
    unfold readHex hex
    rw [List.map_append, List.foldlM_append, first, ← step]
    simp only [List.map_cons, List.map_nil, List.foldlM_cons, List.foldlM_nil, Option.bind_eq_bind, Option.bind_some,
      last, Option.map_some, Option.pure_def]

/-! ### Escapes -/

/-- The character that a letter after a backslash stands for. -/
def unescape : Char → Option Char
  | '"' => some '"'
  | '\\' => some '\\'
  | '/' => some '/'
  | 'n' => some '\n'
  | 'r' => some '\r'
  | 't' => some '\t'
  | 'b' => some '\x08'
  | 'f' => some '\x0c'
  | _ => none

/-- Reads a quoted text from behind its opening quote up to the closing one as code points, where the characters in
`raw` may stand as they are.  A number after a backslash may also be half of a surrogate pair. -/
def readCodes (raw : Char → Bool) : List Char → Option (List Nat × List Char)
  | [] => none
  | '"' :: rest => some ([], rest)
  | '\\' :: 'u' :: a :: b :: c :: d :: rest => do
    let n ← readHex [a, b, c, d]
    let (codes, rest) ← readCodes raw rest
    return (n :: codes, rest)
  | '\\' :: letter :: rest => do
    let c ← unescape letter
    let (codes, rest) ← readCodes raw rest
    return (c.toNat :: codes, rest)
  | c :: rest => do
    let (codes, rest) ← readCodes raw rest
    if raw c then some (c.toNat :: codes, rest) else none

/-- The characters with these code points.  A high surrogate and the low one behind it stand for one character, and no
surrogate stands for one alone. -/
def ofCodes : List Nat → Option (List Char)
  | [] => some []
  | [n] => if n.isValidChar then some [Char.ofNat n] else none
  | n :: m :: codes =>
    if n.isValidChar then (ofCodes (m :: codes)).map (Char.ofNat n :: ·)
    else if 0xd800 ≤ n ∧ n < 0xdc00 ∧ 0xdc00 ≤ m ∧ m < 0xe000 then
      (ofCodes codes).map (Char.ofNat (0x10000 + 0x400 * (n - 0xd800) + (m - 0xdc00)) :: ·)
    else none

/-- Reads a quoted text and gives its contents and what follows it. -/
def readQuoted (raw : Char → Bool) : List Char → Option (List Char × List Char)
  | '"' :: t => do
    let (codes, rest) ← readCodes raw t
    return (← ofCodes codes, rest)
  | _ => none

private theorem length_lt_of_readCodes {raw : Char → Bool} {t rest : List Char} {codes : List Nat}
    (h : readCodes raw t = some (codes, rest)) : rest.length < t.length := by
  fun_induction readCodes raw t generalizing codes with
  | case1 => cases h
  | case2 rest => simp_all
  | case3 a b c d t ih =>
    obtain ⟨_, _, h⟩ := Option.bind_eq_some_iff.1 h
    obtain ⟨_, read, h⟩ := Option.bind_eq_some_iff.1 h
    cases h
    have := ih read
    simp only [List.length_cons]
    omega
  | case4 letter t _ ih =>
    obtain ⟨_, _, h⟩ := Option.bind_eq_some_iff.1 h
    obtain ⟨_, read, h⟩ := Option.bind_eq_some_iff.1 h
    cases h
    have := ih read
    simp only [List.length_cons]
    omega
  | case5 c t _ _ _ ih =>
    obtain ⟨_, read, h⟩ := Option.bind_eq_some_iff.1 h
    simp only [Option.ite_none_right_eq_some, Option.some.injEq, Prod.mk.injEq] at h
    obtain ⟨_, _, rfl⟩ := h
    have := ih read
    simp only [List.length_cons]
    omega

/-- What follows a quoted text is shorter than the whole. -/
theorem length_lt_of_readQuoted {raw : Char → Bool} {t content rest : List Char}
    (h : readQuoted raw t = some (content, rest)) : rest.length < t.length := by
  unfold readQuoted at h
  split at h
  · rename_i body
    obtain ⟨⟨codes, r⟩, read, h⟩ := Option.bind_eq_some_iff.1 h
    obtain ⟨s, _, h⟩ := Option.bind_eq_some_iff.1 h
    cases h
    have := length_lt_of_readCodes read
    simp only [List.length_cons]
    omega
  · cases h

/-- A quoted text with the seven short escapes, where four hexadecimal digits stand for some of the other characters
and those in `raw` may stand for themselves. -/
structure Quoting.Plain (q : Quoting) (raw : Char → Bool) : Prop where
  short : q.short = sevenShort
  numeral : ∀ c, q.numbered c → ∃ digits, q.numeral c.toNat = 'u' :: digits ∧ digits.length = 4 ∧
    readHex digits = some c.toNat
  raw_of_not_numbered : ∀ c, q.numbered c = false → raw c

variable {q : Quoting} {raw : Char → Bool}

/-- Characters are read back from their own code points, none of which is a surrogate. -/
theorem ofCodes_map_toNat (s : List Char) : ofCodes (s.map Char.toNat) = some s := by
  induction s with
  | nil => rfl
  | cons c s ih =>
    have valid : c.toNat.isValidChar := c.valid
    cases s with
    | nil => simp [ofCodes, valid, Char.ofNat_toNat]
    | cons d s =>
      rw [List.map_cons, List.map_cons, ofCodes, if_pos valid, Char.ofNat_toNat, ← List.map_cons, ih, Option.map_some]

private theorem readCodes_short {c letter : Char} {codes : List Nat} {rest r : List Char}
    (hc : sevenShort c = some letter) (h : readCodes raw rest = some (codes, r)) :
    readCodes raw ('\\' :: letter :: rest) = some (c.toNat :: codes, r) := by
  unfold sevenShort at hc
  split at hc <;> cases hc <;> simp [readCodes, unescape, h]

private theorem readCodes_numbered {n : Nat} {digits rest r : List Char} {codes : List Nat}
    (length : digits.length = 4) (value : readHex digits = some n) (h : readCodes raw rest = some (codes, r)) :
    readCodes raw ('\\' :: 'u' :: digits ++ rest) = some (n :: codes, r) := by
  obtain ⟨d₁, d₂, d₃, d₄, rfl⟩ : ∃ d₁ d₂ d₃ d₄, digits = [d₁, d₂, d₃, d₄] := by
    rcases digits with _ | ⟨d₁, _ | ⟨d₂, _ | ⟨d₃, _ | ⟨d₄, _ | _⟩⟩⟩⟩ <;> simp_all
  simp [readCodes, value, h]

private theorem readCodes_raw {c : Char} {codes : List Nat} {rest r : List Char} (hc : sevenShort c = none)
    (allowed : raw c) (h : readCodes raw rest = some (codes, r)) :
    readCodes raw (c :: rest) = some (c.toNat :: codes, r) := by
  have quote : c ≠ '"' := by
    rintro rfl
    cases hc
  have backslash : c ≠ '\\' := by
    rintro rfl
    cases hc
  simp [readCodes, backslash, allowed, h]

theorem Quoting.readCodes_escape (hq : q.Plain raw) (c : Char) {codes : List Nat} {rest r : List Char}
    (h : readCodes raw rest = some (codes, r)) :
    readCodes raw (q.escape c ++ rest) = some (c.toNat :: codes, r) := by
  unfold Quoting.escape
  rw [hq.short]
  split
  · rename_i letter hc
    exact readCodes_short hc h
  · rename_i hc
    split
    · rename_i numbered
      obtain ⟨digits, eq, length, value⟩ := hq.numeral c numbered
      rw [eq]
      exact readCodes_numbered length value h
    · rename_i numbered
      exact readCodes_raw hc (hq.raw_of_not_numbered c (by simpa using numbered)) h

/-- A quoted text is read back, whatever follows it. -/
theorem Quoting.readQuoted_quote (hq : q.Plain raw) (content rest : List Char) :
    readQuoted raw (q.quote content ++ rest) = some (content, rest) := by
  have body : readCodes raw (content.flatMap q.escape ++ '"' :: rest) = some (content.map Char.toNat, rest) := by
    induction content with
    | nil => simp [readCodes]
    | cons c content ih =>
      rw [List.flatMap_cons, List.append_assoc]
      exact Quoting.readCodes_escape hq c ih
  simp [Quoting.quote, readQuoted, body, ofCodes_map_toNat]

/-! ### Characters of a quoted text -/

private theorem graphic_of_hexDigit? {c : Char} {n : Nat} (h : hexDigit? c = some n) : ' ' ≤ c ∧ c ≤ '~' := by
  unfold hexDigit? at h
  have order : ' ' ≤ '0' ∧ '9' ≤ '~' ∧ ' ' ≤ 'a' ∧ 'f' ≤ '~' ∧ ' ' ≤ 'A' ∧ 'F' ≤ '~' := by decide
  split at h
  · rename_i digit
    simp only [Char.isDigit, Bool.and_eq_true, decide_eq_true_eq] at digit
    exact ⟨Char.le_trans order.1 digit.1, Char.le_trans digit.2 order.2.1⟩
  · split at h
    · rename_i small
      exact ⟨Char.le_trans order.2.2.1 small.1, Char.le_trans small.2 order.2.2.2.1⟩
    · split at h
      · rename_i capital
        exact ⟨Char.le_trans order.2.2.2.2.1 capital.1, Char.le_trans capital.2 order.2.2.2.2.2⟩
      · cases h

private theorem graphic_of_readHex {digits : List Char} {n m : Nat}
    (h : digits.foldlM (fun n c => (hexDigit? c).map (16 * n + ·)) n = some m) :
    ∀ c ∈ digits, ' ' ≤ c ∧ c ≤ '~' := by
  induction digits generalizing n with
  | nil => simp
  | cons d digits ih =>
    rw [List.foldlM_cons] at h
    obtain ⟨k, first, rest⟩ := Option.bind_eq_some_iff.1 h
    obtain ⟨_, digit, _⟩ := Option.map_eq_some_iff.1 first
    exact List.forall_mem_cons.2 ⟨graphic_of_hexDigit? digit, ih rest⟩

private theorem graphic_of_sevenShort {c letter : Char} (h : sevenShort c = some letter) :
    ' ' ≤ letter ∧ letter ≤ '~' := by
  unfold sevenShort at h
  split at h <;> cases h <;> decide

/-- What stands between quotes may stand as it is, if this holds of the graphic ASCII characters, which escapes are made
of. -/
theorem Quoting.raw_of_mem_quote (hq : q.Plain raw) (graphic : ∀ c, ' ' ≤ c ∧ c ≤ '~' → raw c) {content : List Char}
    {c : Char} (h : c ∈ q.quote content) : raw c := by
  have escape (d : Char) : ∀ c ∈ q.escape d, raw c := by
    unfold Quoting.escape
    rw [hq.short]
    split
    · rename_i letter hd
      simpa using ⟨graphic '\\' (by decide), graphic letter (graphic_of_sevenShort hd)⟩
    · split
      · rename_i numbered
        obtain ⟨digits, eq, _, value⟩ := hq.numeral d numbered
        rw [eq]
        refine List.forall_mem_cons.2 ⟨graphic '\\' (by decide), List.forall_mem_cons.2 ⟨graphic 'u' (by decide), ?_⟩⟩
        exact fun c hc => graphic c (graphic_of_readHex value c hc)
      · rename_i numbered
        simpa using hq.raw_of_not_numbered d (by simpa using numbered)
  simp only [Quoting.quote, List.mem_append, List.mem_cons, List.mem_flatMap, List.not_mem_nil, or_false] at h
  rcases h with (rfl | ⟨d, _, hc⟩) | rfl
  · exact graphic '"' (by decide)
  · exact escape d c hc
  · exact graphic '"' (by decide)

/-- A quoted text tells where it ends and what is quoted. -/
theorem Quoting.quote_append_inj (hq : q.Plain raw) {a b r s : List Char} (h : q.quote a ++ r = q.quote b ++ s) :
    a = b ∧ r = s := by
  have ha := Quoting.readQuoted_quote hq a r
  rw [h, Quoting.readQuoted_quote hq b s] at ha
  cases ha
  exact ⟨rfl, rfl⟩

end PersistedQuery.Text
