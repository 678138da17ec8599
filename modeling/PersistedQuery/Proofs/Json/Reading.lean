import PersistedQuery.Json.Text
import PersistedQuery.Proofs.Json.Tokens
import PersistedQuery.Proofs.Quoted

/-!
# Reading JSON

A text is read as a value if its tokens are those of the value (`Json.Reads`), so it is read as one value at most
(`Json.Reads.unique`).  What the literals and the numbers stand for is left open: `word` says it.

A written text is put together from parts that can be scanned one by one, whatever follows them (`Json.Scans`).  So an
object of strings is read back, whether it is written without blanks or with a line for each member.
-/

namespace PersistedQuery.Json

open Text

/-! ### Scanning -/

/-- The blanks that may stand between tokens. -/
def isSpace (c : Char) : Bool := c = ' ' || c = '\t' || c = '\n' || c = '\r'

/-- The tokens of a single character. -/
def mark? : Char → Option Token
  | '[' => some .openArray
  | ']' => some .closeArray
  | '\x7b' => some .openObject
  | '\x7d' => some .closeObject
  | ':' => some .colon
  | ',' => some .comma
  | _ => none

/-- The characters that may stand in a string as they are. -/
def isRaw (c : Char) : Bool := ' ' ≤ c

/-- The characters that literals and numbers are made of. -/
def isWordPart (c : Char) : Bool := c.isAlphanum || c = '-' || c = '+' || c = '.'

/-- The tokens of a text. -/
def tokens? (word : List Char → Option Json) : List Char → Option (List Token)
  | [] => some []
  | c :: t =>
    if isSpace c then
      tokens? word t
    else
      match mark? c with
      | some mark => (tokens? word t).map (mark :: ·)
      | none =>
        match _ : readQuoted isRaw (c :: t) with
        | some (content, rest) => (tokens? word rest).map (.scalar (.string (String.ofList content)) :: ·)
        | none =>
          if isWordPart c then do
            let v ← word (c :: t.takeWhile isWordPart)
            (tokens? word (t.dropWhile isWordPart)).map (.scalar v :: ·)
          else
            none
termination_by t => t.length
decreasing_by
  · simp
  · simp
  · rename_i read
    exact length_lt_of_readQuoted read
  · have := (List.dropWhile_suffix (l := t) isWordPart).length_le
    simp only [List.length_cons]
    omega

variable {word : List Char → Option Json}

/-- The text is JSON for the value. -/
def Reads (word : List Char → Option Json) (t : List Char) (v : Json) : Prop := tokens? word t = some v.tokens

theorem Reads.unique {t : List Char} {v w : Json} (hv : Reads word t v) (hw : Reads word t w) : v = w := by
  unfold Reads at hv hw
  rw [hv, Option.some.injEq] at hw
  exact (tokens_append_inj v w (congrArg (· ++ []) hw)).1

/-! ### Parts of a text -/

/-- The part is scanned to these tokens, whatever follows it. -/
def Scans (word : List Char → Option Json) (t : List Char) (ts : List Token) : Prop :=
  ∀ rest, tokens? word (t ++ rest) = (tokens? word rest).map (ts ++ ·)

theorem Scans.reads {t : List Char} {v : Json} (h : Scans word t v.tokens) : Reads word t v := by
  have whole := h []
  rw [List.append_nil, tokens?, Option.map_some, List.append_nil] at whole
  exact whole

theorem scans_nil : Scans word [] [] := by
  intro rest
  simp

theorem Scans.append {t u : List Char} {ts us : List Token} (ht : Scans word t ts) (hu : Scans word u us) :
    Scans word (t ++ u) (ts ++ us) := by
  intro rest
  rw [List.append_assoc, ht, hu, Option.map_map]
  simp [Function.comp_def]

theorem scans_space {c : Char} (h : isSpace c) : Scans word [c] [] := by
  intro rest
  rw [List.singleton_append, tokens?, if_pos h]
  simp

theorem scans_mark {c : Char} {mark : Token} (h : mark? c = some mark) : Scans word [c] [mark] := by
  intro rest
  have space : isSpace c = false := by
    unfold mark? at h
    split at h <;> first | decide | cases h
  rw [List.singleton_append, tokens?, if_neg (by simp [space])]
  simp [h]

theorem stringQuoting_plain : stringQuoting.Plain isRaw where
  short := rfl
  numeral c h := by
    have bound : c.toNat < 0x20 := by simpa [stringQuoting] using h
    have value := readHex_map_hex (f := id) (by decide) 4 c.toNat
    refine ⟨_, rfl, length_hex 4 c.toNat, ?_⟩
    rw [List.map_id, Nat.mod_eq_of_lt (Nat.lt_trans bound (by decide))] at value
    exact value
  raw_of_not_numbered c h := by
    have bound : 0x20 ≤ c.toNat := by simpa [stringQuoting] using h
    simpa [isRaw, Char.le_def, UInt32.le_iff_toNat_le] using bound

theorem le_of_mem_stringText {s : String} {c : Char} (h : c ∈ stringText s) : ' ' ≤ c := by
  have raw : isRaw c := Quoting.raw_of_mem_quote stringQuoting_plain (fun d hd => by simpa [isRaw] using hd.1) h
  simpa [isRaw] using raw

theorem scans_string (s : String) : Scans word (stringText s) [.scalar (.string s)] := by
  intro rest
  have read : readQuoted isRaw (stringText s ++ rest) = some (s.toList, rest) :=
    Quoting.readQuoted_quote stringQuoting_plain s.toList rest
  obtain ⟨t, eq⟩ : ∃ t, stringText s ++ rest = '"' :: t := ⟨_, rfl⟩
  rw [eq] at read ⊢
  have mark : mark? '"' = none := rfl
  rw [tokens?, if_neg (by decide), mark]
  dsimp only
  split
  · rename_i read'
    rw [read, Option.some.injEq, Prod.mk.injEq] at read'
    obtain ⟨rfl, rfl⟩ := read'
    rw [String.ofList_toList]
    rfl
  · rename_i read'
    rw [read] at read'
    cases read'

theorem Scans.intercalate {α : Type} {comma : List Char} {text : α → List Char} {part : α → List Token}
    (hc : Scans word comma [.comma]) (each : ∀ a, Scans word (text a) (part a)) (as : List α) :
    Scans word (comma.intercalate (as.map text)) ([.comma].intercalate (as.map part)) := by
  induction as with
  | nil => exact scans_nil
  | cons a as ih =>
    cases as with
    | nil => simpa using each a
    | cons b as =>
      simp only [List.map_cons, List.intercalate_cons_cons] at ih ⊢
      exact ((each a).append hc).append ih

/-! ### Objects of strings -/

def ofStrings (members : List (Binding String)) : Json := .object (members.map (Binding.map .string))

/-- The tokens of a member that is a string. -/
private def stringMember (b : Binding String) : List Token :=
  [.scalar (.string b.name)] ++ [.colon] ++ [.scalar (.string b.value)]

private theorem tokens_ofStrings (members : List (Binding String)) :
    (ofStrings members).tokens =
      [.openObject] ++ [.comma].intercalate (members.map stringMember) ++ [.closeObject] := by
  simp only [ofStrings, tokens, memberTokens_eq_map, List.map_map]
  rfl

private theorem text_ofStrings (members : List (Binding String)) :
    (ofStrings members).text =
      ['\x7b'] ++ [','].intercalate (members.map fun b => stringText b.name ++ [':'] ++ stringText b.value) ++
        ['\x7d'] := by
  simp only [ofStrings, text_object, memberTexts_eq_map, List.map_map]
  simp [Function.comp_def, Binding.map, text_string]

theorem scans_text_ofStrings (members : List (Binding String)) :
    Scans word (ofStrings members).text (ofStrings members).tokens := by
  have member (b : Binding String) : Scans word (stringText b.name ++ [':'] ++ stringText b.value) (stringMember b) :=
    ((scans_string b.name).append (scans_mark rfl)).append (scans_string b.value)
  rw [text_ofStrings, tokens_ofStrings]
  exact ((scans_mark rfl).append (.intercalate (scans_mark rfl) member members)).append (scans_mark rfl)

theorem scans_prettyStrings (members : List (Binding String)) :
    Scans word (prettyStrings members) (ofStrings members).tokens := by
  have member (b : Binding String) :
      Scans word ("  ".toList ++ stringText b.name ++ ": ".toList ++ stringText b.value) (stringMember b) := by
    have indent : Scans word "  ".toList [] := (scans_space rfl).append (scans_space rfl)
    have colon : Scans word ": ".toList [.colon] := (scans_mark rfl).append (scans_space rfl)
    exact ((indent.append (scans_string b.name)).append colon).append (scans_string b.value)
  unfold prettyStrings
  split
  · rename_i empty
    rw [List.isEmpty_iff.1 empty]
    exact (scans_mark rfl).append (scans_mark rfl)
  · have opening : Scans word "\x7b\n".toList [.openObject] := (scans_mark rfl).append (scans_space rfl)
    have comma : Scans word ",\n".toList [.comma] := (scans_mark rfl).append (scans_space rfl)
    have closing : Scans word "\n\x7d".toList [.closeObject] := (scans_space rfl).append (scans_mark rfl)
    rw [tokens_ofStrings]
    exact (opening.append (comma.intercalate member members)).append closing

end PersistedQuery.Json
