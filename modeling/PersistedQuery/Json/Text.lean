import PersistedQuery.Decimal.Layout
import PersistedQuery.Json.Basic
import PersistedQuery.Text.Hex
import PersistedQuery.Text.Quoted

/-!
# JSON text

* `Json.texts_eq_map`, `Json.memberTexts_eq_map`: the texts of the parts of a value are those of the parts, one by one.
-/

namespace PersistedQuery.Json

/-- In a string, a character below U+0020 without a short escape is written as `u` and four hexadecimal digits. -/
def stringQuoting : Text.Quoting where
  short := Text.sevenShort
  numbered c := c.toNat < 0x20
  numeral n := 'u' :: Text.hex 4 n

def stringText (s : String) : List Char := stringQuoting.quote s.toList

/-- Floats have their shortest digits, ties going to the even digit.  The digits stand around a point from 0.00001 up
to 16 digits before it. -/
def floatLayout : Layout := ⟨-5, 15, .even⟩

mutual

/-- The text without blanks. -/
def text : Json → List Char
  | .null => "null".toList
  | .bool true => "true".toList
  | .bool false => "false".toList
  | .int n => n.repr.toList
  | .float x => x.text floatLayout
  | .string s => stringText s
  | .array items => '[' :: [','].intercalate (texts items) ++ [']']
  | .object members => '\x7b' :: [','].intercalate (memberTexts members) ++ ['\x7d']

def texts : List Json → List (List Char)
  | [] => []
  | v :: vs => v.text :: texts vs

def memberTexts : List (Binding Json) → List (List Char)
  | [] => []
  | b :: bs => (stringText b.name ++ ':' :: b.value.text) :: memberTexts bs

end

theorem text_string (s : String) : (Json.string s).text = stringText s := rfl

theorem text_object (members : List (Binding Json)) :
    (Json.object members).text = '\x7b' :: [','].intercalate (memberTexts members) ++ ['\x7d'] := rfl

theorem texts_eq_map (vs : List Json) : texts vs = vs.map text := by
  induction vs with
  | nil => rfl
  | cons v vs ih => simp [texts, ih]

theorem memberTexts_eq_map (bs : List (Binding Json)) :
    memberTexts bs = bs.map fun b => stringText b.name ++ ':' :: b.value.text := by
  induction bs with
  | nil => rfl
  | cons b bs ih => simp [memberTexts, ih]

/-- An object of strings with each member on a line of its own, indented by two blanks. -/
def prettyStrings (members : List (Binding String)) : List Char :=
  if members.isEmpty then
    "\x7b\x7d".toList
  else
    let lines := members.map fun b => "  ".toList ++ stringText b.name ++ ": ".toList ++ stringText b.value
    "\x7b\n".toList ++ ",\n".toList.intercalate lines ++ "\n\x7d".toList

end PersistedQuery.Json
