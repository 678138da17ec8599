/-!
# Quoted text

A quoted text stands between two double quotes.  Inside, a `Quoting` decides which characters are written as a
backslash and a letter, which as a backslash and a number, and which as they are.
-/

namespace PersistedQuery.Text

/-- The escapes of one kind of quoted text. -/
structure Quoting where
  /-- The letter after the backslash, for a character with a short escape. -/
  short : Char → Option Char
  /-- The other characters that may not stand as they are. -/
  numbered : Char → Bool
  /-- What follows the backslash for a character given by its number. -/
  numeral : Nat → List Char

/-- The short escapes of a quoted text that names the quote, the backslash and the five usual blanks. -/
def sevenShort : Char → Option Char
  | '"' => some '"'
  | '\\' => some '\\'
  | '\n' => some 'n'
  | '\r' => some 'r'
  | '\t' => some 't'
  | '\x08' => some 'b'
  | '\x0c' => some 'f'
  | _ => none

/-- A character as it stands inside a quoted text. -/
def Quoting.escape (q : Quoting) (c : Char) : List Char :=
  match q.short c with
  | some letter => ['\\', letter]
  | none => if q.numbered c then '\\' :: q.numeral c.toNat else [c]

/-- The quoted form of a text. -/
def Quoting.quote (q : Quoting) (s : List Char) : List Char :=
  '"' :: s.flatMap q.escape ++ ['"']

end PersistedQuery.Text
