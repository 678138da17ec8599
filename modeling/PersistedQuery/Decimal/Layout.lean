import PersistedQuery.Decimal.Shortest

/-!
# Decimal text of doubles

A double is written with the digits of its shortest decimal.  A `Layout` says for which powers of ten the digits stand
around a point; with any other leading power the text has an exponent.
-/

namespace PersistedQuery

/-- Where positional notation begins and ends, and how ties between digits are broken. -/
structure Layout where
  /-- The least power of ten of a leading digit in positional notation. -/
  least : Int
  /-- The greatest power of ten of a leading digit in positional notation. -/
  greatest : Int
  tie : Tie

/-- Digits around a point, with at least one on either side of it. -/
def positional (digits : List Char) (exponent : Int) : List Char :=
  let whole := digits.length + exponent
  if 0 ≤ exponent then digits ++ List.replicate exponent.toNat '0' ++ ".0".toList
  else if whole ≤ 0 then "0.".toList ++ List.replicate (-whole).toNat '0' ++ digits
  else digits.take whole.toNat ++ '.' :: digits.drop whole.toNat

/-- One digit before the point, which is left out when nothing follows it, and the power of ten of that digit. -/
def scientific (digits : List Char) (exponent : Int) : List Char :=
  (match digits with
    | [] => []
    | [d] => [d]
    | d :: ds => d :: '.' :: ds) ++
    'e' :: (exponent + digits.length - 1).repr.toList

def Decimal.text (l : Layout) (d : Decimal) : List Char :=
  let digits := Nat.toDigits 10 d.digits
  let leading := d.exponent + digits.length - 1
  if l.least ≤ leading ∧ leading ≤ l.greatest then positional digits d.exponent else scientific digits d.exponent

/-- The text of any double; those that are not finite have a name. -/
def Double.text (l : Layout) (x : Double) : List Char :=
  let sign := if x.isNegative then ['-'] else []
  if x.isFinite then
    sign ++ if x.significand = 0 then "0.0".toList else (x.shortest l.tie).text l
  else if x.fraction = 0 then sign ++ "inf".toList
  else "NaN".toList

end PersistedQuery
