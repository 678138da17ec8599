import PersistedQuery.Decimal.Double

/-!
# Shortest decimals

The reals that round to a double form an interval around it.  Of all decimals in that interval the shortest one lies
on the coarsest grid of multiples of a power of ten that meets the interval, and of these it is the nearest to the
double.

All quantities are counted in quarters of the unit of the double, so that the ends of the interval are whole numbers.

* `Double.isRead_of_nearest?`: a multiple that is found lies in the interval.
-/

namespace PersistedQuery

/-- Which of two equally near decimals is taken. -/
inductive Tie where
  | up
  | even
  deriving DecidableEq

/-- The number `digits * 10 ^ exponent`. -/
structure Decimal where
  digits : Nat
  exponent : Int
  deriving DecidableEq

namespace Double

/-- Ten to the power `k` is `stepNum / stepDen` quarters of the unit of `x`. -/
def stepNum (x : Double) (k : Int) : Nat := Nat.pow 10 k.toNat * Nat.pow 2 (2 - x.exponent).toNat

def stepDen (x : Double) (k : Int) : Nat := Nat.pow 10 (-k).toNat * Nat.pow 2 (x.exponent - 2).toNat

/-- Whether `n / den` quarters round to `x`.  The ends of the interval do so if the significand is even. -/
def rounds (x : Double) (n den : Nat) : Bool :=
  let low := (4 * x.significand - if x.isNarrowBelow then 1 else 2) * den
  let high := (4 * x.significand + 2) * den
  if x.significand % 2 = 0 then low ≤ n && n ≤ high else low < n && n < high

/-- Whether `p * 10 ^ k` rounds to `x`. -/
def isRead (x : Double) (k : Int) (p : Nat) : Bool := x.rounds (p * x.stepNum k) (x.stepDen k)

/-- The multiple of ten to the power `k` that is nearest to `x` among those that round to it. -/
def nearest? (tie : Tie) (x : Double) (k : Int) : Option Nat :=
  let scaled := 4 * x.significand * x.stepDen k
  let below := scaled / x.stepNum k
  let twice := 2 * (scaled % x.stepNum k)
  let isAboveNearer := x.stepNum k < twice || (twice = x.stepNum k && (tie = .up || below % 2 = 1))
  match x.isRead k below, x.isRead k (below + 1) with
  | true, true => if isAboveNearer then some (below + 1) else some below
  | true, false => some below
  | false, true => some (below + 1)
  | false, false => none

/-- A power of ten that is greater than any number that rounds to `x`. -/
def topExponent (x : Double) : Int := (x.exponent + 54) * 30103 / 100000 + 1

/-- The shortest decimal that rounds to `x`, which is finite and not zero.  Within twenty powers of ten the grid
becomes finer than the interval. -/
def shortest (tie : Tie) (x : Double) : Decimal :=
  ((List.range 20).findSome? fun (i : Nat) =>
    (x.nearest? tie (x.topExponent - i)).map fun digits => ⟨digits, x.topExponent - i⟩).getD ⟨0, 0⟩

theorem isRead_of_nearest? {tie : Tie} {x : Double} {k : Int} {p : Nat} (h : x.nearest? tie k = some p) :
    x.isRead k p = true := by
  grind [nearest?]

end Double

end PersistedQuery
