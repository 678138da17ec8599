/-!
# Doubles

A binary floating point number of 64 bits, given by its bits: the sign, eleven bits of exponent and 52 bits of
fraction.  Its magnitude is a whole number of units, and the unit is a power of two.
-/

namespace PersistedQuery

structure Double where
  bits : UInt64
  deriving DecidableEq

namespace Double

def isNegative (x : Double) : Bool := x.bits.toNat.testBit 63

/-- Two to the power 52: a fraction is less than it, and it is the bit before the fraction of a normal number. -/
abbrev leadingBit : Nat := 0x10000000000000

def exponentField (x : Double) : Nat := x.bits.toNat / leadingBit % 0x800

def fraction (x : Double) : Nat := x.bits.toNat % leadingBit

def isFinite (x : Double) : Bool := x.exponentField ≠ 0x7ff

/-- The number of units of a finite double.  Below the normal range there is no implicit leading bit. -/
def significand (x : Double) : Nat := if x.exponentField = 0 then x.fraction else leadingBit + x.fraction

/-- The unit of a finite double is two to this power. -/
def exponent (x : Double) : Int := (max x.exponentField 1 : Nat) - 1075

/-- Whether the next smaller double is only half a unit away, as below a power of two in the normal range. -/
def isNarrowBelow (x : Double) : Bool := x.fraction = 0 && 1 < x.exponentField

end Double

end PersistedQuery
