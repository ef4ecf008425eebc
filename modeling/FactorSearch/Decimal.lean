import FactorSearch.Binary64

/-!
# Decimals

A decimal is a whole number and a power of ten.  `Decimal.magnitude` is the binary64 magnitude
nearest to it; a decimal reads back as a number when that magnitude is the number's.
-/

namespace FactorSearch

/-- The value `coefficient * 10 ^ exponent`. -/
structure Decimal where
  coefficient : Nat
  exponent : Int
deriving DecidableEq

namespace Decimal

/-- The decimal digits of a whole number. -/
def digitsOf (n : Nat) : List Char := Nat.toDigits 10 n

/-- The whole number that the digits spell. -/
def ofDigits (cs : List Char) : Nat := Nat.ofDigitChars 10 cs 0

variable (d : Decimal)

def digits : List Char := digitsOf d.coefficient

/-- How many digits stand before the point, less the zeros after it. -/
def pointPosition : Int := d.digits.length + d.exponent

/-- The magnitude nearest to the value of `d`.  The first two cases only keep the powers small:
`10 ^ 310` is beyond every finite number, and `10 ^ -330` below half of the least. -/
def magnitude : Nat :=
  if d.coefficient = 0 ∨ d.pointPosition < -330 then 0
  else if 310 < d.pointPosition then Binary64.infinity
  else
    Binary64.nearest (d.coefficient * Nat.pow 10 d.exponent.toNat) (Nat.pow 10 (-d.exponent).toNat)

/-- The same value without zeros at the end of the coefficient; zero has the exponent zero. -/
def trim (d : Decimal) : Decimal :=
  if d.coefficient = 0 then ⟨0, 0⟩
  else if d.coefficient % 10 = 0 then trim ⟨d.coefficient / 10, d.exponent + 1⟩
  else d
termination_by d.coefficient

end Decimal

/-- A literal is the number nearest to the decimal it spells. -/
instance : OfScientific Binary64 where
  ofScientific n shifted e :=
    .ofMagnitude false (Decimal.magnitude ⟨n, if shifted then -(e : Int) else e⟩)

end FactorSearch
