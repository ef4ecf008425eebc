import FactorSearch.Decimal.Shortest

/-!
# Numbers as text

A number is written with its shortest decimal, positionally or with an exponent.  What differs from
one kind of text to another is one `NumberStyle`.
-/

namespace FactorSearch

/-- How one kind of text writes its numbers. -/
structure NumberStyle where
  tie : Decimal.Tie
  /-- Whether a whole number ends in `.0`. -/
  wholePoint : Bool
  /-- Whether a number whose first digit stands for `10 ^ e` is written without an exponent. -/
  positional : Int → Bool
  nan : String
  infinity : String
  negInfinity : String

namespace Decimal

variable (style : NumberStyle) (d : Decimal)

/-- Digits and point, with the zeros that the exponent asks for. -/
def positional : List Char :=
  if 0 ≤ d.exponent then
    d.digits ++ List.replicate d.exponent.toNat '0' ++ if style.wholePoint then ['.', '0'] else []
  else if 0 < d.pointPosition then
    d.digits.take d.pointPosition.toNat ++ '.' :: d.digits.drop d.pointPosition.toNat
  else
    '0' :: '.' :: List.replicate (-d.pointPosition).toNat '0' ++ d.digits

/-- One digit before the point and the power of ten behind, always with its sign. -/
def scientific : List Char :=
  let e := d.pointPosition - 1
  let fraction := d.digits.drop 1
  d.digits.take 1 ++ (if fraction.isEmpty then [] else '.' :: fraction) ++
    'e' :: (if e < 0 then '-' else '+') :: digitsOf e.natAbs

def text : List Char :=
  if style.positional (d.pointPosition - 1) then d.positional style else d.scientific

end Decimal

namespace Binary64

def chars (style : NumberStyle) (x : Binary64) : List Char :=
  if x.isNaN then style.nan.toList
  else if x.isFinite then
    (if x.negative then ['-'] else []) ++ (Decimal.shortest style.tie x.magnitude).text style
  else if x.negative then style.negInfinity.toList
  else style.infinity.toList

def text (style : NumberStyle) (x : Binary64) : String := String.ofList (x.chars style)

end Binary64

end FactorSearch
