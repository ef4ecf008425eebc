import FactorSearch.Decimal

/-!
# The shortest decimal that reads back

For one digit, two digits and so on, `shortest` takes the two neighbours of the number among the
decimals of so many digits and keeps those that read back as the number.  The first count of digits
with a hit wins; of two hits the nearer one does.  Seventeen digits always suffice, and the exact
expansion of the number, which reads back too, stands behind them.
-/

namespace FactorSearch

namespace Decimal

/-- Which of two decimals equally near to a number is taken. -/
inductive Tie
  | upper
  | even
deriving DecidableEq

/-- How many digits `n / d` has before the point, less the zeros after it. -/
def leadingPlace (n d : Nat) : Int :=
  if d ≤ n then (digitsOf (n / d)).length else 1 - (digitsOf ((d - 1) / n)).length

/-- Whether the upper neighbour of `n / d` among the whole numbers is preferred to the lower. -/
def Tie.prefersUpper (tie : Tie) (n d : Nat) : Bool :=
  d < 2 * (n % d) ||
    2 * (n % d) = d && match tie with
      | .upper => true
      | .even => n / d % 2 = 1

/-- The better neighbour of magnitude `m` among the multiples of `10 ^ exponent`, if one reads
back. -/
def neighbour? (tie : Tie) (m : Nat) (exponent : Int) : Option Decimal :=
  let n := Binary64.units m * Nat.pow 10 (-exponent).toNat
  let d := Binary64.unitsOfOne * Nat.pow 10 exponent.toNat
  let lower : Decimal := ⟨n / d, exponent⟩
  let upper : Decimal := ⟨n / d + 1, exponent⟩
  let inOrder := if tie.prefersUpper n d then [upper, lower] else [lower, upper]
  inOrder.find? (·.magnitude = m)

/-- The value of magnitude `m` itself. -/
def exact (m : Nat) : Decimal := ⟨Binary64.units m * Nat.pow 5 1074, -1074⟩

/-- The shortest decimal that reads back as the finite magnitude `m`. -/
def shortest (tie : Tie) (m : Nat) : Decimal :=
  let place := leadingPlace (Binary64.units m) Binary64.unitsOfOne
  let found := (List.range 17).findSome? fun k : Nat => neighbour? tie m (place - (k + 1))
  (found.getD (exact m)).trim

end Decimal

end FactorSearch
