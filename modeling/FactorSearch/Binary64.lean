/-!
# Binary64: IEEE 754 double precision numbers, by their bits

A number is its 64 bits, so two zeros and all NaNs stay apart; `ieeeEq` is the comparison that
identifies the zeros and separates a NaN from itself.

Without the sign a number is a magnitude below `2 ^ 63`.  The magnitudes below `infinity` count the
finite values from zero upward, and each is a whole number of `units` of `2 ^ -1074`; `nearest` goes
the other way, from any fraction to the magnitude whose value is nearest.
-/

namespace FactorSearch

structure Binary64 where
  bits : UInt64
deriving DecidableEq

namespace Binary64

/-- The bit of the sign, above every magnitude: `2 ^ 63`. -/
def signBit : Nat := 0x8000000000000000

/-- How many magnitudes share an exponent: `2 ^ 52`. -/
def binade : Nat := 0x10000000000000

/-- The magnitude of the two infinities; larger ones are NaNs. -/
def infinity : Nat := 0x7ff * binade

def negative (x : Binary64) : Bool := signBit ≤ x.bits.toNat

def magnitude (x : Binary64) : Nat := x.bits.toNat % signBit

def ofMagnitude (negative : Bool) (m : Nat) : Binary64 :=
  ⟨UInt64.ofNat (if negative then signBit + m else m)⟩

def isNaN (x : Binary64) : Bool := infinity < x.magnitude

def isFinite (x : Binary64) : Bool := x.magnitude < infinity

def isZero (x : Binary64) : Bool := x.magnitude = 0

/-- Equality of values: `0 = -0`, and a NaN equals nothing. -/
def ieeeEq (x y : Binary64) : Bool :=
  !x.isNaN && !y.isNaN && (x == y || x.isZero && y.isZero)

instance : Neg Binary64 where
  neg x := ⟨x.bits ^^^ 0x8000000000000000⟩

def add (x y : Binary64) : Binary64 := ⟨(Float.ofBits x.bits + Float.ofBits y.bits).toBits⟩

section Magnitude

/-- How many units of `2 ^ -1074` make one. -/
def unitsOfOne : Nat := Nat.pow 2 1074

/-- How far the last place of magnitude `m` lies above `2 ^ -1074`. -/
def shift (m : Nat) : Nat := m / binade - 1

/-- The finite magnitude `m`, counted in units of `2 ^ -1074`. -/
def units (m : Nat) : Nat := (m - shift m * binade) * Nat.pow 2 (shift m)

/-- The whole number nearest to `n / d`, the even one of two. -/
def roundHalfEven (n d : Nat) : Nat :=
  if 2 * (n % d) < d ∨ 2 * (n % d) = d ∧ n / d % 2 = 0 then n / d else n / d + 1

/-- The magnitude nearest to `n / d`: rounded to 53 binary digits, or to a whole number of units
where there are fewer. -/
def nearest (n d : Nat) : Nat :=
  let s := (n * unitsOfOne / d).log2 - 52
  min infinity (s * binade + roundHalfEven (n * unitsOfOne) (d * Nat.pow 2 s))

/-- The product of two finite magnitudes, rounded. -/
def product (m₁ m₂ : Nat) : Nat := nearest (units m₁ * units m₂) (unitsOfOne * unitsOfOne)

/-- The quotient of two finite magnitudes, rounded; the second one is not zero. -/
def quotient (m₁ m₂ : Nat) : Nat := nearest (units m₁) (units m₂)

/-- The number nearest to a whole number. -/
def ofInt (n : Int) : Binary64 := ofMagnitude (n < 0) (nearest n.natAbs 1)

end Magnitude

end Binary64

end FactorSearch
