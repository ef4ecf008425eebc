import FactorSearch.Json.Reader

/-!
# Numbers in JSON

A numeral is read digit by digit and valued afterwards: a whole number in 64 bits if it is written
as one and fits, otherwise a floating point number.  There are two ways to round to one: to the
nearest, or in two steps, which are faster and end next to it at times.
-/

namespace FactorSearch.Json

/-- A number as it is written. -/
structure Numeral where
  negative : Bool
  whole : List Char
  fraction : Option (List Char)
  exponent : Option Int
deriving DecidableEq

inductive Number
  | integer (n : Int)
  | float (x : Binary64)
deriving DecidableEq

def Number.found : Number → Found
  | integer n => .integer n
  | float x => .float x

def Number.toBinary64 : Number → Binary64
  | integer n => .ofInt n
  | float x => x

namespace Numeral

variable {ε : Type}

open Reader

section Read

variable (atEnd : Fault ε)

/-- One digit or more; `atEnd` is the fault of a text that ends before. -/
def someDigits : Reader ε (List Char) := do
  match ← takeWhile Char.isDigit with
  | [] => if (← peek?).isNone then fail atEnd else fail .malformed
  | ds => pure ds

/-- The digits before the point: no zero in front of another digit. -/
def wholePart : Reader ε (List Char) := do
  match ← someDigits atEnd with
  | '0' :: _ :: _ => fail .malformed
  | ds => pure ds

def fractionPart : Reader ε (Option (List Char)) := do
  if ← accept '.' then some <$> someDigits atEnd else pure none

def exponentPart : Reader ε (Option Int) := do
  let marked ← if ← accept 'e' then pure true else accept 'E'
  if marked then
    let negative ← accept '-'
    let _ ← if negative then pure false else accept '+'
    let e := Decimal.ofDigits (← someDigits atEnd)
    pure (some (if negative then -(e : Int) else e))
  else pure none

def read : Reader ε Numeral := do
  let negative ← accept '-'
  let whole ← wholePart atEnd
  let fraction ← fractionPart atEnd
  let exponent ← exponentPart atEnd
  pure { negative, whole, fraction, exponent }

end Read

variable (n : Numeral)

/-- The value without its sign. -/
def decimal : Decimal :=
  let fraction := n.fraction.getD []
  ⟨Decimal.ofDigits (n.whole ++ fraction), n.exponent.getD 0 - fraction.length⟩

/-! ### Rounding -/

/-- The nearest magnitude. -/
def nearest : Nat := n.decimal.magnitude

/-- The number that the digits write behind `taken`, up to the first one that 64 bits do not hold,
and how many digits it has. -/
def fit : (taken : Nat) → List Char → Nat × Nat
  | taken, [] => (taken, 0)
  | taken, c :: cs =>
    let more := taken * 10 + (c.toNat - '0'.toNat)
    if more < UInt64.size then
      let (significand, count) := fit more cs
      (significand, count + 1)
    else (taken, 0)

/-- The magnitude of `10 ^ e`, up to `10 ^ 308`. -/
def powerOfTen (e : Nat) : Nat := Binary64.nearest (Nat.pow 10 e) 1

/-- A magnitude below `2 ^ 64` times `10 ^ e`, by one power of ten that is rounded itself, or by two
where one is not small enough. -/
def scale (m : Nat) (e : Int) : Nat :=
  if m = 0 then 0
  else if 308 < e then Binary64.infinity
  else if 0 ≤ e then Binary64.product m (powerOfTen e.toNat)
  else if -308 ≤ e then Binary64.quotient m (powerOfTen (-e).toNat)
  else if -616 ≤ e then
    Binary64.quotient (Binary64.quotient m (powerOfTen 308)) (powerOfTen (-e - 308).toNat)
  else 0

/-- The digits that 64 bits hold are rounded first, and what they make times a power of ten again.
Digits that do not fit are left out, those before the point as zeros. -/
def stepwise : Nat :=
  let (whole, count) := fit 0 n.whole
  let (significand, count') := fit whole (n.fraction.getD [])
  let exponent := n.exponent.getD 0 + (n.whole.length - count : Nat) - count'
  scale (Binary64.nearest significand 1) exponent

/-! ### Values -/

/-- The number that the numeral is rounded to; one beyond every finite number has no value. -/
def float? (round : Numeral → Nat) : Option Binary64 :=
  let m := round n
  if m < Binary64.infinity then some (.ofMagnitude n.negative m) else none

/-- The value of a numeral without point and exponent, if 64 bits hold it.  There is no negative
zero among the whole numbers. -/
def integer? : Option Int :=
  if n.fraction.isSome || n.exponent.isSome then none
  else
    let k := Decimal.ofDigits n.whole
    if n.negative then if 0 < k ∧ k ≤ 0x8000000000000000 then some (-(k : Int)) else none
    else if k < UInt64.size then some k else none

def number? (round : Numeral → Nat) : Option Number :=
  match n.integer? with
  | some k => some (.integer k)
  | none => (n.float? round).map .float

/-- A numeral that has a value. -/
def readNumber (round : Numeral → Nat) : Reader ε Number := do
  match (← read .truncated).number? round with
  | some x => pure x
  | none => fail .malformed

end Numeral

end FactorSearch.Json
