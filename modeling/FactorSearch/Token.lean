import FactorSearch.Operator
import FactorSearch.Feature
import FactorSearch.Decimal.Text

/-!
# Tokens

A formula is spelled in reverse Polish order, operands before the operator that takes them, and
closed by the terminator.
-/

namespace FactorSearch

inductive Token
  | operator (op : Operator)
  | feature (f : Feature)
  | deltaTime (days : UInt32)
  | constant (c : Binary64)
  | terminator
deriving DecidableEq

namespace Token

/-- The kinds of tokens, in the order of their blocks of action ids. -/
inductive Kind
  | operator
  | feature
  | deltaTime
  | constant
  | terminator
deriving DecidableEq

def Kind.all : List Kind := [.operator, .feature, .deltaTime, .constant, .terminator]

def kind : Token → Kind
  | operator _ => .operator
  | feature _ => .feature
  | deltaTime _ => .deltaTime
  | constant _ => .constant
  | terminator => .terminator

def operator? : Token → Option Operator
  | operator op => some op
  | _ => none

def isTerminator : Token → Bool
  | terminator => true
  | _ => false

/-- Equality that compares constants by value: `0 = -0`, and a NaN equals nothing. -/
def ieeeEq : Token → Token → Bool
  | constant a, constant b => a.ieeeEq b
  | s, t => s = t

/-- Numbers inside a formula: never an exponent, no point in a whole number. -/
def numberStyle : NumberStyle where
  tie := .upper
  wholePoint := false
  positional := fun _ => true
  nan := "NaN"
  infinity := "inf"
  negInfinity := "-inf"

/-- How a number is written inside a formula. -/
def constantText (c : Binary64) : String := c.text numberStyle

/-- How a delta time is written inside a formula. -/
def deltaTimeText (days : UInt32) : String := toString days.toNat ++ "d"

def text : Token → String
  | operator op => op.name
  | feature f => f.text
  | deltaTime days => deltaTimeText days
  | constant c => constantText c
  | terminator => "SEP"

end Token

end FactorSearch
