import FactorSearch.Named

/-!
# Operators of the formula language

An operator belongs to one of four categories, which fix what it takes: one series, two series, a
series and a delta time, or two series and a delta time.  Legality never looks further than the
category.
-/

namespace FactorSearch

namespace Operator

/-- What an operator takes. -/
inductive Category
  | unary
  | binary
  | rolling
  | pairRolling
deriving DecidableEq

/-- Elementwise on one series. -/
inductive Unary
  | abs
  | log
  | csRank
deriving DecidableEq

/-- Elementwise on two series. -/
inductive Binary
  | add
  | sub
  | mul
  | div
  | pow
  | greater
  | less
deriving DecidableEq

/-- Over a time window of one series. -/
inductive Rolling
  | ref
  | mean
  | sum
  | std
  | var
  | skew
  | kurt
  | max
  | min
  | med
  | mad
  | rank
  | delta
  | wma
  | ema
deriving DecidableEq

/-- Over a time window of two series. -/
inductive PairRolling
  | cov
  | corr
deriving DecidableEq

end Operator

inductive Operator
  | unary (op : Operator.Unary)
  | binary (op : Operator.Binary)
  | rolling (op : Operator.Rolling)
  | pairRolling (op : Operator.PairRolling)
deriving DecidableEq

namespace Operator

def Unary.name : Unary → String
  | .abs => "Abs"
  | .log => "Log"
  | .csRank => "CSRank"

def Binary.name : Binary → String
  | .add => "Add"
  | .sub => "Sub"
  | .mul => "Mul"
  | .div => "Div"
  | .pow => "Pow"
  | .greater => "Greater"
  | .less => "Less"

def Rolling.name : Rolling → String
  | .ref => "Ref"
  | .mean => "Mean"
  | .sum => "Sum"
  | .std => "Std"
  | .var => "Var"
  | .skew => "Skew"
  | .kurt => "Kurt"
  | .max => "Max"
  | .min => "Min"
  | .med => "Med"
  | .mad => "Mad"
  | .rank => "Rank"
  | .delta => "Delta"
  | .wma => "WMA"
  | .ema => "EMA"

def PairRolling.name : PairRolling → String
  | .cov => "Cov"
  | .corr => "Corr"

def name : Operator → String
  | .unary op => op.name
  | .binary op => op.name
  | .rolling op => op.name
  | .pairRolling op => op.name

def category : Operator → Category
  | .unary _ => .unary
  | .binary _ => .binary
  | .rolling _ => .rolling
  | .pairRolling _ => .pairRolling

/-- How many items an operator takes from the stack, its delta time included. -/
def Category.arity : Category → Nat
  | .unary => 1
  | .binary => 2
  | .rolling => 2
  | .pairRolling => 3

def arity (op : Operator) : Nat := op.category.arity

/-- Every operator, category by category. -/
def all : List Operator :=
  [.abs, .log, .csRank].map .unary ++
  [.add, .sub, .mul, .div, .pow, .greater, .less].map .binary ++
  [.ref, .mean, .sum, .std, .var, .skew, .kurt, .max, .min, .med, .mad, .rank, .delta, .wma,
    .ema].map .rolling ++
  [.cov, .corr].map .pairRolling

instance : Named Operator where
  all := all
  name := name
  mem_all op := by
    rcases op with op | op | op | op <;> cases op <;> decide
  nodup_names := by decide +kernel

def Category.name : Category → String
  | .unary => "Unary"
  | .binary => "Binary"
  | .rolling => "Rolling"
  | .pairRolling => "PairRolling"

instance : Named Category where
  all := [.unary, .binary, .rolling, .pairRolling]
  name := Category.name
  mem_all c := by cases c <;> decide
  nodup_names := by decide +kernel

/-- The operators of a category, in order. -/
def Category.operators (c : Category) : List Operator := all.filter fun op => op.category = c

end Operator

end FactorSearch
