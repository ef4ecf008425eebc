import FactorSearch.Token

/-!
# Expressions

`Expr.text` writes an expression as nested calls, `Expr.postorder` as the tokens that spell it.
-/

namespace FactorSearch

inductive Expr
  | feature (f : Feature)
  | constant (c : Binary64)
  | unary (op : Operator.Unary) (x : Expr)
  | binary (op : Operator.Binary) (x y : Expr)
  | rolling (op : Operator.Rolling) (x : Expr) (days : UInt32)
  | pairRolling (op : Operator.PairRolling) (x y : Expr) (days : UInt32)
deriving DecidableEq

namespace Expr

/-- Whether the expression reads a market series. -/
def featured : Expr → Bool
  | feature _ => true
  | constant _ => false
  | unary _ x => x.featured
  | binary _ x y => x.featured || y.featured
  | rolling _ x _ => x.featured
  | pairRolling _ x y _ => x.featured || y.featured

/-- Operands from left to right, then the operator. -/
def postorder : Expr → List Token
  | feature f => [.feature f]
  | constant c => [.constant c]
  | unary op x => x.postorder ++ [.operator (.unary op)]
  | binary op x y => x.postorder ++ y.postorder ++ [.operator (.binary op)]
  | rolling op x days => x.postorder ++ [.deltaTime days, .operator (.rolling op)]
  | pairRolling op x y days =>
    x.postorder ++ y.postorder ++ [.deltaTime days, .operator (.pairRolling op)]

/-- A call with its arguments in parentheses. -/
def call (name : String) (args : List String) : String :=
  name ++ "(" ++ ",".intercalate args ++ ")"

def text : Expr → String
  | feature f => f.text
  | constant c => Token.constantText c
  | unary op x => call op.name [x.text]
  | binary op x y => call op.name [x.text, y.text]
  | rolling op x days => call op.name [x.text, Token.deltaTimeText days]
  | pairRolling op x y days => call op.name [x.text, y.text, Token.deltaTimeText days]

end Expr

end FactorSearch
