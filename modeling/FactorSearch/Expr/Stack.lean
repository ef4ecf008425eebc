import FactorSearch.Expr
import FactorSearch.Legality

/-!
# The operand stack

Tokens in reverse Polish order build an expression on a stack.  `admits` says which token the stack
takes next, `push` takes it, and a stack that holds one featured expression is complete.  Two
expressions that read no market series are never combined, and a delta time waits for the rolling
operator that uses it.
-/

namespace FactorSearch

namespace Expr

/-- What lies on the stack. -/
inductive Item
  | expr (e : Expr)
  | deltaTime (days : UInt32)
deriving DecidableEq

/-- Operands not yet taken, the last one first. -/
abbrev Stack := List Item

namespace Stack

/-- Why a stack gives no answer. -/
inductive Fault
  | unexpected (token : Token)
  | incomplete (items : Nat)
deriving DecidableEq

def Fault.message : Fault → String
  | unexpected token => "unexpected token " ++ token.text ++ " in current state"
  | incomplete items => s!"expression incomplete ({items} stack items)"

section Legal

def admitsOperator : Operator.Category → Stack → Bool
  | .unary, .expr x :: _ => x.featured
  | .binary, .expr y :: .expr x :: _ => x.featured || y.featured
  | .rolling, .deltaTime _ :: .expr x :: _ => x.featured
  | .pairRolling, .deltaTime _ :: .expr y :: .expr x :: _ => x.featured && y.featured
  | _, _ => false

/-- A delta time follows a featured expression. -/
def admitsDeltaTime : Stack → Bool
  | .expr x :: _ => x.featured
  | _ => false

/-- A constant stands first or follows a featured expression. -/
def admitsConstant : Stack → Bool
  | [] => true
  | .expr x :: _ => x.featured
  | .deltaTime _ :: _ => false

/-- A feature follows anything but a delta time. -/
def admitsFeature : Stack → Bool
  | .deltaTime _ :: _ => false
  | _ => true

def admits : Token → Stack → Bool
  | .operator op, s => admitsOperator op.category s
  | .feature _, s => admitsFeature s
  | .deltaTime _, s => admitsDeltaTime s
  | .constant _, s => admitsConstant s
  | .terminator, _ => false

/-- The one featured expression of a complete stack. -/
def complete? : Stack → Option Expr
  | [.expr x] => if x.featured then some x else none
  | _ => none

def isComplete (s : Stack) : Bool := (complete? s).isSome

/-- Which tokens the stack takes next, and whether the expression may end here. -/
def legality (s : Stack) : Legality :=
  let categories : CategoryFlags :=
    ⟨admitsOperator .unary s, admitsOperator .binary s, admitsOperator .rolling s,
      admitsOperator .pairRolling s⟩
  { categories
    anyOperator := categories.any
    feature := admitsFeature s
    constant := admitsConstant s
    deltaTime := admitsDeltaTime s
    terminator := isComplete s }

end Legal

/-- The stack after `token`: an operator takes its operands from the top and leaves the expression
they make.  A token that finds no operands leaves the stack alone; `admits` keeps it away. -/
def place : Token → Stack → Stack
  | .feature f, s => .expr (.feature f) :: s
  | .constant c, s => .expr (.constant c) :: s
  | .deltaTime days, s => .deltaTime days :: s
  | .operator (.unary op), .expr x :: s => .expr (.unary op x) :: s
  | .operator (.binary op), .expr y :: .expr x :: s => .expr (.binary op x y) :: s
  | .operator (.rolling op), .deltaTime days :: .expr x :: s => .expr (.rolling op x days) :: s
  | .operator (.pairRolling op), .deltaTime days :: .expr y :: .expr x :: s =>
    .expr (.pairRolling op x y days) :: s
  | _, s => s

/-- Takes one token, or none at all. -/
def push (s : Stack) (token : Token) : Except Fault Stack :=
  if admits token s then .ok (place token s) else .error (.unexpected token)

/-- Takes the tokens one by one up to the first that is refused: the stack, how many were taken, and
the refusal. -/
def pushAll (s : Stack) : List Token → Stack × Nat × Option Fault
  | [] => (s, 0, none)
  | token :: tokens =>
    match push s token with
    | .ok s' =>
      let (last, taken, fault) := pushAll s' tokens
      (last, taken + 1, fault)
    | .error fault => (s, 0, some fault)

/-- The text of the complete expression. -/
def expression (s : Stack) : Except Fault String :=
  match complete? s with
  | some x => .ok x.text
  | none => .error (.incomplete s.length)

end Stack

end Expr

end FactorSearch
