import FactorSearch.Grammar
import FactorSearch.Expr.Stack

/-!
# Composing an expression

The grammar that builds one expression an episode on the operand stack.  The terminator, or a token
that would make the expression longer than `maxLength - 1` tokens, ends the episode: a complete
expression goes to the scorer, any other costs `invalidReward`.  So does a token that the stack
refuses.
-/

namespace FactorSearch

/-- The expression so far, its tokens in order, and what the scorer remembers. -/
structure Composition (σ : Type) where
  stack : Expr.Stack
  tokens : List Token
  memory : σ
deriving DecidableEq

namespace Composition

/-- What is reported about one token. -/
structure Info where
  /-- How many tokens the expression has. -/
  length : Nat
  /-- The stack refused the token. -/
  invalid : Bool
  /-- The text of the finished expression, if it is complete. -/
  expression : Option String
deriving DecidableEq

/-- The reward for an expression that cannot be scored. -/
def invalidReward : Binary64 := -1.0

variable {σ : Type}

def start (memory : σ) : Composition σ := ⟨[], [], memory⟩

/-- An empty expression; the scorer keeps its memory. -/
def reset (c : Composition σ) : Composition σ := start c.memory

variable (score : Scorer σ) (maxLength : Nat)

/-- Ends the episode, with the score of a complete expression. -/
def finish (c : Composition σ) : Composition σ × Verdict Info :=
  match Expr.Stack.expression c.stack with
  | .ok text =>
    let (memory, reward) := score c.memory c.tokens
    ({ c with memory }, ⟨reward, true, ⟨c.tokens.length, false, some text⟩⟩)
  | .error _ => (c, ⟨invalidReward, true, ⟨c.tokens.length, false, none⟩⟩)

def step (c : Composition σ) (token : Token) : Composition σ × Verdict Info :=
  if token.isTerminator || maxLength ≤ c.tokens.length + 1 then finish score c
  else
    match Expr.Stack.push c.stack token with
    | .ok stack =>
      let c' := { c with stack, tokens := c.tokens ++ [token] }
      (c', ⟨0.0, false, ⟨c'.tokens.length, false, none⟩⟩)
    | .error _ => (c, ⟨invalidReward, true, ⟨c.tokens.length, true, none⟩⟩)

def legality (c : Composition σ) : Legality := Expr.Stack.legality c.stack

def grammar : Grammar (Composition σ) Info where
  reset := reset
  step := step score maxLength
  legality := legality

end Composition

end FactorSearch
