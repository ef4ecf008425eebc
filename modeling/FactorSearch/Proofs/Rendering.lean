import FactorSearch.Proofs.Acceptance

/-!
# The operand stack with texts in place of trees

`Rendered` is what is left of an item when its tree is forgotten, and `Rendered.place` what a token
does to a stack of such items: an operator joins as many texts as its arity says.  What is joined
that way is the text of the tree (`AcceptsAll.rendered`).
-/

namespace FactorSearch.Expr

/-- An item whose tree is forgotten: its text, and whether it is featured. -/
inductive Rendered
  | expr (text : String) (featured : Bool)
  | deltaTime (days : UInt32)
deriving DecidableEq

def Item.rendered : Item → Rendered
  | .expr e => .expr e.text e.featured
  | .deltaTime days => .deltaTime days

namespace Rendered

def text : Rendered → String
  | expr text _ => text
  | deltaTime days => Token.deltaTimeText days

def featured : Rendered → Bool
  | expr _ featured => featured
  | deltaTime _ => false

/-- A stack of texts takes a token. -/
def place : Token → List Rendered → List Rendered
  | .operator op, r =>
    .expr (call op.name ((r.take op.arity).reverse.map text)) ((r.take op.arity).any featured) ::
      r.drop op.arity
  | .feature f, r => .expr f.text true :: r
  | .constant c, r => .expr (Token.constantText c) false :: r
  | .deltaTime days, r => .deltaTime days :: r
  | .terminator, r => r

end Rendered

namespace Stack

variable {s s' : Stack} {t : Token} {ts : List Token}

/-- A move on trees is a move on their texts. -/
theorem Accepts.rendered (h : Accepts s t s') :
    s'.map Item.rendered = Rendered.place t (s.map Item.rendered) := by
  cases h <;>
    simp [Item.rendered, Rendered.place, Rendered.text, Rendered.featured, Expr.text, Expr.featured,
      Operator.name, Operator.arity, Operator.category, Operator.Category.arity, Feature.text,
      Bool.or_comm]

theorem AcceptsAll.rendered (h : AcceptsAll s ts s') :
    s'.map Item.rendered = ts.foldl (fun r t => Rendered.place t r) (s.map Item.rendered) := by
  induction h with
  | nil => rfl
  | cons h₁ _ ih => rw [ih, h₁.rendered, List.foldl_cons]

end Stack

end FactorSearch.Expr
