import FactorSearch.Proofs.Shape
import Mathlib.Algebra.Ring.Int.Defs

/-!
# Operators find their operands

Which operators a stack takes is decided by the items at certain places from the top; how many items
an operator takes is decided by its arity.  Here a stack of texts lists its items from the bottom
up, and an operator splits it at its height less the arity: `Rendered.push?` has no answer where that
would go below zero.  Main statement: it always has an answer, the one of `Stack.push`, and the
height of a stack is the balance of the tokens on it (`operands_accounted`).
-/

namespace FactorSearch.Expr

/-! ## Stacks of texts, from the bottom up -/

namespace Rendered

variable {items : List Rendered} {n : Nat} {op : Operator}

section Push

def isExpr : Rendered → Bool
  | expr _ _ => true
  | deltaTime _ => false

def isDeltaTime : Rendered → Bool
  | expr _ _ => false
  | deltaTime _ => true

/-- The item at place `n` from the top, which has the place 1. -/
def fromTop? (items : List Rendered) (n : Nat) : Option Rendered :=
  if n ≤ items.length then items[items.length - n]? else none

/-- What a category asks of the items on top. -/
def admitsOperator (items : List Rendered) : Operator.Category → Bool
  | .unary => (fromTop? items 1).any featured
  | .binary =>
    (fromTop? items 2).any isExpr && (fromTop? items 1).any isExpr &&
      ((fromTop? items 2).any featured || (fromTop? items 1).any featured)
  | .rolling => (fromTop? items 1).any isDeltaTime && (fromTop? items 2).any featured
  | .pairRolling =>
    (fromTop? items 1).any isDeltaTime && (fromTop? items 2).any featured &&
      (fromTop? items 3).any featured

/-- Splits off as many items as the arity says and puts one expression in their place. -/
def combine? (op : Operator) (items : List Rendered) : Option (List Rendered) :=
  if op.arity ≤ items.length then
    let (below, operands) := items.splitAt (items.length - op.arity)
    some (below ++ [.expr (call op.name (operands.map text)) (operands.any featured)])
  else none

def admits (items : List Rendered) : Token → Bool
  | .operator op => admitsOperator items op.category
  | .feature _ => !(fromTop? items 1).any isDeltaTime
  | .deltaTime _ => (fromTop? items 1).any featured
  | .constant _ => (fromTop? items 1).all featured
  | .terminator => false

/-- Puts a token on the items; an operator has to find its operands. -/
def put? (items : List Rendered) : Token → Option (List Rendered)
  | .operator op => combine? op items
  | .feature f => some (items ++ [.expr f.text true])
  | .deltaTime days => some (items ++ [.deltaTime days])
  | .constant c => some (items ++ [.expr (Token.constantText c) false])
  | .terminator => some items

/-- Takes one token, or none at all; no answer if an operator finds too few items. -/
def push? (items : List Rendered) (t : Token) : Option (Except Stack.Fault (List Rendered)) :=
  if admits items t then (put? items t).map .ok else some (.error (.unexpected t))

end Push

/-! ### No underflow -/

section Underflow

theorem le_length_of_any_fromTop? {p : Rendered → Bool} (h : (fromTop? items n).any p = true) :
    n ≤ items.length := by
  by_contra hn
  rw [fromTop?, if_neg hn] at h
  cases h

/-- What a category asks for lies as deep as its operators reach. -/
theorem arity_le_length_of_admitsOperator (h : admitsOperator items op.category = true) :
    op.arity ≤ items.length := by
  rw [Operator.arity]
  -- every category looks at its lowest operand, so the stack reaches down to it
  cases hc : op.category with
  | unary =>
    rw [hc] at h
    exact le_length_of_any_fromTop? h
  | binary =>
    rw [hc, admitsOperator, Bool.and_eq_true, Bool.and_eq_true] at h
    exact le_length_of_any_fromTop? h.1.1
  | rolling =>
    rw [hc, admitsOperator, Bool.and_eq_true] at h
    exact le_length_of_any_fromTop? h.2
  | pairRolling =>
    rw [hc, admitsOperator, Bool.and_eq_true] at h
    exact le_length_of_any_fromTop? h.2

theorem combine?_of_le (h : op.arity ≤ items.length) : combine? op items =
    some (items.take (items.length - op.arity) ++
      [.expr (call op.name ((items.drop (items.length - op.arity)).map text))
        ((items.drop (items.length - op.arity)).any featured)]) := by
  rw [combine?, if_pos h, List.splitAt_eq]

theorem exists_push?_eq_some (items : List Rendered) (t : Token) :
    ∃ answer, push? items t = some answer := by
  rw [push?]
  by_cases h : admits items t = true
  · -- what is admitted has its operands, so none is missing when they are taken
    obtain ⟨items', hput⟩ : ∃ items', put? items t = some items' := by
      cases t with
      | operator op => exact ⟨_, combine?_of_le (arity_le_length_of_admitsOperator h)⟩
      | _ => exact ⟨_, rfl⟩
    exact ⟨.ok items', by rw [if_pos h, hput]; rfl⟩
  · exact ⟨.error (.unexpected t), if_neg h⟩

end Underflow

end Rendered

namespace Stack

variable {s s' : Stack} {t : Token} {ts us : List Token} {op : Operator}

/-! ## The stack of trees -/

section Trees

/-- The texts of a stack, from the bottom up. -/
def texts (s : Stack) : List Rendered := (s.map Item.rendered).reverse

theorem fromTop?_texts (s : Stack) (n : Nat) :
    Rendered.fromTop? s.texts (n + 1) = s[n]?.map Item.rendered := by
  simp only [Rendered.fromTop?, texts, List.length_reverse, List.length_map]
  by_cases h : n + 1 ≤ s.length
  · have hplace : s.length - (n + 1) < s.length := by omega
    rw [if_pos h, List.getElem?_reverse (by simpa using hplace), List.getElem?_map,
      List.length_map]
    congr 2
    omega
  · rw [if_neg h, List.getElem?_eq_none (by omega)]
    rfl

/-- The places from the top ask what the patterns of the stack ask. -/
theorem admitsOperator_texts (s : Stack) (c : Operator.Category) :
    Rendered.admitsOperator s.texts c = admitsOperator c s := by
  have h₁ : Rendered.fromTop? s.texts 1 = s[0]?.map Item.rendered := fromTop?_texts s 0
  have h₂ : Rendered.fromTop? s.texts 2 = s[1]?.map Item.rendered := fromTop?_texts s 1
  have h₃ : Rendered.fromTop? s.texts 3 = s[2]?.map Item.rendered := fromTop?_texts s 2
  cases c <;> simp only [Rendered.admitsOperator, h₁, h₂, h₃] <;>
    rcases s with _ | ⟨x | days, _ | ⟨y | days', _ | ⟨z | days'', s⟩⟩⟩ <;>
    simp [admitsOperator, Item.rendered, Rendered.featured, Rendered.isExpr, Rendered.isDeltaTime,
      Bool.and_comm]

theorem admits_texts (s : Stack) (t : Token) : Rendered.admits s.texts t = admits t s := by
  have h₁ : Rendered.fromTop? s.texts 1 = s[0]?.map Item.rendered := fromTop?_texts s 0
  cases t with
  | operator op => exact admitsOperator_texts s op.category
  | feature f =>
    rw [Rendered.admits, h₁]
    rcases s with _ | ⟨x | days, s⟩ <;> rfl
  | deltaTime days =>
    rw [Rendered.admits, h₁]
    rcases s with _ | ⟨x | days, s⟩ <;> rfl
  | constant c =>
    rw [Rendered.admits, h₁]
    rcases s with _ | ⟨x | days, s⟩ <;> rfl
  | terminator => rfl

/-- What is split off below the height less the arity is what lies on top. -/
theorem put?_texts (h : Accepts s t s') : Rendered.put? s.texts t = some s'.texts := by
  have hrendered := h.rendered
  cases t with
  | operator op =>
    have harity : op.arity ≤ s.texts.length := by
      have hadmits := admits_texts s (.operator op)
      rw [h.admits] at hadmits
      exact Rendered.arity_le_length_of_admitsOperator hadmits
    -- texts are counted from the bottom, and trees from the top
    have hsplit : s.texts.length - (s.texts.length - op.arity) = op.arity := by omega
    rw [Rendered.put?, Rendered.combine?_of_le harity, texts, texts, hrendered, Rendered.place]
    simp only [texts, List.length_reverse] at hsplit ⊢
    rw [List.take_reverse, List.drop_reverse, hsplit]
    simp
  | feature f =>
    rw [texts, texts, hrendered, Rendered.place, List.reverse_cons]
    rfl
  | deltaTime days =>
    rw [texts, texts, hrendered, Rendered.place, List.reverse_cons]
    rfl
  | constant c =>
    rw [texts, texts, hrendered, Rendered.place, List.reverse_cons]
    rfl
  | terminator => cases h

/-- Texts are pushed as trees are. -/
theorem push?_texts (s : Stack) (t : Token) :
    Rendered.push? s.texts t = some ((push s t).map texts) := by
  rw [Rendered.push?, admits_texts, push]
  by_cases h : admits t s = true
  · rw [if_pos h, if_pos h, put?_texts (Accepts.of_admits h)]
    rfl
  · rw [if_neg h, if_neg h]
    rfl

/-- An operator takes its operands off the top, in their order, and leaves what lies below them. -/
theorem push_operator_of_admits (h : admitsOperator op.category s = true) :
    op.arity ≤ s.length ∧ ∃ e, push s (.operator op) = .ok (.expr e :: s.drop op.arity) ∧
      e.postorder = spelling (s.take op.arity) ++ [.operator op] := by
  obtain ⟨s', hs'⟩ : ∃ s', Accepts s (.operator op) s' := ⟨_, Accepts.of_admits h⟩
  rw [push_eq_ok_iff.mpr hs']
  cases hs' with
  | unary op hx => exact ⟨Nat.le_add_left 1 _, _, rfl, rfl⟩
  | binary op hxy => exact ⟨Nat.le_add_left 2 _, _, rfl, rfl⟩
  | @rolling _ x days op hx =>
    refine ⟨Nat.le_add_left 2 _, _, rfl, ?_⟩
    exact (List.append_assoc x.postorder [.deltaTime days] [.operator (.rolling op)]).symm
  | @pairRolling _ x y days op hx hy =>
    refine ⟨Nat.le_add_left 3 _, _, rfl, ?_⟩
    exact (List.append_assoc (x.postorder ++ y.postorder) [.deltaTime days]
      [.operator (.pairRolling op)]).symm

end Trees

/-! ## The balance of the tokens -/

section Balance

/-- What the tokens add to the height: one for each that is no operator, less what each operator
takes beyond the one item that it leaves. -/
def balance (ts : List Token) : Int :=
  (ts.countP (·.operator?.isNone) : Int) -
    ((ts.filterMap Token.operator?).map fun op => (op.arity : Int) - 1).sum

theorem balance_concat (ts : List Token) (t : Token) :
    balance (ts ++ [t]) = balance ts + balance [t] := by
  simp only [balance, List.countP_append, List.filterMap_append, List.map_append, List.sum_append]
  omega

theorem balance_operator (op : Operator) : balance [.operator op] = 1 - op.arity := by
  show ((0 : Nat) : Int) - ((op.arity : Int) - 1 + 0) = 1 - op.arity
  omega

theorem balance_of_operator?_eq_none (ht : t.operator? = none) : balance [t] = 1 := by
  simp [balance, ht]

theorem Accepts.length_eq (h : Accepts s t s') : (s'.length : Int) = s.length + balance [t] := by
  -- an operator takes its operands off; all other tokens only add themselves
  by_cases ht : t.operator? = none
  · rw [balance_of_operator?_eq_none ht]
    cases h with
    | feature => simp
    | constant => simp
    | deltaTime => simp
    | _ => cases ht
  · obtain ⟨op, rfl⟩ : ∃ op, t = .operator op := by
      cases t with
      | operator op => exact ⟨op, rfl⟩
      | _ => exact absurd rfl ht
    obtain ⟨harity, e, hpush, -⟩ := push_operator_of_admits h.admits
    have hs' : s' = .expr e :: s.drop op.arity :=
      Except.ok.inj ((push_eq_ok_iff.mpr h).symm.trans hpush)
    rw [balance_operator, hs', List.length_cons, List.length_drop]
    omega

theorem AcceptsAll.length_eq (h : AcceptsAll [] ts s) : (s.length : Int) = balance ts := by
  have hempty : (([] : Stack).length : Int) = balance [] := rfl
  have hstep : ∀ {us s t s'}, (s.length : Int) = balance us → Accepts s t s' →
      (s'.length : Int) = balance (us ++ [t]) := by
    intro us s t s' hs h
    rw [h.length_eq, hs, balance_concat]
  exact h.invariant (P := fun us s => (s.length : Int) = balance us) hstep hempty

theorem Accepts.length_pos (h : Accepts s t s') : 1 ≤ s'.length := by
  rcases h.top with ⟨x, r, rfl⟩ | ⟨days, x, r, -, rfl, -⟩
  · exact Nat.le_add_left 1 _
  · exact Nat.le_add_left 1 _

theorem AcceptsAll.length_pos (h : AcceptsAll s ts s') (hts : ts ≠ []) : 1 ≤ s'.length := by
  induction h with
  | nil => exact absurd rfl hts
  | cons h₁ hs ih =>
    cases hs with
    | nil => exact h₁.length_pos
    | cons => exact ih (List.cons_ne_nil _ _)

end Balance

/-! ## The account -/

section Main

/-- Operators never reach below the stack, and every operand is accounted for. -/
structure Accounted : Prop where
  /-- Whatever lies on a stack of texts, an operator that is admitted finds as many items as its
  arity says, splits them off and puts one expression made of them, in their order, in their
  place. -/
  split : ∀ (items : List Rendered) (op : Operator),
    Rendered.admitsOperator items op.category = true → op.arity ≤ items.length ∧
      Rendered.combine? op items = some (items.take (items.length - op.arity) ++
        [.expr (call op.name ((items.drop (items.length - op.arity)).map Rendered.text))
          ((items.drop (items.length - op.arity)).any Rendered.featured)])
  /-- The same of trees, where the expression is spelled as its operands, then the operator. -/
  operands : ∀ (s : Stack) (op : Operator), admitsOperator op.category s = true →
    op.arity ≤ s.length ∧ ∃ e, push s (.operator op) = .ok (.expr e :: s.drop op.arity) ∧
      e.postorder = spelling (s.take op.arity) ++ [.operator op]
  /-- The height is the number of tokens that are no operators, less one item for each operand of an
  operator but the first. -/
  height : ∀ (ts : List Token) (s : Stack), pushAll [] ts = (s, ts.length, none) →
    (s.length : Int) = (ts.countP (·.operator?.isNone) : Int) -
      ((ts.filterMap Token.operator?).map fun op => (op.arity : Int) - 1).sum
  nonempty : ∀ (ts : List Token) (s : Stack), pushAll [] ts = (s, ts.length, none) → ts ≠ [] →
    1 ≤ s.length
  /-- Every stack of texts has an answer to every token. -/
  answer : ∀ (items : List Rendered) (t : Token), ∃ answer, Rendered.push? items t = some answer
  /-- The answer is the one that the stack of trees gives. -/
  push : ∀ (s : Stack) (t : Token),
    Rendered.push? s.texts t = some ((push s t).map texts)

theorem operands_accounted : Accounted where
  split items op h := by
    have harity := Rendered.arity_le_length_of_admitsOperator h
    exact ⟨harity, Rendered.combine?_of_le harity⟩
  operands s op h := push_operator_of_admits h
  height ts s h := (pushAll_eq_iff.mp h).length_eq
  nonempty ts s h hts := (pushAll_eq_iff.mp h).length_pos hts
  answer := Rendered.exists_push?_eq_some
  push := push?_texts

end Main

end Stack

end FactorSearch.Expr
