import FactorSearch.Proofs.Shape

/-!
# Fragments compose

A fragment is a list of tokens that the empty stack accepts.  Its first token leaves an operand of
its own, and from then on neither a rule nor an operator reaches what lies below its operands.  Main
statement: a stack that takes the first token of a fragment takes all of it, and what the fragment
builds lies on top of the stack as it was (`fragment_composes`).
-/

namespace FactorSearch.Expr.Stack

variable {s s' : Stack} {t : Token} {ts : List Token}

/-! ## What lies below -/

section Below

theorem Accepts.ne_nil (h : Accepts s t s') : s' ≠ [] := by
  rcases h.top with ⟨x, r, rfl⟩ | ⟨days, x, r, -, rfl, -⟩
  · exact List.cons_ne_nil _ _
  · exact List.cons_ne_nil _ _

/-- A stack that is not empty decides on a feature by its top. -/
theorem admitsFeature_append (hs : s ≠ []) (below : Stack) :
    admitsFeature (s ++ below) = admitsFeature s := by
  obtain ⟨i, r, rfl⟩ := List.exists_cons_of_ne_nil hs
  cases i <;> rfl

/-- A move that has operands to begin with does not depend on what lies below them. -/
theorem Accepts.above (h : Accepts s t s') (hs : s ≠ []) (below : Stack) :
    Accepts (s ++ below) t (s' ++ below) := by
  cases h with
  | feature f h => exact .feature f ((admitsFeature_append hs below).trans h)
  | constant c h =>
    -- on the empty stack alone a constant needs no featured expression below it
    rcases admitsConstant_iff.mp h with rfl | ⟨x, r, rfl, hx⟩
    · exact absurd rfl hs
    · exact .constant c hx
  | deltaTime days hx => exact .deltaTime days hx
  | unary op hx => exact .unary op hx
  | binary op h => exact .binary op h
  | rolling op hx => exact .rolling op hx
  | pairRolling op hx hy => exact .pairRolling op hx hy

theorem AcceptsAll.above (h : AcceptsAll s ts s') (hs : s ≠ []) (below : Stack) :
    AcceptsAll (s ++ below) ts (s' ++ below) := by
  induction h with
  | nil => exact .nil
  | cons h₁ _ ih => exact .cons (h₁.above hs below) (ih h₁.ne_nil)

/-- What the empty stack takes first, another stack puts on top, if it takes it. -/
theorem Accepts.first_above (h : Accepts [] t s) {below : Stack}
    (ht : Stack.admits t below = true) : Accepts below t (s ++ below) := by
  cases h with
  | feature f _ => exact .feature f ht
  | constant c _ => exact .constant c ht

end Below

/-! ## Fragments -/

section Fragment

/-- A fragment goes on top of any stack that takes its first token. -/
theorem AcceptsAll.fragment (h : AcceptsAll [] (t :: ts) s) {below : Stack}
    (ht : admits t below = true) : AcceptsAll below (t :: ts) (s ++ below) := by
  cases h with
  | cons h₁ hs => exact .cons (h₁.first_above ht) (hs.above h₁.ne_nil below)

/-- If the empty stack accepts a list of tokens, another stack `b` accepts the whole list as soon as
it accepts the first token, and then holds what the empty stack would hold on top of `b` itself.  If
it refuses the first token, it stays as it is. -/
theorem fragment_composes (t : Token) (ts : List Token) (s : Stack)
    (h : pushAll [] (t :: ts) = (s, (t :: ts).length, none)) (b : Stack) :
    (∀ b', push b t = .ok b' → pushAll b (t :: ts) = (s ++ b, (t :: ts).length, none)) ∧
      ∀ fault, push b t = .error fault →
        offer b t = b ∧ pushAll b (t :: ts) = (b, 0, some fault) := by
  refine ⟨fun b' hb => ?_, fun fault hb => ⟨?_, ?_⟩⟩
  · have ht : admits t b = true := (push_eq_ok_iff.mp hb).admits
    exact pushAll_eq_iff.mpr ((pushAll_eq_iff.mp h).fragment ht)
  · rw [offer, hb]
  · rw [pushAll, hb]

/-- The fragment `2 $open +` on two stacks that tokens lead to: the one with a series on top takes
it, the one with a constant on top does not. -/
theorem fragment_composes_sum :
    let t : Token := .constant 2.0
    let ts : List Token := [.feature .openPrice, .operator (.binary .add)]
    let s : Stack := [.expr (.binary .add (.constant 2.0) (.feature .openPrice))]
    let b := offerAll [] [.constant 1.0, .feature .closePrice]
    let b' := offerAll [] [.feature .closePrice, .constant 1.0]
    pushAll [] (t :: ts) = (s, 3, none) ∧ pushAll b (t :: ts) = (s ++ b, 3, none) ∧
      pushAll b' (t :: ts) = (b', 0, some (.unexpected t)) := by
  intro t ts s b b'
  have h : pushAll [] (t :: ts) = (s, 3, none) := rfl
  obtain ⟨htaken, -⟩ := fragment_composes t ts s h b
  obtain ⟨-, hrefused⟩ := fragment_composes t ts s h b'
  exact ⟨h, htaken _ rfl, (hrefused _ rfl).2⟩

end Fragment

end FactorSearch.Expr.Stack
