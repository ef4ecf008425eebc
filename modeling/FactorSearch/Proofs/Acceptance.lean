import FactorSearch.Expr.Stack

/-!
# What the operand stack accepts

`Accepts s t s'` lists the moves of the stack, one constructor for every kind of token;
`push_eq_ok_iff` shows that they are the moves of `push`.  `AcceptsAll` strings moves together, as
`pushAll` does when no token is refused.
-/

namespace FactorSearch.Expr.Stack

variable {s s' s'' : Stack} {t : Token} {ts us : List Token}

/-! ## One token -/

section Move

/-- The stack `s` takes the token `t` and becomes `s'`. -/
inductive Accepts : Stack → Token → Stack → Prop
  | feature {s : Stack} (f : Feature) (h : admitsFeature s = true) :
      Accepts s (.feature f) (.expr (.feature f) :: s)
  | constant {s : Stack} (c : Binary64) (h : admitsConstant s = true) :
      Accepts s (.constant c) (.expr (.constant c) :: s)
  | deltaTime {s : Stack} {x : Expr} (days : UInt32) (hx : x.featured = true) :
      Accepts (.expr x :: s) (.deltaTime days) (.deltaTime days :: .expr x :: s)
  | unary {s : Stack} {x : Expr} (op : Operator.Unary) (hx : x.featured = true) :
      Accepts (.expr x :: s) (.operator (.unary op)) (.expr (.unary op x) :: s)
  | binary {s : Stack} {x y : Expr} (op : Operator.Binary)
      (h : x.featured = true ∨ y.featured = true) :
      Accepts (.expr y :: .expr x :: s) (.operator (.binary op)) (.expr (.binary op x y) :: s)
  | rolling {s : Stack} {x : Expr} {days : UInt32} (op : Operator.Rolling)
      (hx : x.featured = true) :
      Accepts (.deltaTime days :: .expr x :: s) (.operator (.rolling op))
        (.expr (.rolling op x days) :: s)
  | pairRolling {s : Stack} {x y : Expr} {days : UInt32} (op : Operator.PairRolling)
      (hx : x.featured = true) (hy : y.featured = true) :
      Accepts (.deltaTime days :: .expr y :: .expr x :: s) (.operator (.pairRolling op))
        (.expr (.pairRolling op x y days) :: s)

theorem admitsConstant_iff :
    admitsConstant s = true ↔ s = [] ∨ ∃ x r, s = .expr x :: r ∧ x.featured = true := by
  rcases s with _ | ⟨x | days, r⟩ <;> simp [admitsConstant]

theorem admitsDeltaTime_iff :
    admitsDeltaTime s = true ↔ ∃ x r, s = .expr x :: r ∧ x.featured = true := by
  rcases s with _ | ⟨x | days, r⟩ <;> simp [admitsDeltaTime]

theorem admitsOperator_unary_iff :
    admitsOperator .unary s = true ↔ ∃ x r, s = .expr x :: r ∧ x.featured = true := by
  rcases s with _ | ⟨x | days, r⟩ <;> simp [admitsOperator]

theorem admitsOperator_binary_iff :
    admitsOperator .binary s = true ↔
      ∃ x y r, s = .expr y :: .expr x :: r ∧ (x.featured = true ∨ y.featured = true) := by
  rcases s with _ | ⟨y | days, _ | ⟨x | days', r⟩⟩ <;> simp [admitsOperator, and_assoc]

theorem admitsOperator_rolling_iff :
    admitsOperator .rolling s = true ↔
      ∃ days x r, s = .deltaTime days :: .expr x :: r ∧ x.featured = true := by
  rcases s with _ | ⟨y | days, _ | ⟨x | days', r⟩⟩ <;> simp [admitsOperator, and_assoc]

theorem admitsOperator_pairRolling_iff :
    admitsOperator .pairRolling s = true ↔
      ∃ days x y r, s = .deltaTime days :: .expr y :: .expr x :: r ∧
        x.featured = true ∧ y.featured = true := by
  rcases s with _ | ⟨z | days, _ | ⟨y | days', _ | ⟨x | days'', r⟩⟩⟩ <;>
    simp [admitsOperator, and_assoc]

theorem Accepts.admits (h : Accepts s t s') : admits t s = true := by
  cases h with
  | feature f h => exact h
  | constant c h => exact h
  | deltaTime days hx => exact hx
  | unary op hx => exact hx
  | binary op h => simpa [Stack.admits, Operator.category, admitsOperator] using h
  | rolling op hx => exact hx
  | pairRolling op hx hy => simp [Stack.admits, Operator.category, admitsOperator, hx, hy]

theorem Accepts.eq_place (h : Accepts s t s') : s' = place t s := by
  cases h <;> rfl

theorem Accepts.of_admits (h : Stack.admits t s = true) : Accepts s t (place t s) := by
  cases t with
  | feature f => exact .feature f h
  | constant c => exact .constant c h
  | deltaTime days =>
    obtain ⟨x, r, rfl, hx⟩ := admitsDeltaTime_iff.mp h
    exact .deltaTime days hx
  | terminator => cases h
  | operator op =>
    cases op with
    | unary op =>
      obtain ⟨x, r, rfl, hx⟩ := admitsOperator_unary_iff.mp h
      exact .unary op hx
    | binary op =>
      obtain ⟨x, y, r, rfl, hxy⟩ := admitsOperator_binary_iff.mp h
      exact .binary op hxy
    | rolling op =>
      obtain ⟨days, x, r, rfl, hx⟩ := admitsOperator_rolling_iff.mp h
      exact .rolling op hx
    | pairRolling op =>
      obtain ⟨days, x, y, r, rfl, hx, hy⟩ := admitsOperator_pairRolling_iff.mp h
      exact .pairRolling op hx hy

theorem accepts_iff : Accepts s t s' ↔ admits t s = true ∧ s' = place t s :=
  ⟨fun h => ⟨h.admits, h.eq_place⟩, fun ⟨h, e⟩ => e ▸ Accepts.of_admits h⟩

/-- The moves are those of `push`. -/
theorem push_eq_ok_iff : push s t = .ok s' ↔ Accepts s t s' := by
  rw [accepts_iff, push]
  by_cases h : admits t s = true
  · simp [h, eq_comm]
  · simp [h]

theorem push_eq_error_iff {fault : Fault} :
    push s t = .error fault ↔ admits t s = false ∧ fault = .unexpected t := by
  rw [push]
  by_cases h : admits t s = true
  · simp [h]
  · simp [h, eq_comm]

/-- A move leaves an expression on top, or the delta time just read on a featured expression. -/
theorem Accepts.top (h : Accepts s t s') : (∃ x r, s' = .expr x :: r) ∨
    ∃ days x r, t = .deltaTime days ∧ s' = .deltaTime days :: .expr x :: r ∧
      x.featured = true := by
  cases h with
  | deltaTime days hx => exact .inr ⟨days, _, _, rfl, rfl, hx⟩
  | _ => exact .inl ⟨_, _, rfl⟩

end Move

/-! ## A list of tokens -/

section Moves

/-- The stack `s` takes the tokens one after the other and becomes `s'`. -/
inductive AcceptsAll : Stack → List Token → Stack → Prop
  | nil {s : Stack} : AcceptsAll s [] s
  | cons {s s' s'' : Stack} {t : Token} {ts : List Token} (h : Accepts s t s')
      (hs : AcceptsAll s' ts s'') : AcceptsAll s (t :: ts) s''

theorem AcceptsAll.append (h : AcceptsAll s ts s') (h' : AcceptsAll s' us s'') :
    AcceptsAll s (ts ++ us) s'' := by
  induction h with
  | nil => exact h'
  | cons h₁ _ ih => exact .cons h₁ (ih h')

theorem AcceptsAll.concat (h : AcceptsAll s ts s') (h' : Accepts s' t s'') :
    AcceptsAll s (ts ++ [t]) s'' :=
  h.append (.cons h' .nil)

/-- The tokens decide what becomes of the stack. -/
theorem AcceptsAll.unique (h : AcceptsAll s ts s') (h' : AcceptsAll s ts s'') : s' = s'' := by
  induction h with
  | nil => cases h'; rfl
  | cons h₁ _ ih =>
    cases h' with
    | cons h₂ hs =>
      rw [h₁.eq_place, ← h₂.eq_place] at ih
      exact ih hs

/-- What every move preserves, a list of moves preserves; `P` may look at the tokens taken. -/
theorem AcceptsAll.invariant {P : List Token → Stack → Prop}
    (step : ∀ {us s t s'}, P us s → Accepts s t s' → P (us ++ [t]) s')
    (h : AcceptsAll s ts s') (hs : P us s) : P (us ++ ts) s' := by
  induction h generalizing us with
  | nil => simpa using hs
  | cons h₁ _ ih => simpa using ih (step hs h₁)

theorem pushAll_eq_iff : pushAll s ts = (s', ts.length, none) ↔ AcceptsAll s ts s' := by
  induction ts generalizing s with
  | nil =>
    simp only [pushAll, List.length_nil, Prod.mk.injEq, and_true]
    constructor
    · rintro rfl
      exact .nil
    · intro h
      cases h
      rfl
  | cons t ts ih =>
    rw [pushAll]
    cases h : push s t with
    | error fault =>
      simp only [Prod.mk.injEq, reduceCtorEq, and_false, false_iff]
      intro h'
      cases h' with
      | cons h₁ _ => simp [push_eq_ok_iff.mpr h₁] at h
    | ok s₁ =>
      have hiff : AcceptsAll s (t :: ts) s' ↔ AcceptsAll s₁ ts s' := by
        refine ⟨fun h' => ?_, .cons (push_eq_ok_iff.mp h)⟩
        cases h' with
        | cons h₁ hs =>
          rw [push_eq_ok_iff.mpr h₁, Except.ok.injEq] at h
          exact h ▸ hs
      rw [hiff, ← ih]
      simp [Prod.ext_iff]

end Moves

end FactorSearch.Expr.Stack
