import FactorSearch.Proofs.Shape

/-!
# Every operand stack can be completed

A rolling operator uses up a delta time on top, and a binary operator joins the two operands on top,
of which one is always featured.  So one feature, one rolling and one binary operator are enough to
complete any stack that tokens lead to, and `completion` spells out how.  Main statement: the stack
accepts its completion, which is at most one token longer than the stack is high, and is complete
thereafter (`completion_completes`).
-/

namespace FactorSearch.Expr.Stack

variable {s s' : Stack} {x : Expr}

section Spelling

variable (f : Feature) (b : Operator.Binary) (r : Operator.Rolling)

/-- Tokens that leave one featured expression of a stack without a delta time. -/
def folding : Stack → List Token
  | [] => [.feature f]
  | [i] => if i.isFeatured then [] else [.feature f, .operator (.binary b)]
  | s => List.replicate (s.length - 1) (.operator (.binary b))

/-- Tokens that complete a stack: `r` uses up a delta time, `b` joins the operands, and `f` is there
if none of them is featured. -/
def completion (s : Stack) : List Token :=
  match s with
  | .deltaTime _ :: _ =>
    .operator (.rolling r) :: folding f b (place (.operator (.rolling r)) s)
  | _ => folding f b s

end Spelling

variable {f : Feature} {b : Operator.Binary} {r : Operator.Rolling}

theorem length_folding_le (s : Stack) : (folding f b s).length ≤ s.length + 1 := by
  rcases s with _ | ⟨i, _ | ⟨j, s⟩⟩
  · rfl
  · cases h : i.isFeatured <;> simp [folding, h]
  · simp [folding]

/-- A featured operand on top swallows all that lies below it. -/
theorem Settled.exists_acceptsAll_of_featured (hs : Settled s) (hx : x.featured = true) :
    ∃ e : Expr, e.featured = true ∧
      AcceptsAll (.expr x :: s) (List.replicate s.length (.operator (.binary b))) [.expr e] := by
  -- each operator joins the top to what is below, which leaves a featured top again
  induction s generalizing x with
  | nil => exact ⟨x, hx, .nil⟩
  | cons i s ih =>
    cases i with
    | deltaTime days => cases hs
    | expr y =>
      have hjoined : (Expr.binary b y x).featured = true := by
        simp [Expr.featured, hx]
      obtain ⟨e, he, h⟩ := ih hs.tail hjoined
      rw [List.length_cons, List.replicate_succ]
      exact ⟨e, he, .cons (.binary b (.inr hx)) h⟩

/-- Below a constant there is a featured operand, so the first operator leaves one. -/
theorem Settled.exists_acceptsAll_folding (hs : Settled s) :
    ∃ e : Expr, e.featured = true ∧ AcceptsAll s (folding f b s) [.expr e] := by
  cases hs with
  | nil => exact ⟨.feature f, rfl, .cons (.feature f rfl) .nil⟩
  | @featured s x hx hs =>
    obtain ⟨e, he, h⟩ := hs.exists_acceptsAll_of_featured (b := b) hx
    have hspelling : folding f b (.expr x :: s) =
        List.replicate s.length (.operator (.binary b)) := by
      cases s <;> simp [folding, Item.isFeatured, hx]
    exact ⟨e, he, hspelling ▸ h⟩
  | @constant s c hc hs =>
    -- a constant on its own is joined to a feature, any other to the expression below it
    rcases admitsConstant_iff.mp hc with rfl | ⟨y, s, rfl, hy⟩
    · refine ⟨.binary b (.constant c) (.feature f), rfl, ?_⟩
      exact .cons (.feature f rfl) (.cons (.binary b (.inr rfl)) .nil)
    · have hjoined : (Expr.binary b y (.constant c)).featured = true := by
        simp [Expr.featured, hy]
      obtain ⟨e, he, h⟩ := hs.tail.exists_acceptsAll_of_featured (b := b) hjoined
      exact ⟨e, he, .cons (.binary b (.inl hy)) h⟩

theorem Settled.completion_eq_folding (hs : Settled s) : completion f b r s = folding f b s := by
  cases hs <;> rfl

theorem Orderly.exists_acceptsAll_completion (hs : Orderly s) :
    ∃ e : Expr, e.featured = true ∧ AcceptsAll s (completion f b r s) [.expr e] := by
  cases hs with
  | settled hs =>
    rw [hs.completion_eq_folding]
    exact hs.exists_acceptsAll_folding
  | @window s x days hx hs =>
    have hrolled : (Expr.rolling r x days).featured = true := hx
    obtain ⟨e, he, h⟩ := (Settled.featured hrolled hs).exists_acceptsAll_folding (f := f) (b := b)
    exact ⟨e, he, .cons (.rolling r hx) h⟩

theorem Orderly.length_completion_le (hs : Orderly s) :
    (completion f b r s).length ≤ s.length + 1 := by
  cases hs with
  | settled hs =>
    rw [hs.completion_eq_folding]
    exact length_folding_le s
  | @window s x days hx hs =>
    have h : (folding f b (.expr (.rolling r x days) :: s)).length ≤ s.length + 1 + 1 :=
      length_folding_le _
    simpa [completion, place] using h

/-- Whatever tokens an empty stack was offered, it accepts its completion token by token and is
complete thereafter; the completion is at most one token longer than the stack is high. -/
theorem completion_completes (ts : List Token) (f : Feature) (b : Operator.Binary)
    (r : Operator.Rolling) :
    let s := offerAll [] ts
    let us := completion f b r s
    us.length ≤ s.length + 1 ∧
      ∃ s', pushAll s us = (s', us.length, none) ∧ s'.isComplete = true := by
  intro s us
  have hs : Orderly s := orderly_offerAll ts
  obtain ⟨e, he, h⟩ := hs.exists_acceptsAll_completion (f := f) (b := b) (r := r)
  exact ⟨hs.length_completion_le, [.expr e], pushAll_eq_iff.mpr h, isComplete_iff.mpr ⟨e, rfl, he⟩⟩

end FactorSearch.Expr.Stack
