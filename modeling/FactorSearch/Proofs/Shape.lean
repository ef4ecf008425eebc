import FactorSearch.Proofs.Postorder

/-!
# The shape of an operand stack

An empty stack may be offered any tokens; what it refuses leaves it as it is.  `Orderly` is the
invariant: a delta time lies on top of a featured expression or nowhere, and of two constants no one
lies on the other.  Main statement: every stack that tokens lead to has this shape, and then its
report depends on the top, the height and, below a delta time, the next two items alone
(`shape_offerAll`).
-/

namespace FactorSearch

theorem CategoryFlags.any_eq_true_iff (flags : CategoryFlags) :
    flags.any = true ↔ ∃ c, flags.get c = true := by
  constructor
  · intro h
    simp only [any, Bool.or_eq_true] at h
    obtain ((h | h) | h) | h := h
    · exact ⟨.unary, h⟩
    · exact ⟨.binary, h⟩
    · exact ⟨.rolling, h⟩
    · exact ⟨.pairRolling, h⟩
  · rintro ⟨c, h⟩
    cases c <;> simp only [get] at h <;> simp [any, h]

namespace Expr

/-- Whether the item is an expression that reads a market series. -/
def Item.isFeatured : Item → Bool
  | .expr x => x.featured
  | .deltaTime _ => false

/-- Whether the item is an expression that reads none. -/
def Item.isConstantOnly : Item → Bool
  | .expr x => !x.featured
  | .deltaTime _ => false

namespace Stack

variable {s s' : Stack} {x y : Expr} {i : Item} {t : Token} {days : UInt32}

/-! ## Tokens that may be refused -/

section Offer

/-- The stack after `t` was offered to it. -/
def offer (s : Stack) (t : Token) : Stack :=
  match push s t with
  | .ok s' => s'
  | .error _ => s

/-- The stack after the tokens were offered to it one after the other. -/
def offerAll (s : Stack) (ts : List Token) : Stack := ts.foldl offer s

theorem offer_eq_or_accepts (s : Stack) (t : Token) :
    offer s t = s ∨ Accepts s t (offer s t) := by
  rw [offer]
  cases h : push s t with
  | ok s' => exact .inr (push_eq_ok_iff.mp h)
  | error fault => exact .inl rfl

/-- Offering tokens comes to accepting those among them that are not refused. -/
theorem exists_acceptsAll_offerAll (s : Stack) (ts : List Token) :
    ∃ us, us.Sublist ts ∧ AcceptsAll s us (offerAll s ts) := by
  induction ts generalizing s with
  | nil => exact ⟨[], .slnil, .nil⟩
  | cons t ts ih =>
    obtain ⟨us, hus, h⟩ := ih (offer s t)
    -- a token that is refused leaves the stack as it is, so it can be left out
    rcases offer_eq_or_accepts s t with heq | ht
    · rw [heq] at h
      have hcons : offerAll s (t :: ts) = offerAll s ts := by
        rw [offerAll, List.foldl_cons, heq, offerAll]
      exact ⟨us, hus.cons t, hcons ▸ h⟩
    · exact ⟨t :: us, hus.cons_cons t, .cons ht h⟩

end Offer

/-! ## The invariant -/

section Invariant

/-- Operands without a delta time, where every constant lies at the bottom or on a featured
expression. -/
inductive Settled : Stack → Prop
  | nil : Settled []
  | featured {s : Stack} {x : Expr} (hx : x.featured = true) (hs : Settled s) :
      Settled (.expr x :: s)
  | constant {s : Stack} (c : Binary64) (hc : admitsConstant s = true) (hs : Settled s) :
      Settled (.expr (.constant c) :: s)

/-- Settled operands, and perhaps a delta time on a featured expression on top of them. -/
inductive Orderly : Stack → Prop
  | settled {s : Stack} (hs : Settled s) : Orderly s
  | window {s : Stack} {x : Expr} (days : UInt32) (hx : x.featured = true) (hs : Settled s) :
      Orderly (.deltaTime days :: .expr x :: s)

theorem Settled.tail (hs : Settled (i :: s)) : Settled s := by
  cases hs with
  | featured hx hs => exact hs
  | constant c hc hs => exact hs

theorem Orderly.settled_of_admitsFeature (hs : Orderly s) (h : admitsFeature s = true) :
    Settled s := by
  cases hs with
  | settled hs => exact hs
  | window days hx hs => cases h

theorem Orderly.settled_of_deltaTime (hs : Orderly (.deltaTime days :: .expr x :: s)) :
    Settled s := by
  cases hs with
  | settled hs => cases hs
  | window days hx hs => exact hs

/-- A stack that takes a constant takes a feature, too. -/
theorem admitsFeature_of_admitsConstant (h : admitsConstant s = true) :
    admitsFeature s = true := by
  rcases admitsConstant_iff.mp h with rfl | ⟨x, r, rfl, -⟩ <;> rfl

/-- Every move keeps a stack orderly: what an operator leaves is featured, and it lies on what was
settled before its operands came. -/
theorem Accepts.orderly (h : Accepts s t s') (hs : Orderly s) : Orderly s' := by
  -- an operator leaves a featured expression on top, so what it took does not matter any more
  cases h with
  | feature f h => exact .settled (.featured rfl (hs.settled_of_admitsFeature h))
  | constant c h =>
    have hf : admitsFeature s = true := admitsFeature_of_admitsConstant h
    exact .settled (.constant c h (hs.settled_of_admitsFeature hf))
  | deltaTime days hx => exact .window days hx (hs.settled_of_admitsFeature rfl).tail
  | unary op hx => exact .settled (.featured hx (hs.settled_of_admitsFeature rfl).tail)
  | @binary r x y op hxy =>
    have hf : (Expr.binary op x y).featured = true := by
      simpa [Expr.featured] using hxy
    exact .settled (.featured hf (hs.settled_of_admitsFeature rfl).tail.tail)
  | rolling op hx => exact .settled (.featured hx hs.settled_of_deltaTime)
  | @pairRolling r x y days op hx hy =>
    have hf : (Expr.pairRolling op x y days).featured = true := by
      simp [Expr.featured, hx]
    exact .settled (.featured hf hs.settled_of_deltaTime.tail)

theorem AcceptsAll.orderly {ts : List Token} (h : AcceptsAll s ts s') (hs : Orderly s) :
    Orderly s' := by
  induction h with
  | nil => exact hs
  | cons h₁ _ ih => exact ih (h₁.orderly hs)

theorem orderly_offerAll (ts : List Token) : Orderly (offerAll [] ts) := by
  obtain ⟨us, -, h⟩ := exists_acceptsAll_offerAll [] ts
  exact h.orderly (.settled .nil)

end Invariant

/-! ## What the invariant says of the items -/

section Items

/-- Where delta times and constants lie on a stack. -/
structure Shape (s : Stack) : Prop where
  /-- A delta time is the top item, and lies on a featured expression. -/
  deltaTime : ∀ (n : Nat) (days : UInt32), s[n]? = some (.deltaTime days) →
    n = 0 ∧ ∃ x, s[1]? = some (.expr x) ∧ x.featured = true
  /-- No two neighbours are without a market series. -/
  apart : s.IsChain fun i j => ¬ (i.isConstantOnly = true ∧ j.isConstantOnly = true)
  /-- An expression without a market series is one bare constant. -/
  bare : ∀ x, .expr x ∈ s → x.featured = false → ∃ c, x = .constant c

theorem Settled.ne_deltaTime (hs : Settled s) : ∀ i ∈ s, ∀ days, i ≠ .deltaTime days := by
  induction hs with
  | nil => exact fun i hi => absurd hi List.not_mem_nil
  | featured hx _ ih => exact List.forall_mem_cons.mpr ⟨nofun, ih⟩
  | constant c hc _ ih => exact List.forall_mem_cons.mpr ⟨nofun, ih⟩

theorem Settled.bare (hs : Settled s) :
    ∀ x, .expr x ∈ s → x.featured = false → ∃ c, x = .constant c := by
  induction hs with
  | nil => exact fun x hx => absurd hx List.not_mem_nil
  | featured hy _ ih =>
    intro x hx hf
    rcases List.mem_cons.mp hx with heq | hx
    · cases heq
      rw [hy] at hf
      cases hf
    · exact ih x hx hf
  | constant c hc _ ih =>
    intro x hx hf
    rcases List.mem_cons.mp hx with heq | hx
    · cases heq
      exact ⟨c, rfl⟩
    · exact ih x hx hf

/-- What a constant lies on is featured. -/
theorem isConstantOnly_eq_false_of_admitsConstant (h : admitsConstant s = true) :
    ∀ i ∈ s.head?, i.isConstantOnly = false := by
  rcases admitsConstant_iff.mp h with rfl | ⟨x, r, rfl, hx⟩
  · exact nofun
  · rintro i ⟨⟩
    simp [Item.isConstantOnly, hx]

theorem Settled.apart (hs : Settled s) :
    s.IsChain fun i j => ¬ (i.isConstantOnly = true ∧ j.isConstantOnly = true) := by
  induction hs with
  | nil => exact List.isChain_nil
  | featured hx _ ih =>
    refine List.isChain_cons.mpr ⟨fun j _ h => ?_, ih⟩
    simp [Item.isConstantOnly, hx] at h
  | constant c hc _ ih =>
    refine List.isChain_cons.mpr ⟨fun j hj h => ?_, ih⟩
    rw [isConstantOnly_eq_false_of_admitsConstant hc j hj] at h
    cases h.2

theorem Settled.shape (hs : Settled s) : Shape s where
  deltaTime _ days h := absurd rfl (hs.ne_deltaTime _ (List.mem_of_getElem? h) days)
  apart := hs.apart
  bare := hs.bare

theorem Orderly.shape (hs : Orderly s) : Shape s := by
  cases hs with
  | settled hs => exact hs.shape
  | @window s x days hx hs =>
    have hshape := (Settled.featured hx hs).shape
    refine ⟨fun n days' h => ?_, ?_, fun y hy => ?_⟩
    · cases n with
      | zero => exact ⟨rfl, x, rfl, hx⟩
      | succ n =>
        -- below the top there is none
        rw [List.getElem?_cons_succ] at h
        exact absurd rfl ((Settled.featured hx hs).ne_deltaTime _ (List.mem_of_getElem? h) days')
    · refine List.isChain_cons.mpr ⟨fun j _ h => ?_, hshape.apart⟩
      cases h.1
    · rcases List.mem_cons.mp hy with heq | hy
      · cases heq
      · exact hshape.bare y hy

end Items

/-! ## What the shape says of the report -/

section Outlook

/-- Whether the two items on top are featured expressions. -/
def featuredPair : Stack → Bool
  | i :: j :: _ => i.isFeatured && j.isFeatured
  | _ => false

/-- The report that the top of a stack and its height call for. -/
def outlook : Stack → Legality
  | [] => { Legality.none with feature := true, constant := true }
  | .deltaTime _ :: s =>
    { Legality.none with
      categories := ⟨false, false, true, featuredPair s⟩
      anyOperator := true }
  | .expr x :: s =>
    let height := s.length + 1
    if x.featured then
      { categories := ⟨true, 2 ≤ height, false, false⟩
        anyOperator := true
        feature := true
        constant := true
        deltaTime := true
        terminator := height = 1 }
    else
      { Legality.none with
        categories := ⟨false, 2 ≤ height, false, false⟩
        anyOperator := 2 ≤ height
        feature := true }

theorem isComplete_expr_cons (x : Expr) (s : Stack) :
    isComplete (.expr x :: s) = (x.featured && decide (s.length + 1 = 1)) := by
  cases s with
  | nil => cases hx : x.featured <;> simp [isComplete, complete?, hx]
  | cons i r => simp [isComplete, complete?]

/-- With an expression on top, the report hangs on whether it is featured and on what lies below. -/
theorem legality_expr_cons (x : Expr) (s : Stack) :
    let binary := admitsOperator .binary (.expr x :: s)
    legality (.expr x :: s) =
      { categories := ⟨x.featured, binary, false, false⟩
        anyOperator := x.featured || binary
        feature := true
        constant := x.featured
        deltaTime := x.featured
        terminator := x.featured && decide (s.length + 1 = 1) } := by
  intro binary
  have hany : (⟨x.featured, binary, false, false⟩ : CategoryFlags).any =
      (x.featured || binary) := by
    simp [CategoryFlags.any]
  rw [← isComplete_expr_cons, ← hany]
  rfl

theorem admitsOperator_pairRolling_deltaTime_cons (days : UInt32) (s : Stack) :
    admitsOperator .pairRolling (.deltaTime days :: s) = featuredPair s := by
  rcases s with _ | ⟨x | days', _ | ⟨y | days'', r⟩⟩ <;>
    simp [admitsOperator, featuredPair, Item.isFeatured, Bool.and_comm]

/-- With a delta time on top, no token but an operator is taken. -/
theorem legality_deltaTime_cons (days : UInt32) (s : Stack) :
    let rolling := admitsOperator .rolling (.deltaTime days :: s)
    let pairRolling := admitsOperator .pairRolling (.deltaTime days :: s)
    legality (.deltaTime days :: s) =
      { Legality.none with
        categories := ⟨false, false, rolling, pairRolling⟩
        anyOperator := rolling || pairRolling } := by
  intro rolling pairRolling
  have hcomplete : isComplete (.deltaTime days :: s) = false := by
    cases s <;> rfl
  have hany : (⟨false, false, rolling, pairRolling⟩ : CategoryFlags).any =
      (rolling || pairRolling) := by
    simp [CategoryFlags.any]
  rw [← hany, legality, hcomplete]
  rfl

/-- Two operands are enough for a binary operator: one of them is featured. -/
theorem Settled.admitsOperator_binary (hs : Settled (.expr x :: s)) :
    admitsOperator .binary (.expr x :: s) = decide (2 ≤ s.length + 1) := by
  cases s with
  | nil => rfl
  | cons i r =>
    cases i with
    | deltaTime days => exact absurd rfl (hs.ne_deltaTime _ (by simp) days)
    | expr y =>
      -- of the two on top one is featured, since constants are apart
      have hxy : (y.featured || x.featured) = true := by
        cases hs with
        | featured hx hs => rw [hx, Bool.or_true]
        | constant c hc hs => exact (congrArg (· || _) hc).trans (Bool.true_or _)
      simpa [admitsOperator] using hxy

theorem Settled.legality_eq_outlook (hs : Settled (.expr x :: s)) :
    legality (.expr x :: s) = outlook (.expr x :: s) := by
  rw [legality_expr_cons, hs.admitsOperator_binary]
  cases hx : x.featured <;> simp [outlook, hx, Legality.none]

theorem Orderly.legality_eq_outlook (hs : Orderly s) : s.legality = outlook s := by
  cases hs with
  | settled hs =>
    cases hs with
    | nil => rfl
    | featured hx hs => exact (Settled.featured hx hs).legality_eq_outlook
    | constant c hc hs => exact (Settled.constant c hc hs).legality_eq_outlook
  | @window s x days hx hs =>
    have hrolling : admitsOperator .rolling (.deltaTime days :: .expr x :: s) = true := hx
    rw [legality_deltaTime_cons, hrolling, admitsOperator_pairRolling_deltaTime_cons, outlook,
      Bool.true_or]

/-- What an operator leaves on top is featured. -/
theorem Accepts.featured_of_operator {op : Operator} (h : Accepts s (.operator op) s') :
    ∃ x r, s' = .expr x :: r ∧ x.featured = true := by
  cases h with
  | unary op hx => exact ⟨_, _, rfl, hx⟩
  | binary op hxy => exact ⟨_, _, rfl, by simpa [Expr.featured] using hxy⟩
  | rolling op hx => exact ⟨_, _, rfl, hx⟩
  | pairRolling op hx hy => exact ⟨_, _, rfl, by simp [Expr.featured, hx]⟩

/-- Whatever tokens an empty stack was offered, a delta time lies only on top and on a featured
expression, no two neighbours are constants, and an expression without a market series is a bare
constant; what an operator leaves is featured.  The report is then the one that the top and the
height call for, and it flags operators if it flags some category of them. -/
theorem shape_offerAll (ts : List Token) :
    let s := offerAll [] ts
    Shape s ∧
      (∀ op s', s.push (.operator op) = .ok s' → ∃ x r, s' = .expr x :: r ∧ x.featured = true) ∧
      s.legality = outlook s ∧
      (s.legality.anyOperator = true ↔ ∃ c, s.legality.categories.get c = true) := by
  intro s
  have hs : Orderly s := orderly_offerAll ts
  refine ⟨hs.shape, fun op s' h => ?_, hs.legality_eq_outlook, ?_⟩
  · exact (push_eq_ok_iff.mp h).featured_of_operator
  · exact s.legality.categories.any_eq_true_iff

end Outlook

end Stack

end Expr

end FactorSearch
