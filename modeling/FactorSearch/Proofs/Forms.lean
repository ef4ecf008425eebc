import Mathlib.Data.List.Forall2
import FactorSearch.Proofs.Guidance
import FactorSearch.Proofs.Shape

/-!
# Legality sees kinds and categories only

Tokens have the same form if they are of one kind and, as operators, of one category.  Items have
the same form if both are delta times, or expressions of which both or none read a market series;
stacks, if their items do.  A token takes as many items as its form says and leaves one whose form
it decides, so forms are all that a run of the stack depends on.  Main statement: tokens of the same
forms meet the same answers, from the stack as from the grammar that composes expressions on it
(`forms_decide`).
-/

namespace FactorSearch

variable {σ σ' ι : Type}

/-! ## Tokens -/

namespace Token

/-- The category of an operator. -/
def category? (t : Token) : Option Operator.Category := t.operator?.map Operator.category

/-- One kind and, as operators, one category. -/
inductive SameForm : Token → Token → Prop
  | operator {op op' : Operator} (h : op.category = op'.category) :
      SameForm (.operator op) (.operator op')
  | feature (f f' : Feature) : SameForm (.feature f) (.feature f')
  | deltaTime (days days' : UInt32) : SameForm (.deltaTime days) (.deltaTime days')
  | constant (c c' : Binary64) : SameForm (.constant c) (.constant c')
  | terminator : SameForm .terminator .terminator

variable {t u : Token} {ts us : List Token}

theorem SameForm.of_kind_eq (hk : t.kind = u.kind) (hc : t.category? = u.category?) :
    SameForm t u := by
  cases t with
  | operator op =>
    cases u <;> cases hk
    exact .operator (Option.some.inj hc)
  | feature f =>
    cases u <;> cases hk
    exact .feature _ _
  | deltaTime days =>
    cases u <;> cases hk
    exact .deltaTime _ _
  | constant c =>
    cases u <;> cases hk
    exact .constant _ _
  | terminator =>
    cases u <;> cases hk
    exact .terminator

theorem forall₂_sameForm (hk : ts.map kind = us.map kind)
    (hc : ts.map category? = us.map category?) : List.Forall₂ SameForm ts us := by
  induction ts generalizing us with
  | nil =>
    obtain rfl := List.map_eq_nil_iff.mp hk.symm
    exact .nil
  | cons t ts ih =>
    cases us with
    | nil => cases hk
    | cons u us =>
      obtain ⟨hk₁, hk⟩ := List.cons_eq_cons.mp hk
      obtain ⟨hc₁, hc⟩ := List.cons_eq_cons.mp hc
      exact .cons (.of_kind_eq hk₁ hc₁) (ih hk hc)

theorem SameForm.permits_eq (h : SameForm t u) (legal : Legality) :
    legal.permits t = legal.permits u := by
  cases h with
  | operator hc => exact congrArg legal.categories.get hc
  | feature => rfl
  | deltaTime => rfl
  | constant => rfl
  | terminator => rfl

theorem SameForm.eq_terminator_iff (h : SameForm t u) : t = .terminator ↔ u = .terminator := by
  cases h <;> simp

/-- How many items a token takes from the stack. -/
def takes : Token → Nat
  | operator op => op.arity
  | _ => 0

theorem SameForm.takes_eq (h : SameForm t u) : t.takes = u.takes := by
  cases h with
  | operator hc => exact congrArg Operator.Category.arity hc
  | feature => rfl
  | deltaTime => rfl
  | constant => rfl
  | terminator => rfl

end Token

/-! ## Stacks -/

namespace Expr

/-- Two delta times, or two expressions that are both featured or both not. -/
inductive Item.SameForm : Item → Item → Prop
  | expr {x y : Expr} (h : x.featured = y.featured) : SameForm (.expr x) (.expr y)
  | deltaTime (days days' : UInt32) : SameForm (.deltaTime days) (.deltaTime days')

namespace Stack

abbrev SameForm : Stack → Stack → Prop := List.Forall₂ Item.SameForm

variable {s s' r r' : Stack} {t u : Token} {ts us : List Token}

section Report

theorem SameForm.admitsOperator_eq (h : SameForm s r) (c : Operator.Category) :
    admitsOperator c s = admitsOperator c r := by
  rcases h with _ | ⟨hx | _, _ | ⟨hy | _, _ | ⟨hz | _, h⟩⟩⟩ <;> cases c <;>
    simp [admitsOperator, *]

/-- The report does not look past the forms. -/
theorem SameForm.legality_eq (h : SameForm s r) : s.legality = r.legality := by
  have hbinary := h.admitsOperator_eq .binary
  have hrolling := h.admitsOperator_eq .rolling
  have hpairRolling := h.admitsOperator_eq .pairRolling
  cases h with
  | nil => rfl
  | cons hi h =>
    cases hi with
    | expr hx => rw [legality_expr_cons, legality_expr_cons, hbinary, hx, h.length_eq]
    | deltaTime days days' =>
      rw [legality_deltaTime_cons, legality_deltaTime_cons, hrolling, hpairRolling]

theorem SameForm.isComplete_eq (h : SameForm s r) : s.isComplete = r.isComplete :=
  congrArg Legality.terminator h.legality_eq

theorem SameForm.admits_eq (h : SameForm s r) (ht : t.SameForm u) : admits t s = admits u r := by
  by_cases hterm : t = .terminator
  · rw [ht.eq_terminator_iff.mp hterm, hterm]
    rfl
  · -- a report permits the terminator where the expression may end, but no stack takes it
    have hterm' : u ≠ .terminator := fun hu => hterm (ht.eq_terminator_iff.mpr hu)
    rw [← permits_legality hterm, ← permits_legality hterm', h.legality_eq, ht.permits_eq]

end Report

section Move

/-- A token takes its operands and leaves one item. -/
theorem Accepts.exists_eq_cons_drop (h : Accepts s t s') : ∃ i, s' = i :: s.drop t.takes := by
  cases h <;> exact ⟨_, rfl⟩

/-- The form of what a token leaves is the token's. -/
theorem Accepts.sameForm_top {i j : Item} (h : Accepts s t (i :: s')) (h' : Accepts r u (j :: r'))
    (ht : t.SameForm u) : i.SameForm j := by
  cases ht with
  | operator =>
    obtain ⟨x, _, hi, hx⟩ := h.featured_of_operator
    obtain ⟨y, _, hj, hy⟩ := h'.featured_of_operator
    rw [(List.cons_eq_cons.mp hi).1, (List.cons_eq_cons.mp hj).1]
    exact .expr (hx.trans hy.symm)
  | feature =>
    cases h
    cases h'
    exact .expr rfl
  | deltaTime =>
    cases h
    cases h'
    exact .deltaTime _ _
  | constant =>
    cases h
    cases h'
    exact .expr rfl
  | terminator => cases h

theorem SameForm.accepts (hs : SameForm s r) (ht : t.SameForm u) (h : Accepts s t s')
    (h' : Accepts r u r') : SameForm s' r' := by
  obtain ⟨i, rfl⟩ := h.exists_eq_cons_drop
  obtain ⟨j, rfl⟩ := h'.exists_eq_cons_drop
  rw [← ht.takes_eq] at h' ⊢
  exact .cons (h.sameForm_top h' ht) (List.forall₂_drop _ hs)

theorem SameForm.place (hs : SameForm s r) (ht : t.SameForm u) (h : admits t s = true) :
    SameForm (place t s) (place u r) :=
  hs.accepts ht (.of_admits h) (.of_admits (hs.admits_eq ht ▸ h))

end Move

/-! ## A run of the stack -/

section Run

/-- What shows of a stack once it was offered a token. -/
structure Response where
  accepted : Bool
  height : Nat
  complete : Bool
  legality : Legality
deriving DecidableEq

def response (s : Stack) (t : Token) : Response :=
  ⟨(push s t).isOk, (offer s t).length, (offer s t).isComplete, (offer s t).legality⟩

/-- The responses of a stack to tokens offered one after the other. -/
def responses : Stack → List Token → List Response
  | _, [] => []
  | s, t :: ts => response s t :: responses (offer s t) ts

theorem SameForm.offer (hs : SameForm s r) (ht : t.SameForm u) :
    (push s t).isOk = (push r u).isOk ∧ SameForm (offer s t) (offer r u) := by
  have hadmits := hs.admits_eq ht
  cases h : admits t s with
  | true =>
    have hs' := hs.place ht h
    rw [h] at hadmits
    simp only [Stack.offer, push, h, ← hadmits]
    exact ⟨rfl, hs'⟩
  | false =>
    rw [h] at hadmits
    simp only [Stack.offer, push, h, ← hadmits]
    exact ⟨rfl, hs⟩

theorem SameForm.responses_eq (hs : SameForm s r) (h : List.Forall₂ Token.SameForm ts us) :
    responses s ts = responses r us := by
  induction h generalizing s r with
  | nil => rfl
  | cons ht _ ih =>
    obtain ⟨haccepted, hs'⟩ := hs.offer ht
    rw [responses, responses, response, response, haccepted, hs'.length_eq, hs'.isComplete_eq,
      hs'.legality_eq, ih hs']

end Run

end Stack

end Expr

/-! ## Compositions -/

namespace Grammar

/-- The verdicts on tokens given one after the other. -/
def verdicts (g : Grammar σ ι) : σ → List Token → List (Verdict ι)
  | _, [] => []
  | s, t :: ts => (g.step s t).2 :: verdicts g (g.step s t).1 ts

end Grammar

namespace Composition

/-- What a verdict shows without the reward and the text of the expression. -/
structure Gist where
  done : Bool
  length : Nat
  invalid : Bool
  complete : Bool
deriving DecidableEq

def gist (verdict : Verdict Info) : Gist :=
  ⟨verdict.done, verdict.info.length, verdict.info.invalid, verdict.info.expression.isSome⟩

/-- Stacks of one form, and as many tokens. -/
structure SameForm (c : Composition σ) (c' : Composition σ') : Prop where
  stack : c.stack.SameForm c'.stack
  length : c.tokens.length = c'.tokens.length

variable {score : Scorer σ} {score' : Scorer σ'} {maxLength : Nat} {c c₁ : Composition σ}
  {c' : Composition σ'} {t u : Token} {ts us : List Token}

/-- At the end of an episode only the completeness of the stack decides the gist. -/
theorem Outcome.gist_of_ends {verdict : Verdict Info}
    (h : Outcome score maxLength c t c₁ verdict) (he : Ends maxLength c t) :
    c₁.stack = c.stack ∧ c₁.tokens = c.tokens ∧
      gist verdict = ⟨true, c.tokens.length, false, c.stack.isComplete⟩ := by
  cases h with
  | scored _ hx => exact ⟨rfl, rfl, by simp [gist, Expr.Stack.isComplete, hx]⟩
  | incomplete _ hx => exact ⟨rfl, rfl, by simp [gist, Expr.Stack.isComplete, hx]⟩
  | taken he' => exact absurd he he'
  | refused he' => exact absurd he he'

theorem SameForm.ends_iff (hc : SameForm c c') (ht : t.SameForm u) :
    Ends maxLength c t ↔ Ends maxLength c' u := by
  rw [Ends, Ends, ht.eq_terminator_iff, hc.length]

theorem SameForm.step (score : Scorer σ) (score' : Scorer σ') (maxLength : Nat)
    (hc : SameForm c c') (ht : t.SameForm u) :
    SameForm (step score maxLength c t).1 (step score' maxLength c' u).1 ∧
      gist (step score maxLength c t).2 = gist (step score' maxLength c' u).2 := by
  have hadmits := hc.stack.admits_eq ht
  -- the length and the kinds decide whether the episode ends, so it ends for both or for neither
  by_cases he : Ends maxLength c t
  · obtain ⟨hs, hts, hg⟩ := (outcome_step score maxLength c t).gist_of_ends he
    obtain ⟨hs', hts', hg'⟩ :=
      (outcome_step score' maxLength c' u).gist_of_ends ((hc.ends_iff ht).mp he)
    refine ⟨⟨?_, ?_⟩, ?_⟩
    · rw [hs, hs']
      exact hc.stack
    · rw [hts, hts']
      exact hc.length
    · rw [hg, hg', hc.length, hc.stack.isComplete_eq]
  · have he' : ¬ Ends maxLength c' u := fun h => he ((hc.ends_iff ht).mpr h)
    cases h : Expr.Stack.admits t c.stack with
    | true =>
      have h' : Expr.Stack.admits u c'.stack = true := hadmits ▸ h
      rw [step_of_admits score he h, step_of_admits score' he' h']
      exact ⟨⟨hc.stack.place ht h, by simp [hc.length]⟩, by simp [gist, hc.length]⟩
    | false =>
      have h' : Expr.Stack.admits u c'.stack = false := hadmits ▸ h
      rw [step_of_not_admits score he h, step_of_not_admits score' he' h']
      exact ⟨hc, by simp [gist, hc.length]⟩

theorem SameForm.verdicts (hc : SameForm c c') (h : List.Forall₂ Token.SameForm ts us) :
    ((grammar score maxLength).verdicts c ts).map gist =
      ((grammar score' maxLength).verdicts c' us).map gist := by
  induction h generalizing c c' with
  | nil => rfl
  | cons ht _ ih =>
    obtain ⟨hc', hgist⟩ := hc.step score score' maxLength ht
    exact List.cons_eq_cons.mpr ⟨hgist, ih hc'⟩

/-- Tokens that agree place by place in their kinds and, if they are operators, in their categories
are taken and refused at the same places.  The two stacks, empty to begin with, are always of one
height, complete at the same time, and give the same report.  Two compositions that start empty, with
scorers of any kind and one length cap, end at the same steps, with the same lengths, the same
refusals and a complete expression in both or in none. -/
theorem forms_decide {ts us : List Token} (hk : ts.map Token.kind = us.map Token.kind)
    (hc : ts.map Token.category? = us.map Token.category?) :
    Expr.Stack.responses [] ts = Expr.Stack.responses [] us ∧
      ∀ {σ σ' : Type} (score : Scorer σ) (score' : Scorer σ') (maxLength : Nat) (memory : σ)
        (memory' : σ'),
        ((grammar score maxLength).verdicts (start memory) ts).map gist =
          ((grammar score' maxLength).verdicts (start memory') us).map gist := by
  have h : List.Forall₂ Token.SameForm ts us := Token.forall₂_sameForm hk hc
  have hstack : Expr.Stack.SameForm [] [] := .nil
  refine ⟨hstack.responses_eq h, fun score score' maxLength memory memory' => ?_⟩
  have hstart : SameForm (start memory) (start memory') := ⟨hstack, rfl⟩
  exact hstart.verdicts h

/-- `NaN + $close` and `1 * $open`, the mean over no day and the sum over ten, a constant that is
refused, and the terminator. -/
theorem forms_decide_mean :
    let ts : List Token := [.constant ⟨0x7ff8000000000000⟩, .feature .closePrice,
      .operator (.binary .add), .deltaTime 0, .constant 2.0, .operator (.rolling .mean), .terminator]
    let us : List Token := [.constant 1.0, .feature .openPrice, .operator (.binary .mul),
      .deltaTime 10, .constant (-0.0), .operator (.rolling .sum), .terminator]
    ts.map Token.kind = us.map Token.kind ∧
      ts.map Token.category? = us.map Token.category? ∧
      Expr.Stack.responses [] ts = Expr.Stack.responses [] us ∧
      ((grammar (fun (_ : Unit) _ => ((), 1.0)) 9).verdicts (start ()) ts).map gist =
        ((grammar (fun (n : Nat) _ => (n + 1, 0.5)) 9).verdicts (start 0) us).map gist := by
  intro ts us
  have hk : ts.map Token.kind = us.map Token.kind := by decide
  have hc : ts.map Token.category? = us.map Token.category? := by decide
  obtain ⟨hresponses, hverdicts⟩ := forms_decide hk hc
  exact ⟨hk, hc, hresponses, hverdicts _ _ 9 () 0⟩

end Composition

end FactorSearch
