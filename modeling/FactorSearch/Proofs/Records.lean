import FactorSearch.Proofs.Lockstep

/-!
# The tokens of a composition and its stack

A composition keeps its expression twice, as the tokens in order and as the stack they have built.
It may be reset at any time, and stepped on when its episode has ended.  Main statement: whatever it
is asked, its tokens are those of the steps since the last reset that left the episode open, and the
stack is what the empty stack makes of them (`records_agree`).
-/

namespace FactorSearch

variable {σ ι : Type}

namespace Grammar

/-! ## Requests, one after the other -/

section Requests

/-- A request, with the verdict on its token. -/
inductive Event (ι : Type)
  | reset
  | step (token : Token) (verdict : Verdict ι)

variable (g : Grammar σ ι)

def answer (s : σ) : Request → σ × Event ι
  | .reset => (g.reset s, .reset)
  | .step t => ((g.step s t).1, .step t (g.step s t).2)

/-- The state after the requests. -/
def after : σ → List Request → σ
  | s, [] => s
  | s, r :: rs => after (g.answer s r).1 rs

/-- The requests with the verdicts they got. -/
def log : σ → List Request → List (Event ι)
  | _, [] => []
  | s, r :: rs => (g.answer s r).2 :: log (g.answer s r).1 rs

def openStep (ts : List Token) : Event ι → List Token
  | .reset => []
  | .step t verdict => if verdict.done then ts else ts ++ [t]

/-- The tokens since the last reset that left the episode open. -/
def openTokens (log : List (Event ι)) : List Token := log.foldl openStep []

end Requests

end Grammar

namespace Composition

open Grammar

variable {score : Scorer σ} {maxLength : Nat} {c c' : Composition σ} {t : Token}
  {verdict : Verdict Info}

/-! ## One request -/

section Step

/-- The tokens fit under the length cap, and the stack is what they have built. -/
structure InStep (maxLength : Nat) (c : Composition σ) : Prop where
  length_le : c.tokens.length ≤ maxLength - 1
  noTerminator : .terminator ∉ c.tokens
  accepted : Expr.Stack.AcceptsAll [] c.tokens c.stack

theorem inStep_start (maxLength : Nat) (memory : σ) : InStep maxLength (start memory) :=
  ⟨Nat.zero_le _, List.not_mem_nil, .nil⟩

theorem Outcome.inStep (h : Outcome score maxLength c t c' verdict) (hc : InStep maxLength c) :
    InStep maxLength c' := by
  have haccepted := h.acceptsAll hc.accepted
  cases hd : verdict.done with
  | true =>
    obtain ⟨-, hts⟩ := h.of_done hd
    exact ⟨hts ▸ hc.length_le, hts ▸ hc.noTerminator, haccepted⟩
  | false =>
    -- a token that is taken ends nothing, so it is no terminator and the limit is not reached
    obtain ⟨hends, -, hts⟩ := h.of_open hd
    rw [Ends, not_or] at hends
    refine ⟨?_, ?_, haccepted⟩
    · rw [hts, List.length_append, List.length_singleton]
      omega
    · rw [hts, List.mem_append, List.mem_singleton, not_or]
      exact ⟨hc.noTerminator, Ne.symm hends.1⟩

/-- A step adds its token to the open ones if the verdict leaves the episode open. -/
theorem Outcome.tokens_eq_openStep (h : Outcome score maxLength c t c' verdict) :
    c'.tokens = openStep c.tokens (.step t verdict) := by
  cases hd : verdict.done with
  | true => simp [openStep, hd, h.tokens_of_done hd]
  | false => simp [openStep, hd, h.tokens_of_open hd]

theorem InStep.answer (hc : InStep maxLength c) (r : Request) :
    InStep maxLength ((grammar score maxLength).answer c r).1 := by
  cases r with
  | reset => exact inStep_start maxLength c.memory
  | step t => exact (outcome_step score maxLength c t).inStep hc

theorem tokens_answer (c : Composition σ) (r : Request) :
    ((grammar score maxLength).answer c r).1.tokens =
      openStep c.tokens ((grammar score maxLength).answer c r).2 := by
  cases r with
  | reset => rfl
  | step t => exact (outcome_step score maxLength c t).tokens_eq_openStep

end Step

/-! ## Any number of them -/

section Run

theorem InStep.after (hc : InStep maxLength c) (requests : List Request) :
    InStep maxLength ((grammar score maxLength).after c requests) := by
  induction requests generalizing c with
  | nil => exact hc
  | cons r requests ih => exact ih (hc.answer r)

theorem tokens_after (c : Composition σ) (requests : List Request) :
    ((grammar score maxLength).after c requests).tokens =
      ((grammar score maxLength).log c requests).foldl openStep c.tokens := by
  induction requests generalizing c with
  | nil => rfl
  | cons r requests ih => rw [Grammar.after, ih, tokens_answer, log, List.foldl_cons]

/-- After any resets and steps, also steps on an ended episode, a composition has fewer tokens than
the length cap allows, none of them a terminator; they are the tokens since the last reset that left
the episode open.  The empty stack accepts them one and all and becomes the stack of the composition.
The next step adds its token to both records if it leaves the episode open, and otherwise changes
neither. -/
theorem records_agree (score : Scorer σ) (maxLength : Nat) (memory : σ)
    (requests : List Request) :
    let g := grammar score maxLength
    let c := g.after (start memory) requests
    c.tokens.length ≤ maxLength - 1 ∧ .terminator ∉ c.tokens ∧
      Expr.Stack.pushAll [] c.tokens = (c.stack, c.tokens.length, none) ∧
      c.tokens = openTokens (g.log (start memory) requests) ∧
      ∀ t, let next := g.step c t
        (next.2.done = false →
          next.1.tokens = c.tokens ++ [t] ∧ c.stack.push t = .ok next.1.stack) ∧
        (next.2.done = true → next.1.tokens = c.tokens ∧ next.1.stack = c.stack) := by
  intro g c
  have hc : InStep maxLength c := (inStep_start maxLength memory).after requests
  refine ⟨hc.length_le, hc.noTerminator, Expr.Stack.pushAll_eq_iff.mpr hc.accepted,
    tokens_after (start memory) requests, fun t => ?_⟩
  have h := outcome_step score maxLength c t
  refine ⟨fun hd => ?_, fun hd => ?_⟩
  · obtain ⟨-, hs, hts⟩ := h.of_open hd
    exact ⟨hts, Expr.Stack.push_eq_ok_iff.mpr hs⟩
  · obtain ⟨hs, hts⟩ := h.of_done hd
    exact ⟨hts, hs⟩

end Run

end Composition

end FactorSearch
