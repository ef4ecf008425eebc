import FactorSearch.Proofs.Composing

/-!
# Grammars in lockstep

Two grammars go in lockstep along a relation of their states if related states give the same verdict
on every token and stay related.  Environments over two such grammars give the same answers
(`Alike.log_eq`), so an agent cannot tell one from the other.  A grammar with a record of what it is
asked goes in lockstep with the grammar itself, and so do compositions whose scorers agree.
-/

namespace FactorSearch

variable {σ σ' ι : Type}

namespace Grammar

/-- Related states answer alike and stay related. -/
structure Lockstep (g : Grammar σ ι) (g' : Grammar σ' ι) (R : σ → σ' → Prop) : Prop where
  reset : ∀ {s s'}, R s s' → R (g.reset s) (g'.reset s')
  step : ∀ {s s'} t, R s s' → R (g.step s t).1 (g'.step s' t).1
  verdict : ∀ {s s'} t, R s s' → (g.step s t).2 = (g'.step s' t).2
  legality : ∀ {s s'}, R s s' → g.legality s = g'.legality s'

theorem Lockstep.exists_step {g : Grammar σ ι} {g' : Grammar σ' ι} {R : σ → σ' → Prop}
    (h : Lockstep g g' R) (t : Token) {s : σ} {s' : σ'} (hs : R s s') :
    ∃ s₁ s₁' verdict, g.step s t = (s₁, verdict) ∧ g'.step s' t = (s₁', verdict) ∧ R s₁ s₁' := by
  refine ⟨(g.step s t).1, (g'.step s' t).1, (g.step s t).2, rfl, ?_, h.step t hs⟩
  rw [h.verdict t hs]

/-! ## A grammar that keeps a record -/

section Recording

/-- What can be asked of a grammar to change its state. -/
inductive Request
  | reset
  | step (token : Token)
deriving DecidableEq

/-- The grammar with a record, in order, of what it has been asked. -/
def recording (g : Grammar σ ι) : Grammar (σ × List Request) ι where
  reset s := (g.reset s.1, s.2 ++ [.reset])
  step s t := (((g.step s.1 t).1, s.2 ++ [.step t]), (g.step s.1 t).2)
  legality s := g.legality s.1

theorem lockstep_recording (g : Grammar σ ι) :
    Lockstep g g.recording (fun s s' => s = s'.1) where
  reset h := congrArg g.reset h
  step t h := congrArg (fun s => (g.step s t).1) h
  verdict t h := congrArg (fun s => (g.step s t).2) h
  legality h := congrArg g.legality h

end Recording

end Grammar

namespace Environment

/-! ## Environments over them -/

section Alike

/-- The same environment over another grammar. -/
def withGrammar (env : Environment σ ι) (g : Grammar σ' ι) : Environment σ' ι :=
  ⟨g, env.vocabulary, env.capacity, env.rewardPerStep⟩

/-- Two episodes that show the same, over related states. -/
structure Alike (R : σ → σ' → Prop) (e : Episode σ) (e' : Episode σ') : Prop where
  state : R e.state e'.state
  observation : e.observation = e'.observation
  filled : e.filled = e'.filled
  phase : e.phase = e'.phase

variable {env : Environment σ ι} {g : Grammar σ' ι} {R : σ → σ' → Prop} {e : Episode σ}
  {e' : Episode σ'}

theorem alike_fresh {s : σ} {s' : σ'} (hs : R s s') :
    Alike R (env.fresh s) ((env.withGrammar g).fresh s') :=
  ⟨hs, rfl, rfl, rfl⟩

/-- A reset makes any two episodes alike whose grammars it leaves in related states. -/
theorem alike_reset (hr : R (env.grammar.reset e.state) (g.reset e'.state)) :
    Alike R (env.reset e) ((env.withGrammar g).reset e') :=
  ⟨hr, rfl, rfl, rfl⟩

theorem Alike.step (hg : env.grammar.Lockstep g R) (he : Alike R e e') (action : Int) :
    Alike R (env.step e action).1 ((env.withGrammar g).step e' action).1 ∧
      (env.step e action).2 = ((env.withGrammar g).step e' action).2 := by
  -- all that a step tests is the same in both, so they go the same way
  by_cases hp : e.phase = .active
  · have hp' : e'.phase = .active := he.phase ▸ hp
    cases ht : env.vocabulary.decode action with
    | error fault =>
      have ht' : (env.withGrammar g).vocabulary.decode action = .error fault := ht
      rw [step_of_decode_error hp ht, step_of_decode_error hp' ht']
      exact ⟨he, rfl⟩
    | ok t =>
      have ht' : (env.withGrammar g).vocabulary.decode action = .ok t := ht
      obtain ⟨s, s', verdict, hs, hs', hR⟩ := hg.exists_step t he.state
      have hs' : (env.withGrammar g).grammar.step e'.state t = (s', verdict) := hs'
      cases hd : verdict.done with
      | true =>
        rw [step_of_done hp ht hs hd, step_of_done hp' ht' hs' hd, he.observation]
        exact ⟨⟨hR, rfl, he.filled, rfl⟩, rfl⟩
      | false =>
        by_cases hl : e.filled < env.capacity
        · have hl' : e'.filled < (env.withGrammar g).capacity := he.filled ▸ hl
          rw [step_of_room hp ht hs hd hl, step_of_room hp' ht' hs' hd hl', he.observation,
            he.filled]
          exact ⟨⟨hR, rfl, rfl, he.phase⟩, rfl⟩
        · have hl : env.capacity ≤ e.filled := Nat.le_of_not_lt hl
          have hl' : (env.withGrammar g).capacity ≤ e'.filled := he.filled ▸ hl
          rw [step_of_full hp ht hs hd hl, step_of_full hp' ht' hs' hd hl']
          exact ⟨⟨hR, he.observation, he.filled, rfl⟩, rfl⟩
  · have hp' : e'.phase ≠ .active := he.phase ▸ hp
    rw [step_of_not_active hp, step_of_not_active hp', he.phase]
    exact ⟨he, rfl⟩

theorem Alike.call (hg : env.grammar.Lockstep g R) (he : Alike R e e') (c : Call) :
    Alike R (env.call e c).1 ((env.withGrammar g).call e' c).1 ∧
      (env.call e c).2 = ((env.withGrammar g).call e' c).2 := by
  cases c with
  | reset => exact ⟨alike_reset (hg.reset he.state), rfl⟩
  | step action =>
    obtain ⟨halike, hanswer⟩ := he.step hg action
    exact ⟨halike, congrArg Answer.outcome hanswer⟩

theorem Alike.mask_eq (hg : env.grammar.Lockstep g R) (he : Alike R e e') :
    env.mask e = (env.withGrammar g).mask e' :=
  congrArg env.vocabulary.legalMask (hg.legality he.state)

theorem Alike.after (hg : env.grammar.Lockstep g R) (he : Alike R e e') (calls : List Call) :
    Alike R (env.after e calls) ((env.withGrammar g).after e' calls) := by
  induction calls generalizing e e' with
  | nil => exact he
  | cons c calls ih => exact ih (he.call hg c).1

/-- Alike episodes over grammars in lockstep answer alike. -/
theorem Alike.log_eq (hg : env.grammar.Lockstep g R) (he : Alike R e e') (calls : List Call) :
    env.log e calls = (env.withGrammar g).log e' calls := by
  induction calls generalizing e e' with
  | nil => rfl
  | cons c calls ih =>
    obtain ⟨halike, hanswer⟩ := he.call hg c
    rw [log, log, hanswer, ih halike]

end Alike

end Environment

/-! ## Compositions -/

namespace Composition

/-- The same expression; the memories of the scorers are related by `M`. -/
structure Akin (M : σ → σ' → Prop) (c : Composition σ) (c' : Composition σ') : Prop where
  stack : c.stack = c'.stack
  tokens : c.tokens = c'.tokens
  memory : M c.memory c'.memory

/-- Two scorers that agree, as long as their memories are related, make compositions go in
lockstep. -/
theorem lockstep_grammar {score : Scorer σ} {score' : Scorer σ'} {M : σ → σ' → Prop}
    (hscore : ∀ m m' ts, M m m' → M (score m ts).1 (score' m' ts).1 ∧
      (score m ts).2 = (score' m' ts).2) (maxLength : Nat) :
    (grammar score maxLength).Lockstep (grammar score' maxLength) (Akin M) := by
  -- stacks and tokens are the same, so only the memories of the scorers are told apart
  have hstep : ∀ (c : Composition σ) (c' : Composition σ') t, Akin M c c' →
      Akin M (step score maxLength c t).1 (step score' maxLength c' t).1 ∧
        (step score maxLength c t).2 = (step score' maxLength c' t).2 := by
    rintro ⟨stack, tokens, m⟩ ⟨stack', tokens', m'⟩ t ⟨rfl, rfl, hm⟩
    obtain ⟨hm', hreward⟩ := hscore m m' tokens hm
    unfold step
    by_cases he : (t.isTerminator || decide (maxLength ≤ tokens.length + 1)) = true
    · rw [if_pos he, if_pos he]
      unfold finish
      cases Expr.Stack.expression stack with
      | error fault => exact ⟨⟨rfl, rfl, hm⟩, rfl⟩
      | ok text =>
        dsimp only
        rw [hreward]
        exact ⟨⟨rfl, rfl, hm'⟩, rfl⟩
    · rw [if_neg he, if_neg he]
      cases stack.push t with
      | error fault => exact ⟨⟨rfl, rfl, hm⟩, rfl⟩
      | ok s => exact ⟨⟨rfl, rfl, hm⟩, rfl⟩
  exact {
    reset := fun h => ⟨rfl, rfl, h.memory⟩
    step := fun t h => (hstep _ _ t h).1
    verdict := fun t h => (hstep _ _ t h).2
    legality := fun h => congrArg Expr.Stack.legality h.stack }

end Composition

end FactorSearch
