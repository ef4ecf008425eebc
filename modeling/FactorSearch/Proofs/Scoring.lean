import FactorSearch.Proofs.Lockstep

/-!
# The scorer sees finished expressions only

What a scorer is given is kept in a record.  Main statement: in every episode the scorer is called
at most once, by the step that ends the episode with a complete expression, and it is given the
tokens of that expression (`scored_once`).
-/

namespace FactorSearch

variable {σ : Type}

/-- The scorer with a record, in order, of the token lists it has been given. -/
def Scorer.recording (score : Scorer σ) : Scorer (σ × List (List Token)) := fun m ts =>
  (((score m.1 ts).1, m.2 ++ [ts]), (score m.1 ts).2)

namespace Composition

open Environment

variable {score : Scorer σ} {maxLength : Nat} {v : Vocabulary} {capacity : Nat}
  {rewardPerStep : Binary64}

/-! ## The expression of an active episode -/

section Faithful

/-- The stack is what the tokens make of it, and the observation decodes to the tokens. -/
structure Faithful (v : Vocabulary) (e : Episode (Composition σ)) : Prop where
  accepted : Expr.Stack.AcceptsAll [] e.state.tokens e.state.stack
  decoded : (e.observation.take e.filled).map (fun id => v.decode id.toNat) =
    e.state.tokens.map .ok

theorem faithful_after (hv : v.size ≤ UInt32.size) {c₀ : Composition σ} {calls : List Call} :
    let env := environment score maxLength v capacity rewardPerStep
    let e := env.after (env.fresh c₀) calls
    e.phase = .active → Faithful v e := by
  intro env e ha
  obtain ⟨h, hs, he, hh⟩ := exists_moves env c₀ calls
  have he' : e = h.episode env := he
  rw [he'] at ha ⊢
  have ha' : h.phase = .active := ha
  have hf : h.phase ≠ .fresh := by simp [ha']
  have hpair := ((Paired.moves hs hf).of_active ha').2
  have hdec := map_decode_shown hv hh
  exact ⟨acceptsAll_of_moves hs hf, hdec.trans hpair⟩

/-- A complete expression has tokens, and replaying them gives its text. -/
theorem Faithful.replay {e : Episode (Composition σ)} {x : Expr} (he : Faithful v e)
    (hx : e.state.stack.complete? = some x) :
    e.state.tokens ≠ [] ∧ ∃ s, Expr.Stack.pushAll [] e.state.tokens =
      (s, e.state.tokens.length, none) ∧ s.expression = .ok x.text := by
  refine ⟨fun hnil => ?_, _, Expr.Stack.pushAll_eq_iff.mpr he.accepted, ?_⟩
  · have hacc := he.accepted
    rw [hnil] at hacc
    have hs : e.state.stack = [] := (hacc.unique .nil)
    rw [hs] at hx
    cases hx
  · rw [Expr.Stack.expression, hx]

end Faithful

/-! ## One call -/

section Account

/-- The step from `e` to `e'` ended its episode with the expression `text`: the scorer was called
once, on the tokens that make this expression, and the reward is its score plus the constant for each
step. -/
structure Scored (score : Scorer σ) (env : Environment (Composition (σ × List (List Token))) Info)
    (e e' : Episode (Composition (σ × List (List Token)))) (s : Step Info) (text : String) :
    Prop where
  ended : s.done = true ∧ e.phase = .active ∧ e'.phase = .terminal
  called : e'.state.memory = ((score e.state.memory.1 e'.state.tokens).1,
    e.state.memory.2 ++ [e'.state.tokens])
  nonempty : e'.state.tokens ≠ []
  decoded : (e'.observation.take e'.filled).map (fun id => env.vocabulary.decode id.toNat) =
    e'.state.tokens.map .ok
  replayed : ∃ stack, Expr.Stack.pushAll [] e'.state.tokens =
    (stack, e'.state.tokens.length, none) ∧ stack.expression = .ok text
  reward : s.reward = (score e.state.memory.1 e'.state.tokens).2.add env.rewardPerStep

/-- What the answer to a call that leads from `e` to `e'` tells of the scorer: it was called if the
answer shows an expression, and otherwise it was not, and the step is worth `-1` if it ends the
episode and nothing if it does not, plus the constant for each step. -/
def Account (score : Scorer σ) (env : Environment (Composition (σ × List (List Token))) Info)
    (e e' : Episode (Composition (σ × List (List Token)))) : Answer Info → Prop
  | .outcome (.ok s) => s.info.length = e'.state.tokens.length ∧
    match s.info.expression with
    | some text => Scored score env e e' s text
    | none => e'.state.memory = e.state.memory ∧
      s.reward = (if s.done then -1.0 else 0.0 : Binary64).add env.rewardPerStep
  | _ => e'.state.memory = e.state.memory

variable {e : Episode (Composition (σ × List (List Token)))}

theorem account_step (he : e.phase = .active → Faithful v e) (action : Int) :
    let env := environment (Scorer.recording score) maxLength v capacity rewardPerStep
    Account score env e (env.step e action).1 (.outcome (env.step e action).2) := by
  intro env
  by_cases hp : e.phase = .active
  · cases ht : env.vocabulary.decode action with
    | error fault =>
      rw [step_of_decode_error hp ht]
      exact rfl
    | ok t =>
      rcases hg : env.grammar.step e.state t with ⟨c', verdict⟩
      have hout : Outcome (Scorer.recording score) maxLength e.state t c' verdict := .of_step hg
      -- the scorer is asked in one case: the episode is over and the expression complete
      cases hd : verdict.done with
      | true =>
        rw [step_of_done hp ht hg hd]
        cases hout with
        | scored _ hx =>
          obtain ⟨hne, hreplay⟩ := (he hp).replay hx
          exact ⟨rfl, {
            ended := ⟨rfl, hp, rfl⟩
            called := rfl
            nonempty := hne
            decoded := (he hp).decoded
            replayed := hreplay
            reward := rfl }⟩
        | incomplete => exact ⟨rfl, rfl, rfl⟩
        | taken => cases hd
        | refused => exact ⟨rfl, rfl, rfl⟩
      | false =>
        cases hout with
        | scored => cases hd
        | incomplete => cases hd
        | refused => cases hd
        | taken =>
          have hlen : e.state.tokens.length + 1 = (e.state.tokens ++ [t]).length := by simp
          by_cases hl : e.filled < env.capacity
          · rw [step_of_room hp ht hg hd hl]
            exact ⟨hlen, rfl, rfl⟩
          · rw [step_of_full hp ht hg hd (Nat.le_of_not_lt hl)]
            exact rfl
  · rw [step_of_not_active hp]
    exact rfl

/-- A call adds one token list to the record, and ends the episode, or leaves the memory alone. -/
theorem Account.memory {env : Environment (Composition (σ × List (List Token))) Info}
    {e' : Episode (Composition (σ × List (List Token)))} {a : Answer Info}
    (h : Account score env e e' a) :
    e'.state.memory = e.state.memory ∨ e'.phase = .terminal ∧
      ∃ ts, e'.state.memory.2 = e.state.memory.2 ++ [ts] := by
  match a with
  | .observation _ => exact .inl h
  | .outcome (.error _) => exact .inl h
  | .outcome (.ok s) =>
    obtain ⟨-, h⟩ := h
    cases hx : s.info.expression with
    | none =>
      rw [hx] at h
      exact .inl h.1
    | some text =>
      rw [hx] at h
      exact .inr ⟨h.ended.2.2, _, congrArg Prod.snd h.called⟩

end Account

/-! ## A whole episode -/

section Episode

/-- Outside an active episode steps change nothing. -/
theorem after_steps_of_not_active {ι : Type} {env : Environment σ ι} {e : Episode σ}
    (hp : e.phase ≠ .active) (actions : List Int) : env.after e (actions.map .step) = e := by
  induction actions with
  | nil => rfl
  | cons action actions ih =>
    have hcall : (env.call e (.step action)).1 = e := by
      rw [call, step_of_not_active hp]
    rw [List.map_cons, after, hcall, ih]

variable {c₀ : Composition (σ × List (List Token))} {calls : List Call}

/-- Steps without a reset between them give the scorer one token list at most. -/
theorem record_after_steps (hv : v.size ≤ UInt32.size) (actions : List Int) :
    let env := environment (Scorer.recording score) maxLength v capacity rewardPerStep
    let e := env.after (env.fresh c₀) calls
    ∃ given, (env.after e (actions.map .step)).state.memory.2 = e.state.memory.2 ++ given ∧
      given.length ≤ 1 := by
  intro env e
  -- once the scorer is asked the episode is over, and no later step reaches the composition
  induction actions generalizing calls with
  | nil => exact ⟨[], (List.append_nil _).symm, Nat.zero_le _⟩
  | cons action actions ih =>
    have hconcat : env.after (env.fresh c₀) (calls ++ [.step action]) =
      (env.step e action).1 := after_concat _ calls (.step action)
    have hcons : env.after e ((action :: actions).map .step) =
      env.after (env.step e action).1 (actions.map .step) := rfl
    have haccount : Account score env e (env.step e action).1 (.outcome (env.step e action).2) :=
      account_step (faithful_after hv) action
    rw [hcons]
    rcases haccount.memory with hm | ⟨hp, ts, hm⟩
    · rw [← hconcat] at hm ⊢
      rw [← hm]
      exact ih
    · have hp : (env.step e action).1.phase ≠ .active := by simp [hp]
      rw [after_steps_of_not_active hp]
      exact ⟨[ts], hm, Nat.le_refl 1⟩

end Episode

/-! ## Main statement -/

section Main

/-- Over a scorer with a record, which answers as the scorer itself: a call shows an expression if
and only if it calls the scorer, and then it ends the episode, and the scorer is given the tokens of
this expression.  From one reset to the next the scorer is called at most once, and never before the
first. -/
theorem scored_once (score : Scorer σ) (maxLength : Nat) (v : Vocabulary)
    (hv : v.size ≤ UInt32.size) (capacity : Nat) (rewardPerStep : Binary64) (c₀ : Composition σ)
    (calls : List Call) :
    let plain := environment score maxLength v capacity rewardPerStep
    let env := environment (Scorer.recording score) maxLength v capacity rewardPerStep
    let recorded : Composition (σ × List (List Token)) := ⟨c₀.stack, c₀.tokens, (c₀.memory, [])⟩
    let e := env.after (env.fresh recorded) calls
    env.log (env.fresh recorded) calls = plain.log (plain.fresh c₀) calls ∧
      Akin (fun m m' => m = m'.1) (plain.after (plain.fresh c₀) calls).state e.state ∧
      (∀ c, Account score env e (env.call e c).1 (env.call e c).2) ∧
      (∀ actions : List Int, ∃ given,
        (env.after (env.reset e) (actions.map .step)).state.memory.2 = e.state.memory.2 ++ given ∧
          given.length ≤ 1) ∧
      ∀ actions : List Int, env.after (env.fresh recorded) (actions.map .step) =
        env.fresh recorded := by
  intro plain env recorded e
  -- keeping a record changes no score, so both environments go in lockstep
  have hg : plain.grammar.Lockstep (grammar (Scorer.recording score) maxLength)
      (Akin fun m m' => m = m'.1) :=
    lockstep_grammar (by rintro m m' ts rfl; exact ⟨rfl, rfl⟩) maxLength
  have halike : Alike (Akin fun m m' => m = m'.1) (plain.fresh c₀) (env.fresh recorded) :=
    alike_fresh ⟨rfl, rfl, rfl⟩
  refine ⟨(halike.log_eq hg calls).symm, (halike.after hg calls).state, fun c => ?_,
    fun actions => ?_, after_steps_of_not_active (by simp [fresh])⟩
  · cases c with
    | reset => exact rfl
    | step action => exact account_step (faithful_after hv) action
  · have hreset : env.after (env.fresh recorded) (calls ++ [.reset]) = env.reset e :=
      after_concat _ calls .reset
    have hmemory : e.state.memory = (env.reset e).state.memory := rfl
    rw [hmemory, ← hreset]
    exact record_after_steps hv actions

/-- One feature is a complete expression: the terminator has it scored, and the step that comes too
late does not. -/
theorem scored_once_feature :
    let score : Scorer Nat := fun n ts => (n + 1, .ofInt ts.length)
    let env := environment (Scorer.recording score) 5 .standard 4 0.5
    let e := env.after (env.fresh (start (0, []))) [.reset, .step 24]
    Vocabulary.standard.size ≤ UInt32.size ∧
      (∃ s, (env.step e 48).2 = .ok s ∧
        Scored score env e (env.step e 48).1 s "$close") ∧
      ∃ given, (env.after (env.reset e) ([24, 48, 48].map .step)).state.memory.2 =
        e.state.memory.2 ++ given ∧ given.length ≤ 1 := by
  intro score env e
  have hv : Vocabulary.standard.size ≤ UInt32.size := by decide
  obtain ⟨-, -, haccount, honce, -⟩ :=
    scored_once score 5 .standard hv 4 0.5 (start 0) [.reset, .step 24]
  exact ⟨hv, ⟨_, rfl, (haccount (.step 48)).2⟩, honce [24, 48, 48]⟩

end Main

end Composition

end FactorSearch
