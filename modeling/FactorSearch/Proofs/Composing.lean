import FactorSearch.Composition
import FactorSearch.Proofs.Acceptance
import FactorSearch.Proofs.History

/-!
# Environments whose agent composes expressions

`Composition.Outcome` lists what a token does to a composition: it is scored, it comes too early,
it is taken or it is refused.  Main statement: the observation holds the ids of the tokens that the
composition holds, and an episode that overflows its observation leaves the composition one token
ahead (`observation_records_tokens`).
-/

namespace FactorSearch

variable {σ : Type}

namespace Composition

/-! ## One token -/

section Outcome

variable (score : Scorer σ) (maxLength : Nat)

/-- The token ends the episode, whatever it is to the stack. -/
def Ends (c : Composition σ) (t : Token) : Prop :=
  t = .terminator ∨ maxLength ≤ c.tokens.length + 1

/-- What a token does to a composition, and the verdict on it. -/
inductive Outcome : Composition σ → Token → Composition σ → Verdict Info → Prop
  | scored {c : Composition σ} {t : Token} {x : Expr} (he : Ends maxLength c t)
      (hx : c.stack.complete? = some x) :
      Outcome c t { c with memory := (score c.memory c.tokens).1 }
        ⟨(score c.memory c.tokens).2, true, ⟨c.tokens.length, false, some x.text⟩⟩
  | incomplete {c : Composition σ} {t : Token} (he : Ends maxLength c t)
      (hx : c.stack.complete? = none) :
      Outcome c t c ⟨invalidReward, true, ⟨c.tokens.length, false, none⟩⟩
  | taken {c : Composition σ} {t : Token} {s : Expr.Stack} (he : ¬ Ends maxLength c t)
      (hs : c.stack.Accepts t s) :
      Outcome c t { c with stack := s, tokens := c.tokens ++ [t] }
        ⟨0.0, false, ⟨c.tokens.length + 1, false, none⟩⟩
  | refused {c : Composition σ} {t : Token} (he : ¬ Ends maxLength c t)
      (hs : Expr.Stack.admits t c.stack = false) :
      Outcome c t c ⟨invalidReward, true, ⟨c.tokens.length, true, none⟩⟩

variable {score maxLength} {c c' : Composition σ} {t : Token} {verdict : Verdict Info}

theorem ends_iff : (t.isTerminator || decide (maxLength ≤ c.tokens.length + 1)) = true ↔
    Ends maxLength c t := by
  rw [Ends, Bool.or_eq_true, decide_eq_true_eq]
  cases t <;> simp [Token.isTerminator]

theorem outcome_step (score : Scorer σ) (maxLength : Nat) (c : Composition σ) (t : Token) :
    Outcome score maxLength c t (step score maxLength c t).1 (step score maxLength c t).2 := by
  -- a token that ends the episode is not looked at any further
  by_cases he : Ends maxLength c t
  · rw [step, if_pos (ends_iff.mpr he)]
    cases hx : c.stack.complete? with
    | none =>
      have : finish score c = (c, ⟨invalidReward, true, ⟨c.tokens.length, false, none⟩⟩) := by
        rw [finish, Expr.Stack.expression, hx]
      rw [this]
      exact .incomplete he hx
    | some x =>
      have : finish score c = ({ c with memory := (score c.memory c.tokens).1 },
          ⟨(score c.memory c.tokens).2, true, ⟨c.tokens.length, false, some x.text⟩⟩) := by
        rw [finish, Expr.Stack.expression, hx]
      rw [this]
      exact .scored he hx
  · rw [step, if_neg (fun h => he (ends_iff.mp h))]
    cases hp : c.stack.push t with
    | ok s =>
      have hs : c.stack.Accepts t s := Expr.Stack.push_eq_ok_iff.mp hp
      simpa using Outcome.taken he hs
    | error fault => exact .refused he (Expr.Stack.push_eq_error_iff.mp hp).1

theorem Outcome.of_step (h : step score maxLength c t = (c', verdict)) :
    Outcome score maxLength c t c' verdict := by
  have := outcome_step score maxLength c t
  rwa [h] at this

/-- A token that closes the expression, or that the stack refuses, ends the episode. -/
theorem Outcome.done_of_ends (h : Outcome score maxLength c t c' verdict)
    (hx : Ends maxLength c t ∨ Expr.Stack.admits t c.stack = false) : verdict.done = true := by
  cases h with
  | scored => rfl
  | incomplete => rfl
  | taken he hs =>
    rcases hx with hx | hx
    · exact absurd hx he
    · rw [hs.admits] at hx
      cases hx
  | refused => rfl

/-- Any other token is taken. -/
theorem step_of_admits (score : Scorer σ) (he : ¬ Ends maxLength c t)
    (hs : Expr.Stack.admits t c.stack = true) :
    step score maxLength c t =
      ({ c with stack := Expr.Stack.place t c.stack, tokens := c.tokens ++ [t] },
        ⟨0.0, false, ⟨c.tokens.length + 1, false, none⟩⟩) := by
  rw [step, if_neg (fun h => he (ends_iff.mp h)), Expr.Stack.push, if_pos hs]
  simp

/-- A token that the stack refuses ends the episode and changes nothing. -/
theorem step_of_not_admits (score : Scorer σ) (he : ¬ Ends maxLength c t)
    (hs : Expr.Stack.admits t c.stack = false) :
    step score maxLength c t = (c, ⟨invalidReward, true, ⟨c.tokens.length, true, none⟩⟩) := by
  rw [step, if_neg (fun h => he (ends_iff.mp h)), Expr.Stack.push, if_neg (by simp [hs])]

/-- A step that leaves the episode open is a move of the stack and adds its token.  It comes below
the length cap, and is not the terminator. -/
theorem Outcome.of_open (h : Outcome score maxLength c t c' verdict) (hd : verdict.done = false) :
    ¬ Ends maxLength c t ∧ c.stack.Accepts t c'.stack ∧ c'.tokens = c.tokens ++ [t] := by
  cases h with
  | scored => cases hd
  | incomplete => cases hd
  | taken he hs => exact ⟨he, hs, rfl⟩
  | refused => cases hd

/-- A step that ends the episode leaves the expression alone. -/
theorem Outcome.of_done (h : Outcome score maxLength c t c' verdict) (hd : verdict.done = true) :
    c'.stack = c.stack ∧ c'.tokens = c.tokens := by
  cases h with
  | scored => exact ⟨rfl, rfl⟩
  | incomplete => exact ⟨rfl, rfl⟩
  | taken => cases hd
  | refused => exact ⟨rfl, rfl⟩

theorem Outcome.tokens_of_open (h : Outcome score maxLength c t c' verdict)
    (hd : verdict.done = false) : c'.tokens = c.tokens ++ [t] :=
  (h.of_open hd).2.2

theorem Outcome.not_ends_of_open (h : Outcome score maxLength c t c' verdict)
    (hd : verdict.done = false) : ¬ Ends maxLength c t :=
  (h.of_open hd).1

theorem Outcome.tokens_of_done (h : Outcome score maxLength c t c' verdict)
    (hd : verdict.done = true) : c'.tokens = c.tokens :=
  (h.of_done hd).2

/-- The stack stays what the tokens make of it. -/
theorem Outcome.acceptsAll (h : Outcome score maxLength c t c' verdict)
    (hc : Expr.Stack.AcceptsAll [] c.tokens c.stack) :
    Expr.Stack.AcceptsAll [] c'.tokens c'.stack := by
  -- only an outcome that leaves the episode open takes the token
  cases hd : verdict.done with
  | true =>
    obtain ⟨hs, hts⟩ := h.of_done hd
    rw [hs, hts]
    exact hc
  | false =>
    obtain ⟨-, hs, hts⟩ := h.of_open hd
    rw [hts]
    exact hc.concat hs

end Outcome

/-! ## The observation and the tokens -/

section Recording

open Environment

variable (score : Scorer σ) (maxLength : Nat) (v : Vocabulary) (capacity : Nat)
  (rewardPerStep : Binary64)

/-- An environment over compositions. -/
def environment : Environment (Composition σ) Info :=
  ⟨grammar score maxLength, v, capacity, rewardPerStep⟩

/-- How actions and tokens go together.  The action that found the observation full, if one did, has
given the composition one token more. -/
def Paired (h : History (Composition σ)) : Option Int → Prop
  | none => h.actions.map v.decode = h.state.tokens.map .ok
  | some action => h.phase = .terminal ∧ h.actions.length = capacity ∧
      ∃ ts t, h.state.tokens = ts ++ [t] ∧ v.decode action = .ok t ∧
        h.actions.map v.decode = ts.map .ok

variable {score maxLength v capacity rewardPerStep} {h h' : History (Composition σ)} {c : Call}
  {a : Answer Info} {o : Option Int}

theorem Paired.of_active (hp : Paired v capacity h o) (ha : h.phase = .active) :
    o = none ∧ h.actions.map v.decode = h.state.tokens.map .ok := by
  cases o with
  | none => exact ⟨rfl, hp⟩
  | some action =>
    obtain ⟨ht, -⟩ := hp
    rw [ha] at ht
    cases ht

/-- While the episode is active there is one action for each token. -/
theorem Paired.length_of_active (hp : Paired v capacity h o) (ha : h.phase = .active) :
    h.actions.length = h.state.tokens.length := by
  simpa using congrArg List.length (hp.of_active ha).2

/-- While the episode is active its tokens belong to the vocabulary. -/
theorem Paired.exists_decode_of_active (hp : Paired v capacity h o) (ha : h.phase = .active)
    {t : Token} (ht : t ∈ h.state.tokens) : ∃ action, v.decode action = .ok t := by
  have hmem : .ok t ∈ h.actions.map v.decode := by
    rw [(hp.of_active ha).2]
    exact List.mem_map_of_mem ht
  obtain ⟨action, -, h⟩ := List.mem_map.mp hmem
  exact ⟨action, h⟩

theorem Paired.move (hm : Move (environment score maxLength v capacity rewardPerStep) h c a h')
    (hp : h.phase ≠ .fresh → Paired v capacity h o) (hf : h'.phase ≠ .fresh) :
    Paired v capacity h' (overflowStep o (c, a)) := by
  -- the tokens change only in moves that the grammar sees
  cases hm with
  | reset => exact rfl
  | notActive => exact hp hf
  | outOfRange => exact hp hf
  | ended ha ht hg hd =>
    obtain ⟨rfl, hpair⟩ := (hp (by simp [ha])).of_active ha
    exact hpair.trans (congrArg _ ((Outcome.of_step hg).tokens_of_done hd).symm)
  | taken ha ht hg hd hl =>
    obtain ⟨rfl, hpair⟩ := (hp (by simp [ha])).of_active ha
    change List.map v.decode _ = _
    rw [(Outcome.of_step hg).tokens_of_open hd, List.map_append, hpair, List.map_append]
    exact congrArg _ (congrArg (fun t => [t]) ht)
  | overflowed ha ht hg hd hl =>
    obtain ⟨rfl, hpair⟩ := (hp (by simp [ha])).of_active ha
    exact ⟨rfl, hl, _, _, (Outcome.of_step hg).tokens_of_open hd, ht, hpair⟩

theorem Paired.moves {c₀ : Composition σ} {log : List (Event Info)}
    (hs : Moves (environment score maxLength v capacity rewardPerStep) (.start c₀) log h)
    (hf : h.phase ≠ .fresh) : Paired v capacity h (overflow? log) := by
  induction hs with
  | nil => exact absurd rfl hf
  | concat _ hm ih =>
    rw [overflow?_concat]
    exact Paired.move hm ih hf

/-- From the first reset on the stack is what the tokens make of it. -/
theorem acceptsAll_of_moves {c₀ : Composition σ} {log : List (Event Info)}
    (hs : Moves (environment score maxLength v capacity rewardPerStep) (.start c₀) log h)
    (hf : h.phase ≠ .fresh) : Expr.Stack.AcceptsAll [] h.state.tokens h.state.stack := by
  induction hs with
  | nil => exact absurd rfl hf
  | concat _ hm ih =>
    cases hm with
    | reset => exact .nil
    | notActive => exact ih hf
    | outOfRange => exact ih hf
    | ended ha _ hg => exact (Outcome.of_step hg).acceptsAll (ih (by simp [ha]))
    | taken ha _ hg => exact (Outcome.of_step hg).acceptsAll (ih (by simp [ha]))
    | overflowed ha _ hg => exact (Outcome.of_step hg).acceptsAll (ih (by simp [ha]))

/-- After the first reset the observation decodes to the tokens of the composition, with zeros
behind.  Once an action has found the observation full, its token stands alone beyond a full
observation. -/
theorem observation_records_tokens (score : Scorer σ) (maxLength : Nat) (v : Vocabulary)
    (hv : v.size ≤ UInt32.size) (capacity : Nat) (rewardPerStep : Binary64) (c₀ : Composition σ)
    (calls : List Call) (hr : .reset ∈ calls) :
    let env := environment score maxLength v capacity rewardPerStep
    let e := env.after (env.fresh c₀) calls
    e.observation.length = capacity ∧
      match overflow? (env.log (env.fresh c₀) calls) with
      | none =>
        e.filled = e.state.tokens.length ∧
          (e.observation.take e.filled).map (fun id => v.decode id.toNat) =
            e.state.tokens.map .ok ∧
          e.observation.drop e.filled = List.replicate (capacity - e.filled) 0
      | some action =>
        e.filled = capacity ∧ ∃ ts t, e.state.tokens = ts ++ [t] ∧ v.decode action = .ok t ∧
          e.observation.map (fun id => v.decode id.toNat) = ts.map .ok := by
  intro env e
  obtain ⟨h, hs, he, hh⟩ := exists_moves env c₀ calls
  have he' : e = h.episode env := he
  have hf : h.phase ≠ .fresh := hs.phase_ne_fresh (by rwa [map_fst_log])
  have hpair := Paired.moves hs hf
  have hdec := map_decode_shown hv hh
  rw [he']
  refine ⟨length_shown hh.length_le, ?_⟩
  -- after an overflow the composition is one token ahead of the full observation
  cases ho : overflow? (env.log (env.fresh c₀) calls) with
  | none =>
    rw [ho] at hpair
    have hlen : h.actions.length = h.state.tokens.length := by
      simpa using congrArg List.length hpair
    exact ⟨hlen, hdec.trans hpair, drop_shown h.actions⟩
  | some action =>
    rw [ho] at hpair
    obtain ⟨-, hl, ts, t, hts, ht, hpair⟩ := hpair
    refine ⟨hl, ts, t, hts, ht, ?_⟩
    have hall : (env.shown h.actions).take capacity = env.shown h.actions :=
      List.take_of_length_le (Nat.le_of_eq (length_shown hh.length_le))
    rw [hl, hall] at hdec
    exact hdec.trans hpair

/-- A composition of up to four tokens in an observation of one: the second token is too much. -/
theorem observation_records_tokens_overflow :
    let env := environment (fun (_ : Unit) _ => ((), 0.0)) 5 .standard 1 0.0
    let calls : List Call := [.step 24, .reset, .step 24, .step 23, .step 0]
    let e := env.after (env.fresh (start ())) calls
    Vocabulary.standard.size ≤ UInt32.size ∧ .reset ∈ calls ∧ e.filled = 1 ∧
      ∃ ts t, e.state.tokens = ts ++ [t] ∧ Vocabulary.standard.decode 23 = .ok t ∧
        e.observation.map (fun id => Vocabulary.standard.decode id.toNat) = ts.map .ok := by
  intro env calls e
  have hv : Vocabulary.standard.size ≤ UInt32.size := by decide
  have hr : Call.reset ∈ calls := by decide
  exact ⟨hv, hr, (observation_records_tokens (fun (_ : Unit) _ => ((), 0.0)) 5 .standard hv 1 0.0
    (start ()) calls hr).2⟩

end Recording

end Composition

end FactorSearch
