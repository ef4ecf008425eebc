import FactorSearch.Proofs.Composing
import FactorSearch.Proofs.Permission

/-!
# The mask tells what a step will do

Main statement: as long as the observation is long enough for the expressions of the grammar, an
action in range always gets a verdict, and the mask before the step tells which one: an allowed
action is never refused, a refused one was not allowed, and the terminator is allowed when the
expression is complete (`mask_foretells_step`).  An agent that keeps to the mask can lose an
expression to the length cap and to nothing else.
-/

namespace FactorSearch

variable {σ ι : Type}

namespace Expr.Stack

/-- The report of a stack permits what the stack admits. -/
theorem permits_legality {s : Stack} {t : Token} (ht : t ≠ .terminator) :
    s.legality.permits t = admits t s := by
  cases t with
  | operator op => cases op <;> rfl
  | feature f => rfl
  | deltaTime days => rfl
  | constant c => rfl
  | terminator => exact absurd rfl ht

end Expr.Stack

namespace Environment

/-- In an active episode the calls step only to actions that the mask allows. -/
def Guided (env : Environment σ ι) : Episode σ → List Call → Prop
  | _, [] => True
  | e, .reset :: cs => Guided env (env.reset e) cs
  | e, .step action :: cs =>
    (e.phase = .active → 0 ≤ action ∧ (env.mask e).isAllowed action.toNat = true) ∧
      Guided env (env.step e action).1 cs

theorem Guided.at_step {env : Environment σ ι} {e : Episode σ} {before rest : List Call}
    {action : Int} (hg : Guided env e (before ++ .step action :: rest))
    (ha : (env.after e before).phase = .active) :
    0 ≤ action ∧ (env.mask (env.after e before)).isAllowed action.toNat = true := by
  induction before generalizing e with
  | nil => exact hg.1 ha
  | cons c before ih =>
    cases c with
    | reset => exact ih hg ha
    | step action' => exact ih hg.2 ha

/-- The mask allows the actions of the tokens that the grammar permits. -/
theorem isAllowed_mask_iff {env : Environment σ ι} {e : Episode σ} {action : Int} {t : Token}
    (ht : env.vocabulary.decode action = .ok t) :
    (env.mask e).isAllowed action.toNat = true ↔
      (env.grammar.legality e.state).permits t = true := by
  obtain ⟨id, rfl, hid⟩ := Vocabulary.decode_eq_ok_iff.mp ht
  rw [mask, Vocabulary.isAllowed_legalMask_iff, Int.toNat_natCast, hid]
  simp

theorem exists_decode_of_isAllowed {env : Environment σ ι} {e : Episode σ} {action : Int}
    (h₀ : 0 ≤ action) (h : (env.mask e).isAllowed action.toNat = true) :
    ∃ t, env.vocabulary.decode action = .ok t := by
  obtain ⟨t, ht, -⟩ := Vocabulary.isAllowed_legalMask_iff.mp h
  have hid : action = (action.toNat : Int) := by omega
  rw [hid]
  exact ⟨t, Vocabulary.decode_natCast_eq_ok_iff.mpr ht⟩

end Environment

namespace Composition

open Environment

variable {score : Scorer σ} {maxLength : Nat} {v : Vocabulary} {capacity : Nat}
  {rewardPerStep : Binary64} {e : Episode (Composition σ)} {action : Int} {t : Token}

/-! ## What an action in range gets -/

/-- In an active episode there is one token for each entry of the observation in use. -/
theorem filled_eq_length_tokens {c₀ : Composition σ} {calls : List Call} :
    let env := environment score maxLength v capacity rewardPerStep
    let e := env.after (env.fresh c₀) calls
    e.phase = .active → e.filled = e.state.tokens.length := by
  intro env e ha
  obtain ⟨h, hs, he, -⟩ := exists_moves env c₀ calls
  have he' : e = h.episode env := he
  rw [he'] at ha ⊢
  have ha' : h.phase = .active := ha
  exact (Paired.moves hs (by simp [ha'])).length_of_active ha'

/-- If the observation has room for every expression, an action in range gets its verdict. -/
theorem exists_outcome (rewardPerStep : Binary64) (hl : maxLength ≤ capacity + 1)
    (ha : e.phase = .active) (hf : e.filled = e.state.tokens.length)
    (ht : v.decode action = .ok t) :
    let env := environment score maxLength v capacity rewardPerStep
    ∃ c' verdict observation, Outcome score maxLength e.state t c' verdict ∧
      (env.step e action).2 =
        .ok ⟨observation, env.shape verdict.reward, verdict.done, verdict.info⟩ := by
  intro env
  rcases hg : env.grammar.step e.state t with ⟨c', verdict⟩
  have hout : Outcome score maxLength e.state t c' verdict := .of_step hg
  refine ⟨c', verdict, ?_⟩
  cases hd : verdict.done with
  | true =>
    rw [step_of_done ha ht hg hd]
    exact ⟨_, hout, rfl⟩
  | false =>
    -- an expression that would not fit is ended by the composition itself
    have hlen : ¬ maxLength ≤ e.state.tokens.length + 1 :=
      fun h => hout.not_ends_of_open hd (.inr h)
    have hroom : e.filled < capacity := by omega
    rw [step_of_room ha ht hg hd hroom]
    exact ⟨_, hout, rfl⟩

/-! ## What the mask tells of it -/

theorem isAllowed_last_iff :
    let env := environment score maxLength v capacity rewardPerStep
    (env.mask e).isAllowed (v.size - 1) = true ↔ e.state.stack.complete?.isSome = true := by
  intro env
  have h : (env.mask e).isAllowed ((v.size - 1 : Nat) : Int).toNat = true ↔
    (env.grammar.legality e.state).permits .terminator = true :=
      isAllowed_mask_iff Vocabulary.decode_last
  rw [Int.toNat_natCast] at h
  exact h

theorem isAllowed_iff_admits (ht : v.decode action = .ok t) (hne : t ≠ .terminator) :
    ((environment score maxLength v capacity rewardPerStep).mask e).isAllowed action.toNat = true ↔
      Expr.Stack.admits t e.state.stack = true := by
  rw [← Expr.Stack.permits_legality hne]
  exact isAllowed_mask_iff ht

/-- What the mask before a step tells of the step.  The last id is the terminator's. -/
structure Foretold (score : Scorer σ) (maxLength : Nat) (env : Environment (Composition σ) Info)
    (e : Episode (Composition σ)) (action : Int) (t : Token) (s : Step Info) : Prop where
  /-- An allowed token is never refused. -/
  valid : (env.mask e).isAllowed action.toNat = true → s.info.invalid = false
  ending : Ends maxLength e.state t → s.done = true ∧ s.info.invalid = false ∧
    (s.info.expression.isSome = true ↔
      (env.mask e).isAllowed (env.vocabulary.size - 1) = true)
  scored : s.info.expression.isSome = true →
    s.reward = (score e.state.memory e.state.tokens).2.add env.rewardPerStep
  open_iff : ¬ Ends maxLength e.state t →
    (s.done = false ↔ (env.mask e).isAllowed action.toNat = true)
  refused : ¬ Ends maxLength e.state t → (env.mask e).isAllowed action.toNat = false →
    s.done = true ∧ s.info.invalid = true ∧ s.info.expression = none ∧
      s.reward = (-1.0 : Binary64).add env.rewardPerStep

theorem Outcome.foretold {c' : Composition σ} {verdict : Verdict Info}
    (hout : Outcome score maxLength e.state t c' verdict) (ht : v.decode action = .ok t)
    (observation : List ActionId) :
    let env := environment score maxLength v capacity rewardPerStep
    Foretold score maxLength env e action t
      ⟨observation, env.shape verdict.reward, verdict.done, verdict.info⟩ := by
  intro env
  -- the last id is the terminator, which is allowed on complete expressions only
  have hlast : (env.mask e).isAllowed (env.vocabulary.size - 1) = true ↔
    e.state.stack.complete?.isSome = true := isAllowed_last_iff
  cases hout with
  | scored he hx =>
    have hm : (env.mask e).isAllowed (env.vocabulary.size - 1) = true := by
      rw [hlast, hx]
      rfl
    exact {
      valid := fun _ => rfl
      ending := fun _ => ⟨rfl, rfl, fun _ => hm, fun _ => rfl⟩
      scored := fun _ => rfl
      open_iff := absurd he
      refused := absurd he }
  | incomplete he hx =>
    have hm : ¬ (env.mask e).isAllowed (env.vocabulary.size - 1) = true := by
      rw [hlast, hx]
      simp
    exact {
      valid := fun _ => rfl
      ending := fun _ => ⟨rfl, rfl, nofun, fun h => absurd h hm⟩
      scored := nofun
      open_iff := absurd he
      refused := absurd he }
  | taken he hs =>
    have hne : t ≠ .terminator := fun h => he (.inl h)
    have hm : (env.mask e).isAllowed action.toNat = true :=
      (isAllowed_iff_admits ht hne).mpr hs.admits
    exact {
      valid := fun _ => rfl
      ending := fun h => absurd h he
      scored := nofun
      open_iff := fun _ => ⟨fun _ => hm, fun _ => rfl⟩
      refused := fun _ h => absurd (hm.symm.trans h) nofun }
  | refused he hs =>
    have hne : t ≠ .terminator := fun h => he (.inl h)
    have hm : ¬ (env.mask e).isAllowed action.toNat = true := by
      rw [isAllowed_iff_admits ht hne, hs]
      simp
    exact {
      valid := fun h => absurd h hm
      ending := fun h => absurd h he
      scored := nofun
      open_iff := fun _ => ⟨nofun, fun h => absurd h hm⟩
      refused := fun _ _ => ⟨rfl, rfl, rfl, rfl⟩ }

/-- After an allowed action the episode goes on, or ends with a scored expression, or has run into
the length cap. -/
theorem Foretold.of_isAllowed {env : Environment (Composition σ) Info} {s : Step Info}
    (hs : Foretold score maxLength env e action t s) (ht : env.vocabulary.decode action = .ok t)
    (hm : (env.mask e).isAllowed action.toNat = true) (hd : s.done = true) :
    (s.info.expression.isSome = true ∧
        s.reward = (score e.state.memory e.state.tokens).2.add env.rewardPerStep) ∨
      (maxLength ≤ e.state.tokens.length + 1 ∧ t ≠ .terminator) := by
  have he : Ends maxLength e.state t := by
    -- an allowed token that ends nothing leaves the episode open
    by_contra he
    rw [(hs.open_iff he).mpr hm] at hd
    cases hd
  by_cases hterm : t = .terminator
  · -- the terminator is allowed as the last id, so the expression is complete
    have hlast : action.toNat = env.vocabulary.size - 1 := by
      rw [hterm] at ht
      obtain ⟨id, rfl, hid⟩ := Vocabulary.decode_eq_ok_iff.mp ht
      have := Vocabulary.getElem?_tokens_eq_terminator_iff.mp hid
      omega
    rw [hlast] at hm
    have hx := (hs.ending he).2.2.mpr hm
    exact .inl ⟨hx, hs.scored hx⟩
  · exact .inr ⟨he.resolve_left hterm, hterm⟩

theorem exists_foretold {c₀ : Composition σ} {calls : List Call} (hl : maxLength ≤ capacity + 1) :
    let env := environment score maxLength v capacity rewardPerStep
    let e := env.after (env.fresh c₀) calls
    e.phase = .active → v.decode action = .ok t →
      ∃ s, (env.step e action).2 = .ok s ∧ Foretold score maxLength env e action t s := by
  intro env e ha ht
  obtain ⟨c', verdict, observation, hout, hs⟩ :=
    exists_outcome rewardPerStep hl ha (filled_eq_length_tokens ha) ht
  exact ⟨_, hs, hout.foretold ht observation⟩

/-- The mask foretells every step of an active episode.  On a run that keeps to the mask no token is
refused, and an episode that ends without a scored expression has run into the length cap. -/
theorem mask_foretells_step (score : Scorer σ) (maxLength : Nat) (v : Vocabulary) (capacity : Nat)
    (hl : maxLength ≤ capacity + 1) (rewardPerStep : Binary64) (c₀ : Composition σ)
    (calls : List Call) :
    let env := environment score maxLength v capacity rewardPerStep
    let e := env.after (env.fresh c₀) calls
    v.decode ((v.size - 1 : Nat) : Int) = .ok .terminator ∧
      (e.phase = .active → ∀ action : Int, 0 ≤ action → action < v.size →
        ∃ t s, v.decode action = .ok t ∧ (env.step e action).2 = .ok s ∧
          Foretold score maxLength env e action t s) ∧
      (Guided env (env.fresh c₀) calls → ∀ before action rest,
        calls = before ++ .step action :: rest →
          let e := env.after (env.fresh c₀) before
          e.phase = .active → ∃ s, (env.step e action).2 = .ok s ∧ s.info.invalid = false ∧
            (s.done = true →
              (s.info.expression.isSome = true ∧
                  s.reward = (score e.state.memory e.state.tokens).2.add env.rewardPerStep) ∨
                (maxLength ≤ e.state.tokens.length + 1 ∧ v.decode action ≠ .ok .terminator))) := by
  intro env e
  refine ⟨Vocabulary.decode_last, ?_, ?_⟩
  · intro ha action h₀ h₁
    obtain ⟨t, ht⟩ := Vocabulary.exists_decode_eq_ok_iff.mpr ⟨h₀, h₁⟩
    obtain ⟨s, hs, hf⟩ := exists_foretold hl ha ht
    exact ⟨t, s, ht, hs, hf⟩
  · rintro hg before action rest rfl e ha
    obtain ⟨h₀, hm⟩ := hg.at_step ha
    obtain ⟨t, ht⟩ : ∃ t, v.decode action = .ok t := exists_decode_of_isAllowed h₀ hm
    obtain ⟨s, hs, hf⟩ := exists_foretold hl ha ht
    refine ⟨s, hs, hf.valid hm, fun hd => ?_⟩
    -- an allowed step ends the episode on a complete expression or at the limit
    rcases hf.of_isAllowed ht hm hd with hx | ⟨hcap, hne⟩
    · exact .inl hx
    · refine .inr ⟨hcap, fun hterm => hne ?_⟩
      exact Except.ok.inj (ht.symm.trans hterm)

/-- A feature, a unary operator and then the terminator, all of them allowed. -/
theorem mask_foretells_step_terminator :
    let env := environment (fun (_ : Unit) _ => ((), 1.0)) 5 .standard 4 0.0
    let calls : List Call := [.reset, .step 24, .step 0]
    let e := env.after (env.fresh (start ())) calls
    5 ≤ 4 + 1 ∧ e.phase = .active ∧ Guided env (env.fresh (start ())) calls ∧
      (∃ t s, Vocabulary.standard.decode 48 = .ok t ∧ (env.step e 48).2 = .ok s ∧
        Foretold (fun (_ : Unit) _ => ((), 1.0)) 5 env e 48 t s) ∧
      ∃ s, (env.step (env.after (env.fresh (start ())) [.reset, .step 24]) 0).2 = .ok s ∧
        s.info.invalid = false := by
  intro env calls e
  have hl : 5 ≤ 4 + 1 := by decide
  have ha : e.phase = .active := rfl
  have hg : Guided env (env.fresh (start ())) calls :=
    ⟨fun _ => ⟨by decide, (isAllowed_mask_iff (t := .feature .closePrice) rfl).mpr rfl⟩,
      fun _ => ⟨by decide, (isAllowed_mask_iff (t := .operator (.unary .abs)) rfl).mpr rfl⟩,
      trivial⟩
  obtain ⟨-, hstep, hrun⟩ := mask_foretells_step (fun (_ : Unit) _ => ((), 1.0)) 5 .standard 4 hl
    0.0 (start ()) calls
  obtain ⟨s, hs, hvalid, -⟩ := hrun hg [.reset, .step 24] 0 [] rfl rfl
  exact ⟨hl, ha, hg, hstep ha 48 (by decide) (by decide), s, hs, hvalid⟩

end Composition

end FactorSearch
