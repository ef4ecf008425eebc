import FactorSearch.Proofs.Guidance
import FactorSearch.Proofs.Numbering

/-!
# How long an episode lasts

A token that is taken moves the counter of the observation by one, and every other token ends the
episode: this bounds an episode by the longest expression.  Main statement: if the observation has
room for the longest expression, each episode ends in time and no observation is ever found full;
both bounds are met by an agent that asks for one feature again and again (`episode_length`).
-/

namespace FactorSearch

variable {σ ι : Type}

namespace Environment

/-! ## The shape of a log -/

section Shape

/-- A step that left the episode open. -/
def LeftOpen : Event ι → Prop
  | (.step _, .outcome (.ok s)) => s.done = false
  | _ => False

/-- A step that ended the episode. -/
def Ended : Event ι → Prop
  | (.step _, .outcome (.ok s)) => s.done = true
  | _ => False

/-- A step that found the observation full. -/
def FoundFull (capacity : Nat) : Event ι → Prop
  | (.step _, .outcome (.error (.capacityExceeded n))) => n = capacity
  | _ => False

/-- The first `k` events are steps that left the episode open, the next one is such a `last`. -/
def OpenFor (last : Event ι → Prop) : Nat → List (Event ι) → Prop
  | _, [] => False
  | 0, x :: _ => last x
  | k + 1, x :: log => LeftOpen x ∧ OpenFor last k log

end Shape

end Environment

namespace Composition

open Environment

variable {score : Scorer σ} {maxLength : Nat} {v : Vocabulary} {capacity : Nat}
  {rewardPerStep : Binary64} {e : Episode (Composition σ)} {action : Int}
  {t : Token}

/-! ## One step -/

section Step

/-- An active episode with one entry of the observation in use for each token. -/
structure Underway (e : Episode (Composition σ)) : Prop where
  active : e.phase = .active
  filled : e.filled = e.state.tokens.length

theorem underway_reset (e : Episode (Composition σ)) :
    Underway ((environment score maxLength v capacity rewardPerStep).reset e) :=
  ⟨rfl, rfl⟩

/-- The counter tells whether a token is one too many for the expression. -/
theorem Underway.ends_iff (hu : Underway e) (hne : t ≠ .terminator) :
    Ends maxLength e.state t ↔ maxLength ≤ e.filled + 1 := by
  rw [Ends, hu.filled, or_iff_right hne]

/-- A token that closes the expression, or that the stack refuses, ends the episode. -/
theorem Underway.call_of_ends (hu : Underway e) (ht : v.decode action = .ok t)
    (hx : Ends maxLength e.state t ∨ Expr.Stack.admits t e.state.stack = false) :
    let env := environment score maxLength v capacity rewardPerStep
    Ended (.step action, (env.call e (.step action)).2) := by
  intro env
  rcases hg : env.grammar.step e.state t with ⟨c', verdict⟩
  rw [call, step_of_done hu.active ht hg ((Outcome.of_step hg).done_of_ends hx)]
  exact rfl

/-- Any other token is taken, if there is room for its id. -/
theorem Underway.call_of_admits (hu : Underway e) (ht : v.decode action = .ok t)
    (he : ¬ Ends maxLength e.state t) (hs : Expr.Stack.admits t e.state.stack = true)
    (hroom : e.filled < capacity) :
    let env := environment score maxLength v capacity rewardPerStep
    let e' := (env.call e (.step action)).1
    LeftOpen (.step action, (env.call e (.step action)).2) ∧ Underway e' ∧
      e'.filled = e.filled + 1 ∧ e'.state.stack = Expr.Stack.place t e.state.stack := by
  intro env e'
  have hg : env.grammar.step e.state t = _ := step_of_admits score he hs
  have hstep := step_of_room hu.active ht hg rfl hroom
  have hlen : e.filled + 1 = (e.state.tokens ++ [t]).length := by
    rw [List.length_append, List.length_singleton, hu.filled]
  change LeftOpen (.step action, .outcome (env.step e action).2) ∧
    Underway (env.step e action).1 ∧ (env.step e action).1.filled = _ ∧
    (env.step e action).1.state.stack = _
  rw [hstep]
  exact ⟨rfl, ⟨hu.active, hlen⟩, rfl, rfl⟩

/-- Without room it is one token too many. -/
theorem Underway.call_of_full (hu : Underway e) (ht : v.decode action = .ok t)
    (he : ¬ Ends maxLength e.state t) (hs : Expr.Stack.admits t e.state.stack = true)
    (hfull : capacity ≤ e.filled) :
    let env := environment score maxLength v capacity rewardPerStep
    FoundFull capacity (.step action, (env.call e (.step action)).2) := by
  intro env
  have hg : env.grammar.step e.state t = _ := step_of_admits score he hs
  rw [call, step_of_full hu.active ht hg rfl hfull]
  exact rfl

end Step

/-! ## The bound -/

section Bound

/-- An episode under way ends before it has taken more tokens than the longest expression has. -/
theorem Underway.exists_openFor (hl : maxLength ≤ capacity + 1) {actions : List Int}
    (hr : ∀ a ∈ actions, 0 ≤ a ∧ a < v.size) (hu : Underway e)
    (hlen : max 1 (maxLength - e.filled) ≤ actions.length) :
    let env := environment score maxLength v capacity rewardPerStep
    ∃ k < max 1 (maxLength - e.filled), OpenFor Ended k (env.log e (actions.map .step)) := by
  intro env
  -- the bound falls by one with every entry, and so does the number of actions that are left
  induction actions generalizing e with
  | nil =>
    simp only [List.length_nil] at hlen
    omega
  | cons a actions ih =>
    obtain ⟨t, ht⟩ := Vocabulary.exists_decode_eq_ok_iff.mpr (hr a List.mem_cons_self)
    by_cases hx : Ends maxLength e.state t ∨ Expr.Stack.admits t e.state.stack = false
    · exact ⟨0, by omega, hu.call_of_ends ht hx⟩
    · rw [not_or, Bool.not_eq_false] at hx
      -- the episode goes on, so the expression is not at its longest and there is room
      have hshort : ¬ maxLength ≤ e.state.tokens.length + 1 := fun h => hx.1 (.inr h)
      rw [← hu.filled] at hshort
      obtain ⟨hopen, hu', hf, -⟩ : LeftOpen (.step a, (env.call e (.step a)).2) ∧
          Underway (env.call e (.step a)).1 ∧
          (env.call e (.step a)).1.filled = e.filled + 1 ∧ _ :=
        hu.call_of_admits ht hx.1 hx.2 (by omega)
      rw [List.length_cons] at hlen
      obtain ⟨k, hk, hlog⟩ := ih (fun b hb => hr b (List.mem_cons_of_mem a hb)) hu' (by omega)
      exact ⟨k + 1, by omega, hopen, hlog⟩

theorem underway_after {c₀ : Composition σ} {calls : List Call} :
    let env := environment score maxLength v capacity rewardPerStep
    (env.after (env.fresh c₀) calls).phase = .active →
      Underway (env.after (env.fresh c₀) calls) :=
  fun ha => ⟨ha, filled_eq_length_tokens ha⟩

/-- With room for the longest expression no call finds the observation full. -/
theorem not_foundFull_call (hl : maxLength ≤ capacity + 1) (hu : e.phase = .active → Underway e)
    (call : Call) (n : Nat) :
    let env := environment score maxLength v capacity rewardPerStep
    ¬ FoundFull n (call, (env.call e call).2) := by
  intro env
  cases call with
  | reset => exact id
  | step action =>
    rw [Environment.call]
    by_cases ha : e.phase = .active
    · cases ht : v.decode action with
      | error fault =>
        rw [step_of_decode_error ha ht]
        exact id
      | ok t =>
        -- every step of an active episode has an outcome here, so none finds the observation full
        obtain ⟨c', verdict, observation, -, hs⟩ : ∃ c' verdict observation,
            Outcome score maxLength e.state t c' verdict ∧ _ :=
          exists_outcome rewardPerStep hl ha (hu ha).filled ht
        rw [hs]
        exact id
    · rw [step_of_not_active ha]
      exact id

/-- The actions of an episode are always fewer than the longest expression allows. -/
theorem length_actions_le {c₀ : Composition σ} {log : List (Event Info)}
    {h : History (Composition σ)}
    (hs : Moves (environment score maxLength v capacity rewardPerStep) (.start c₀) log h) :
    h.actions.length ≤ maxLength - 1 := by
  induction hs with
  | nil => exact Nat.zero_le _
  | concat hs hm ih =>
    cases hm with
    | reset => exact Nat.zero_le _
    | notActive => exact ih
    | outOfRange => exact ih
    | ended => exact ih
    | overflowed => exact ih
    | taken ha ht hg hd hl =>
      -- there is an action for each token, and an expression that stays open is below its limit
      have hlen := (Paired.moves hs (by simp [ha])).length_of_active ha
      have hshort := (Outcome.of_step hg).not_ends_of_open hd
      rw [Ends, not_or] at hshort
      rw [List.length_append, List.length_singleton]
      omega

end Bound

/-! ## The bound is met -/

section Tight

/-- One feature after the other is taken, until the expression is at its longest or the observation
is full. -/
theorem Underway.openFor_replicate {f : Feature} (ht : v.decode action = .ok (.feature f))
    {last : Event Info → Prop} {k n : Nat} (hu : Underway e)
    (hs : Expr.Stack.admitsFeature e.state.stack = true) (hshort : e.filled + k < maxLength)
    (hroom : e.filled + k ≤ capacity) (hn : k < n) :
    let env := environment score maxLength v capacity rewardPerStep
    (∀ e', Underway e' → Expr.Stack.admitsFeature e'.state.stack = true →
      e'.filled = e.filled + k → last (.step action, (env.call e' (.step action)).2)) →
    OpenFor last k (env.log e (List.replicate n (.step action))) := by
  intro env hlast
  -- a feature may follow a feature, so the same action keeps the episode open
  induction k generalizing e n with
  | zero =>
    obtain ⟨n, rfl⟩ : ∃ m, n = m + 1 := ⟨n - 1, by omega⟩
    exact hlast e hu hs rfl
  | succ k ih =>
    obtain ⟨n, rfl⟩ : ∃ m, n = m + 1 := ⟨n - 1, by omega⟩
    have he : ¬ Ends maxLength e.state (.feature f) := by
      rw [hu.ends_iff (by simp)]
      omega
    obtain ⟨hopen, hu', hf, hstack⟩ : LeftOpen (.step action, (env.call e (.step action)).2) ∧
        Underway (env.call e (.step action)).1 ∧
        (env.call e (.step action)).1.filled = e.filled + 1 ∧
        (env.call e (.step action)).1.state.stack = _ :=
      hu.call_of_admits ht he hs (by omega)
    have hs' : Expr.Stack.admitsFeature (env.call e (.step action)).1.state.stack = true := by
      rw [hstack]
      rfl
    refine ⟨hopen, ih hu' hs' (by omega) (by omega) (by omega) fun e' hu' hs' hf' => ?_⟩
    exact hlast e' hu' hs' (by omega)

theorem openFor_longest {f : Feature} (ht : v.decode action = .ok (.feature f))
    (hu : Underway e) (h₀ : e.filled = 0) (hs : Expr.Stack.admitsFeature e.state.stack = true)
    (hpos : 1 ≤ maxLength) (hl : maxLength ≤ capacity + 1) {n : Nat} (hn : maxLength ≤ n) :
    let env := environment score maxLength v capacity rewardPerStep
    OpenFor Ended (maxLength - 1) (env.log e (List.replicate n (.step action))) := by
  intro env
  refine hu.openFor_replicate ht hs (by omega) (by omega) (by omega) ?_
  intro e' hu' _ hf'
  refine hu'.call_of_ends ht (.inl ?_)
  rw [hu'.ends_iff (by simp)]
  omega

theorem openFor_full {f : Feature} (ht : v.decode action = .ok (.feature f))
    (hu : Underway e) (h₀ : e.filled = 0) (hs : Expr.Stack.admitsFeature e.state.stack = true)
    (hl : capacity + 2 ≤ maxLength) {n : Nat} (hn : capacity + 1 ≤ n) :
    let env := environment score maxLength v capacity rewardPerStep
    OpenFor (FoundFull capacity) capacity (env.log e (List.replicate n (.step action))) := by
  intro env
  refine hu.openFor_replicate ht hs (by omega) (by omega) (by omega) ?_
  intro e' hu' hs' hf'
  have he : ¬ Ends maxLength e'.state (.feature f) := by
    rw [hu'.ends_iff (by simp)]
    omega
  exact hu'.call_of_full ht he hs' (by omega)

end Tight

/-! ## Main statement -/

section Main

/-- If the observation has room for the longest expression, every episode whose actions are in range
ends with its step `max 1 maxLength` at the latest, no call finds the observation full, and the
counter stays below `maxLength`.  Asking for one feature again and again takes an episode to its
longest; with less room it fills the observation and then finds it full. -/
theorem episode_length (score : Scorer σ) (maxLength : Nat) (v : Vocabulary) (capacity : Nat)
    (rewardPerStep : Binary64) :
    let env := environment score maxLength v capacity rewardPerStep
    (maxLength ≤ capacity + 1 →
      (∀ e (actions : List Int), (∀ a ∈ actions, 0 ≤ a ∧ a < v.layout.actions) →
        max 1 maxLength ≤ actions.length →
          ∃ k < max 1 maxLength, OpenFor Ended k (env.log (env.reset e) (actions.map .step))) ∧
      ∀ c₀ calls,
        (∀ x ∈ env.log (env.fresh c₀) calls, ∀ n, ¬ FoundFull n x) ∧
        (env.after (env.fresh c₀) calls).filled ≤ maxLength - 1) ∧
    ∀ f ∈ v.features, ∃ action : Int, v.decode action = .ok (.feature f) ∧ ∀ e n,
      let log := env.log (env.reset e) (List.replicate n (.step action))
      (1 ≤ maxLength → maxLength ≤ capacity + 1 → maxLength ≤ n →
        OpenFor Ended (maxLength - 1) log) ∧
      (capacity + 2 ≤ maxLength → capacity + 1 ≤ n →
        OpenFor (FoundFull capacity) capacity log) := by
  intro env
  refine ⟨fun hl => ⟨fun e actions hr hlen => ?_, fun c₀ calls => ⟨fun x hx n => ?_, ?_⟩⟩,
    fun f hf => ?_⟩
  · rw [Vocabulary.layout_actions] at hr
    exact (underway_reset e).exists_openFor hl hr hlen
  · obtain ⟨before, c, rest, -, rfl⟩ := exists_of_mem_log hx
    exact not_foundFull_call hl underway_after c n
  · obtain ⟨h, hs, he, -⟩ := exists_moves env c₀ calls
    rw [he]
    exact length_actions_le hs
  · have hmem : Token.feature f ∈ v.table .feature := List.mem_map_of_mem hf
    obtain ⟨id, ht⟩ := Vocabulary.exists_decode_of_mem_table hmem
    refine ⟨id, ht, fun e n => ⟨fun hpos hl hn => ?_, fun hl hn => ?_⟩⟩
    · exact openFor_longest ht (underway_reset e) rfl rfl hpos hl hn
    · exact openFor_full ht (underway_reset e) rfl rfl hl hn

/-- Up to two tokens in an observation of two, and up to three: the third token ends the episode, or
finds the observation full. -/
theorem episode_length_two :
    let score : Scorer Unit := fun _ _ => ((), 0.0)
    let exact := environment score 3 .standard 2 0.0
    let tight := environment score 4 .standard 2 0.0
    let e : Episode (Composition Unit) := exact.fresh (start ())
    (∃ k < 3, OpenFor Ended k (exact.log (exact.reset e) ([24, 0, 23].map .step))) ∧
      (∃ action, Vocabulary.standard.decode action = .ok (.feature .closePrice) ∧
        OpenFor Ended 2 (exact.log (exact.reset e) (List.replicate 3 (.step action)))) ∧
      ∃ action, Vocabulary.standard.decode action = .ok (.feature .closePrice) ∧
        OpenFor (FoundFull 2) 2 (tight.log (tight.reset e) (List.replicate 3 (.step action))) := by
  intro score exact tight e
  have hf : Feature.closePrice ∈ Vocabulary.standard.features := by decide
  have hr : ∀ a ∈ [(24 : Int), 0, 23], 0 ≤ a ∧ a < Vocabulary.standard.layout.actions := by decide
  obtain ⟨hbound, hmet⟩ := episode_length score 3 .standard 2 0.0
  obtain ⟨-, hfull⟩ := episode_length score 4 .standard 2 0.0
  obtain ⟨action, ht, hlog⟩ := hmet .closePrice hf
  obtain ⟨action', ht', hlog'⟩ := hfull .closePrice hf
  refine ⟨(hbound (by decide)).1 e [24, 0, 23] hr (by decide), ⟨action, ht, ?_⟩, action', ht', ?_⟩
  · exact (hlog e 3).1 (by decide) (by decide) (by decide)
  · exact (hlog' e 3).2 (by decide) (by decide)

end Main

end Composition

end FactorSearch
