import FactorSearch.Proofs.ActionIds
import FactorSearch.Proofs.Calls

/-!
# An environment is its history

`History` is an environment without a buffer and without a counter: the state of the grammar, the
phase, and the actions taken in the current episode.  `Move` says, in a sentence each, what a call
does to it.  Main statement: over any grammar an environment answers as its history does, and its
observation is the history filled up with zeros (`behaves_as_history`).
-/

namespace FactorSearch.Environment

variable {σ ι : Type}

structure History (σ : Type) where
  state : σ
  phase : Phase
  /-- The actions of the current episode that left it open, in order. -/
  actions : List Int

/-- The history of an environment that was never reset. -/
def History.start (state : σ) : History σ := ⟨state, .fresh, []⟩

section Machine

variable (env : Environment σ ι)

/-- The observation after `actions`. -/
def shown (actions : List Int) : List ActionId :=
  actions.map (fun a => UInt32.ofNat a.toNat) ++ List.replicate (env.capacity - actions.length) 0

/-- The episode that keeps a history in its observation. -/
def History.episode (h : History σ) : Episode σ :=
  ⟨h.state, env.shown h.actions, h.actions.length, h.phase⟩

/-- What a call does to a history, and its answer.  The grammar is asked once, about the decoded
token, and only by an action in range while the episode is active. -/
inductive Move : History σ → Call → Answer ι → History σ → Prop
  | reset (h : History σ) :
      Move h .reset (.observation (List.replicate env.capacity 0))
        ⟨env.grammar.reset h.state, .active, []⟩
  | notActive {h : History σ} (action : Int) (hp : h.phase ≠ .active) :
      Move h (.step action) (.outcome (.error (.notActive h.phase))) h
  | outOfRange {h : History σ} {action : Int} (hp : h.phase = .active)
      (ha : ¬ (0 ≤ action ∧ action < env.vocabulary.size)) :
      Move h (.step action)
        (.outcome (.error (.action (.outOfRange action env.vocabulary.size)))) h
  | ended {h : History σ} {action : Int} {token : Token} {state : σ} {verdict : Verdict ι}
      (hp : h.phase = .active) (ht : env.vocabulary.decode action = .ok token)
      (hg : env.grammar.step h.state token = (state, verdict)) (hd : verdict.done = true) :
      Move h (.step action)
        (.outcome (.ok ⟨env.shown h.actions, verdict.reward.add env.rewardPerStep, true,
          verdict.info⟩))
        ⟨state, .terminal, h.actions⟩
  | taken {h : History σ} {action : Int} {token : Token} {state : σ} {verdict : Verdict ι}
      (hp : h.phase = .active) (ht : env.vocabulary.decode action = .ok token)
      (hg : env.grammar.step h.state token = (state, verdict)) (hd : verdict.done = false)
      (hl : h.actions.length < env.capacity) :
      Move h (.step action)
        (.outcome (.ok ⟨env.shown (h.actions ++ [action]), verdict.reward.add env.rewardPerStep,
          false, verdict.info⟩))
        ⟨state, .active, h.actions ++ [action]⟩
  | overflowed {h : History σ} {action : Int} {token : Token} {state : σ} {verdict : Verdict ι}
      (hp : h.phase = .active) (ht : env.vocabulary.decode action = .ok token)
      (hg : env.grammar.step h.state token = (state, verdict)) (hd : verdict.done = false)
      (hl : h.actions.length = env.capacity) :
      Move h (.step action) (.outcome (.error (.capacityExceeded env.capacity)))
        ⟨state, .terminal, h.actions⟩

/-- Moves strung together, with the calls and their answers. -/
inductive Moves : History σ → List (Event ι) → History σ → Prop
  | nil {h : History σ} : Moves h [] h
  | concat {h h' h'' : History σ} {log : List (Event ι)} {c : Call} {a : Answer ι}
      (hs : Moves h log h') (hm : Move env h' c a h'') : Moves h (log ++ [(c, a)]) h''

end Machine

variable {env : Environment σ ι} {h h' : History σ} {c : Call} {a : Answer ι}

/-! ## A history answers in one way -/

section Determinism

theorem Move.unique {h'' : History σ} {a' : Answer ι} (hm : Move env h c a h')
    (hm' : Move env h c a' h'') : a = a' ∧ h' = h'' := by
  -- phase, id, verdict and room tell the moves apart
  cases hm with
  | reset =>
    cases hm'
    exact ⟨rfl, rfl⟩
  | notActive action hp => cases hm' <;> first | exact ⟨rfl, rfl⟩ | contradiction
  | outOfRange hp ha =>
    have ht := Vocabulary.decode_eq_error_iff.mpr ⟨ha, rfl⟩
    cases hm' <;> grind
  | ended hp ht hg hd =>
    have ha := Vocabulary.exists_decode_eq_ok_iff.mp ⟨_, ht⟩
    cases hm' <;> grind
  | taken hp ht hg hd hl =>
    have ha := Vocabulary.exists_decode_eq_ok_iff.mp ⟨_, ht⟩
    cases hm' <;> grind
  | overflowed hp ht hg hd hl =>
    have ha := Vocabulary.exists_decode_eq_ok_iff.mp ⟨_, ht⟩
    cases hm' <;> grind

theorem Moves.unique {h'' : History σ} {log log' : List (Event ι)} (hs : Moves env h log h')
    (hs' : Moves env h log' h'') (hc : log.map Prod.fst = log'.map Prod.fst) :
    log = log' ∧ h' = h'' := by
  -- runs grow at their end, so their last moves are compared behind equal runs
  induction hs generalizing log' h'' with
  | nil =>
    cases hs' with
    | nil => exact ⟨rfl, rfl⟩
    | concat hs' hm' => simp at hc
  | concat hs hm ih =>
    cases hs' with
    | nil => simp at hc
    | concat hs' hm' =>
      simp only [List.map_append, List.map_cons, List.map_nil] at hc
      obtain ⟨hc₁, hc₂⟩ := List.append_inj' hc rfl
      obtain ⟨rfl, rfl⟩ := ih hs' hc₁
      obtain rfl := List.singleton_inj.mp hc₂
      obtain ⟨rfl, rfl⟩ := hm.unique hm'
      exact ⟨rfl, rfl⟩

end Determinism

/-! ## Simulation -/

section Simulation

theorem shown_nil : env.shown [] = env.blank := by
  simp [shown, blank]

/-- Writing the next id behind the history records the action. -/
theorem set_shown {actions : List Int} (action : Int) (hl : actions.length < env.capacity) :
    (env.shown actions).set actions.length (UInt32.ofNat action.toNat) =
      env.shown (actions ++ [action]) := by
  obtain ⟨k, hk⟩ : ∃ k, env.capacity - actions.length = k + 1 :=
    ⟨env.capacity - actions.length - 1, by omega⟩
  have hk' : env.capacity - (actions ++ [action]).length = k := by
    rw [List.length_append, List.length_singleton]
    omega
  rw [shown, shown, hk, hk', List.set_append_right _ _ (by simp)]
  simp [List.replicate_succ]

/-- What an environment does to the episode of a history, the history does. -/
theorem exists_move (hl : h.actions.length ≤ env.capacity) (c : Call) :
    ∃ h', Move env h c (env.call (h.episode env) c).2 h' ∧
      (env.call (h.episode env) c).1 = h'.episode env := by
  cases c with
  | reset => exact ⟨_, .reset h, by simp [call, reset, History.episode, shown_nil]⟩
  | step action =>
    -- the cases are the tests of a step, in their order
    by_cases hp : h.phase = .active
    · cases ht : env.vocabulary.decode action with
      | error fault =>
        obtain ⟨ha, rfl⟩ := Vocabulary.decode_eq_error_iff.mp ht
        rw [call, step_of_decode_error hp ht]
        exact ⟨h, .outOfRange hp ha, rfl⟩
      | ok token =>
        rcases hg : env.grammar.step h.state token with ⟨state, verdict⟩
        cases hd : verdict.done with
        | true =>
          rw [call, step_of_done hp ht hg hd]
          exact ⟨_, .ended hp ht hg hd, rfl⟩
        | false =>
          rcases Nat.lt_or_eq_of_le hl with hlt | heq
          · have hset : (h.episode env).observation.set (h.episode env).filled
                (UInt32.ofNat action.toNat) = env.shown (h.actions ++ [action]) :=
              set_shown action hlt
            rw [call, step_of_room hp ht hg hd hlt, hset]
            exact ⟨_, .taken hp ht hg hd hlt, by simp [History.episode, hp]⟩
          · rw [call, step_of_full hp ht hg hd (Nat.le_of_eq heq.symm)]
            exact ⟨_, .overflowed hp ht hg hd heq, rfl⟩
    · rw [call, step_of_not_active hp]
      exact ⟨h, .notActive action hp, rfl⟩

end Simulation

/-! ## What every history satisfies -/

section Valid

variable (env) in
/-- The history fits into the observation and holds actions of the vocabulary. -/
structure History.Valid (h : History σ) : Prop where
  length_le : h.actions.length ≤ env.capacity
  inRange : ∀ action ∈ h.actions, 0 ≤ action ∧ action < env.vocabulary.size

theorem Move.valid (hm : Move env h c a h') (hv : h.Valid env) : h'.Valid env := by
  cases hm with
  | reset => exact ⟨Nat.zero_le _, by simp⟩
  | notActive => exact hv
  | outOfRange => exact hv
  | ended => exact ⟨hv.length_le, hv.inRange⟩
  | taken hp ht hg hd hl =>
    refine ⟨by rw [List.length_append]; exact hl, fun b hb => ?_⟩
    rcases List.mem_append.mp hb with hb | hb
    · exact hv.inRange b hb
    · rw [List.mem_singleton.mp hb]
      exact Vocabulary.exists_decode_eq_ok_iff.mp ⟨_, ht⟩
  | overflowed => exact ⟨hv.length_le, hv.inRange⟩

/-- A history records the actions that the answers show as taken. -/
theorem Move.recordedStep (hm : Move env h c a h') :
    h'.actions = Environment.recordedStep h.actions (c, a) := by
  cases hm <;> rfl

theorem Moves.recorded {s : σ} {log : List (Event ι)} (hs : Moves env (.start s) log h) :
    h.actions = Environment.recorded log := by
  induction hs with
  | nil => rfl
  | concat _ hm ih => rw [recorded_concat, ← ih, hm.recordedStep]

/-- Every run of an environment is a run of its history. -/
theorem exists_moves (env : Environment σ ι) (s : σ) (calls : List Call) :
    ∃ h, Moves env (.start s) (env.log (env.fresh s) calls) h ∧
      env.after (env.fresh s) calls = h.episode env ∧ h.Valid env := by
  -- the history is valid all along, so its actions fit into the observation
  induction calls using List.reverseRecOn with
  | nil => exact ⟨.start s, .nil, by simp [after, fresh, History.episode, History.start, shown_nil],
      ⟨Nat.zero_le _, by simp [History.start]⟩⟩
  | append_singleton calls c ih =>
    obtain ⟨h, hs, he, hv⟩ := ih
    obtain ⟨h', hm, he'⟩ := exists_move hv.length_le c
    rw [log_concat, after_concat, he]
    exact ⟨h', .concat hs hm, he', hm.valid hv⟩

/-- An observation shows the actions themselves, and zeros. -/
theorem map_toNat_shown (hv : env.vocabulary.size ≤ UInt32.size) (hh : h.Valid env) :
    (env.shown h.actions).map (fun id => (id.toNat : Int)) =
      h.actions ++ List.replicate (env.capacity - h.actions.length) 0 := by
  -- no recorded action is cut to 32 bits, since all of them are ids
  have hid : ∀ action ∈ h.actions, ((UInt32.ofNat action.toNat).toNat : Int) = action := by
    intro action ha
    obtain ⟨t, ht⟩ := Vocabulary.exists_decode_eq_ok_iff.mpr (hh.inRange action ha)
    exact Vocabulary.toNat_actionId hv ht
  rw [shown, List.map_append, List.map_map, List.map_replicate]
  congr 1
  exact (List.map_congr_left hid).trans (List.map_id _)

/-- The used part of an observation decodes as the actions do. -/
theorem map_decode_shown (hv : env.vocabulary.size ≤ UInt32.size) (hh : h.Valid env) :
    ((env.shown h.actions).take h.actions.length).map
        (fun id => env.vocabulary.decode id.toNat) = h.actions.map env.vocabulary.decode := by
  have hcomp : (fun id : ActionId => env.vocabulary.decode id.toNat) =
      env.vocabulary.decode ∘ fun id : ActionId => (id.toNat : Int) := rfl
  rw [hcomp, ← List.map_map, List.map_take, map_toNat_shown hv hh, List.take_left]

theorem drop_shown (actions : List Int) : (env.shown actions).drop actions.length =
    List.replicate (env.capacity - actions.length) 0 := by
  rw [shown, List.drop_left' (by rw [List.length_map])]

theorem length_shown {actions : List Int} (hl : actions.length ≤ env.capacity) :
    (env.shown actions).length = env.capacity := by
  rw [shown, List.length_append, List.length_map, List.length_replicate]
  omega

end Valid

/-! ## The environment and its history -/

section Main

/-- No call leads back to an environment that was never reset. -/
theorem Move.fresh (hm : Move env h c a h') (hp : h'.phase = .fresh) : h.phase = .fresh := by
  cases hm with
  | reset => cases hp
  | notActive => exact hp
  | outOfRange => exact hp
  | ended => cases hp
  | taken => cases hp
  | overflowed => cases hp

/-- Only a reset begins an episode. -/
theorem Move.active (hm : Move env h c a h') (hp : h'.phase = .active) :
    h.phase = .active ∨ c = .reset := by
  cases hm with
  | reset => exact .inr rfl
  | notActive => exact .inl hp
  | outOfRange => exact .inl hp
  | ended => cases hp
  | taken hp' => exact .inl hp'
  | overflowed => cases hp

theorem Moves.phase_ne_fresh {log : List (Event ι)} (hs : Moves env h log h')
    (hr : .reset ∈ log.map Prod.fst) : h'.phase ≠ .fresh := by
  induction hs with
  | nil => simp at hr
  | concat _ hm ih =>
    intro hp
    rw [List.map_append, List.mem_append] at hr
    rcases hr with hr | hr
    · exact ih hr (hm.fresh hp)
    · obtain rfl := List.mem_singleton.mp hr
      cases hm
      cases hp

/-- Whatever the grammar and the calls, the environment answers as the one run of its history over
these calls.  It counts the actions of the current episode that were taken and shows them, with
zeros behind; there is always room for them. -/
theorem behaves_as_history (env : Environment σ ι) (hv : env.vocabulary.size ≤ UInt32.size) (s : σ)
    (calls : List Call) :
    let e := env.after (env.fresh s) calls
    let log := env.log (env.fresh s) calls
    ∃ h : History σ, Moves env (.start s) log h ∧
      (∀ log' h', Moves env (.start s) log' h' → log'.map Prod.fst = calls →
        log' = log ∧ h' = h) ∧
      h.actions = recorded log ∧ h.actions.length ≤ env.capacity ∧
      e.state = h.state ∧ e.phase = h.phase ∧ e.filled = h.actions.length ∧
      e.observation = env.shown h.actions ∧
      e.observation.map (fun id => (id.toNat : Int)) =
        h.actions ++ List.replicate (env.capacity - h.actions.length) 0 ∧
      (∀ id ∈ e.observation, id.toNat < env.vocabulary.size) ∧
      ∀ c, ((env.call e c).1.phase = .fresh → e.phase = .fresh) ∧
        ((env.call e c).1.phase = .active → e.phase = .active ∨ c = .reset) := by
  intro e log
  obtain ⟨h, hs, he, hh⟩ := exists_moves env s calls
  have he' : e = h.episode env := he
  have hids := map_toNat_shown hv hh
  refine ⟨h, hs, ?_, hs.recorded, hh.length_le, ?_⟩
  · intro log' h' hs' hc
    exact hs'.unique hs (hc.trans (map_fst_log _ calls).symm)
  · rw [he']
    refine ⟨rfl, rfl, rfl, rfl, hids, ?_, fun c => ?_⟩
    · -- an entry is a recorded action or zero, and both are ids
      intro id hid
      have hid' := List.mem_map_of_mem (f := fun id : ActionId => (id.toNat : Int)) hid
      rw [History.episode, hids] at hid'
      rcases List.mem_append.mp hid' with hid' | hid'
      · have := (hh.inRange _ hid').2
        omega
      · have := (List.mem_replicate.mp hid').2
        have : 0 < env.vocabulary.size := Nat.succ_pos _
        omega
    · obtain ⟨h', hm, he''⟩ := exists_move hh.length_le c
      rw [he'']
      exact ⟨hm.fresh, hm.active⟩

/-- A grammar that counts tokens and never ends an episode. -/
def endless : Grammar Nat Nat where
  reset _ := 0
  step n _ := (n + 1, ⟨0.0, false, n + 1⟩)
  legality _ := .all

/-- With room for one action, the second is one too many, and the third finds the episode over. -/
theorem behaves_as_history_endless :
    let env : Environment Nat Nat := ⟨endless, .standard, 1, 0.5⟩
    let calls : List Call := [.step 24, .reset, .step 24, .step 23, .step 0]
    env.vocabulary.size ≤ UInt32.size ∧
      ∃ h : History Nat, Moves env (.start 7) (env.log (env.fresh 7) calls) h ∧
        h.state = 2 ∧ h.phase = .terminal ∧ h.actions = [24] := by
  intro env calls
  have hv : env.vocabulary.size ≤ UInt32.size := by decide
  obtain ⟨h, hs, -, hr, -, hstate, hphase, -⟩ := behaves_as_history env hv 7 calls
  exact ⟨hv, h, hs, hstate.symm.trans rfl, hphase.symm.trans rfl, hr.trans rfl⟩

end Main

end FactorSearch.Environment
