import Mathlib.Data.List.Induction
import FactorSearch.Environment

/-!
# Calls on an environment, one after the other

An agent resets an environment and steps it, in any order.  `after` is the episode that a list of
calls leads to and `log` the calls with the answers they got.  What happened in the current episode
is read off the log.
-/

namespace FactorSearch.Environment

variable {σ ι : Type}

/-- What an agent asks of an environment. -/
inductive Call
  | reset
  | step (action : Int)
deriving DecidableEq

/-- What the environment answers: a new observation to a reset, an outcome to a step. -/
inductive Answer (ι : Type)
  | observation (observation : List ActionId)
  | outcome (result : Except Fault (Step ι))

/-- A call and its answer. -/
abbrev Event (ι : Type) := Call × Answer ι

section Calls

variable (env : Environment σ ι)

def call (e : Episode σ) : Call → Episode σ × Answer ι
  | .reset => (env.reset e, .observation (env.reset e).observation)
  | .step action => ((env.step e action).1, .outcome (env.step e action).2)

/-- The episode after the calls. -/
def after : Episode σ → List Call → Episode σ
  | e, [] => e
  | e, c :: cs => after (env.call e c).1 cs

/-- The calls with their answers. -/
def log : Episode σ → List Call → List (Event ι)
  | _, [] => []
  | e, c :: cs => (c, (env.call e c).2) :: log (env.call e c).1 cs

variable {env}

theorem after_append (e : Episode σ) (cs ds : List Call) :
    env.after e (cs ++ ds) = env.after (env.after e cs) ds := by
  induction cs generalizing e with
  | nil => rfl
  | cons c cs ih => exact ih (env.call e c).1

theorem log_append (e : Episode σ) (cs ds : List Call) :
    env.log e (cs ++ ds) = env.log e cs ++ env.log (env.after e cs) ds := by
  induction cs generalizing e with
  | nil => rfl
  | cons c cs ih => exact congrArg _ (ih (env.call e c).1)

theorem after_concat (e : Episode σ) (cs : List Call) (c : Call) :
    env.after e (cs ++ [c]) = (env.call (env.after e cs) c).1 :=
  after_append e cs [c]

theorem log_concat (e : Episode σ) (cs : List Call) (c : Call) :
    env.log e (cs ++ [c]) = env.log e cs ++ [(c, (env.call (env.after e cs) c).2)] :=
  log_append e cs [c]

/-- An event of a log answers its call in the episode that the calls before it have led to. -/
theorem exists_of_mem_log {e : Episode σ} {cs : List Call} {x : Event ι} (hx : x ∈ env.log e cs) :
    ∃ before c rest, cs = before ++ c :: rest ∧ x = (c, (env.call (env.after e before) c).2) := by
  induction cs generalizing e with
  | nil => cases hx
  | cons c cs ih =>
    rcases List.mem_cons.mp hx with rfl | hx
    · exact ⟨[], c, cs, rfl, rfl⟩
    · obtain ⟨before, c', rest, rfl, h⟩ := ih hx
      exact ⟨c :: before, c', rest, rfl, h⟩

@[simp] theorem map_fst_log (e : Episode σ) (cs : List Call) :
    (env.log e cs).map Prod.fst = cs := by
  induction cs generalizing e with
  | nil => rfl
  | cons c cs ih => simp [log, ih]

end Calls

/-! ## One step -/

section Branches

variable {env : Environment σ ι} {e : Episode σ} {action : Int} {token : Token} {state : σ}
  {verdict : Verdict ι}

theorem step_of_not_active (hp : e.phase ≠ .active) :
    env.step e action = (e, .error (.notActive e.phase)) := by
  rw [step, if_neg hp]

theorem step_of_decode_error {fault : Vocabulary.ActionFault} (hp : e.phase = .active)
    (ht : env.vocabulary.decode action = .error fault) :
    env.step e action = (e, .error (.action fault)) := by
  rw [step, if_pos hp, ht]

theorem step_of_decode_ok (hp : e.phase = .active)
    (ht : env.vocabulary.decode action = .ok token) :
    env.step e action = env.advance e (UInt32.ofNat action.toNat) token := by
  rw [step, if_pos hp, ht]

theorem step_of_done (hp : e.phase = .active) (ht : env.vocabulary.decode action = .ok token)
    (hg : env.grammar.step e.state token = (state, verdict)) (hd : verdict.done = true) :
    env.step e action = ({ e with state, phase := .terminal },
      .ok ⟨e.observation, env.shape verdict.reward, true, verdict.info⟩) := by
  rw [step_of_decode_ok hp ht, advance, hg]
  simp [hd]

theorem step_of_room (hp : e.phase = .active) (ht : env.vocabulary.decode action = .ok token)
    (hg : env.grammar.step e.state token = (state, verdict)) (hd : verdict.done = false)
    (hl : e.filled < env.capacity) :
    env.step e action =
      ({ e with
          state, filled := e.filled + 1
          observation := e.observation.set e.filled (UInt32.ofNat action.toNat) },
        .ok ⟨e.observation.set e.filled (UInt32.ofNat action.toNat), env.shape verdict.reward,
          false, verdict.info⟩) := by
  rw [step_of_decode_ok hp ht, advance, hg]
  simp [hd, hl]

theorem step_of_full (hp : e.phase = .active) (ht : env.vocabulary.decode action = .ok token)
    (hg : env.grammar.step e.state token = (state, verdict)) (hd : verdict.done = false)
    (hl : env.capacity ≤ e.filled) :
    env.step e action =
      ({ e with state, phase := .terminal }, .error (.capacityExceeded env.capacity)) := by
  rw [step_of_decode_ok hp ht, advance, hg]
  simp [hd, Nat.not_lt.mpr hl]

end Branches

/-! ## The current episode in the log -/

section Current

def recordedStep (taken : List Int) : Event ι → List Int
  | (.reset, _) => []
  | (.step action, .outcome (.ok s)) => if s.done then taken else taken ++ [action]
  | _ => taken

/-- The actions since the last reset that succeeded and left the episode open. -/
def recorded (log : List (Event ι)) : List Int := log.foldl recordedStep []

theorem recorded_concat (log : List (Event ι)) (x : Event ι) :
    recorded (log ++ [x]) = recordedStep (recorded log) x := by
  simp [recorded, List.foldl_append]

def overflowStep (overflow : Option Int) : Event ι → Option Int
  | (.reset, _) => none
  | (.step action, .outcome (.error (.capacityExceeded _))) => some action
  | _ => overflow

/-- The action since the last reset that found the observation full, if one did. -/
def overflow? (log : List (Event ι)) : Option Int := log.foldl overflowStep none

theorem overflow?_concat (log : List (Event ι)) (x : Event ι) :
    overflow? (log ++ [x]) = overflowStep (overflow? log) x := by
  simp [overflow?, List.foldl_append]

end Current

end FactorSearch.Environment
