import FactorSearch.Grammar
import FactorSearch.Mask.Legal

/-!
# The environment of an agent

An agent picks action ids; the environment decodes them for its grammar and keeps the ids of the
tokens taken so far in an observation of fixed length, filled with zeros.  A token that ends the
episode is not recorded.  A grammar that goes on past a full observation ends the episode with an
error.
-/

namespace FactorSearch

/-- How far an episode has come. -/
inductive Phase
  | fresh
  | active
  | terminal
deriving DecidableEq

def Phase.name : Phase → String
  | fresh => "Fresh"
  | active => "Active"
  | terminal => "Terminal"

/-- What stays the same from episode to episode. -/
structure Environment (σ ι : Type) where
  grammar : Grammar σ ι
  vocabulary : Vocabulary
  /-- The length of every observation. -/
  capacity : Nat
  rewardPerStep : Binary64

/-- One episode of an environment. -/
structure Episode (σ : Type) where
  state : σ
  observation : List ActionId
  /-- How many entries of the observation are in use. -/
  filled : Nat
  phase : Phase
deriving DecidableEq

namespace Environment

/-- Why a step gives no observation. -/
inductive Fault
  | action (fault : Vocabulary.ActionFault)
  | notActive (phase : Phase)
  | capacityExceeded (capacity : Nat)
deriving DecidableEq

def Fault.message : Fault → String
  | action fault => fault.message
  | notActive phase => "environment is " ++ phase.name ++ ", call reset() first"
  | capacityExceeded capacity => s!"observation buffer full ({capacity} entries)"

/-- What an agent learns from one step. -/
structure Step (ι : Type) where
  observation : List ActionId
  reward : Binary64
  done : Bool
  info : ι
deriving DecidableEq

variable {σ ι : Type} (env : Environment σ ι)

def blank : List ActionId := List.replicate env.capacity 0

/-- An episode that has not begun, over a grammar in the given state. -/
def fresh (state : σ) : Episode σ := ⟨state, env.blank, 0, .fresh⟩

/-- A new episode, whatever became of the last one. -/
def reset (e : Episode σ) : Episode σ := ⟨env.grammar.reset e.state, env.blank, 0, .active⟩

/-- The reward of a step: what the grammar gives and the constant for each step. -/
def shape (reward : Binary64) : Binary64 := reward.add env.rewardPerStep

/-- Hands a token to the grammar, and records the id of one that it takes. -/
def advance (e : Episode σ) (id : ActionId) (token : Token) :
    Episode σ × Except Fault (Step ι) :=
  let (state, verdict) := env.grammar.step e.state token
  let answer (observation : List ActionId) : Step ι :=
    ⟨observation, env.shape verdict.reward, verdict.done, verdict.info⟩
  if verdict.done then
    ({ e with state, phase := .terminal }, .ok (answer e.observation))
  else if e.filled < env.capacity then
    let observation := e.observation.set e.filled id
    ({ e with state, observation, filled := e.filled + 1 }, .ok (answer observation))
  else ({ e with state, phase := .terminal }, .error (.capacityExceeded env.capacity))

/-- One action.  Outside an active episode, and for an action that is no id, nothing changes. -/
def step (e : Episode σ) (action : Int) : Episode σ × Except Fault (Step ι) :=
  if e.phase = .active then
    match env.vocabulary.decode action with
    | .ok token => env.advance e (UInt32.ofNat action.toNat) token
    | .error fault => (e, .error (.action fault))
  else (e, .error (.notActive e.phase))

/-- The actions that are legal next. -/
def mask (e : Episode σ) : Mask := env.vocabulary.legalMask (env.grammar.legality e.state)

end Environment

end FactorSearch
