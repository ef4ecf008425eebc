import FactorSearch.Environment

/-!
# Configurations of an environment
-/

namespace FactorSearch

structure Config where
  /-- The length of every observation; a grammar has to end each episode within it. -/
  maxLength : UInt64
  rewardPerStep : Binary64
  vocabulary : Vocabulary
deriving DecidableEq

namespace Config

/-- Why a configuration is not usable. -/
inductive Invalid
  | zeroLength
  | nonFiniteReward (reward : Binary64)
deriving DecidableEq

def Invalid.message : Invalid → String
  | zeroLength => "max_expr_length must be at least 1"
  | nonFiniteReward reward =>
    "reward_per_step must be finite, got " ++ Token.constantText reward

/-- The configuration of the standard experiment. -/
def standard : Config := ⟨15, 0.0, .standard⟩

variable (c : Config)

def validate : Except Invalid Unit :=
  if c.maxLength = 0 then .error .zeroLength
  else if c.rewardPerStep.isFinite then .ok ()
  else .error (.nonFiniteReward c.rewardPerStep)

/-- Equality that compares numbers by value. -/
def ieeeEq (c c' : Config) : Bool :=
  c.maxLength = c'.maxLength && c.rewardPerStep.ieeeEq c'.rewardPerStep &&
    c.vocabulary.ieeeEq c'.vocabulary.toTables

end Config

/-- The environment of a usable configuration. -/
def Environment.ofConfig {σ ι : Type} (grammar : Grammar σ ι) (c : Config) :
    Except Config.Invalid (Environment σ ι) :=
  match c.validate with
  | .ok () => .ok ⟨grammar, c.vocabulary, c.maxLength.toNat, c.rewardPerStep⟩
  | .error fault => .error fault

end FactorSearch
