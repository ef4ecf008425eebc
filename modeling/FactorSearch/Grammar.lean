import FactorSearch.Legality

/-!
# Grammars

A grammar is what an environment plays: a state machine that takes tokens, rewards them and ends the
episode when it sees fit.
-/

namespace FactorSearch

/-- What a grammar says about one token. -/
structure Verdict (ι : Type) where
  reward : Binary64
  /-- The episode is over and the token was not taken. -/
  done : Bool
  info : ι
deriving DecidableEq

/-- A state machine with states `σ` that reports `ι` about every token. -/
structure Grammar (σ ι : Type) where
  /-- Starts an empty expression. -/
  reset : σ → σ
  step : σ → Token → σ × Verdict ι
  /-- The kinds of tokens that are legal next. -/
  legality : σ → Legality

/-- Scores a finished expression, given as its tokens, and may remember it. -/
abbrev Scorer (σ : Type) := σ → List Token → σ × Binary64

end FactorSearch
