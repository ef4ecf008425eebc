import FactorSearch.Token

/-!
# Legality reports

A grammar says which kinds of tokens it takes next: operators category by category, every other kind
as a whole.
-/

namespace FactorSearch

/-- One flag for each category of operators. -/
structure CategoryFlags where
  unary : Bool
  binary : Bool
  rolling : Bool
  pairRolling : Bool
deriving DecidableEq

namespace CategoryFlags

def none : CategoryFlags := ⟨false, false, false, false⟩

def all : CategoryFlags := ⟨true, true, true, true⟩

variable (flags : CategoryFlags)

def get : Operator.Category → Bool
  | .unary => flags.unary
  | .binary => flags.binary
  | .rolling => flags.rolling
  | .pairRolling => flags.pairRolling

def set (b : Bool) : Operator.Category → CategoryFlags
  | .unary => { flags with unary := b }
  | .binary => { flags with binary := b }
  | .rolling => { flags with rolling := b }
  | .pairRolling => { flags with pairRolling := b }

/-- Whether some category is flagged. -/
def any : Bool := flags.unary || flags.binary || flags.rolling || flags.pairRolling

end CategoryFlags

/-- What a grammar takes next.  `anyOperator` only sums up `categories`; masks do not read it. -/
structure Legality where
  categories : CategoryFlags
  anyOperator : Bool
  feature : Bool
  constant : Bool
  deltaTime : Bool
  terminator : Bool
deriving DecidableEq

namespace Legality

/-- The flags of a report beside those of the categories, in their order. -/
inductive Flag
  | anyOperator
  | feature
  | constant
  | deltaTime
  | terminator
deriving DecidableEq

def Flag.all : List Flag := [.anyOperator, .feature, .constant, .deltaTime, .terminator]

def Flag.index : Flag → Nat
  | anyOperator => 0
  | feature => 1
  | constant => 2
  | deltaTime => 3
  | terminator => 4

def none : Legality := ⟨.none, false, false, false, false, false⟩

def all : Legality := ⟨.all, true, true, true, true, true⟩

variable (legal : Legality)

def get : Flag → Bool
  | .anyOperator => legal.anyOperator
  | .feature => legal.feature
  | .constant => legal.constant
  | .deltaTime => legal.deltaTime
  | .terminator => legal.terminator

def set (b : Bool) : Flag → Legality
  | .anyOperator => { legal with anyOperator := b }
  | .feature => { legal with feature := b }
  | .constant => { legal with constant := b }
  | .deltaTime => { legal with deltaTime := b }
  | .terminator => { legal with terminator := b }

def setCategory (b : Bool) (c : Operator.Category) : Legality :=
  { legal with categories := legal.categories.set b c }

end Legality

end FactorSearch
