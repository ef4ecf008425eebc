import FactorSearch.Vocabulary

/-!
# Action ids

The tokens of a vocabulary are numbered by slots: slot 0 stays empty, then the tables follow one
after the other and the terminator closes them.  An agent never sees the empty slot: the action id
of a token is its slot less one.  `decode` finds the token of an id, `encode` the id of a token.
-/

namespace FactorSearch

/-- The id of an action in the discrete action space. -/
abbrev ActionId := UInt32

/-- The numbers from `start` up to, and without, `stop`. -/
structure Block where
  start : Nat
  stop : Nat
deriving DecidableEq

namespace Vocabulary

/-- How many slots at the low end stay empty. -/
def emptySlots : Nat := 1

/-- The first slot of each block, and the number of slots. -/
structure Layout where
  operators : Nat
  features : Nat
  deltaTimes : Nat
  constants : Nat
  terminator : Nat
  size : Nat
deriving DecidableEq

/-- Why an action or a token is turned down. -/
inductive ActionFault
  | outOfRange (action : Int) (size : Nat)
  | unknownToken (token : Token)
deriving DecidableEq

def ActionFault.message : ActionFault → String
  | outOfRange action size => s!"action {action} out of range [0, {size})"
  | unknownToken token => "token " ++ token.text ++ " is not in the vocabulary"

namespace Layout

variable (l : Layout)

/-- How many actions there are. -/
def actions : Nat := l.size - emptySlots

/-- The slots of the tokens of a kind. -/
def slots : Token.Kind → Block
  | .operator => ⟨l.operators, l.features⟩
  | .feature => ⟨l.features, l.deltaTimes⟩
  | .deltaTime => ⟨l.deltaTimes, l.constants⟩
  | .constant => ⟨l.constants, l.terminator⟩
  | .terminator => ⟨l.terminator, l.size⟩

/-- The action ids of the tokens of a kind. -/
def ids (kind : Token.Kind) : Block :=
  ⟨(l.slots kind).start - emptySlots, (l.slots kind).stop - emptySlots⟩

end Layout

variable (v : Vocabulary)

def layout : Layout :=
  let features := emptySlots + v.operators.length
  let deltaTimes := features + v.features.length
  let constants := deltaTimes + v.deltaTimes.length
  let terminator := constants + v.constants.length
  ⟨emptySlots, features, deltaTimes, constants, terminator, terminator + 1⟩

/-- The token in a slot. -/
def tokenAt? (slot : Nat) : Option Token :=
  let l := v.layout
  if slot < l.operators then none
  else if slot < l.features then v.operators[slot - l.operators]?.map .operator
  else if slot < l.deltaTimes then v.features[slot - l.features]?.map .feature
  else if slot < l.constants then v.deltaTimes[slot - l.deltaTimes]?.map .deltaTime
  else if slot < l.terminator then v.constants[slot - l.constants]?.map .constant
  else if slot = l.terminator then some .terminator
  else none

/-- The slot of a token; a constant is found by value. -/
def slotOf? : Token → Option Nat
  | .operator op => (v.operators.idxOf? op).map (v.layout.operators + ·)
  | .feature f => (v.features.idxOf? f).map (v.layout.features + ·)
  | .deltaTime days => (v.deltaTimes.idxOf? days).map (v.layout.deltaTimes + ·)
  | .constant c => (v.constants.findIdx? (·.ieeeEq c)).map (v.layout.constants + ·)
  | .terminator => some v.layout.terminator

/-- The token of an action; any action outside `[0, size)` is out of range. -/
def decode (action : Int) : Except ActionFault Token :=
  match action with
  | .ofNat id =>
    match v.tokenAt? (id + emptySlots) with
    | some token => .ok token
    | none => .error (.outOfRange action v.layout.actions)
  | .negSucc _ => .error (.outOfRange action v.layout.actions)

/-- The action id of a token, in 32 bits. -/
def encode (token : Token) : Except ActionFault ActionId :=
  match v.slotOf? token with
  | some slot => .ok (UInt32.ofNat (slot - emptySlots))
  | none => .error (.unknownToken token)

end Vocabulary

end FactorSearch
