import FactorSearch.Json.Format
import FactorSearch.Json.Numeral
import FactorSearch.Json.Text

/-!
# Reading values

A value is read as what is expected of it: a number, a list, or one of the names of a finite type.
Anything else of the right form is a mismatch that tells what was found; a scalar is read to its end
before it is reported.
-/

namespace FactorSearch.Json

variable {ε α : Type} (round : Numeral → Nat)

open Reader

/-- Reports the value that begins with `c` where `expected` is due. -/
def unexpected (c : Char) (expected : String) : Reader ε α := do
  match c with
  | 'n' =>
    exactly ['n', 'u', 'l', 'l']
    mismatch (.wrongType .null expected)
  | 't' =>
    exactly ['t', 'r', 'u', 'e']
    mismatch (.wrongType (.boolean true) expected)
  | 'f' =>
    exactly ['f', 'a', 'l', 's', 'e']
    mismatch (.wrongType (.boolean false) expected)
  | '"' =>
    drop
    mismatch (.wrongType (.string (← Text.read)) expected)
  | '[' => mismatch (.wrongType .sequence expected)
  | '{' => mismatch (.wrongType .map expected)
  | c =>
    if c = '-' || c.isDigit then
      mismatch (.wrongType (← Numeral.readNumber round).found expected)
    else fail .malformed

def number (expected : String) : Reader ε Number := do
  let c ← ahead
  if c = '-' || c.isDigit then Numeral.readNumber round else unexpected round c expected

/-- A whole number below `limit`, which `expected` names. -/
def natural (limit : Nat) (expected : String) : Reader ε Nat := do
  match ← number round expected with
  | .integer n =>
    if 0 ≤ n ∧ n < limit then pure n.toNat else mismatch (.outOfRange n expected)
  | .float x => mismatch (.wrongType (.float x) expected)

def unsigned [Unsigned α] : Reader ε α := do
  pure (Unsigned.ofNat (← natural round (Unsigned.limit α) (Unsigned.title α)))

def float : Reader ε Binary64 := do
  let x ← number round "f64"
  pure x.toBinary64

/-- The key of a member, which has to be a string. -/
def memberKey : Reader ε String := do
  mark '"'
  Text.read

def unit : Reader ε Unit := do
  let c ← ahead
  if c = 'n' then exactly ['n', 'u', 'l', 'l'] else unexpected round c "unit"

section Brackets

/-- Whether another element stands before the closing bracket, which is left where it is; the comma
before the element is taken. -/
def moreElements (first : Bool) : Reader ε Bool := do
  let c ← ahead
  if c = ']' then pure false
  else if first then pure true
  else if c = ',' then
    drop
    if (← ahead) = ']' then fail .malformed else pure true
  else fail .malformed

/-- The key of the next member, if another one stands before the closing brace, which is left where
it is. -/
def nextKey? (first : Bool) : Reader ε (Option String) := do
  let c ← ahead
  if c = '}' then pure none
  else
    if !first then
      mark ','
    some <$> memberKey

/-- One element more. -/
def listRound (element : Reader ε α) (taken : List α) : Reader ε (List α ⊕ List α) := do
  if ← moreElements taken.isEmpty then
    let a ← element
    pure (.inl (a :: taken))
  else pure (.inr taken.reverse)

def list (element : Reader ε α) : Reader ε (List α) := do
  let c ← ahead
  if c = '[' then
    drop
    let as ← loop (listRound element) []
    mark ']'
    pure as
  else unexpected round c "a sequence"

end Brackets

section Named

variable [Named α]

/-- The member of this name. -/
def ofName (s : String) : Reader ε α :=
  match Named.ofName? s with
  | some a => pure a
  | none => mismatch (.unknownVariant s (Named.names α))

/-- A member by its name, alone or as the key of `null` in an object. -/
def named : Reader ε α := do
  let c ← ahead
  if c = '"' then
    drop
    ofName (← Text.read)
  else if c = '{' then
    drop
    let a ← ofName (← memberKey)
    mark ':'
    unit round
    mark '}'
    pure a
  else fail .malformed

end Named

end FactorSearch.Json
