import FactorSearch.Json.Numeral
import FactorSearch.Json.Text

/-!
# Passing over a value

A value that nobody asks for has to be well-formed, however deep it nests, but its numbers and
strings are not valued.  `Skip.round` handles one scalar, one opening bracket, or what stands
between two values.
-/

namespace FactorSearch.Json

namespace Skip

/-- What comes next inside the open brackets, the innermost one first. -/
inductive State
  | value (frames : List Frame)
  | afterValue (frames : List Frame)
deriving DecidableEq

variable {ε : Type}

open Reader

/-- A member's key and colon, where the frame has such. -/
def key : Frame → Reader ε Unit
  | .array => pure ()
  | .object => do
    mark '"'
    Text.skip
    mark ':'

/-- Behind an opening bracket: the closing one, or the first value. -/
def opened (frame : Frame) (frames : List Frame) : Reader ε State := do
  if (← ahead) = frame.close then
    drop
    pure (.afterValue frames)
  else
    key frame
    pure (.value (frame :: frames))

/-- A scalar, or an opening bracket. -/
def value (frames : List Frame) : Reader ε State := do
  match ← ahead with
  | 'n' =>
    exactly ['n', 'u', 'l', 'l']
    pure (.afterValue frames)
  | 't' =>
    exactly ['t', 'r', 'u', 'e']
    pure (.afterValue frames)
  | 'f' =>
    exactly ['f', 'a', 'l', 's', 'e']
    pure (.afterValue frames)
  | '"' =>
    drop
    Text.skip
    pure (.afterValue frames)
  | '[' =>
    drop
    opened .array frames
  | '{' =>
    drop
    opened .object frames
  | c =>
    if c = '-' || c.isDigit then
      let _ ← Numeral.read .malformed
      pure (.afterValue frames)
    else fail .malformed

/-- Between two values: a comma and what it asks for, or the closing bracket. -/
def between (frame : Frame) (frames : List Frame) : Reader ε State := do
  let c ← ahead
  if c = ',' then
    drop
    key frame
    pure (.value (frame :: frames))
  else if c = frame.close then
    drop
    pure (.afterValue frames)
  else fail .malformed

def round : State → Reader ε (State ⊕ Unit)
  | .value frames => .inl <$> value frames
  | .afterValue [] => pure (.inr ())
  | .afterValue (frame :: frames) => .inl <$> between frame frames

end Skip

/-- Passes over one value. -/
def skipValue {ε : Type} : Reader ε Unit := Reader.loop Skip.round (.value [])

end FactorSearch.Json
