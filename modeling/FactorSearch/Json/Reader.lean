import FactorSearch.Json.Fault
import FactorSearch.Json.Grammar

/-!
# Readers

A reader takes what it reads off the front of the text and leaves the rest; it stops at the first
fault.  Every reader here is made of the few steps below, and repeats them with `loop`.
-/

namespace FactorSearch.Json

abbrev Reader (ε α : Type) := StateT (List Char) (Except (Fault ε)) α

variable {ε α β γ : Type}

namespace Reader

def fail (fault : Fault ε) : Reader ε α := fun _ => .error fault

def mismatch (m : Mismatch) : Reader ε α := fail (.mismatch m)

/-- The next character, left where it is. -/
def peek? : Reader ε (Option Char) := fun s => .ok (s.head?, s)

/-- Leaves out the next character. -/
def drop : Reader ε Unit := fun s => .ok ((), s.tail)

/-- Whether the next character is `c`, which is then taken. -/
def accept (c : Char) : Reader ε Bool := fun s =>
  if s.head? = some c then .ok (true, s.tail) else .ok (false, s)

/-- The characters from here on that satisfy `p`. -/
def takeWhile (p : Char → Bool) : Reader ε (List Char) := fun s =>
  .ok (s.takeWhile p, s.dropWhile p)

def blanks : Reader ε Unit := fun s => .ok ((), s.dropWhile isBlank)

/-- The first character after blanks, left where it is. -/
def ahead? : Reader ε (Option Char) := do
  blanks
  peek?

/-- The first character after blanks, where there has to be one. -/
def ahead : Reader ε Char := do
  match ← ahead? with
  | some c => pure c
  | none => fail .truncated

/-- Exactly these characters. -/
def exactly : List Char → Reader ε Unit
  | [] => pure ()
  | c :: cs => do
    match ← peek? with
    | none => fail .truncated
    | some c' =>
      if c' = c then
        drop
        exactly cs
      else fail .malformed

/-- The character `c` after blanks. -/
def mark (c : Char) : Reader ε Unit := do
  if (← ahead) = c then drop else fail .malformed

section Loop

variable (round : β → Reader ε (β ⊕ γ))

/-- At most `fuel` rounds. -/
def loopFuel : Nat → β → Reader ε γ
  | 0, _ => fail .malformed
  | fuel + 1, b => do
    match ← round b with
    | .inl b' => loopFuel fuel b'
    | .inr c => pure c

/-- Repeats `round` until it has a result.  A round that goes on takes a character, so there are no
more rounds than characters, and one. -/
def loop (b : β) : Reader ε γ := fun s => loopFuel round (s.length + 1) b s

end Loop

/-- Reads a whole text: a value, then nothing but blanks. -/
def run (reader : Reader ε α) (text : String) : Except (Fault ε) α :=
  match reader text.toList with
  | .error fault => .error fault
  | .ok (a, rest) => if rest.all isBlank then .ok a else .error .malformed

end Reader

end FactorSearch.Json
