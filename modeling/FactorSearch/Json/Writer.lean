import FactorSearch.Json.Fault
import FactorSearch.Json.Format

/-!
# Writing values

JSON text without blanks, as a list of characters.
-/

namespace FactorSearch.Json

namespace Writer

def natural (n : Nat) : List Char := Decimal.digitsOf n

def float (x : Binary64) : List Char := x.chars numberStyle

/-- One character as it stands between quotes. -/
def escaped (c : Char) : List Char :=
  match c with
  | '"' => ['\\', '"']
  | '\\' => ['\\', '\\']
  | '\x08' => ['\\', 'b']
  | '\x0c' => ['\\', 'f']
  | '\n' => ['\\', 'n']
  | '\r' => ['\\', 'r']
  | '\t' => ['\\', 't']
  | c =>
    if c.toNat < 0x20 then
      ['\\', 'u', '0', '0', Nat.digitChar (c.toNat / 16), Nat.digitChar (c.toNat % 16)]
    else [c]

def name (s : String) : List Char := '"' :: s.toList.flatMap escaped ++ ['"']

def list (elements : List (List Char)) : List Char := '[' :: [','].intercalate elements ++ [']']

def object (members : List (String × List Char)) : List Char :=
  '{' :: [','].intercalate (members.map fun (key, value) => name key ++ ':' :: value) ++ ['}']

end Writer

variable {ε : Type}

mutual

/-- A value of the format. -/
def Format.writer : {α : Type} → Format ε α → α → List Char
  | _, @Format.unsigned _ _ _, a => Writer.natural (Unsigned.toNat a)
  | _, .float, x => Writer.float x
  | _, @Format.named _ _ _, a => Writer.name (Named.name a)
  | _, .list element, as => Writer.list (as.map element.writer)
  | _, .record _ fields _ split, a => Writer.object (fields.writer (split a))
  | _, .convert base _ origin, b => base.writer (origin b)

/-- The members of an object with the values. -/
def Fields.writer : {ts : List Type} → Fields ε ts → Values ts → List (String × List Char)
  | _, .nil, _ => []
  | _, .cons name _ format rest, (a, values) => (name, format.writer a) :: rest.writer values

end

end FactorSearch.Json
