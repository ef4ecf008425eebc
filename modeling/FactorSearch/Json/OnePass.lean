import FactorSearch.Json.Library
import FactorSearch.Json.Record
import FactorSearch.Json.Writer

/-!
# A library that reads in one pass

The library that programs run with reads a text once, from left to right, up to its first fault.
How it rounds numbers is left open.
-/

namespace FactorSearch.Json

def onePass (ε : Type) (round : Numeral → Nat) : Library ε where
  Fault := Fault ε
  refuse := .refused
  read format text := (format.reader round).run text
  write format a := String.ofList (format.writer a)

/-- The one that rounds numbers in two steps. -/
def standard (ε : Type) : Library ε := onePass ε Numeral.stepwise

end FactorSearch.Json
