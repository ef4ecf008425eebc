import FactorSearch.Json.Format

/-!
# Libraries for JSON

Programs read and write JSON with a library, which follows the formats that they declare.
-/

namespace FactorSearch.Json

/-- A library that reads and writes texts of any format. -/
structure Library (ε : Type) where
  /-- What is wrong with a text, wherever in the text it is. -/
  Fault : Type
  /-- A text holds a value that a conversion refuses. -/
  refuse : ε → Fault
  read : {α : Type} → Format ε α → String → Except Fault α
  write : {α : Type} → Format ε α → α → String

end FactorSearch.Json
