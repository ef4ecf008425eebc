import FactorSearch.Decimal.Text
import FactorSearch.Text.Quoted

/-!
# Why a JSON text is not read

A text may end too early, break the rules of JSON, hold a value that does not fit, or hold tables
that are refused for a cause of their own.
-/

namespace FactorSearch.Json

/-- Numbers in JSON: always with a point or an exponent; numbers that are not finite are `null`. -/
def numberStyle : NumberStyle where
  tie := .even
  wholePoint := true
  positional := fun e => -5 ≤ e && e < 16
  nan := "null"
  infinity := "null"
  negInfinity := "null"

/-- What stands where something else is expected. -/
inductive Found
  | null
  | boolean (b : Bool)
  | integer (n : Int)
  | float (x : Binary64)
  | string (s : String)
  | sequence
  | map
deriving DecidableEq

def Found.text : Found → String
  | null => "null"
  | boolean b => s!"boolean `{b}`"
  | integer n => s!"integer `{n}`"
  | float x => "floating point `" ++ x.text numberStyle ++ "`"
  | string s => "string " ++ Text.quoted s
  | sequence => "sequence"
  | map => "map"

/-- A well-formed value that does not fit. -/
inductive Mismatch
  | wrongType (found : Found) (expected : String)
  | outOfRange (n : Int) (expected : String)
  | unknownVariant (name : String) (known : List String)
  | missingField (name : String)
  | duplicateField (name : String)
  | wrongLength (length : Nat) (expected : String)
deriving DecidableEq

def Mismatch.message : Mismatch → String
  | wrongType found expected => "invalid type: " ++ found.text ++ ", expected " ++ expected
  | outOfRange n expected => s!"invalid value: integer `{n}`, expected {expected}"
  | unknownVariant name known =>
    "unknown variant `" ++ name ++ "`, expected one of " ++
      ", ".intercalate (known.map fun k => "`" ++ k ++ "`")
  | missingField name => "missing field `" ++ name ++ "`"
  | duplicateField name => "duplicate field `" ++ name ++ "`"
  | wrongLength length expected => s!"invalid length {length}, expected {expected}"

/-- The first thing wrong with a text, where `ε` are the causes for which values are refused. -/
inductive Fault (ε : Type)
  | truncated
  | malformed
  | mismatch (m : Mismatch)
  | refused (cause : ε)
deriving DecidableEq

/-- The text of a fault that tells more than that the text is broken. -/
def Fault.message? {ε : Type} (refusal : ε → String) : Fault ε → Option String
  | truncated => none
  | malformed => none
  | mismatch m => some m.message
  | refused cause => some (refusal cause)

end FactorSearch.Json
