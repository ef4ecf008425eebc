import FactorSearch.Named

/-!
# Market series a formula reads
-/

namespace FactorSearch

inductive Feature
  | openPrice
  | closePrice
  | high
  | low
  | volume
  | vwap
deriving DecidableEq

namespace Feature

def name : Feature → String
  | .openPrice => "open"
  | .closePrice => "close"
  | .high => "high"
  | .low => "low"
  | .volume => "volume"
  | .vwap => "vwap"

instance : Named Feature where
  all := [.openPrice, .closePrice, .high, .low, .volume, .vwap]
  name := name
  mem_all f := by cases f <;> decide
  nodup_names := by decide +kernel

/-- How a series is written inside a formula. -/
def text (f : Feature) : String := "$" ++ f.name

end Feature

end FactorSearch
