import FactorSearch.Config
import FactorSearch.Vocabulary.Json

/-!
# Configurations as JSON

Every field of a configuration has a default, so an empty object is a configuration.  What a text
gives is validated once it is read to its end.
-/

namespace FactorSearch

namespace Config

open Json

/-- Why there is no configuration: no file, a file that is not text, a text that is not read (`Ω`
are the faults of texts), or a configuration that is not usable. -/
inductive Fault (Ω : Type)
  | notFound
  | notText
  | json (fault : Ω)
  | invalid (fault : Invalid)
deriving DecidableEq

/-- The text of a fault that has one; `message?` is that of a fault of a text. -/
def Fault.message? {Ω : Type} (message? : Ω → Option String) : Fault Ω → Option String
  | notFound => none
  | notText => none
  | json fault => (message? fault).map ("failed to parse JSON: " ++ ·)
  | invalid fault => some ("invalid config: " ++ fault.message)

def format : Format Vocabulary.Fault Config :=
  .record "struct EnvConfig"
    (.cons "max_expr_length" (some standard.maxLength) .unsigned <|
      .cons "reward_per_step" (some standard.rewardPerStep) .float <|
        .cons "vocabulary" (some standard.vocabulary) Vocabulary.format .nil)
    (fun (maxLength, rewardPerStep, vocabulary, ()) => ⟨maxLength, rewardPerStep, vocabulary⟩)
    (fun c => (c.maxLength, c.rewardPerStep, c.vocabulary, ()))

variable (lib : Library Vocabulary.Fault)

def ofJson (text : String) : Except (Fault lib.Fault) Config :=
  match lib.read format text with
  | .error fault => .error (.json fault)
  | .ok c =>
    match c.validate with
    | .ok () => .ok c
    | .error fault => .error (.invalid fault)

/-- The configuration in a file, given its bytes if there is such a file. -/
def ofFile : Option ByteArray → Except (Fault lib.Fault) Config
  | none => .error .notFound
  | some bytes =>
    match String.fromUTF8? bytes with
    | some text => ofJson lib text
    | none => .error .notText

def toJson (c : Config) : String := lib.write format c

end Config

end FactorSearch
