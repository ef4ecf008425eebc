import FactorSearch.Json.Library
import FactorSearch.Vocabulary

/-!
# Vocabularies as JSON

A vocabulary is written as a record of its four tables.  All four have to be there when it is read,
and they are checked as tables that are given are.
-/

namespace FactorSearch

namespace Vocabulary

open Json

def tablesFormat : Format Fault Tables :=
  .record "struct VocabularyTables"
    (.cons "operators" none (.list .named) <|
      .cons "features" none (.list .named) <|
        .cons "delta_times" none (.list .unsigned) <|
          .cons "constants" none (.list .float) .nil)
    (fun (operators, features, deltaTimes, constants, ()) =>
      ⟨operators, features, deltaTimes, constants⟩)
    (fun t => (t.operators, t.features, t.deltaTimes, t.constants, ()))

def format : Format Fault Vocabulary := .convert tablesFormat ofTables Vocabulary.toTables

variable (lib : Library Fault)

def ofJson (text : String) : Except lib.Fault Vocabulary := lib.read format text

def toJson (v : Vocabulary) : String := lib.write format v

end Vocabulary

end FactorSearch
