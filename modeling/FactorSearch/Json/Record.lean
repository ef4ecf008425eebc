import FactorSearch.Json.Skip
import FactorSearch.Json.Value

/-!
# Reading values of a format

A record is an object, with its fields in any order and unknown members passed over, or an array of
the values of its fields in order.  Reading fills a draft field by field and completes it at the
end.
-/

namespace FactorSearch.Json

variable {ε : Type}

open Reader

section Members

variable {δ : Type} (member : (key : String) → δ → Reader ε δ)

/-- One member of an object, which `member` reads from behind its key on; `first` says that none
came before. -/
def memberRound : Bool × δ → Reader ε ((Bool × δ) ⊕ δ)
  | (first, draft) => do
    match ← nextKey? first with
    | none => pure (.inr draft)
    | some key => do
      let draft' ← member key draft
      pure (.inl (false, draft'))

end Members

section Records

variable {ts : List Type} (fields : Fields ε ts)

/-- The values of a draft; `missing` says what is wrong if the field of a name has none. -/
def completed (missing : String → Mismatch) (draft : Draft ts) : Reader ε (Values ts) :=
  match fields.complete draft with
  | .ok values => pure values
  | .error name => mismatch (missing name)

/-- The values of the fields, given how members and elements are read. -/
def record (round : Numeral → Nat) (title : String)
    (member : (key : String) → Draft ts → Reader ε (Draft ts))
    (elements : (first : Bool) → Reader ε (Draft ts)) : Reader ε (Values ts) := do
  let c ← ahead
  if c = '{' then
    drop
    let draft ← loop (memberRound member) (true, Draft.blank ts)
    let values ← completed fields .missingField draft
    mark '}'
    pure values
  else if c = '[' then
    drop
    let draft ← elements true
    let short (name : String) : Mismatch :=
      .wrongLength (fields.names.idxOf name) s!"{title} with {fields.names.length} elements"
    let values ← completed fields short draft
    mark ']'
    pure values
  else unexpected round c title

end Records

variable (round : Numeral → Nat)

mutual

/-- A value of the format. -/
def Format.reader : {α : Type} → Format ε α → Reader ε α
  | _, @Format.unsigned _ _ _ => unsigned round
  | _, .float => float round
  | _, @Format.named _ _ _ => named round
  | _, .list element => list round element.reader
  | _, .record title fields make _ => do
    pure (make (← record fields round title fields.member fields.elements))
  | _, .convert base accept _ => do
    match accept (← base.reader) with
    | .ok b => pure b
    | .error cause => fail (.refused cause)

/-- A member of an object behind its key: what it makes of a draft. -/
def Fields.member : {ts : List Type} → Fields ε ts → (key : String) → Draft ts →
    Reader ε (Draft ts)
  | _, .nil, _, _ => do
    mark ':'
    skipValue
    pure ()
  | _, .cons name _ format rest, key, (a?, draft) =>
    if key = name then
      if a?.isSome then mismatch (.duplicateField key)
      else do
        mark ':'
        let a ← format.reader
        pure (some a, draft)
    else do
      let draft' ← rest.member key draft
      pure (a?, draft')

/-- The elements of an array, as the fields in order, up to the last one that is there. -/
def Fields.elements : {ts : List Type} → Fields ε ts → (first : Bool) → Reader ε (Draft ts)
  | _, .nil, _ => pure ()
  | _, .cons _ _ format rest, first => do
    if ← moreElements first then
      let a ← format.reader
      let draft ← rest.elements false
      pure (some a, draft)
    else pure (Draft.blank _)

end

end FactorSearch.Json
