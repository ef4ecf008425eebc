import FactorSearch.Binary64
import FactorSearch.Named

/-!
# Formats

A format says what the values of a type are made of when they are written as JSON: numbers, names,
lists, records with named fields, or the values of another type that a conversion takes to it.  It
only declares; reading and writing are left to a library.
-/

namespace FactorSearch.Json

/-! ## Whole numbers -/

/-- The whole numbers of a machine word, which `title` names. -/
class Unsigned (α : Type) where
  title : String
  limit : Nat
  toNat : α → Nat
  ofNat : Nat → α
  limit_le : limit ≤ UInt64.size
  toNat_lt : ∀ a, toNat a < limit
  ofNat_toNat : ∀ a, ofNat (toNat a) = a

instance : Unsigned UInt32 where
  title := "u32"
  limit := UInt32.size
  toNat := UInt32.toNat
  ofNat := UInt32.ofNat
  limit_le := by decide
  toNat_lt := UInt32.toNat_lt
  ofNat_toNat _ := UInt32.ofNat_toNat

instance : Unsigned UInt64 where
  title := "usize"
  limit := UInt64.size
  toNat := UInt64.toNat
  ofNat := UInt64.ofNat
  limit_le := Nat.le_refl _
  toNat_lt := UInt64.toNat_lt
  ofNat_toNat _ := UInt64.ofNat_toNat

/-! ## Formats and their fields -/

/-- One value of each type. -/
def Values : List Type → Type
  | [] => Unit
  | α :: ts => α × Values ts

mutual

/-- How the values of a type are written; `ε` are the causes for which conversions refuse them. -/
inductive Format (ε : Type) : Type → Type 1
  | unsigned {α : Type} [Unsigned α] : Format ε α
  | float : Format ε Binary64
  | named {α : Type} [Named α] : Format ε α
  | list {α : Type} (element : Format ε α) : Format ε (List α)
  /-- A record is made of one value for each field. -/
  | record {ts : List Type} {α : Type} (title : String) (fields : Fields ε ts)
      (make : Values ts → α) (split : α → Values ts) : Format ε α
  /-- A value of another type that `accept` does not refuse. -/
  | convert {α β : Type} (base : Format ε α) (accept : α → Except ε β) (origin : β → α) :
      Format ε β

/-- The fields of a record, with the defaults of those that may be missing. -/
inductive Fields (ε : Type) : List Type → Type 1
  | nil : Fields ε []
  | cons {α : Type} {ts : List Type} (name : String) (default : Option α) (format : Format ε α)
      (rest : Fields ε ts) : Fields ε (α :: ts)

end

variable {ε : Type} {ts : List Type}

def Fields.names : {ts : List Type} → Fields ε ts → List String
  | _, .nil => []
  | _, .cons name _ _ rest => name :: rest.names

mutual

/-- How deep the brackets of a text of this format may nest. -/
def Format.depth : {α : Type} → Format ε α → Nat
  | _, @Format.unsigned _ _ _ => 0
  | _, .float => 0
  | _, @Format.named _ _ _ => 1
  | _, .list element => element.depth + 1
  | _, .record _ fields _ _ => fields.depth + 1
  | _, .convert base _ _ => base.depth

def Fields.depth : {ts : List Type} → Fields ε ts → Nat
  | _, .nil => 0
  | _, .cons _ _ format rest => max format.depth rest.depth

end

/-! ## Drafts -/

/-- The values of those fields that have been read. -/
def Draft : List Type → Type
  | [] => Unit
  | α :: ts => Option α × Draft ts

/-- Nothing has been read. -/
def Draft.blank : (ts : List Type) → Draft ts
  | [] => ()
  | _ :: ts => (none, blank ts)

/-- The values of a draft with the defaults for those that are missing, or the name of the first
field that has neither. -/
def Fields.complete : {ts : List Type} → Fields ε ts → Draft ts → Except String (Values ts)
  | _, .nil, _ => .ok ()
  | _, .cons name default _ rest, (a?, draft) =>
    match a?.or default with
    | none => .error name
    | some a => (rest.complete draft).map fun values => (a, values)

end FactorSearch.Json
