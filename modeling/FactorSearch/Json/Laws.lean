import FactorSearch.Json.Grammar
import FactorSearch.Json.Library
import Mathlib.Data.List.Forall2

/-!
# What libraries for JSON document

What is known of a library is how it converts what it reads (`Library.Converting`), how it reads
well-formed texts (`Library.Reading`), where what it reads comes from, whatever the text is
(`Library.Tracing`), and what it writes (`Library.Writing`).
-/

namespace FactorSearch.Json

/-- The library reads the text as `a`. -/
def Library.Reads {ε α : Type} (lib : Library ε) (format : Format ε α) (text : List Char) (a : α) :
    Prop :=
  lib.read format (String.ofList text) = .ok a

/-- A value that is converted is read, then accepted or refused. -/
structure Library.Converting {ε : Type} (lib : Library ε) : Prop where
  accepted : ∀ {α β : Type} (base : Format ε α) (accept : α → Except ε β) (origin : β → α)
    (text : String) {b : β}, lib.read (.convert base accept origin) text = .ok b ↔
      ∃ a, lib.read base text = .ok a ∧ accept a = .ok b
  refused : ∀ {α β : Type} (base : Format ε α) (accept : α → Except ε β) (origin : β → α)
    (text : String) {a : α} {cause : ε}, lib.read base text = .ok a → accept a = .error cause →
      lib.read (.convert base accept origin) text = .error (lib.refuse cause)

/-! ## Well-formed texts -/

section Reading

variable {ε : Type} (lib : Library ε)

/-- What a member called `key` makes of a draft.  It goes to the first field of its name, which must
not be filled yet; a member of another name makes nothing of it, whatever its value is. -/
def Fields.Takes : {ts : List Type} → Fields ε ts → (key : String) → (value : List Char) →
    Draft ts → Draft ts → Prop
  | _, .nil, _, _, _, _ => True
  | _, .cons name _ format rest, key, value, (a?, draft), (a?', draft') =>
    if key = name then
      a? = none ∧ (∃ a, lib.Reads format value a ∧ a?' = some a) ∧ draft' = draft
    else a?' = a? ∧ rest.Takes key value draft draft'

/-- What the members make of a draft, one after the other. -/
inductive Fields.Yields {ts : List Type} (fields : Fields ε ts) :
    Draft ts → List Member → Draft ts → Prop
  | nil (d : Draft ts) : Yields fields d [] d
  | cons {d d₁ d' : Draft ts} {m : Member} {ms : List Member} {name : String}
    (hname : m.Named name) (hm : fields.Takes lib name m.element.value d d₁)
    (hms : Yields fields d₁ ms d') : Yields fields d (m :: ms) d'

/-- How well-formed texts are read, where brackets nest less than 128 deep.  Members of unknown
names are not counted: they may nest as they like. -/
structure Library.Reading : Prop extends lib.Converting where
  /-- Blanks around a value make no difference. -/
  blanks : ∀ {α : Type} (format : Format ε α) {before v behind : List Char} {a : α},
    Blank before → IsValue v → Blank behind →
      (lib.Reads format (before ++ (v ++ behind)) a ↔ lib.Reads format v a)
  /-- A list is read element by element. -/
  list : ∀ {α : Type} (element : Format ε α) (s : Sequence) {as : List α},
    (Format.list element).depth < 128 → s.WellFormed →
      (lib.Reads (.list element) s.chars as ↔
        List.Forall₂ (fun e a => lib.Reads element e.value a) s.elements as)
  /-- A record is read from an object member by member, and completed with defaults. -/
  record : ∀ {ts : List Type} {α : Type} (title : String) (fields : Fields ε ts)
    (make : Values ts → α) (split : α → Values ts) (o : Object) {a : α},
    (Format.record title fields make split).depth < 128 → o.WellFormed →
      (lib.Reads (.record title fields make split) o.chars a ↔
        ∃ d values, fields.Yields lib (Draft.blank ts) o.members d ∧
          fields.complete d = .ok values ∧ make values = a)

end Reading

/-! ## All texts -/

section Tracing

variable {ε : Type} (lib : Library ε)

mutual

/-- Every floating point number in a value is what some text is read as,
unless it is part of a default. -/
def Format.Made : {α : Type} → Format ε α → α → Prop
  | _, @Format.unsigned _ _ _, _ => True
  | _, .float, x => ∃ text, lib.read .float text = .ok x
  | _, @Format.named _ _ _, _ => True
  | _, .list element, as => ∀ a ∈ as, element.Made a
  | _, .record _ fields make _, a =>
    ∃ d values, fields.Made d ∧ fields.complete d = .ok values ∧ make values = a
  | _, .convert base accept _, b => ∃ a, base.Made a ∧ accept a = .ok b

/-- The same of the fields of a draft that are filled. -/
def Fields.Made : {ts : List Type} → Fields ε ts → Draft ts → Prop
  | _, .nil, _ => True
  | _, .cons _ _ format rest, (a?, draft) => (∀ a ∈ a?, format.Made a) ∧ rest.Made draft

end

mutual

/-- A conversion somewhere in the format refuses what can be read for this cause. -/
def Format.Refuses : {α : Type} → Format ε α → ε → Prop
  | _, @Format.unsigned _ _ _, _ => False
  | _, .float, _ => False
  | _, @Format.named _ _ _, _ => False
  | _, .list element, cause => element.Refuses cause
  | _, .record _ fields _ _, cause => fields.Refuses cause
  | _, .convert base accept _, cause =>
    base.Refuses cause ∨ ∃ a, base.Made lib a ∧ accept a = .error cause

def Fields.Refuses : {ts : List Type} → Fields ε ts → ε → Prop
  | _, .nil, _ => False
  | _, .cons _ _ format rest, cause => format.Refuses cause ∨ rest.Refuses cause

end

/-- Where what is read comes from, whatever the text is, and what is refused. -/
structure Library.Tracing : Prop extends lib.Converting where
  made : ∀ {α : Type} (format : Format ε α) {text : String} {a : α},
    lib.read format text = .ok a → format.Made lib a
  refusal : ∀ {α : Type} (format : Format ε α) {text : String} {cause : ε},
    lib.read format text = .error (lib.refuse cause) → format.Refuses lib cause

/-- No number is read as infinite or undefined. -/
def Library.Finite : Prop := ∀ {text : String} {x : Binary64},
  lib.read .float text = .ok x → x.isFinite = true

end Tracing

/-! ## Texts that are written -/

section Writing

variable {ε : Type} (lib : Library ε)

/-- The members are those of a record with these values: the fields in order, by their names. -/
def Fields.WrittenAs : {ts : List Type} → Fields ε ts → Values ts → List Member → Prop
  | _, .nil, _, ms => ms = []
  | _, .cons _ _ _ _, _, [] => False
  | _, .cons name _ format rest, (a, values), m :: ms =>
    m.Named name ∧ m.element.value = (lib.write format a).toList ∧ rest.WrittenAs values ms

/-- How values are written, and which of their texts are read back. -/
structure Library.Writing : Prop where
  list : ∀ {α : Type} (element : Format ε α) (as : List α), ∃ s : Sequence, s.WellFormed ∧
    s.elements.map Element.value = as.map (fun a => (lib.write element a).toList) ∧
      (lib.write (.list element) as).toList = s.chars
  record : ∀ {ts : List Type} {α : Type} (title : String) (fields : Fields ε ts)
    (make : Values ts → α) (split : α → Values ts) (a : α), ∃ o : Object, o.WellFormed ∧
      fields.WrittenAs lib (split a) o.members ∧
        (lib.write (.record title fields make split) a).toList = o.chars
  convert : ∀ {α β : Type} (base : Format ε α) (accept : α → Except ε β) (origin : β → α) (b : β),
    lib.write (.convert base accept origin) b = lib.write base (origin b)
  /-- Whole numbers and names are read as they were written. -/
  unsigned : ∀ {α : Type} [Unsigned α] (a : α),
    lib.read .unsigned (lib.write .unsigned a) = .ok a
  named : ∀ {α : Type} [Named α] (a : α), lib.read .named (lib.write .named a) = .ok a
  /-- Finite numbers are read as they were written, to the bit, and the others are `null`. -/
  float : ∀ {x : Binary64}, x.isFinite = true → lib.read .float (lib.write .float x) = .ok x
  float_null : ∀ {x : Binary64}, x.isFinite = false → lib.write .float x = "null"
  /-- Nor is `null` a number. -/
  null : ∀ x : Binary64, lib.read .float "null" ≠ .ok x

end Writing

end FactorSearch.Json
