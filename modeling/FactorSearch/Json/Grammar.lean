/-!
# The grammar of JSON

`IsValue` says which texts are values, however deep they nest and whatever blanks they hold, and
`Text.Spells` which characters the inside of a string stands for.  No reader is needed to say so.
-/

namespace FactorSearch.Json

/-! ## Blanks -/

def isBlank (c : Char) : Bool := c = ' ' || c = '\t' || c = '\n' || c = '\r'

/-- Blanks, if anything. -/
def Blank (s : List Char) : Prop := ∀ c ∈ s, isBlank c = true

/-! ## Strings -/

namespace Text

/-- A character that stands for itself in a string. -/
def isPlainChar (c : Char) : Bool := c ≠ '"' && c ≠ '\\' && 0x20 ≤ c.toNat

def isHighSurrogate (n : Nat) : Bool := 0xd800 ≤ n && n < 0xdc00

def isLowSurrogate (n : Nat) : Bool := 0xdc00 ≤ n && n < 0xe000

def hexDigit? (c : Char) : Option Nat :=
  if '0' ≤ c ∧ c ≤ '9' then some (c.toNat - '0'.toNat)
  else if 'a' ≤ c ∧ c ≤ 'f' then some (c.toNat - 'a'.toNat + 10)
  else if 'A' ≤ c ∧ c ≤ 'F' then some (c.toNat - 'A'.toNat + 10)
  else none

/-- The number that four hexadecimal digits write. -/
def quad? (a b c d : Char) : Option Nat := do
  let i ← hexDigit? a
  let j ← hexDigit? b
  let k ← hexDigit? c
  let l ← hexDigit? d
  pure (((i * 16 + j) * 16 + k) * 16 + l)

/-- What a backslash makes of the character behind it. -/
def simpleEscape? : Char → Option Char
  | '"' => some '"'
  | '\\' => some '\\'
  | '/' => some '/'
  | 'b' => some '\x08'
  | 'f' => some '\x0c'
  | 'n' => some '\n'
  | 'r' => some '\r'
  | 't' => some '\t'
  | _ => none

/-- What stands between the quotes of a string. -/
inductive Inside : List Char → Prop
  | nil : Inside []
  | plain {c : Char} {cs : List Char} (hc : isPlainChar c = true) (h : Inside cs) :
      Inside (c :: cs)
  | escape {c c' : Char} {cs : List Char} (hc : simpleEscape? c = some c') (h : Inside cs) :
      Inside ('\\' :: c :: cs)
  | unicode {a b c d : Char} {n : Nat} {cs : List Char} (hn : quad? a b c d = some n)
      (h : Inside cs) : Inside ('\\' :: 'u' :: a :: b :: c :: d :: cs)

/-- The inside of a string with the characters that it stands for.  An escaped surrogate stands for
nothing without its partner. -/
inductive Spells : List Char → List Char → Prop
  | nil : Spells [] []
  | plain {c : Char} {cs ds : List Char} (hc : isPlainChar c = true) (h : Spells cs ds) :
      Spells (c :: cs) (c :: ds)
  | escape {c c' : Char} {cs ds : List Char} (hc : simpleEscape? c = some c') (h : Spells cs ds) :
      Spells ('\\' :: c :: cs) (c' :: ds)
  | unicode {a b c d : Char} {n : Nat} {cs ds : List Char} (hn : quad? a b c d = some n)
      (hhigh : isHighSurrogate n = false) (hlow : isLowSurrogate n = false) (h : Spells cs ds) :
      Spells ('\\' :: 'u' :: a :: b :: c :: d :: cs) (Char.ofNat n :: ds)
  | pair {a b c d a' b' c' d' : Char} {high low : Nat} {cs ds : List Char}
      (hn : quad? a b c d = some high) (hn' : quad? a' b' c' d' = some low)
      (hhigh : isHighSurrogate high = true) (hlow : isLowSurrogate low = true) (h : Spells cs ds) :
      Spells ('\\' :: 'u' :: a :: b :: c :: d :: '\\' :: 'u' :: a' :: b' :: c' :: d' :: cs)
        (Char.ofNat ((high - 0xd800) * 0x400 + (low - 0xdc00) + 0x10000) :: ds)

end Text

/-! ## Numbers -/

namespace Numeral

/-- One digit or more. -/
structure Digits (ds : List Char) : Prop where
  ne_nil : ds ≠ []
  isDigit : ∀ c ∈ ds, c.isDigit = true

def fractionSpelling : Option (List Char) → List Char
  | none => []
  | some ds => '.' :: ds

/-- The exponent of a number, if it has one. -/
inductive IsExponent : List Char → Prop
  | none : IsExponent []
  | some {letter : Char} {sign ds : List Char} (hletter : letter = 'e' ∨ letter = 'E')
      (hsign : sign = [] ∨ sign = ['+'] ∨ sign = ['-']) (hds : Digits ds) :
      IsExponent (letter :: (sign ++ ds))

/-- A number. -/
inductive IsNumber : List Char → Prop
  | mk {sign whole exponent : List Char} {fraction : Option (List Char)}
      (hsign : sign = [] ∨ sign = ['-']) (hwhole : Digits whole)
      (hzero : ∀ c cs, whole ≠ '0' :: c :: cs) (hfraction : ∀ ds, fraction = some ds → Digits ds)
      (hexponent : IsExponent exponent) :
      IsNumber (sign ++ (whole ++ (fractionSpelling fraction ++ exponent)))

end Numeral

/-! ## Values -/

/-- A pair of brackets. -/
inductive Frame
  | array
  | object
deriving DecidableEq

def Frame.opening : Frame → Char
  | array => '['
  | object => '{'

def Frame.close : Frame → Char
  | array => ']'
  | object => '}'

/-- The comma before everything but the first. -/
def comma (first : Bool) : List Char := if first then [] else [',']

/-- Texts with commas between them, and before them unless they are the first ones. -/
def separated : Bool → List (List Char) → List Char
  | _, [] => []
  | first, text :: texts => comma first ++ (text ++ separated false texts)

/-- Parts in brackets, with commas between them and blanks before the closing bracket. -/
def bracketed (frame : Frame) (parts : List (List Char)) (blank : List Char) : List Char :=
  frame.opening :: (separated true parts ++ (blank ++ [frame.close]))

/-- An element of an array, or the value of a member, with blanks around it. -/
structure Element where
  before : List Char
  value : List Char
  after : List Char

def Element.chars (e : Element) : List Char := e.before ++ (e.value ++ e.after)

structure Element.Spaced (e : Element) : Prop where
  before : Blank e.before
  after : Blank e.after

/-- A member of an object: its key, without the quotes, and its value. -/
structure Member where
  before : List Char
  key : List Char
  behind : List Char
  element : Element

def Member.chars (m : Member) : List Char :=
  m.before ++ '"' :: (m.key ++ '"' :: (m.behind ++ ':' :: m.element.chars))

structure Member.Spaced (m : Member) : Prop where
  before : Blank m.before
  behind : Blank m.behind
  element : m.element.Spaced

/-- The name of a member is what its key spells. -/
def Member.Named (m : Member) (name : String) : Prop := Text.Spells m.key name.toList

/-- A value. -/
inductive IsValue : List Char → Prop
  | null : IsValue ['n', 'u', 'l', 'l']
  | true : IsValue ['t', 'r', 'u', 'e']
  | false : IsValue ['f', 'a', 'l', 's', 'e']
  | number {cs : List Char} (h : Numeral.IsNumber cs) : IsValue cs
  | string {cs : List Char} (h : Text.Inside cs) : IsValue ('"' :: (cs ++ ['"']))
  | array {es : List Element} {blank : List Char} (hblank : Blank blank)
      (hes : ∀ e ∈ es, e.Spaced) (hvalues : ∀ e ∈ es, IsValue e.value) :
      IsValue (bracketed .array (es.map Element.chars) blank)
  | object {ms : List Member} {blank : List Char} (hblank : Blank blank)
      (hms : ∀ m ∈ ms, m.Spaced) (hkeys : ∀ m ∈ ms, Text.Inside m.key)
      (hvalues : ∀ m ∈ ms, IsValue m.element.value) :
      IsValue (bracketed .object (ms.map Member.chars) blank)

/-- A sequence: its elements, and the blanks before its closing bracket. -/
structure Sequence where
  elements : List Element
  blank : List Char

def Sequence.chars (a : Sequence) : List Char := bracketed .array (a.elements.map Element.chars) a.blank

structure Sequence.WellFormed (a : Sequence) : Prop where
  blank : Blank a.blank
  spaced : ∀ e ∈ a.elements, e.Spaced
  values : ∀ e ∈ a.elements, IsValue e.value

theorem Sequence.WellFormed.isValue {a : Sequence} (ha : a.WellFormed) : IsValue a.chars :=
  .array ha.blank ha.spaced ha.values

/-- An object: its members, and the blanks before its closing brace. -/
structure Object where
  members : List Member
  blank : List Char

def Object.chars (o : Object) : List Char := bracketed .object (o.members.map Member.chars) o.blank

structure Object.WellFormed (o : Object) : Prop where
  blank : Blank o.blank
  spaced : ∀ m ∈ o.members, m.Spaced
  keys : ∀ m ∈ o.members, Text.Inside m.key
  values : ∀ m ∈ o.members, IsValue m.element.value

theorem Object.WellFormed.isValue {o : Object} (ho : o.WellFormed) : IsValue o.chars :=
  .object ho.blank ho.spaced ho.keys ho.values

end FactorSearch.Json
