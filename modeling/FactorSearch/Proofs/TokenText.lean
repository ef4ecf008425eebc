import FactorSearch.Proofs.Numerals

/-!
# The text of a token tells the token

A finite number is written in digits, with at most a sign and a point, and belongs to its text
alone.  The texts of the other tokens hold a character that no number has, and begin each in their
own way (`kindOfWord`).  Main statement: tokens have texts of their own, if the constants among them
are finite (`text_injective`); and every text is a word, without parentheses and commas.
-/

namespace FactorSearch

open Json.Reader (takeWhile_append)

/-! ## Words -/

section Words

/-- A character that a word may hold. -/
def isWordChar (c : Char) : Bool := c ≠ '(' && c ≠ ',' && c ≠ ')'

/-- What may follow a word. -/
def EndsWord (rest : List Char) : Prop := ∀ c ∈ rest.head?, isWordChar c = false

theorem endsWord_nil : EndsWord [] := nofun

theorem endsWord_cons {c : Char} (hc : isWordChar c = false) (rest : List Char) :
    EndsWord (c :: rest) := by
  rintro c' ⟨⟩
  exact hc

/-- A word is read off the front of a text. -/
theorem eq_of_word_append {w w' rest rest' : List Char} (hw : ∀ c ∈ w, isWordChar c = true)
    (hw' : ∀ c ∈ w', isWordChar c = true) (hrest : EndsWord rest) (hrest' : EndsWord rest')
    (h : w ++ rest = w' ++ rest') : w = w' ∧ rest = rest' := by
  have hread := takeWhile_append (ε := Empty) hw hrest
  rw [h, takeWhile_append hw' hrest'] at hread
  cases hread
  exact ⟨rfl, rfl⟩

end Words

/-! ## Tokens -/

/-- Positional notation is digits and at most a point. -/
theorem Decimal.mem_positional {style : NumberStyle} {d : Decimal} {c : Char}
    (hc : c ∈ d.positional style) : c.isDigit = true ∨ c = '.' := by
  have hdigits : ∀ c ∈ d.digits, c.isDigit = true := (Json.Numeral.digits_digits d).isDigit
  have hzeros (k : Nat) : ∀ c ∈ List.replicate k '0', c.isDigit = true :=
    Json.Numeral.isDigit_of_mem_zeros
  -- the point falls behind all digits, between two, or before them all
  unfold positional at hc
  split at hc
  · simp only [List.append_assoc, List.mem_append] at hc
    rcases hc with hc | hc | hc
    · exact .inl (hdigits c hc)
    · exact .inl (hzeros _ c hc)
    · split at hc
      · simp only [List.mem_cons, List.not_mem_nil, or_false] at hc
        rcases hc with rfl | rfl
        · exact .inr rfl
        · exact .inl rfl
      · cases hc
  · split at hc
    · simp only [List.mem_append, List.mem_cons] at hc
      rcases hc with hc | rfl | hc
      · exact .inl (hdigits c (List.mem_of_mem_take hc))
      · exact .inr rfl
      · exact .inl (hdigits c (List.mem_of_mem_drop hc))
    · simp only [List.cons_append, List.mem_cons, List.mem_append] at hc
      rcases hc with rfl | rfl | hc | hc
      · exact .inl rfl
      · exact .inr rfl
      · exact .inl (hzeros _ c hc)
      · exact .inl (hdigits c hc)

namespace Token

variable {t t' : Token} {x y : Binary64} {c : Char}

/-- A character that the texts of finite numbers are made of. -/
def isNumberChar (c : Char) : Bool := c.isDigit || c = '.' || c = '-'

theorem toList_constantText (x : Binary64) : (constantText x).toList = x.chars numberStyle := by
  rw [constantText, Binary64.text, String.toList_ofList]

theorem isNumberChar_of_mem_constantText (hx : x.isFinite = true)
    (hc : c ∈ (constantText x).toList) : isNumberChar c = true := by
  have hnan : ¬ x.isNaN = true := by simp [Binary64.isNaN_of_isFinite hx]
  have hpositional (e : Int) : numberStyle.positional e = true := rfl
  rw [toList_constantText, Binary64.chars, if_neg hnan, if_pos hx, Decimal.text,
    if_pos (hpositional _)] at hc
  rcases List.mem_append.mp hc with hc | hc
  · split at hc
    · rw [List.mem_singleton.mp hc]
      rfl
    · cases hc
  · rcases Decimal.mem_positional hc with hc | rfl
    · simp [isNumberChar, hc]
    · rfl

/-- Finite numbers have texts of their own. -/
theorem constantText_injective (hx : x.isFinite = true) (hy : y.isFinite = true)
    (h : constantText x = constantText y) : x = y := by
  have hchars := congrArg String.toList h
  rw [toList_constantText, toList_constantText] at hchars
  exact Json.Numeral.eq_of_chars_eq hx hy hchars

theorem toList_deltaTimeText (days : UInt32) :
    (deltaTimeText days).toList = Decimal.digitsOf days.toNat ++ ['d'] := by
  simp [deltaTimeText, Decimal.digitsOf]

theorem deltaTimeText_injective {days days' : UInt32}
    (h : deltaTimeText days = deltaTimeText days') : days = days' := by
  have hchars := congrArg String.toList h
  rw [toList_deltaTimeText, toList_deltaTimeText] at hchars
  have hdigits : Nat.toDigits 10 days.toNat = Nat.toDigits 10 days'.toNat :=
    List.append_cancel_right hchars
  have hvalue : days.toNat = days'.toNat :=
    calc days.toNat = Nat.ofDigitChars 10 (Nat.toDigits 10 days.toNat) 0 :=
          Nat.ofDigitChars_ten_toDigits.symm
      _ = Nat.ofDigitChars 10 (Nat.toDigits 10 days'.toNat) 0 := by rw [hdigits]
      _ = days'.toNat := Nat.ofDigitChars_ten_toDigits
  exact UInt32.toNat_inj.mp hvalue

/-- The kind of token that a word spells. -/
def kindOfWord (w : List Char) : Kind :=
  if w.all isNumberChar then .constant
  else if w.head? = some '$' then .feature
  else if w.head?.any Char.isDigit then .deltaTime
  else if w = ['S', 'E', 'P'] then .terminator
  else .operator

theorem kindOfWord_deltaTimeText (days : UInt32) :
    kindOfWord (deltaTimeText days).toList = .deltaTime := by
  have hdigits := Json.Numeral.digits_digitsOf days.toNat
  obtain ⟨c, cs, hcs⟩ := List.exists_cons_of_ne_nil hdigits.ne_nil
  have hc : c.isDigit = true := hdigits.isDigit c (hcs ▸ List.mem_cons_self)
  have hdollar : c ≠ '$' := by
    rintro rfl
    cases hc
  -- the letter at the end tells it from a number
  have hall : ¬ (Decimal.digitsOf days.toNat ++ ['d']).all isNumberChar = true := by
    simp [isNumberChar]
  rw [toList_deltaTimeText, kindOfWord, if_neg hall, hcs]
  simp [hdollar, hc]

theorem kindOfWord_text (ht : ∀ x, t = .constant x → x.isFinite = true) :
    kindOfWord t.text.toList = t.kind := by
  cases t with
  | operator op => rcases op with op | op | op | op <;> cases op <;> rfl
  | feature f => cases f <;> rfl
  | deltaTime days => exact kindOfWord_deltaTimeText days
  | constant x =>
    have hall : (constantText x).toList.all isNumberChar = true :=
      List.all_eq_true.mpr fun c => isNumberChar_of_mem_constantText (ht x rfl)
    exact if_pos hall
  | terminator => rfl

/-- Tokens have texts of their own, if the constants among them are finite. -/
theorem text_injective (ht : ∀ x, t = .constant x → x.isFinite = true)
    (ht' : ∀ x, t' = .constant x → x.isFinite = true) (h : t.text = t'.text) : t = t' := by
  have hkind : t.kind = t'.kind := by
    rw [← kindOfWord_text ht, h, kindOfWord_text ht']
  cases t <;> cases t' <;> cases hkind
  case operator op op' => exact congrArg operator (Named.name_injective h)
  case feature f f' =>
    have hname : f.name.toList = f'.name.toList := by
      simpa [text, Feature.text] using congrArg String.toList h
    exact congrArg feature (Named.name_injective (String.toList_inj.mp hname))
  case deltaTime days days' => exact congrArg deltaTime (deltaTimeText_injective h)
  case constant x y => exact congrArg constant (constantText_injective (ht x rfl) (ht' y rfl) h)
  case terminator => rfl

theorem isWordChar_of_isNumberChar (hc : isNumberChar c = true) : isWordChar c = true := by
  have hne (c' : Char) (hc' : isNumberChar c' = false) : c ≠ c' := by
    rintro rfl
    rw [hc'] at hc
    cases hc
  simp [isWordChar, hne '(' rfl, hne ',' rfl, hne ')' rfl]

theorem isWordChar_of_mem_text (ht : ∀ x, t = .constant x → x.isFinite = true) :
    ∀ c ∈ t.text.toList, isWordChar c = true := by
  cases t with
  | operator op =>
    have hname : op.name.toList.all isWordChar = true := by
      rcases op with op | op | op | op <;> cases op <;> rfl
    exact List.all_eq_true.mp hname
  | feature f =>
    have hname : f.text.toList.all isWordChar = true := by
      cases f <;> rfl
    exact List.all_eq_true.mp hname
  | deltaTime days =>
    intro c hc
    rw [text, toList_deltaTimeText] at hc
    rcases List.mem_append.mp hc with hc | hc
    · have hdigit : c.isDigit = true := (Json.Numeral.digits_digitsOf _).isDigit c hc
      exact isWordChar_of_isNumberChar (by simp [isNumberChar, hdigit])
    · rw [List.mem_singleton.mp hc]
      rfl
  | constant x =>
    exact fun c hc => isWordChar_of_isNumberChar (isNumberChar_of_mem_constantText (ht x rfl) hc)
  | terminator => exact List.all_eq_true.mp rfl

end Token

end FactorSearch
