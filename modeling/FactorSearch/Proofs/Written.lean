import FactorSearch.Json.Writer
import FactorSearch.Proofs.ReaderLogic
import FactorSearch.Proofs.Scalars

/-!
# What is written is well-formed

Values of every format are written as values of the grammar (`Format.isValue_writer`): lists as
sequences, records as objects, names as strings that spell them (`Writer.spells_flatMap_escaped`).
Numbers and names come back when they are read alone, if numbers are rounded to the nearest.
-/

namespace FactorSearch.Json

open Reader

variable {ε α : Type}

/-! ## Numbers -/

section Numbers

variable {n : Numeral}

theorem Numeral.isExponent_exponentSpelling (e : Option Int) : IsExponent (exponentSpelling e) := by
  cases e with
  | none => exact .none
  | some e =>
    have hsign : [if e < 0 then '-' else '+'] = [] ∨ [if e < 0 then '-' else '+'] = ['+'] ∨
        [if e < 0 then '-' else '+'] = ['-'] := by
      split
      · exact .inr (.inr rfl)
      · exact .inr (.inl rfl)
    exact .some (.inl rfl) hsign (digits_digitsOf e.natAbs)

theorem Numeral.WellFormed.isNumber (h : n.WellFormed) : IsNumber n.spelling := by
  have hsign : (if n.negative then ['-'] else []) = [] ∨
      (if n.negative then ['-'] else []) = ['-'] := by
    split
    · exact .inr rfl
    · exact .inl rfl
  exact .mk hsign h.whole h.noLeadingZero h.fraction (isExponent_exponentSpelling n.exponent)

theorem isValue_natural (k : Nat) : IsValue (Writer.natural k) := by
  rw [Writer.natural, ← Numeral.spelling_ofNat]
  exact .number (Numeral.wellFormed_ofNat k).isNumber

/-- A number that is not finite is written as something else. -/
theorem float_of_not_isFinite {x : Binary64} (hx : ¬ x.isFinite = true) :
    Writer.float x = ['n', 'u', 'l', 'l'] := by
  rw [Writer.float, Binary64.chars, if_neg hx]
  split
  · rfl
  · split <;> rfl

theorem isValue_float (x : Binary64) : IsValue (Writer.float x) := by
  by_cases hx : x.isFinite = true
  · obtain ⟨n, hn, hspelling, -⟩ := Numeral.exists_spelling_chars hx
    rw [Writer.float, ← hspelling]
    exact .number hn.isNumber
  · rw [float_of_not_isFinite hx]
    exact .null

/-- A numeral is read as the number that it has. -/
theorem number_spelling {round : Numeral → Nat} {x : Number} (hn : n.WellFormed)
    (hx : n.number? round = some x) (expected : String) :
    (number round expected : Reader ε Number) n.spelling = .ok (x, []) := by
  -- a number at the end of the text is delimited by the end
  have hread : (Numeral.read .truncated : Reader ε Numeral) n.spelling = .ok (n, []) := by
    rw [← List.append_nil n.spelling]
    exact Numeral.read_spelling _ hn nofun
  have hnumber : (Numeral.readNumber round : Reader ε Number) n.spelling = .ok (x, []) := by
    rw [Numeral.readNumber, bind_of_ok hread, hx]
    rfl
  obtain ⟨c, cs, hcs, hc⟩ := hn.isNumber.exists_cons
  rw [hcs] at hnumber ⊢
  rw [number, bind_of_ok (ahead_cons (begins_of_numeral hc).1), if_pos hc, hnumber]

/-- A whole number is read where one of its size is expected. -/
theorem unsigned_natural [Unsigned α] (round : Numeral → Nat) (a : α) :
    (unsigned round : Reader ε α) (Writer.natural (Unsigned.toNat a)) = .ok (a, []) := by
  have hlt : Unsigned.toNat a < Unsigned.limit α := Unsigned.toNat_lt a
  have hrange : (0 : Int) ≤ Unsigned.toNat a ∧ (Unsigned.toNat a : Int) < Unsigned.limit α := by
    omega
  have hnumber := number_spelling (ε := ε) (Numeral.wellFormed_ofNat (Unsigned.toNat a))
    (Numeral.number?_ofNat (hlt.trans_le Unsigned.limit_le) round) (Unsigned.title α)
  have hnatural : (natural round (Unsigned.limit α) (Unsigned.title α) : Reader ε Nat)
      (Writer.natural (Unsigned.toNat a)) = .ok (Unsigned.toNat a, []) := by
    rw [Writer.natural, ← Numeral.spelling_ofNat, natural, bind_of_ok hnumber]
    exact congrFun (if_pos hrange) _
  rw [unsigned, bind_of_ok hnatural, Unsigned.ofNat_toNat]
  rfl

theorem float_float {x : Binary64} (hx : x.isFinite = true) :
    (float Numeral.nearest : Reader ε Binary64) (Writer.float x) = .ok (x, []) := by
  obtain ⟨n, hn, hspelling, hvalue⟩ := Numeral.exists_spelling_chars hx
  rw [Writer.float, ← hspelling, float, bind_of_ok (number_spelling hn hvalue _)]
  rfl

theorem float_null (round : Numeral → Nat) :
    (float round : Reader ε Binary64) ['n', 'u', 'l', 'l'] =
      .error (.mismatch (.wrongType .null "f64")) := by
  have hunexpected : (unexpected round 'n' "f64" : Reader ε Number) ['n', 'u', 'l', 'l'] =
      .error (.mismatch (.wrongType .null "f64")) := by
    rw [unexpected]
    exact bind_of_ok (exactly_append ['n', 'u', 'l', 'l'] [])
  have hnumber : (number round "f64" : Reader ε Number) ['n', 'u', 'l', 'l'] =
      .error (.mismatch (.wrongType .null "f64")) := by
    rw [number, bind_of_ok (ahead_cons rfl), if_neg (by decide)]
    exact hunexpected
  rw [float, bind_of_error hnumber]

end Numbers

/-! ## Names -/

section Names

theorem Text.Spells.append {cs ds cs' ds' : List Char} (h : Text.Spells cs ds)
    (h' : Text.Spells cs' ds') : Text.Spells (cs ++ cs') (ds ++ ds') := by
  induction h with
  | nil => exact h'
  | plain hc _ ih => exact .plain hc ih
  | escape hc _ ih => exact .escape hc ih
  | unicode hn hhigh hlow _ ih => exact .unicode hn hhigh hlow ih
  | pair hn hn' hhigh hlow _ ih => exact .pair hn hn' hhigh hlow ih

/-- The digits of a control character. -/
theorem Text.quad?_control {n : Nat} (hn : n < 0x20) :
    quad? '0' '0' (Nat.digitChar (n / 16)) (Nat.digitChar (n % 16)) = some n := by
  revert n
  decide

namespace Writer

theorem spells_escaped (c : Char) : Text.Spells (escaped c) [c] := by
  unfold escaped
  split
  · exact .escape rfl .nil
  · exact .escape rfl .nil
  · exact .escape rfl .nil
  · exact .escape rfl .nil
  · exact .escape rfl .nil
  · exact .escape rfl .nil
  · exact .escape rfl .nil
  · next hquote hbackslash _ _ _ _ _ =>
    split
    · next hcontrol =>
      -- a control character is no surrogate
      have hhigh : Text.isHighSurrogate c.toNat = false := by
        simp only [Text.isHighSurrogate, Bool.and_eq_false_iff, decide_eq_false_iff_not]
        omega
      have hlow : Text.isLowSurrogate c.toNat = false := by
        simp only [Text.isLowSurrogate, Bool.and_eq_false_iff, decide_eq_false_iff_not]
        omega
      have hspells := Text.Spells.unicode (Text.quad?_control hcontrol) hhigh hlow .nil
      rwa [Char.ofNat_toNat] at hspells
    · next hcontrol =>
      have hplain : Text.isPlainChar c = true := by
        simp only [Text.isPlainChar, Bool.and_eq_true, decide_eq_true_eq]
        exact ⟨⟨hquote, hbackslash⟩, Nat.not_lt.mp hcontrol⟩
      exact .plain hplain .nil

theorem spells_flatMap_escaped (cs : List Char) : Text.Spells (cs.flatMap escaped) cs := by
  induction cs with
  | nil => exact .nil
  | cons c cs ih =>
    rw [List.flatMap_cons]
    exact (spells_escaped c).append ih

end Writer

theorem isValue_name (s : String) : IsValue (Writer.name s) :=
  .string (Writer.spells_flatMap_escaped s.toList).inside

theorem named_name [Named α] (round : Numeral → Nat) (a : α) :
    (named round : Reader ε α) (Writer.name (Named.name a)) = .ok (a, []) := by
  have hread : (Text.read : Reader ε String)
      ((Named.name a).toList.flatMap Writer.escaped ++ ['"']) = .ok (Named.name a, []) :=
    Text.read_eq_ok_iff.mpr ⟨_, rfl, Writer.spells_flatMap_escaped _⟩
  rw [Writer.name, List.cons_append, named, bind_of_ok (ahead_cons rfl), if_pos rfl,
    bind_of_ok (drop_cons _ _), bind_of_ok hread, ofName, Named.ofName?_name]
  rfl

end Names

/-! ## Lists and objects -/

section Collections

/-- An element that is written without blanks. -/
def Element.bare (value : List Char) : Element := ⟨[], value, []⟩

/-- A member that is written without blanks. -/
def Member.bare (member : String × List Char) : Member :=
  ⟨[], member.1.toList.flatMap Writer.escaped, [], .bare member.2⟩

theorem Element.spaced_bare (value : List Char) : (bare value).Spaced := ⟨blank_nil, blank_nil⟩

theorem Member.spaced_bare (member : String × List Char) : (bare member).Spaced :=
  ⟨blank_nil, blank_nil, Element.spaced_bare member.2⟩

theorem Member.named_bare (member : String × List Char) : (bare member).Named member.1 :=
  Writer.spells_flatMap_escaped member.1.toList

def Sequence.bare (values : List (List Char)) : Sequence := ⟨values.map Element.bare, []⟩

def Object.bare (members : List (String × List Char)) : Object := ⟨members.map Member.bare, []⟩

theorem Sequence.bare_chars (values : List (List Char)) :
    (bare values).chars = Writer.list values := by
  rw [chars, bracketed, separated_true]
  simp [bare, Writer.list, Element.chars, Element.bare, Frame.opening, Frame.close,
    Function.comp_def]

theorem Object.bare_chars (members : List (String × List Char)) :
    (bare members).chars = Writer.object members := by
  rw [chars, bracketed, separated_true]
  simp [bare, Writer.object, Writer.name, Member.chars, Member.bare, Element.chars, Element.bare,
    Frame.opening, Frame.close, Function.comp_def]

theorem Sequence.wellFormed_bare {values : List (List Char)} (h : ∀ v ∈ values, IsValue v) :
    (bare values).WellFormed where
  blank := blank_nil
  spaced e he := by
    obtain ⟨v, -, rfl⟩ := List.mem_map.mp he
    exact Element.spaced_bare v
  values e he := by
    obtain ⟨v, hv, rfl⟩ := List.mem_map.mp he
    exact h v hv

theorem Object.wellFormed_bare {members : List (String × List Char)}
    (h : ∀ member ∈ members, IsValue member.2) : (bare members).WellFormed where
  blank := blank_nil
  spaced m hm := by
    obtain ⟨member, -, rfl⟩ := List.mem_map.mp hm
    exact Member.spaced_bare member
  keys m hm := by
    obtain ⟨member, -, rfl⟩ := List.mem_map.mp hm
    exact (Writer.spells_flatMap_escaped _).inside
  values m hm := by
    obtain ⟨member, hmember, rfl⟩ := List.mem_map.mp hm
    exact h member hmember

mutual

theorem Format.isValue_writer : {α : Type} → (format : Format ε α) → (a : α) →
    IsValue (format.writer a)
  | _, @Format.unsigned _ _ _, a => isValue_natural (Unsigned.toNat a)
  | _, .float, x => isValue_float x
  | _, @Format.named _ _ _, a => isValue_name (Named.name a)
  | _, .list element, as => by
    rw [Format.writer, ← Sequence.bare_chars]
    refine (Sequence.wellFormed_bare fun v hv => ?_).isValue
    obtain ⟨a, -, rfl⟩ := List.mem_map.mp hv
    exact element.isValue_writer a
  | _, .record _ fields _ split, a => by
    rw [Format.writer, ← Object.bare_chars]
    exact (Object.wellFormed_bare (fields.isValue_writer (split a))).isValue
  | _, .convert base _ origin, b => base.isValue_writer (origin b)

theorem Fields.isValue_writer : {ts : List Type} → (fields : Fields ε ts) → (values : Values ts) →
    ∀ member ∈ fields.writer values, IsValue member.2
  | _, .nil, _ => List.forall_mem_nil _
  | _, .cons _ _ format rest, (a, values) =>
    List.forall_mem_cons.mpr ⟨format.isValue_writer a, rest.isValue_writer values⟩

end

end Collections

end FactorSearch.Json
