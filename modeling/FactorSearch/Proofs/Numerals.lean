import FactorSearch.Json.Writer
import FactorSearch.Proofs.Equality
import FactorSearch.Proofs.Magnitude
import FactorSearch.Proofs.Reading

/-!
# Numbers in JSON are read as they were written

`Numeral.spelling` writes a numeral back, and `Numeral.read` inverts it (`read_spelling`).  Every
text of a number is the spelling of a numeral: of a whole number (`ofNat`), or of one that has the
value of the shortest decimal of a finite number (`exists_spelling_chars`).
-/

namespace FactorSearch.Json.Numeral

open Reader

variable {ε : Type} {rest : List Char}

/-! ## Spelling -/

section Spelling

def exponentSpelling : Option Int → List Char
  | none => []
  | some e => 'e' :: (if e < 0 then '-' else '+') :: Decimal.digitsOf e.natAbs

/-- The text of a numeral, with a sign in every exponent. -/
def spelling (n : Numeral) : List Char :=
  (if n.negative then ['-'] else []) ++
    (n.whole ++ (fractionSpelling n.fraction ++ exponentSpelling n.exponent))

/-- A numeral that the rules of JSON allow. -/
structure WellFormed (n : Numeral) : Prop where
  whole : Digits n.whole
  noLeadingZero : ∀ c cs, n.whole ≠ '0' :: c :: cs
  fraction : ∀ ds, n.fraction = some ds → Digits ds

theorem Digits.append {ds es : List Char} (hds : Digits ds) (hes : ∀ c ∈ es, c.isDigit = true) :
    Digits (ds ++ es) :=
  ⟨List.append_ne_nil_of_left_ne_nil hds.ne_nil es, fun c hc =>
    (List.mem_append.mp hc).elim (hds.isDigit c) (hes c)⟩

theorem Digits.head?_append {ds : List Char} (hds : Digits ds) (rest : List Char) :
    (ds ++ rest).head? = ds.head? := by
  cases ds with
  | nil => exact absurd rfl hds.ne_nil
  | cons c cs => rfl

theorem Digits.head?_append_ne {ds : List Char} {c : Char} (hds : Digits ds)
    (hc : c.isDigit = false) (rest : List Char) : (ds ++ rest).head? ≠ some c := by
  rw [hds.head?_append]
  intro hhead
  rw [hds.isDigit c (List.mem_of_mem_head? hhead)] at hc
  cases hc

theorem digits_digitsOf (n : Nat) : Digits (Decimal.digitsOf n) :=
  ⟨Nat.toDigits_ne_nil, fun _ => Nat.isDigit_of_mem_toDigits (by decide) (by decide)⟩

end Spelling

/-! ## Reading a spelling -/

section Read

variable {n : Numeral} {ds : List Char} (atEnd : Fault ε)

theorem someDigits_append (hds : Digits ds) (hrest : ∀ c ∈ rest.head?, c.isDigit = false) :
    someDigits atEnd (ds ++ rest) = .ok (ds, rest) := by
  rw [someDigits, bind_of_ok (takeWhile_append hds.isDigit hrest)]
  cases ds with
  | nil => exact absurd rfl hds.ne_nil
  | cons c cs => rfl

theorem wholePart_append (hds : Digits ds) (hzero : ∀ c cs, ds ≠ '0' :: c :: cs)
    (hrest : ∀ c ∈ rest.head?, c.isDigit = false) :
    wholePart atEnd (ds ++ rest) = .ok (ds, rest) := by
  rw [wholePart, bind_of_ok (someDigits_append atEnd hds hrest)]
  split
  · next c cs => exact absurd rfl (hzero c cs)
  · rfl

theorem fractionPart_append {fraction : Option (List Char)}
    (hfraction : ∀ ds, fraction = some ds → Digits ds)
    (hpoint : rest.head? ≠ some '.') (hrest : ∀ c ∈ rest.head?, c.isDigit = false) :
    fractionPart atEnd (fractionSpelling fraction ++ rest) = .ok (fraction, rest) := by
  cases fraction with
  | none =>
    rw [fractionPart, fractionSpelling, List.nil_append, bind_of_ok (accept_of_ne hpoint)]
    rfl
  | some ds =>
    rw [fractionPart, fractionSpelling, List.cons_append, bind_of_ok (accept_cons '.' _),
      if_pos rfl, map_of_ok (someDigits_append atEnd (hfraction ds rfl) hrest)]

theorem exponentPart_append (exponent : Option Int) (h : Delimited rest) :
    exponentPart atEnd (exponentSpelling exponent ++ rest) = .ok (exponent, rest) := by
  cases exponent with
  | none =>
    have he : rest.head? ≠ some 'e' := h.head?_ne (by decide)
    have hE : rest.head? ≠ some 'E' := h.head?_ne (by decide)
    rw [exponentPart, exponentSpelling, List.nil_append, bind_of_ok (accept_of_ne he)]
    rw [if_neg (by decide), bind_of_ok (accept_of_ne hE)]
    rfl
  | some e =>
    have hdigits : someDigits atEnd (Decimal.digitsOf e.natAbs ++ rest) =
        .ok (Decimal.digitsOf e.natAbs, rest) :=
      someDigits_append atEnd (digits_digitsOf _) h.isDigit_eq_false
    have hvalue : Decimal.ofDigits (Decimal.digitsOf e.natAbs) = e.natAbs :=
      Nat.ofDigitChars_ten_toDigits
    rw [exponentPart, exponentSpelling, List.cons_append, bind_of_ok (accept_cons 'e' _)]
    simp only [if_true, pure_bind, List.cons_append]
    by_cases hneg : e < 0
    · have hsign : -(e.natAbs : Int) = e := by omega
      rw [if_pos hneg, bind_of_ok (accept_cons '-' _), if_pos rfl, bind_of_ok hdigits, hvalue,
        if_pos rfl, hsign]
      rfl
    · have hsign : (e.natAbs : Int) = e := by omega
      have hplus : ('+' :: (Decimal.digitsOf e.natAbs ++ rest)).head? ≠ some '-' := by simp
      rw [if_neg hneg, bind_of_ok (accept_of_ne hplus), if_neg (by decide),
        bind_of_ok (accept_cons '+' _), bind_of_ok hdigits, hvalue, if_neg (by decide), hsign]
      rfl

theorem head?_exponentSpelling_append (exponent : Option Int) (h : Delimited rest) :
    ∀ c ∈ (exponentSpelling exponent ++ rest).head?, c.isDigit = false ∧ c ≠ '.' := by
  cases exponent with
  | none =>
    intro c hc
    rcases h c hc with rfl | rfl | rfl <;> decide
  | some e =>
    rintro c ⟨⟩
    decide

theorem head?_fractionSpelling_append (fraction : Option (List Char))
    (h : ∀ c ∈ rest.head?, c.isDigit = false) :
    ∀ c ∈ (fractionSpelling fraction ++ rest).head?, c.isDigit = false := by
  cases fraction with
  | none => exact h
  | some ds =>
    rintro c ⟨⟩
    decide

/-- A numeral is read off its spelling. -/
theorem read_spelling (h : n.WellFormed) (hrest : Delimited rest) :
    read atEnd (n.spelling ++ rest) = .ok (n, rest) := by
  obtain ⟨negative, whole, fraction, exponent⟩ := n
  have hexponent := exponentPart_append atEnd exponent hrest
  have hhead := head?_exponentSpelling_append exponent hrest
  have hfraction := fractionPart_append atEnd h.fraction
    (fun hpoint => (hhead '.' hpoint).2 rfl) (fun c hc => (hhead c hc).1)
  have hwhole := wholePart_append atEnd h.whole h.noLeadingZero
    (head?_fractionSpelling_append fraction fun c hc => (hhead c hc).1)
  have hsign : (accept '-' : Reader ε Bool) ((if negative then ['-'] else []) ++ (whole ++
      (fractionSpelling fraction ++ (exponentSpelling exponent ++ rest)))) = .ok (negative,
        whole ++ (fractionSpelling fraction ++ (exponentSpelling exponent ++ rest))) := by
    cases negative with
    | true => exact accept_cons '-' _
    | false => exact accept_of_ne (h.whole.head?_append_ne (by decide) _)
  simp only [spelling, List.append_assoc]
  rw [read, bind_of_ok hsign, bind_of_ok hwhole, bind_of_ok hfraction, bind_of_ok hexponent]
  rfl

/-- A spelling belongs to one numeral. -/
theorem spelling_injective {n n' : Numeral} (hn : n.WellFormed) (hn' : n'.WellFormed)
    (h : n.spelling = n'.spelling) : n = n' := by
  have hrest : Delimited [] := nofun
  have hread := read_spelling (.truncated : Fault Empty) hn hrest
  rw [h, read_spelling _ hn' hrest] at hread
  cases hread
  rfl

end Read

/-! ## Whole numbers -/

section Natural

theorem head?_digitsOf_ne {n : Nat} (h : n ≠ 0) : (Decimal.digitsOf n).head? ≠ some '0' := by
  -- all but the last digit are those of a tenth of the number, which is not zero either
  induction n using Nat.strongRecOn with
  | ind n ih =>
    have hdigits : Decimal.digitsOf n =
        if n < 10 then [n.digitChar] else Decimal.digitsOf (n / 10) ++ [(n % 10).digitChar] :=
      Nat.toDigits_eq_if (by decide)
    rw [hdigits]
    by_cases hlt : n < 10
    · rw [if_pos hlt]
      have hchar : ∀ k < 10, k ≠ 0 → Nat.digitChar k ≠ '0' := by decide
      exact fun hhead => hchar n hlt h (Option.some.inj hhead)
    · rw [if_neg hlt, (digits_digitsOf _).head?_append]
      exact ih (n / 10) (by omega) (by omega)

theorem digitsOf_ne_zero_cons (n : Nat) (c : Char) (cs : List Char) :
    Decimal.digitsOf n ≠ '0' :: c :: cs := by
  intro h
  by_cases hn : n = 0
  · rw [hn] at h
    cases h
  · exact head?_digitsOf_ne hn (by rw [h]; rfl)

/-- The numeral of a whole number. -/
def ofNat (k : Nat) : Numeral := ⟨false, Decimal.digitsOf k, none, none⟩

theorem spelling_ofNat (k : Nat) : (ofNat k).spelling = Decimal.digitsOf k := by
  simp [spelling, ofNat, fractionSpelling, exponentSpelling]

theorem wellFormed_ofNat (k : Nat) : (ofNat k).WellFormed where
  whole := digits_digitsOf k
  noLeadingZero := digitsOf_ne_zero_cons k
  fraction := nofun

/-- A whole number is not rounded. -/
theorem number?_ofNat {k : Nat} (h : k < UInt64.size) (round : Numeral → Nat) :
    (ofNat k).number? round = some (.integer k) := by
  have hvalue : Decimal.ofDigits (Decimal.digitsOf k) = k := Nat.ofDigitChars_ten_toDigits
  have hinteger : (ofNat k).integer? = some (k : Int) := by
    simp [integer?, ofNat, hvalue, h]
  rw [number?, hinteger]

end Natural

/-! ## Floating point numbers -/

section Float

/-- A numeral for a decimal: signed as asked for, of the value of the decimal, and not of the form
of a whole number where the style wants a point. -/
structure IsFor (n : Numeral) (style : NumberStyle) (negative : Bool) (d : Decimal) : Prop
    extends n.WellFormed where
  negative_eq : n.negative = negative
  magnitude_eq : n.decimal.magnitude = d.magnitude
  notWhole : style.wholePoint = true → n.fraction.isSome || n.exponent.isSome

variable {style : NumberStyle} {negative : Bool} {d : Decimal}

theorem ofDigits_digits (d : Decimal) : Decimal.ofDigits d.digits = d.coefficient :=
  Nat.ofDigitChars_ten_toDigits

/-- Zeros before the digits do not count. -/
theorem ofDigits_zeros_append (k : Nat) (ds : List Char) :
    Decimal.ofDigits (List.replicate k '0' ++ ds) = Decimal.ofDigits ds := by
  rw [Decimal.ofDigits, Nat.ofDigitChars_append, Nat.ofDigitChars_replicate_zero, Nat.mul_zero]
  rfl

theorem ofDigits_append_zeros (k : Nat) (ds : List Char) :
    Decimal.ofDigits (ds ++ List.replicate k '0') = Decimal.ofDigits ds * 10 ^ k := by
  rw [Decimal.ofDigits, Nat.ofDigitChars_append, Nat.ofDigitChars_replicate_zero, Nat.mul_comm]
  rfl

theorem isDigit_of_mem_zeros {k : Nat} : ∀ c ∈ List.replicate k '0', c.isDigit = true := by
  intro c hc
  rw [List.eq_of_mem_replicate hc]
  rfl

theorem digits_digits (d : Decimal) : Digits d.digits := digits_digitsOf d.coefficient

/-- The digits of a number other than zero begin with no zero, whatever stands behind them. -/
theorem digits_append_ne_zero_cons (h : d.coefficient ≠ 0) {ds es : List Char}
    (hds : ds ++ es = d.digits) (hne : ds ≠ []) (rest cs : List Char) : ds ++ rest ≠ '0' :: cs := by
  intro heq
  apply head?_digitsOf_ne h
  change d.digits.head? = some '0'
  cases ds with
  | nil => exact absurd rfl hne
  | cons c ds =>
    obtain ⟨rfl, -⟩ := List.cons_eq_cons.mp heq
    rw [← hds]
    rfl

/-- The digits of a whole number, with the zeros that the exponent asks for. -/
theorem digits_append_zeros_ne (hzero : d.coefficient = 0 → d.exponent = 0) (c : Char)
    (cs : List Char) : d.digits ++ List.replicate d.exponent.toNat '0' ≠ '0' :: c :: cs := by
  by_cases hc : d.coefficient = 0
  · have hdigits : d.digits = ['0'] := by
      rw [Decimal.digits, hc]
      rfl
    simp [hdigits, hzero hc]
  · exact digits_append_ne_zero_cons hc (List.append_nil _) (digits_digits d).ne_nil _ _

/-- All digits before the point, if there is one. -/
theorem exists_whole (hzero : d.coefficient = 0 → d.exponent = 0) (he : 0 ≤ d.exponent) :
    ∃ n : Numeral, n.IsFor style negative d ∧
      n.spelling = (if negative then ['-'] else []) ++ d.positional style := by
  have hdigits : Digits (d.digits ++ List.replicate d.exponent.toNat '0') :=
    (digits_digits d).append isDigit_of_mem_zeros
  -- every zero is one digit more, and one less in the exponent
  have hvalue (k : Nat) : (⟨Decimal.ofDigits
      (d.digits ++ List.replicate d.exponent.toNat '0' ++ List.replicate k '0'), 0 - k⟩ :
        Decimal).magnitude = d.magnitude := by
    have hexponent : (0 - k : Int) = d.exponent - (d.exponent.toNat + k : Nat) := by omega
    rw [List.append_assoc, List.replicate_append_replicate, ofDigits_append_zeros, ofDigits_digits,
      hexponent, Decimal.magnitude_mul_pow]
  cases hpoint : style.wholePoint with
  | true =>
    refine ⟨⟨negative, d.digits ++ List.replicate d.exponent.toNat '0', some ['0'], none⟩, ?_, ?_⟩
    · exact {
        whole := hdigits
        noLeadingZero := digits_append_zeros_ne hzero
        fraction := by
          rintro ds ⟨⟩
          exact digits_digitsOf 0
        negative_eq := rfl
        magnitude_eq := hvalue 1
        notWhole := fun _ => rfl }
    · rw [Decimal.positional, if_pos he]
      simp [spelling, fractionSpelling, exponentSpelling, hpoint]
  | false =>
    refine ⟨⟨negative, d.digits ++ List.replicate d.exponent.toNat '0', none, none⟩, ?_, ?_⟩
    · exact {
        whole := hdigits
        noLeadingZero := digits_append_zeros_ne hzero
        fraction := nofun
        negative_eq := rfl
        magnitude_eq := hvalue 0
        notWhole := fun h => absurd h (by simp [hpoint]) }
    · rw [Decimal.positional, if_pos he]
      simp [spelling, fractionSpelling, exponentSpelling, hpoint]

theorem decimal_eq {n : Numeral}
    (hc : Decimal.ofDigits (n.whole ++ n.fraction.getD []) = d.coefficient)
    (he : n.exponent.getD 0 - (n.fraction.getD []).length = d.exponent) : n.decimal = d := by
  rw [decimal, hc, he]

/-- The point among the digits. -/
theorem exists_between (hzero : d.coefficient = 0 → d.exponent = 0) (he : ¬ 0 ≤ d.exponent)
    (hp : 0 < d.pointPosition) :
    ∃ n : Numeral, n.IsFor style negative d ∧
      n.spelling = (if negative then ['-'] else []) ++ d.positional style := by
  have hsplit := List.take_append_drop d.pointPosition.toNat d.digits
  have hlength : d.pointPosition = d.digits.length + d.exponent := rfl
  have htake : d.digits.take d.pointPosition.toNat ≠ [] := by
    refine List.ne_nil_of_length_pos ?_
    rw [List.length_take]
    omega
  have hdrop : d.digits.drop d.pointPosition.toNat ≠ [] := by
    refine List.ne_nil_of_length_pos ?_
    rw [List.length_drop]
    omega
  -- the point splits the digits, and neither part is empty
  refine ⟨⟨negative, d.digits.take d.pointPosition.toNat,
    some (d.digits.drop d.pointPosition.toNat), none⟩, ?_, ?_⟩
  · refine { whole := ⟨htake, ?_⟩, noLeadingZero := ?_, fraction := ?_, negative_eq := rfl,
             magnitude_eq := ?_, notWhole := fun _ => rfl }
    · exact fun c hc => (digits_digits d).isDigit c (List.mem_of_mem_take hc)
    · intro c cs
      have hc : d.coefficient ≠ 0 := fun h => he (hzero h).ge
      rw [← List.append_nil (d.digits.take _)]
      exact digits_append_ne_zero_cons hc hsplit htake [] (c :: cs)
    · rintro ds ⟨⟩
      exact ⟨hdrop, fun c hc => (digits_digits d).isDigit c (List.mem_of_mem_drop hc)⟩
    · rw [decimal_eq (d := d)]
      · exact (congrArg Decimal.ofDigits hsplit).trans (ofDigits_digits d)
      · simp only [Option.getD_none, Option.getD_some, List.length_drop]
        omega
  · rw [Decimal.positional, if_neg he, if_pos hp]
    simp [spelling, fractionSpelling, exponentSpelling]

/-- Zeros between the point and the digits. -/
theorem exists_below (he : ¬ 0 ≤ d.exponent) (hp : ¬ 0 < d.pointPosition) :
    ∃ n : Numeral, n.IsFor style negative d ∧
      n.spelling = (if negative then ['-'] else []) ++ d.positional style := by
  have hlength : d.pointPosition = d.digits.length + d.exponent := rfl
  refine ⟨⟨negative, ['0'], some (List.replicate (-d.pointPosition).toNat '0' ++ d.digits), none⟩,
    ?_, ?_⟩
  · refine { whole := digits_digitsOf 0, noLeadingZero := nofun, fraction := ?_,
             negative_eq := rfl, magnitude_eq := ?_, notWhole := fun _ => rfl }
    · rintro ds ⟨⟩
      exact ⟨List.append_ne_nil_of_right_ne_nil _ (digits_digits d).ne_nil, fun c hc =>
        (List.mem_append.mp hc).elim (isDigit_of_mem_zeros c) ((digits_digits d).isDigit c)⟩
    · rw [decimal_eq (d := d)]
      · change Decimal.ofDigits (List.replicate 1 '0' ++ (_ ++ _)) = _
        rw [ofDigits_zeros_append, ofDigits_zeros_append, ofDigits_digits]
      · simp only [Option.getD_none, Option.getD_some, List.length_append, List.length_replicate]
        omega
  · rw [Decimal.positional, if_neg he, if_neg hp]
    simp [spelling, fractionSpelling, exponentSpelling]

/-- One digit before the point and a power of ten. -/
theorem exists_scientific :
    ∃ n : Numeral, n.IsFor style negative d ∧
      n.spelling = (if negative then ['-'] else []) ++ d.scientific := by
  have hlength : d.pointPosition = d.digits.length + d.exponent := rfl
  obtain ⟨c, cs, hdigits⟩ := List.exists_cons_of_ne_nil (digits_digits d).ne_nil
  have hdigit : ∀ c' ∈ c :: cs, c'.isDigit = true := hdigits ▸ (digits_digits d).isDigit
  have hvalue : Decimal.ofDigits (c :: cs) = d.coefficient := hdigits ▸ ofDigits_digits d
  rw [hdigits, List.length_cons] at hlength
  have hfraction : (if cs.isEmpty then none else some cs).getD [] = cs := by
    cases cs <;> rfl
  -- one digit stands before the point, which is left out if there are no others
  refine ⟨⟨negative, [c], if cs.isEmpty then none else some cs, some (d.pointPosition - 1)⟩,
    ?_, ?_⟩
  · refine { whole := ⟨List.cons_ne_nil _ _, ?_⟩, noLeadingZero := nofun, fraction := ?_,
             negative_eq := rfl, magnitude_eq := ?_, notWhole := ?_ }
    · exact fun c' hc' => hdigit c' (List.mem_cons.mpr (.inl (List.mem_singleton.mp hc')))
    · intro ds hds
      cases cs with
      | nil => cases hds
      | cons c' cs =>
        cases hds
        exact ⟨List.cons_ne_nil _ _, fun c'' hc'' => hdigit c'' (List.mem_cons_of_mem _ hc'')⟩
    · rw [decimal_eq (d := d)]
      · simp only [hfraction]
        exact hvalue
      · simp only [hfraction, Option.getD_some]
        omega
    · exact fun _ => Bool.or_true _
  · rw [Decimal.scientific, hdigits]
    cases cs <;> simp [spelling, fractionSpelling, exponentSpelling]

theorem exists_spelling (style : NumberStyle) (negative : Bool)
    (hzero : d.coefficient = 0 → d.exponent = 0) :
    ∃ n : Numeral, n.IsFor style negative d ∧
      n.spelling = (if negative then ['-'] else []) ++ d.text style := by
  by_cases hpositional : style.positional (d.pointPosition - 1) = true
  · rw [Decimal.text, if_pos hpositional]
    -- where the point falls: behind all digits, between two, or before them all
    by_cases he : 0 ≤ d.exponent
    · exact exists_whole hzero he
    · by_cases hp : 0 < d.pointPosition
      · exact exists_between hzero he hp
      · exact exists_below he hp
  · rw [Decimal.text, if_neg hpositional]
    exact exists_scientific

/-- The text of a finite number is the spelling of a numeral for its shortest decimal. -/
theorem exists_isFor_chars (style : NumberStyle) {x : Binary64} (hx : x.isFinite = true) :
    ∃ n : Numeral, n.IsFor style x.negative (Decimal.shortest style.tie x.magnitude) ∧
      n.spelling = x.chars style := by
  have hnan : ¬ x.isNaN = true := by simp [Binary64.isNaN_of_isFinite hx]
  rw [Binary64.chars, if_neg hnan, if_pos hx]
  exact exists_spelling style x.negative (Decimal.exponent_shortest style.tie x.magnitude)

theorem magnitude_shortest_of_isFinite (style : NumberStyle) {x : Binary64}
    (hx : x.isFinite = true) : (Decimal.shortest style.tie x.magnitude).magnitude = x.magnitude :=
  Decimal.magnitude_shortest style.tie (of_decide_eq_true hx)

theorem IsFor.number? {n : Numeral} {m : Nat} (h : n.IsFor style negative d)
    (hstyle : style.wholePoint = true) (hd : d.magnitude = m) (hm : m < Binary64.infinity) :
    n.number? nearest = some (.float (.ofMagnitude negative m)) := by
  have hinteger : n.integer? = none := by
    rw [integer?, if_pos (h.notWhole hstyle)]
  have hfloat : n.float? nearest = some (.ofMagnitude negative m) := by
    rw [float?, nearest, h.magnitude_eq, hd, if_pos hm, h.negative_eq]
  rw [Numeral.number?, hinteger, hfloat]
  rfl

/-- The text of a finite number is the spelling of a numeral that is rounded to it. -/
theorem exists_spelling_chars {x : Binary64} (hx : x.isFinite = true) :
    ∃ n : Numeral, n.WellFormed ∧ n.spelling = x.chars numberStyle ∧
      n.number? nearest = some (.float x) := by
  obtain ⟨n, hn, hspelling⟩ := exists_isFor_chars numberStyle hx
  refine ⟨n, hn.toWellFormed, hspelling, ?_⟩
  rw [hn.number? rfl (magnitude_shortest_of_isFinite numberStyle hx) (of_decide_eq_true hx),
    Binary64.ofMagnitude_magnitude]

/-- In every style, the text of a finite number belongs to that number alone. -/
theorem eq_of_chars_eq {style : NumberStyle} {x y : Binary64} (hx : x.isFinite = true)
    (hy : y.isFinite = true) (h : x.chars style = y.chars style) : x = y := by
  obtain ⟨n, hn, hnx⟩ := exists_isFor_chars style hx
  obtain ⟨n', hn', hny⟩ := exists_isFor_chars style hy
  -- two spellings that agree are of one numeral, whose value is that of both numbers
  have heq : n = n' := spelling_injective hn.toWellFormed hn'.toWellFormed
    (hnx.trans (h.trans hny.symm))
  have hmagnitude : x.magnitude = y.magnitude := by
    rw [← magnitude_shortest_of_isFinite style hx, ← hn.magnitude_eq, heq, hn'.magnitude_eq,
      magnitude_shortest_of_isFinite style hy]
  have hnegative : x.negative = y.negative := by
    rw [← hn.negative_eq, heq, hn'.negative_eq]
  exact Binary64.eq_of_negative_of_magnitude hnegative hmagnitude

end Float

end FactorSearch.Json.Numeral
