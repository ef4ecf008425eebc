import FactorSearch.Proofs.Numerals
import FactorSearch.Proofs.Phrases

/-!
# Strings and numbers are taken whole

What stands between two quotes is what the machine for strings takes (`Text.skip_eq_ok_iff`), and it
is read as the characters that it spells (`Text.read_eq_ok_iff`).  A number is read up to its end
where something that may stand behind a value follows it (`Numeral.IsNumber.exists_read`).
-/

namespace FactorSearch.Json

open Reader

/-! ## Strings -/

namespace Text

variable {ε : Type} {paired : Bool} {taken : List Char} {a b c d : Char} {n : Nat}
  {high : Option Nat} {cs rest : List Char}

theorem fourBytes_cons (a b c d : Char) (s : List Char) :
    fourBytes (a :: b :: c :: d :: s) = true := by
  have ha := a.utf8Size_pos
  have hb := b.utf8Size_pos
  have hc := c.utf8Size_pos
  have hd := d.utf8Size_pos
  refine decide_eq_true ?_
  simp only [List.take_succ_cons, List.take_zero, List.foldr_cons, List.foldr_nil]
  omega

/-- Behind `\u` the four digits are taken at once. -/
theorem scan_quad (hn : quad? a b c d = some n) (s : List Char) :
    (scan paired (.hex high 3 0) taken (a :: b :: c :: d :: s) :
        Except (Fault ε) (String × List Char)) =
      match (afterHex paired taken high n : Except (Fault ε) (Mode × List Char)) with
      | .error fault => .error fault
      | .ok (mode, taken') => scan paired mode taken' s := by
  simp only [quad?, Option.bind_eq_bind, Option.bind_eq_some_iff, Option.pure_def,
    Option.some.injEq] at hn
  obtain ⟨i, hi, j, hj, k, hk, l, hl, rfl⟩ := hn
  simp only [scan, step, hi, hj, hk, hl, Nat.zero_mul, Nat.zero_add]
  cases afterHex paired taken high (((i * 16 + j) * 16 + k) * 16 + l) <;> rfl

theorem scan_plain_cons (hc : isPlainChar c = true) (s : List Char) :
    (scan paired .plain taken (c :: s) : Except (Fault ε) (String × List Char)) =
      scan paired .plain (c :: taken) s := by
  simp only [isPlainChar, Bool.and_eq_true, decide_eq_true_eq] at hc
  obtain ⟨⟨hquote, hbackslash⟩, hcontrol⟩ := hc
  rw [scan, step, if_neg hquote, if_neg hbackslash, if_neg (Nat.not_lt.mpr hcontrol)]

theorem scan_escape (hc : simpleEscape? c = some d) (s : List Char) :
    (scan paired .plain taken ('\\' :: c :: s) : Except (Fault ε) (String × List Char)) =
      scan paired .plain (d :: taken) s := by
  have hu : c ≠ 'u' := by
    rintro rfl
    cases hc
  simp only [scan, step, hu, hc, Char.reduceEq, if_false, if_true]

theorem scan_unicode (hn : quad? a b c d = some n) (s : List Char) :
    (scan paired .plain taken ('\\' :: 'u' :: a :: b :: c :: d :: s) :
        Except (Fault ε) (String × List Char)) =
      match (afterHex paired taken none n : Except (Fault ε) (Mode × List Char)) with
      | .error fault => .error fault
      | .ok (mode, taken') => scan paired mode taken' s := by
  rw [← scan_quad hn]
  simp only [scan, step, fourBytes_cons, Char.reduceEq, if_false, if_true]

theorem scan_partner {h : Nat} (hn : quad? a b c d = some n) (s : List Char) :
    (scan paired (.pairBackslash h) taken ('\\' :: 'u' :: a :: b :: c :: d :: s) :
        Except (Fault ε) (String × List Char)) =
      match (afterHex paired taken (some h) n : Except (Fault ε) (Mode × List Char)) with
      | .error fault => .error fault
      | .ok (mode, taken') => scan paired mode taken' s := by
  rw [← scan_quad hn]
  simp only [scan, step, fourBytes_cons, if_true]

theorem scan_quote (s : List Char) :
    (scan paired .plain taken ('"' :: s) : Except (Fault ε) (String × List Char)) =
      .ok (String.ofList taken.reverse, s) := by
  simp only [scan, step, if_true]

theorem scan_inside (h : Inside cs) (taken rest : List Char) :
    ∃ s, (scan false .plain taken (cs ++ '"' :: rest) :
      Except (Fault ε) (String × List Char)) = .ok (s, rest) := by
  induction h generalizing taken with
  | nil => exact ⟨_, scan_quote rest⟩
  | plain hc _ ih =>
    rw [List.cons_append, scan_plain_cons hc]
    exact ih _
  | escape hc _ ih =>
    rw [List.cons_append, List.cons_append, scan_escape hc]
    exact ih _
  | unicode hn _ ih =>
    simp only [List.cons_append]
    rw [scan_unicode hn]
    exact ih _

theorem isLowSurrogate_of_isHighSurrogate (h : isHighSurrogate n = true) :
    isLowSurrogate n = false := by
  simp only [isHighSurrogate, Bool.and_eq_true, decide_eq_true_eq] at h
  simp only [isLowSurrogate, Bool.and_eq_false_iff, decide_eq_false_iff_not]
  omega

theorem scan_spells {ds : List Char} (h : Spells cs ds) (taken rest : List Char) :
    (scan true .plain taken (cs ++ '"' :: rest) : Except (Fault ε) (String × List Char)) =
      .ok (String.ofList (taken.reverse ++ ds), rest) := by
  -- what is taken is kept in reverse, and grows by the character that each step stands for
  induction h generalizing taken with
  | nil => rw [List.nil_append, scan_quote, List.append_nil]
  | plain hc _ ih =>
    rw [List.cons_append, scan_plain_cons hc, ih]
    simp
  | escape hc _ ih =>
    rw [List.cons_append, List.cons_append, scan_escape hc, ih]
    simp
  | unicode hn hhigh hlow _ ih =>
    simp only [List.cons_append]
    rw [scan_unicode hn]
    simp [afterHex, hhigh, hlow, ih]
  | pair hn hn' hhigh hlow _ ih =>
    simp only [List.cons_append]
    rw [scan_unicode hn]
    simp only [afterHex, Bool.not_true, Bool.false_eq_true, if_false,
      isLowSurrogate_of_isHighSurrogate hhigh, hhigh, if_true]
    rw [scan_partner hn']
    simp [afterHex, hlow, ih]

section Sound

variable {s v : List Char} {str : String} {mode : Mode} {left value : Nat}

theorem exists_step_of_scan_eq_ok
    (h : (scan paired mode taken s : Except (Fault ε) (String × List Char)) = .ok (str, v)) :
    ∃ c rest, s = c :: rest ∧
      ((step paired taken c rest mode : Except (Fault ε) _) = .ok none ∧
          str = String.ofList taken.reverse ∧ v = rest ∨
        ∃ mode' taken', (step paired taken c rest mode : Except (Fault ε) _) =
            .ok (some (mode', taken')) ∧
          (scan paired mode' taken' rest : Except (Fault ε) _) = .ok (str, v)) := by
  cases s with
  | nil => cases h
  | cons c rest =>
    refine ⟨c, rest, rfl, ?_⟩
    rw [scan] at h
    split at h
    · cases h
    · next hstep =>
      cases h
      exact .inl ⟨hstep, rfl, rfl⟩
    · next hstep => exact .inr ⟨_, _, hstep, h⟩

theorem exists_digit_of_scan_eq_ok
    (h : (scan paired (.hex high (left + 1) value) taken s : Except (Fault ε) _) = .ok (str, v)) :
    ∃ c d rest, s = c :: rest ∧ hexDigit? c = some d ∧
      (scan paired (.hex high left (value * 16 + d)) taken rest : Except (Fault ε) _) =
        .ok (str, v) := by
  obtain ⟨c, rest, rfl, hstep⟩ := exists_step_of_scan_eq_ok h
  cases hc : hexDigit? c with
  | none =>
    simp [step, hc] at hstep
  | some d =>
    simp only [step, hc] at hstep
    rcases hstep with ⟨hnone, -⟩ | ⟨mode', taken', hsome, hrest⟩
    · cases hnone
    · cases hsome
      exact ⟨c, d, rest, rfl, hc, hrest⟩

theorem exists_lastDigit_of_scan_eq_ok
    (h : (scan paired (.hex high 0 value) taken s : Except (Fault ε) _) = .ok (str, v)) :
    ∃ c d rest mode taken', s = c :: rest ∧ hexDigit? c = some d ∧
      (afterHex paired taken high (value * 16 + d) : Except (Fault ε) _) = .ok (mode, taken') ∧
        (scan paired mode taken' rest : Except (Fault ε) _) = .ok (str, v) := by
  obtain ⟨c, rest, rfl, hstep⟩ := exists_step_of_scan_eq_ok h
  cases hc : hexDigit? c with
  | none =>
    simp [step, hc] at hstep
  | some d =>
    simp only [step, hc] at hstep
    cases hafter : (afterHex paired taken high (value * 16 + d) : Except (Fault ε) _) with
    | error fault =>
      rw [hafter] at hstep
      rcases hstep with ⟨hnone, -⟩ | ⟨mode', taken', hsome, -⟩
      · cases hnone
      · cases hsome
    | ok p =>
      rw [hafter] at hstep
      rcases hstep with ⟨hnone, -⟩ | ⟨mode', taken', hsome, hrest⟩
      · cases hnone
      · cases hsome
        exact ⟨c, d, rest, mode', taken', rfl, hc, hafter, hrest⟩

/-- Four digits were taken where a string was read on. -/
theorem exists_quad_of_scan_eq_ok
    (h : (scan paired (.hex high 3 0) taken s : Except (Fault ε) _) = .ok (str, v)) :
    ∃ a b c d n rest mode taken', s = a :: b :: c :: d :: rest ∧ quad? a b c d = some n ∧
      (afterHex paired taken high n : Except (Fault ε) _) = .ok (mode, taken') ∧
        (scan paired mode taken' rest : Except (Fault ε) _) = .ok (str, v) := by
  obtain ⟨a, i, s₁, rfl, hi, h₁⟩ := exists_digit_of_scan_eq_ok h
  obtain ⟨b, j, s₂, rfl, hj, h₂⟩ := exists_digit_of_scan_eq_ok h₁
  obtain ⟨c, k, s₃, rfl, hk, h₃⟩ := exists_digit_of_scan_eq_ok h₂
  obtain ⟨d, l, rest, mode, taken', rfl, hl, hafter, hrest⟩ := exists_lastDigit_of_scan_eq_ok h₃
  refine ⟨a, b, c, d, _, rest, mode, taken', rfl, ?_, hafter, hrest⟩
  simp [quad?, hi, hj, hk, hl]

/-- Behind the first of two surrogates stands the other one. -/
theorem exists_partner_of_scan_eq_ok {h : Nat}
    (hscan : (scan true (.pairBackslash h) taken s : Except (Fault ε) _) = .ok (str, v)) :
    ∃ a b c d low rest, s = '\\' :: 'u' :: a :: b :: c :: d :: rest ∧ quad? a b c d = some low ∧
      isLowSurrogate low = true ∧
        (scan true .plain (Char.ofNat ((h - 0xd800) * 0x400 + (low - 0xdc00) + 0x10000) :: taken)
          rest : Except (Fault ε) _) = .ok (str, v) := by
  obtain ⟨c, s₁, rfl, hstep⟩ := exists_step_of_scan_eq_ok hscan
  -- the other half must follow at once: a backslash, a letter and four digits
  by_cases hc : c = '\\'
  · simp only [step, hc, if_true] at hstep
    rcases hstep with ⟨hnone, -⟩ | ⟨mode', taken', hsome, hscan₁⟩
    · cases hnone
    cases hsome
    obtain ⟨c', s₂, rfl, hstep⟩ := exists_step_of_scan_eq_ok hscan₁
    by_cases hc' : c' = 'u' ∧ fourBytes s₂ = true
    · simp only [step, hc'.1, hc'.2, if_true] at hstep
      rcases hstep with ⟨hnone, -⟩ | ⟨mode', taken', hsome, hscan₂⟩
      · cases hnone
      cases hsome
      obtain ⟨a, b, c₁, d, low, rest, mode, taken', rfl, hn, hafter, hrest⟩ :=
        exists_quad_of_scan_eq_ok hscan₂
      by_cases hlow : isLowSurrogate low = true
      · simp only [afterHex, hlow, Bool.not_true, Bool.false_eq_true, if_false, if_true] at hafter
        cases hafter
        rw [hc, hc'.1]
        exact ⟨a, b, c₁, d, low, rest, rfl, hn, hlow, hrest⟩
      · simp [afterHex, hlow] at hafter
    · rw [step] at hstep
      split at hstep
      · next hu =>
        have hbytes : ¬ fourBytes s₂ = true := fun hbytes => hc' ⟨hu, hbytes⟩
        simp [hbytes] at hstep
      · simp at hstep
  · simp [step, hc] at hstep

/-- Characters that belong together in a string, with what they stand for. -/
structure Piece (paired : Bool) (cs ds : List Char) : Prop where
  ne_nil : cs ≠ []
  inside : ∀ {cs'}, Inside cs' → Inside (cs ++ cs')
  spells : paired = true → ∀ {cs' ds'}, Spells cs' ds' → Spells (cs ++ cs') (ds ++ ds')

/-- Four digits are a piece, or eight if they are those of a high surrogate. -/
theorem exists_piece_of_hex
    (h : (scan paired (.hex none 3 0) taken s : Except (Fault ε) _) = .ok (str, v)) :
    ∃ cs ds rest, s = cs ++ rest ∧ Piece paired ('\\' :: 'u' :: cs) ds ∧
      (scan paired .plain (ds.reverse ++ taken) rest : Except (Fault ε) _) = .ok (str, v) := by
  obtain ⟨a, b, c, d, n, rest, mode, taken', rfl, hn, hafter, hrest⟩ := exists_quad_of_scan_eq_ok h
  -- a half of a pair may stand alone only in a string that is passed over
  cases paired with
  | false =>
    cases hafter
    refine ⟨[a, b, c, d], [], rest, rfl, ⟨nofun, .unicode hn, fun hpaired => ?_⟩, hrest⟩
    cases hpaired
  | true =>
    by_cases hlow : isLowSurrogate n = true
    · simp [afterHex, hlow] at hafter
    by_cases hhigh : isHighSurrogate n = true
    · simp only [afterHex, hlow, hhigh, Bool.not_true, Bool.false_eq_true, if_false,
        if_true] at hafter
      cases hafter
      obtain ⟨a', b', c', d', low, rest', rfl, hn', hlow', hrest'⟩ :=
        exists_partner_of_scan_eq_ok hrest
      exact ⟨[a, b, c, d, '\\', 'u', a', b', c', d'], [_], rest', rfl,
        ⟨nofun, fun hcs => .unicode hn (.unicode hn' hcs), fun _ => .pair hn hn' hhigh hlow'⟩, hrest'⟩
    · simp only [afterHex, hlow, hhigh, Bool.not_true, Bool.false_eq_true, if_false] at hafter
      cases hafter
      rw [Bool.not_eq_true] at hlow hhigh
      exact ⟨[a, b, c, d], [_], rest, rfl,
        ⟨nofun, .unicode hn, fun _ => .unicode hn hhigh hlow⟩, hrest⟩

/-- A string ends, or goes on with a piece. -/
theorem exists_piece_of_scan_eq_ok
    (h : (scan paired .plain taken s : Except (Fault ε) _) = .ok (str, v)) :
    s = '"' :: v ∧ str = String.ofList taken.reverse ∨
      ∃ cs ds rest, s = cs ++ rest ∧ Piece paired cs ds ∧
        (scan paired .plain (ds.reverse ++ taken) rest : Except (Fault ε) _) = .ok (str, v) := by
  obtain ⟨c, s₁, rfl, hstep⟩ := exists_step_of_scan_eq_ok h
  rw [step] at hstep
  split at hstep
  · next hquote =>
    rcases hstep with ⟨-, hstr, rfl⟩ | ⟨mode', taken', hsome, -⟩
    · rw [hquote]
      exact .inl ⟨rfl, hstr⟩
    · cases hsome
  next hquote =>
  refine .inr ?_
  split at hstep
  · next hbackslash =>
    rcases hstep with ⟨hnone, -⟩ | ⟨mode', taken', hsome, hscan⟩
    · cases hnone
    cases hsome
    rw [hbackslash]
    obtain ⟨c', s₂, rfl, hstep⟩ := exists_step_of_scan_eq_ok hscan
    rw [step] at hstep
    split at hstep
    · -- an escape in digits
      next hu =>
      rw [hu]
      split at hstep
      · rcases hstep with ⟨hnone, -⟩ | ⟨mode', taken', hsome, hscan⟩
        · cases hnone
        cases hsome
        obtain ⟨cs, ds, rest, rfl, hpiece, hrest⟩ := exists_piece_of_hex hscan
        exact ⟨_, ds, rest, rfl, hpiece, hrest⟩
      · simp at hstep
    · split at hstep
      · -- an escape of one character
        next d hd =>
        rcases hstep with ⟨hnone, -⟩ | ⟨mode', taken', hsome, hrest⟩
        · cases hnone
        cases hsome
        exact ⟨['\\', c'], [d], s₂, rfl, ⟨nofun, .escape hd, fun _ => .escape hd⟩, hrest⟩
      · simp at hstep
  next hbackslash =>
  split at hstep
  · simp at hstep
  · next hcontrol =>
    rcases hstep with ⟨hnone, -⟩ | ⟨mode', taken', hsome, hrest⟩
    · cases hnone
    cases hsome
    have hplain : isPlainChar c = true := by
      simp [isPlainChar, hquote, hbackslash, Nat.not_lt.mp hcontrol]
    exact ⟨[c], [c], s₁, rfl, ⟨nofun, .plain hplain, fun _ => .plain hplain⟩, hrest⟩

/-- What is read up to the closing quote is the inside of a string. -/
theorem exists_inside_of_scan_eq_ok
    (h : (scan paired .plain taken s : Except (Fault ε) _) = .ok (str, v)) :
    ∃ cs, s = cs ++ '"' :: v ∧ Inside cs ∧
      (paired = true → ∃ ds, Spells cs ds ∧ str = String.ofList (taken.reverse ++ ds)) := by
  -- a piece may have several characters, so the induction is on the length of the text
  induction hlength : s.length using Nat.strong_induction_on generalizing s taken with
  | _ length ih =>
  rcases exists_piece_of_scan_eq_ok h with ⟨rfl, rfl⟩ | ⟨cs, ds, rest, rfl, hpiece, hrest⟩
  · exact ⟨[], rfl, .nil, fun _ => ⟨[], .nil, by rw [List.append_nil]⟩⟩
  · have hpos := List.length_pos_iff.mpr hpiece.ne_nil
    rw [List.length_append] at hlength
    obtain ⟨cs', rfl, hinside, hspells⟩ := ih rest.length (by omega) hrest rfl
    refine ⟨cs ++ cs', (List.append_assoc _ _ _).symm, hpiece.inside hinside, fun hpaired => ?_⟩
    obtain ⟨ds', hds, rfl⟩ := hspells hpaired
    exact ⟨ds ++ ds', hpiece.spells hpaired hds, by simp⟩

end Sound

/-- A string that is passed over ends at its closing quote. -/
theorem skip_eq_ok_iff {s v : List Char} : (Text.skip : Reader ε Unit) s = .ok ((), v) ↔
    ∃ cs, s = cs ++ '"' :: v ∧ Inside cs := by
  constructor
  · intro h
    rw [Text.skip] at h
    cases hscan : (scan false .plain [] s : Except (Fault ε) _) with
    | error fault =>
      rw [hscan] at h
      cases h
    | ok p =>
      rw [hscan] at h
      cases h
      obtain ⟨cs, hs, hinside, -⟩ := exists_inside_of_scan_eq_ok hscan
      exact ⟨cs, hs, hinside⟩
  · rintro ⟨cs, rfl, hinside⟩
    obtain ⟨str, hscan⟩ := scan_inside (ε := ε) hinside [] v
    rw [Text.skip, hscan]
    rfl

/-- A string ends at the same quote whoever reads it. -/
theorem inside_unique {cs' rest' : List Char} (h : Inside cs) (h' : Inside cs')
    (heq : cs ++ '"' :: rest = cs' ++ '"' :: rest') : cs = cs' ∧ rest = rest' := by
  have hskip : (Text.skip : Reader Empty Unit) (cs ++ '"' :: rest) = .ok ((), rest) :=
    skip_eq_ok_iff.mpr ⟨cs, rfl, h⟩
  have hskip' : (Text.skip : Reader Empty Unit) (cs ++ '"' :: rest) = .ok ((), rest') :=
    skip_eq_ok_iff.mpr ⟨cs', heq, h'⟩
  rw [hskip] at hskip'
  cases hskip'
  exact ⟨List.append_cancel_right heq, rfl⟩

/-- A string is read as the characters that its inside spells. -/
theorem read_eq_ok_iff {s v : List Char} {str : String} :
    (Text.read : Reader ε String) s = .ok (str, v) ↔
      ∃ cs, s = cs ++ '"' :: v ∧ Spells cs str.toList := by
  constructor
  · intro h
    obtain ⟨cs, hs, -, hspells⟩ := exists_inside_of_scan_eq_ok h
    obtain ⟨ds, hds, rfl⟩ := hspells rfl
    exact ⟨cs, hs, by simpa using hds⟩
  · rintro ⟨cs, rfl, hspells⟩
    rw [Text.read, scan_spells hspells]
    simp

theorem Spells.unique {ds ds' : List Char} (h : Spells cs ds) (h' : Spells cs ds') : ds = ds' := by
  have hscan : (scan true .plain [] (cs ++ '"' :: []) : Except (Fault Empty) _) =
      .ok (String.ofList ([].reverse ++ ds), []) := scan_spells h [] []
  rw [scan_spells h' [] []] at hscan
  have hlist : String.ofList ds' = String.ofList ds := (Prod.mk.inj (Except.ok.inj hscan)).1
  exact (String.ofList_inj.mp hlist).symm

/-- A string that spells nothing is not read, whatever follows it. -/
theorem exists_read_eq_error (h : Inside cs) (hnone : ∀ name : String, ¬ Spells cs name.toList)
    (rest : List Char) : ∃ fault, (Text.read : Reader ε String) (cs ++ '"' :: rest) =
      .error fault := by
  cases hread : (Text.read : Reader ε String) (cs ++ '"' :: rest) with
  | error fault => exact ⟨fault, rfl⟩
  | ok p =>
    obtain ⟨cs', heq, hspells⟩ := read_eq_ok_iff.mp hread
    obtain ⟨rfl, -⟩ := inside_unique h hspells.inside heq
    exact absurd hspells (hnone p.1)

end Text

section Named

variable {m : Member} {name name' : String}

theorem Member.Named.unique (h : m.Named name) (h' : m.Named name') : name = name' :=
  String.toList_inj.mp (Text.Spells.unique h h')

theorem Member.Named.not_named (h : m.Named name) (hne : name ≠ name') : ¬ m.Named name' :=
  fun h' => hne (h.unique h')

theorem Member.Named.not_named_of_mem {names : List String} (h : m.Named name)
    (hname : name ∉ names) (hname' : name' ∈ names) : ¬ m.Named name' := by
  refine h.not_named ?_
  rintro rfl
  exact hname hname'

end Named

/-! ## Numbers -/

namespace Numeral

variable {ε : Type} {cs rest : List Char} (atEnd : Fault ε)

theorem IsExponent.head?_append (h : IsExponent cs) (hrest : Ended rest) :
    ∀ c ∈ (cs ++ rest).head?, c.isDigit = false ∧ c ≠ '.' := by
  cases h with
  | none =>
    intro c hc
    refine ⟨hrest.isDigit_eq_false c hc, ?_⟩
    rintro rfl
    exact hrest.ne (by decide) hc
  | some hletter =>
    intro c hc
    cases hc
    rcases hletter with rfl | rfl <;> decide

/-- Behind the letter of an exponent. -/
theorem exists_signed {sign ds : List Char} (hsign : sign = [] ∨ sign = ['+'] ∨ sign = ['-'])
    (hds : Digits ds) : ∃ e, ∀ rest, Ended rest → (do
      let negative ← accept '-'
      let _ ← if negative then pure false else accept '+'
      let e := Decimal.ofDigits (← someDigits atEnd)
      pure (some (if negative then -(e : Int) else e)) : Reader ε (Option Int))
        (sign ++ ds ++ rest) = .ok (e, rest) := by
  refine ⟨some (if sign = ['-'] then -(Decimal.ofDigits ds : Int) else Decimal.ofDigits ds), ?_⟩
  intro rest hrest
  have hdigits : someDigits atEnd (ds ++ rest) = .ok (ds, rest) :=
    someDigits_append atEnd hds hrest.isDigit_eq_false
  rcases hsign with rfl | rfl | rfl
  · have hminus : (ds ++ rest).head? ≠ some '-' := hds.head?_append_ne rfl rest
    have hplus : (ds ++ rest).head? ≠ some '+' := hds.head?_append_ne rfl rest
    rw [List.nil_append, bind_of_ok (accept_of_ne hminus)]
    exact (bind_of_ok (accept_of_ne hplus)).trans (bind_of_ok hdigits)
  · have hminus : (['+'] ++ ds ++ rest).head? ≠ some '-' := by simp
    rw [bind_of_ok (accept_of_ne hminus)]
    exact (bind_of_ok (accept_cons '+' _)).trans (bind_of_ok hdigits)
  · rw [List.append_assoc, List.singleton_append, bind_of_ok (accept_cons '-' _), if_pos rfl,
      pure_bind]
    exact bind_of_ok hdigits

theorem IsExponent.exists_exponentPart (h : IsExponent cs) :
    ∃ e, ∀ rest, Ended rest → exponentPart atEnd (cs ++ rest) = .ok (e, rest) := by
  cases h with
  | none =>
    refine ⟨Option.none, fun rest hrest => ?_⟩
    rw [exponentPart, List.nil_append, bind_of_ok (accept_of_ne (hrest.ne (by decide))),
      if_neg (by decide), bind_of_ok (accept_of_ne (hrest.ne (by decide)))]
    rfl
  | @some letter sign ds hletter hsign hds =>
    obtain ⟨e, he⟩ := exists_signed atEnd hsign hds
    refine ⟨e, fun rest hrest => ?_⟩
    rw [exponentPart, List.cons_append]
    rcases hletter with rfl | rfl
    · rw [bind_of_ok (accept_cons 'e' _)]
      exact he rest hrest
    · have hE : ('E' :: (sign ++ ds ++ rest)).head? ≠ Option.some 'e' := by simp
      rw [bind_of_ok (accept_of_ne hE), if_neg (by decide), bind_of_ok (accept_cons 'E' _)]
      exact he rest hrest

/-- A number is read up to its end as the same numeral, whatever follows it. -/
theorem IsNumber.exists_read (h : IsNumber cs) :
    ∃ n, ∀ rest, Ended rest → read atEnd (cs ++ rest) = .ok (n, rest) := by
  obtain ⟨hsign, hwhole, hzero, hfraction, hexponent⟩ := h
  rename_i sign whole exponent fraction
  obtain ⟨e, he⟩ := hexponent.exists_exponentPart atEnd
  -- behind the sign all numbers are read alike
  have hbehindSign (negative : Bool) (rest : List Char) (hrest : Ended rest) :
      ((wholePart atEnd) >>= fun whole =>
        fractionPart atEnd >>= fun fraction => exponentPart atEnd >>= fun exponent =>
          pure ⟨negative, whole, fraction, exponent⟩ : Reader ε Numeral)
            (whole ++ (fractionSpelling fraction ++ (exponent ++ rest))) =
        .ok (⟨negative, whole, fraction, e⟩, rest) := by
    have hhead := hexponent.head?_append hrest
    have hfractionPart : fractionPart atEnd (fractionSpelling fraction ++ (exponent ++ rest)) =
        .ok (fraction, exponent ++ rest) :=
      fractionPart_append atEnd hfraction (fun h => (hhead _ h).2 rfl) fun c hc => (hhead c hc).1
    have hwholePart :
        wholePart atEnd (whole ++ (fractionSpelling fraction ++ (exponent ++ rest))) =
          .ok (whole, fractionSpelling fraction ++ (exponent ++ rest)) :=
      wholePart_append atEnd hwhole hzero
        (head?_fractionSpelling_append fraction fun c hc => (hhead c hc).1)
    rw [bind_of_ok hwholePart, bind_of_ok hfractionPart, bind_of_ok (he rest hrest)]
    rfl
  rcases hsign with rfl | rfl
  · refine ⟨⟨false, whole, fraction, e⟩, fun rest hrest => ?_⟩
    have hminus : (whole ++ (fractionSpelling fraction ++ (exponent ++ rest))).head? ≠ some '-' :=
      hwhole.head?_append_ne rfl _
    simp only [List.append_assoc]
    rw [List.nil_append, read, bind_of_ok (accept_of_ne hminus)]
    exact hbehindSign false rest hrest
  · refine ⟨⟨true, whole, fraction, e⟩, fun rest hrest => ?_⟩
    simp only [List.append_assoc]
    rw [List.singleton_append, read, bind_of_ok (accept_cons '-' _)]
    exact hbehindSign true rest hrest

end Numeral

end FactorSearch.Json
