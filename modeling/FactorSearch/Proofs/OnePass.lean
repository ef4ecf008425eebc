import FactorSearch.Proofs.Drafts
import FactorSearch.Proofs.Written

/-!
# A library that reads in one pass does what libraries document

However it rounds, it converts, reads and refuses as it should (`reading_onePass`,
`tracing_onePass`), and no number is infinite for it (`finite_onePass`).  If it rounds to the nearest,
it reads what it has written (`writing_onePass`).
-/

namespace FactorSearch

/-! ## Numbers are finite -/

namespace Binary64

theorem isFinite_ofMagnitude (negative : Bool) {m : Nat} (hm : m < infinity) :
    (ofMagnitude negative m).isFinite = true := by
  have hinfinity : infinity = 0x7ff0000000000000 := rfl
  have hbits : (if negative then signBit + m else m) < 2 ^ 64 := by
    unfold signBit
    split <;> omega
  have hmagnitude : (ofMagnitude negative m).magnitude = m := by
    rw [magnitude, ofMagnitude, UInt64.toNat_ofNat_of_lt' hbits]
    unfold signBit
    split <;> omega
  rw [isFinite, hmagnitude]
  exact decide_eq_true hm

theorem roundHalfEven_le (n d : Nat) : roundHalfEven n d ≤ n / d + 1 := by
  unfold roundHalfEven
  split <;> omega

/-- Without the places that are rounded off, 53 digits are left at most. -/
theorem div_two_pow_lt (n : Nat) : n / 2 ^ (n.log2 - 52) < 2 ^ 53 := by
  have hlt : n < 2 ^ (n.log2 + 1) := Nat.lt_log2_self
  have hle : 2 ^ (n.log2 + 1) ≤ 2 ^ (53 + (n.log2 - 52)) :=
    Nat.pow_le_pow_right (by decide) (by omega)
  rw [Nat.div_lt_iff_lt_mul (Nat.two_pow_pos _), ← pow_add]
  exact hlt.trans_le hle

theorem log2_mul_unitsOfOne_le {n k : Nat} (hn : n < 2 ^ k) :
    (n * unitsOfOne).log2 ≤ k + 1074 := by
  rcases Nat.eq_zero_or_pos n with rfl | hpos
  · simp
  · have hne : n * unitsOfOne ≠ 0 := (Nat.mul_pos hpos unitsOfOne_pos).ne'
    refine Nat.le_of_lt ((Nat.log2_lt hne).mpr ?_)
    -- the power must not be opened
    delta unitsOfOne
    generalize 1074 = e
    rw [pow_add]
    exact Nat.mul_lt_mul_of_pos_right hn (Nat.two_pow_pos e)

/-- The whole numbers of 64 bits are far below infinity. -/
theorem nearest_one_lt_infinity {n : Nat} (hn : n < 2 ^ 65) : nearest n 1 < infinity := by
  have hlog : (n * unitsOfOne).log2 ≤ 65 + 1074 := log2_mul_unitsOfOne_le hn
  have hnearest : nearest n 1 = min infinity (((n * unitsOfOne).log2 - 52) * binade +
      roundHalfEven (n * unitsOfOne) (2 ^ ((n * unitsOfOne).log2 - 52))) := by
    rw [nearest, Nat.div_one, Nat.one_mul]
    rfl
  rw [hnearest]
  generalize n * unitsOfOne = u at hlog ⊢
  have hround := roundHalfEven_le u (2 ^ (u.log2 - 52))
  have hdigits := div_two_pow_lt u
  rw [infinity, binade]
  omega

theorem isFinite_ofInt {n : Int} (hn : n.natAbs < 2 ^ 65) : (ofInt n).isFinite = true :=
  isFinite_ofMagnitude _ (nearest_one_lt_infinity hn)

end Binary64

namespace Json

open Reader

namespace Numeral

theorem natAbs_lt_of_integer?_eq_some {n : Numeral} {k : Int} (h : n.integer? = some k) :
    k.natAbs < 2 ^ 65 := by
  unfold integer? at h
  split at h
  · cases h
  · have hsize : UInt64.size = 2 ^ 64 := rfl
    dsimp only at h
    split at h
    · split at h
      · cases h
        omega
      · cases h
    · split at h
      · cases h
        omega
      · cases h

/-- A numeral that has a value has a finite one, whichever way it is rounded. -/
theorem isFinite_of_number?_eq_some {round : Numeral → Nat} {n : Numeral} {x : Number}
    (h : n.number? round = some x) : x.toBinary64.isFinite = true := by
  rw [number?] at h
  -- a whole number is far below the largest float, and every other one was tested
  cases hinteger : n.integer? with
  | some k =>
    rw [hinteger] at h
    cases h
    exact Binary64.isFinite_ofInt (natAbs_lt_of_integer?_eq_some hinteger)
  | none =>
    rw [hinteger] at h
    obtain ⟨y, hy, rfl⟩ := Option.map_eq_some_iff.mp h
    by_cases hm : round n < Binary64.infinity
    · rw [float?, if_pos hm] at hy
      cases hy
      exact Binary64.isFinite_ofMagnitude _ hm
    · rw [float?, if_neg hm] at hy
      cases hy

end Numeral

variable {ε α : Type} (round : Numeral → Nat)

/-! ## Whole texts -/

theorem write_onePass (format : Format ε α) (a : α) :
    (onePass ε round).write format a = String.ofList (format.writer a) := rfl

theorem read_onePass_eq_ok_iff {format : Format ε α} {text : String} {a : α} :
    (onePass ε round).read format text = .ok a ↔
      ∃ rest, format.reader round text.toList = .ok (a, rest) ∧ rest.all isBlank = true :=
  run_eq_ok_iff

/-- A text that is read to its end. -/
theorem read_onePass_eq_ok {format : Format ε α} {v : List Char} {a : α}
    (h : format.reader round v = .ok (a, [])) :
    (onePass ε round).read format (String.ofList v) = .ok a := by
  refine (read_onePass_eq_ok_iff round).mpr ⟨[], ?_, rfl⟩
  rw [String.toList_ofList, h]

/-- A number is read as the value of its numeral, and so is the numeral alone. -/
theorem ensures_float {refusals : ε → Prop} : Ensures refusals (float round) fun x =>
    x.isFinite = true ∧ ∃ text, (onePass ε round).read .float text = .ok x := by
  refine (ensures_number round "f64").bind fun x hx => ensures_pure ?_
  obtain ⟨n, hn, hvalue⟩ := hx
  refine ⟨Numeral.isFinite_of_number?_eq_some hvalue, String.ofList n.spelling,
    read_onePass_eq_ok round ?_⟩
  rw [Format.reader, float, bind_of_ok (number_spelling hn hvalue _)]
  rfl

theorem finite_onePass : (onePass ε round).Finite := by
  intro text x h
  have hfloat : Ensures (fun _ => True) (float round : Reader ε Binary64) _ := ensures_float round
  exact (hfloat.of_run_eq_ok h).1

/-! ## Conversions -/

theorem converting_onePass : (onePass ε round).Converting where
  accepted base accept origin text b := by
    simp only [read_onePass_eq_ok_iff, Format.reader]
    constructor
    · rintro ⟨rest, h, hblank⟩
      obtain ⟨a, s, hread, haccept⟩ := exists_of_bind_eq_ok h
      -- a value that is refused makes a fault, so this one was accepted
      cases ha : accept a with
      | error cause =>
        rw [ha] at haccept
        cases haccept
      | ok b' =>
        rw [ha] at haccept
        cases haccept
        exact ⟨a, ⟨rest, hread, hblank⟩, ha⟩
    · rintro ⟨a, ⟨rest, hread, hblank⟩, ha⟩
      refine ⟨rest, (bind_of_ok hread).trans ?_, hblank⟩
      rw [ha]
      rfl
  refused base accept origin text a cause hread haccept := by
    obtain ⟨rest, hread, -⟩ := (read_onePass_eq_ok_iff round).mp hread
    refine run_eq_refused_iff.mpr ?_
    rw [Format.reader, bind_of_ok hread, haccept]
    rfl

/-! ## Well-formed texts -/

/-- Each element is a value, so it is given in the list as it is read alone. -/
theorem forall₂_gives_iff {format : Format ε α} {es : List Element} {as : List α}
    (hformat : Decisive (format.reader round)) (hes : ∀ e ∈ es, IsValue e.value) :
    List.Forall₂ (fun e a => Gives (format.reader round) e.value a) es as ↔
      List.Forall₂ (fun e a => (onePass ε round).Reads format e.value a) es as := by
  constructor
  · intro h
    have hboth := (List.forall₂_and_left es as).mpr ⟨hes, h⟩
    exact hboth.imp fun e a he => (gives_iff_reads round hformat he.1).mp he.2
  · intro h
    have hboth := (List.forall₂_and_left es as).mpr ⟨hes, h⟩
    exact hboth.imp fun e a he => (gives_iff_reads round hformat he.1).mpr he.2

theorem reading_onePass : (onePass ε round).Reading where
  toConverting := converting_onePass round
  blanks format before v behind a hbefore hv hbehind := by
    have hformat := format.decisive_reader round
    exact (hformat.run_eq_ok_iff hv hbefore hbehind).trans (hformat.gives_iff_run hv)
  list element s as _ hs := by
    have helement := element.decisive_reader round
    refine ((decisive_list round helement).gives_iff_run hs.isValue).symm.trans ?_
    exact (settled_list round helement hs).gives_iff.trans (forall₂_gives_iff round helement hs.values)
  record title fields make split o a _ ho := by
    have hfields := fields.allDecisive round
    -- all readers are decisive, so an object read on its own stands for it anywhere
    have hrecord := decisive_record round title hfields
    refine ((hrecord.map make).gives_iff_run ho.isValue).symm.trans ?_
    refine (hrecord.gives_map_iff ho.isValue).trans ?_
    simp only [(settled_record round hfields ho).gives_iff]
    constructor
    · rintro ⟨values, ⟨d, hd, hvalues⟩, ha⟩
      exact ⟨d, values, hd, hvalues, ha⟩
    · rintro ⟨d, values, hd, hvalues, ha⟩
      exact ⟨values, ⟨d, hd, hvalues⟩, ha⟩

/-! ## All texts -/

theorem Draft.made_blank {ts : List Type} (fields : Fields ε ts) :
    fields.Made (onePass ε round) (Draft.blank ts) := by
  cases fields with
  | nil => trivial
  | cons name default format rest => exact ⟨nofun, made_blank rest⟩

mutual

/-- What is read is made of what is read, and what is refused is refused by a conversion. -/
theorem Format.ensures_reader : {α : Type} → (format : Format ε α) →
    Ensures (format.Refuses (onePass ε round)) (format.reader round)
      (format.Made (onePass ε round))
  | _, @Format.unsigned _ _ _ => (safe_natural round _ _).bind fun _ => safe_pure _
  | _, .float => (ensures_float round).mono fun _ hx => hx.2
  | _, @Format.named _ _ _ => safe_named round
  | _, .list element => ensures_list round element.ensures_reader
  | _, .record title fields make _ => by
    have hrecord : Ensures (fields.Refuses (onePass ε round))
        (record fields round title (fields.member round) (fields.elements round)) fun values =>
          ∃ d, fields.Made (onePass ε round) d ∧ fields.complete d = .ok values :=
      ensures_record round title (Draft.made_blank round fields) fields.ensures_member
        fields.ensures_elements fun d values hd hvalues => ⟨d, hd, hvalues⟩
    refine hrecord.bind fun values hvalues => ensures_pure ?_
    obtain ⟨d, hd, hcomplete⟩ := hvalues
    exact ⟨d, values, hd, hcomplete, rfl⟩
  | _, .convert base accept _ => by
    refine (base.ensures_reader.allow fun cause => Or.inl).bind fun a ha => ?_
    cases haccept : accept a with
    | ok b => exact ensures_pure ⟨a, ha, haccept⟩
    | error cause => exact ensures_refused (.inr ⟨a, ha, haccept⟩)

/-- A member keeps a draft made of what is read. -/
theorem Fields.ensures_member : {ts : List Type} → (fields : Fields ε ts) → (key : String) →
    (d : Draft ts) → fields.Made (onePass ε round) d →
    Ensures (fields.Refuses (onePass ε round)) (fields.member round key d)
      (fields.Made (onePass ε round))
  | _, .nil, _, _, _ =>
    (safe_mark ':').bind fun _ => safe_skipValue.bind fun _ => ensures_pure trivial
  | _, .cons name _ format rest, key, (a?, d), hd => by
    obtain ⟨ha, hd⟩ := hd
    rw [Fields.member]
    split
    · split
      · exact ensures_mismatch _
      · refine (safe_mark ':').bind fun _ => ?_
        refine (format.ensures_reader.allow fun cause => Or.inl).bind fun a ha => ensures_pure ?_
        refine ⟨fun a' ha' => ?_, hd⟩
        cases ha'
        exact ha
    · refine ((rest.ensures_member key d hd).allow fun cause => Or.inr).bind fun d' hd' => ?_
      exact ensures_pure ⟨ha, hd'⟩

theorem Fields.ensures_elements : {ts : List Type} → (fields : Fields ε ts) → (first : Bool) →
    Ensures (fields.Refuses (onePass ε round)) (fields.elements round first)
      (fields.Made (onePass ε round))
  | _, .nil, _ => ensures_pure trivial
  | _, .cons _ _ format rest, first => by
    rw [Fields.elements]
    refine (safe_moreElements first).bind fun more => ?_
    split
    · refine (format.ensures_reader.allow fun cause => Or.inl).bind fun a ha => ?_
      refine ((rest.ensures_elements false).allow fun cause => Or.inr).bind fun d hd => ?_
      refine ensures_pure ⟨fun a' ha' => ?_, hd⟩
      cases ha'
      exact ha
    · exact ensures_pure (Draft.made_blank round (.cons _ _ format rest))

end

theorem tracing_onePass : (onePass ε round).Tracing where
  toConverting := converting_onePass round
  made format _ _ h := (format.ensures_reader round).of_run_eq_ok h
  refusal format _ _ h := (format.ensures_reader round).of_run_eq_refused h

/-! ## Texts that are written -/

/-- The members that are written are those of the fields. -/
theorem Fields.writtenAs_bare {ts : List Type} (fields : Fields ε ts) (values : Values ts) :
    fields.WrittenAs (onePass ε round) values ((fields.writer values).map Member.bare) := by
  cases fields with
  | nil => rfl
  | cons name default format rest =>
    obtain ⟨a, values⟩ := values
    refine ⟨Member.named_bare (name, format.writer a), ?_, rest.writtenAs_bare values⟩
    exact String.toList_ofList.symm

theorem writing_onePass : (onePass ε Numeral.nearest).Writing where
  list element as := by
    refine ⟨.bare (as.map element.writer), Sequence.wellFormed_bare fun v hv => ?_, ?_, ?_⟩
    · obtain ⟨a, -, rfl⟩ := List.mem_map.mp hv
      exact element.isValue_writer a
    · simp [Sequence.bare, Element.bare, write_onePass, Function.comp_def]
    · rw [Sequence.bare_chars, write_onePass, String.toList_ofList, Format.writer]
  record title fields make split a := by
    refine ⟨.bare (fields.writer (split a)), Object.wellFormed_bare (fields.isValue_writer _),
      fields.writtenAs_bare _ _, ?_⟩
    rw [Object.bare_chars, write_onePass, String.toList_ofList, Format.writer]
  convert base accept origin b := by
    rw [write_onePass, write_onePass, Format.writer]
  unsigned a := by
    rw [write_onePass, Format.writer]
    refine read_onePass_eq_ok _ ?_
    rw [Format.reader, unsigned_natural]
  named a := by
    rw [write_onePass, Format.writer]
    refine read_onePass_eq_ok _ ?_
    rw [Format.reader, named_name]
  float hx := by
    rw [write_onePass, Format.writer]
    refine read_onePass_eq_ok _ ?_
    rw [Format.reader, float_float hx]
  float_null {x} hx := by
    rw [write_onePass, Format.writer, float_of_not_isFinite (Bool.eq_false_iff.mp hx)]
  null x h := by
    obtain ⟨rest, hread, -⟩ := (read_onePass_eq_ok_iff _).mp h
    have htext : "null".toList = ['n', 'u', 'l', 'l'] := rfl
    rw [htext, Format.reader, float_null] at hread
    cases hread

end Json

end FactorSearch
