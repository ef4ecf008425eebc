import Mathlib.Tactic.Ring
import Mathlib.Tactic.NormNum
import FactorSearch.Decimal.Text

/-!
# The shortest decimal of a number reads back as the number

The magnitude that a decimal reads as depends on its value alone (`magnitude_mul_ten`), and the
exact value of a finite magnitude reads as that magnitude (`nearest_units`).  Main statement: so
does the decimal that is written for it (`magnitude_shortest`).
-/

namespace FactorSearch

namespace Binary64

/-- Sign and magnitude make up the number. -/
theorem ofMagnitude_magnitude (x : Binary64) : ofMagnitude x.negative x.magnitude = x := by
  have hlt := x.bits.toNat_lt
  have hsign : signBit = 0x8000000000000000 := rfl
  have hbits : (if x.negative then signBit + x.magnitude else x.magnitude) = x.bits.toNat := by
    by_cases hneg : signBit ≤ x.bits.toNat
    · have hnegative : x.negative = true := decide_eq_true hneg
      rw [if_pos hnegative, magnitude, hsign]
      omega
    · have hpositive : ¬ x.negative = true := fun h => hneg (of_decide_eq_true h)
      rw [if_neg hpositive, magnitude, hsign]
      omega
  rw [ofMagnitude, hbits, UInt64.ofNat_toNat]

/-! ## Rounding -/

section Rounding

theorem roundHalfEven_mul_left {k : Nat} (hk : 0 < k) (n d : Nat) :
    roundHalfEven (k * n) (k * d) = roundHalfEven n d := by
  have hmod : k * n % (k * d) = k * (n % d) := Nat.mul_mod_mul_left k n d
  have hdiv : k * n / (k * d) = n / d := Nat.mul_div_mul_left n d hk
  have hlt : 2 * (k * (n % d)) < k * d ↔ 2 * (n % d) < d := by
    rw [Nat.mul_left_comm, Nat.mul_lt_mul_left hk]
  have heq : 2 * (k * (n % d)) = k * d ↔ 2 * (n % d) = d := by
    rw [Nat.mul_left_comm, Nat.mul_right_inj hk.ne']
  simp only [roundHalfEven, hmod, hdiv, hlt, heq]

/-- A whole number is not rounded. -/
theorem roundHalfEven_mul_right {d : Nat} (hd : 0 < d) (n : Nat) :
    roundHalfEven (n * d) d = n := by
  rw [roundHalfEven, Nat.mul_mod_left, Nat.mul_div_cancel _ hd, if_pos (.inl hd)]

theorem nearest_mul_left {k : Nat} (hk : 0 < k) (n d : Nat) :
    nearest (k * n) (k * d) = nearest n d := by
  have hdiv : k * (n * unitsOfOne) / (k * d) = n * unitsOfOne / d := Nat.mul_div_mul_left _ _ hk
  simp only [nearest, Nat.mul_assoc, hdiv, roundHalfEven_mul_left hk]

theorem unitsOfOne_pos : 0 < unitsOfOne := by
  unfold unitsOfOne
  generalize 1074 = n
  exact Nat.two_pow_pos n

/-- What is left of a magnitude without its exponent: 53 digits, or fewer with the least
exponent. -/
theorem shift_bounds (m : Nat) : shift m * binade ≤ m ∧ m - shift m * binade < 2 * binade ∧
    (shift m = 0 ∨ binade ≤ m - shift m * binade) := by
  unfold shift binade
  omega

/-- The digits beyond the 53rd are those that the exponent gives. -/
theorem log2_sub_eq {f s : Nat} (hf : f < 2 * binade) (hs : s = 0 ∨ binade ≤ f) :
    (f * 2 ^ s).log2 - 52 = s := by
  have hbinade : binade = 2 ^ 52 := rfl
  by_cases h₀ : f = 0
  · rcases hs with rfl | hle
    · rw [h₀]
      rfl
    · rw [h₀] at hle
      exact absurd hle (by decide)
  · have hpos : 0 < 2 ^ s := Nat.two_pow_pos s
    have hne : f * 2 ^ s ≠ 0 := Nat.mul_ne_zero h₀ hpos.ne'
    have hlt : (f * 2 ^ s).log2 < 53 + s := by
      rw [Nat.log2_lt hne, pow_add]
      exact Nat.mul_lt_mul_of_pos_right hf hpos
    rcases hs with rfl | hle
    · omega
    · have hge : 52 + s ≤ (f * 2 ^ s).log2 := by
        rw [Nat.le_log2 hne, pow_add]
        exact Nat.mul_le_mul_right _ hle
      omega

/-- The exact value of a finite magnitude is nearest to that magnitude. -/
theorem nearest_units {m : Nat} (hm : m < infinity) : nearest (units m) unitsOfOne = m := by
  obtain ⟨hle, hlt, hnormal⟩ := shift_bounds m
  have hlog : (units m).log2 - 52 = shift m := log2_sub_eq hlt hnormal
  -- the units are a multiple of the last place, so there is nothing to round
  have hround : roundHalfEven (units m * unitsOfOne) (unitsOfOne * Nat.pow 2 (shift m)) =
      m - shift m * binade := by
    have hpos : 0 < unitsOfOne * Nat.pow 2 (shift m) :=
      Nat.mul_pos unitsOfOne_pos (Nat.two_pow_pos _)
    rw [units, Nat.mul_assoc, Nat.mul_comm (Nat.pow 2 _)]
    exact roundHalfEven_mul_right hpos _
  rw [nearest, Nat.mul_div_cancel _ unitsOfOne_pos, hlog, hround, Nat.add_sub_cancel' hle,
    Nat.min_eq_right hm.le]

theorem units_pos {m : Nat} (h₀ : 0 < m) : 0 < units m := by
  obtain ⟨hle, -, hnormal⟩ := shift_bounds m
  have hbinade : 0 < binade := by decide
  have hpos : 0 < m - shift m * binade := by
    rcases hnormal with hs | hle'
    · rw [hs]
      omega
    · omega
  exact Nat.mul_pos hpos (Nat.two_pow_pos _)

theorem units_lt {m : Nat} (hm : m < infinity) : units m < 2 * binade * 2 ^ 2045 := by
  obtain ⟨-, hlt, -⟩ := shift_bounds m
  have hs : shift m ≤ 2045 := by
    unfold shift
    unfold infinity binade at *
    omega
  generalize 2045 = most at hs ⊢
  have hpow : Nat.pow 2 (shift m) ≤ 2 ^ most := Nat.pow_le_pow_right (by decide) hs
  exact Nat.mul_lt_mul_of_lt_of_le hlt hpow (Nat.two_pow_pos _)

end Rounding

end Binary64

namespace Decimal

/-! ## The magnitude of a decimal -/

section Value

theorem digitsOf_mul_ten {c : Nat} (hc : 0 < c) : digitsOf (10 * c) = digitsOf c ++ ['0'] := by
  have h : Nat.toDigits 10 c ++ Nat.toDigits 10 0 = Nat.toDigits 10 (10 * c + 0) :=
    Nat.toDigits_append_toDigits (by decide) hc (by decide)
  rw [Nat.toDigits_zero, Nat.add_zero] at h
  exact h.symm

theorem pointPosition_mul_ten {c : Nat} (hc : 0 < c) (e : Int) :
    (⟨10 * c, e - 1⟩ : Decimal).pointPosition = (⟨c, e⟩ : Decimal).pointPosition := by
  simp only [pointPosition, digits, digitsOf_mul_ten hc, List.length_append, List.length_singleton]
  omega

/-- A zero behind the coefficient makes up for one less in the exponent. -/
theorem magnitude_mul_ten (c : Nat) (e : Int) :
    (⟨10 * c, e - 1⟩ : Decimal).magnitude = (⟨c, e⟩ : Decimal).magnitude := by
  rcases Nat.eq_zero_or_pos c with rfl | hc
  · simp [magnitude]
  · have hzero : (10 * c = 0) = (c = 0) := by simp
    have hnearest : Binary64.nearest (10 * c * Nat.pow 10 (e - 1).toNat)
        (Nat.pow 10 (-(e - 1)).toNat) =
          Binary64.nearest (c * Nat.pow 10 e.toNat) (Nat.pow 10 (-e).toNat) := by
      rcases Int.lt_or_le 0 e with he | he
      · -- the power of ten stands in the numerator
        have h₁ : e.toNat = (e - 1).toNat + 1 := by omega
        have h₂ : (-(e - 1)).toNat = (-e).toNat := by omega
        have hpow : Nat.pow 10 ((e - 1).toNat + 1) = Nat.pow 10 (e - 1).toNat * 10 := rfl
        rw [h₁, h₂, hpow]
        congr 1
        ring
      · -- it stands in the denominator
        have h₁ : (e - 1).toNat = e.toNat := by omega
        have h₂ : (-(e - 1)).toNat = (-e).toNat + 1 := by omega
        have hpow : Nat.pow 10 ((-e).toNat + 1) = 10 * Nat.pow 10 (-e).toNat := Nat.mul_comm _ _
        rw [h₁, h₂, hpow, Nat.mul_assoc, Binary64.nearest_mul_left (by decide)]
    simp only [magnitude, pointPosition_mul_ten hc, hzero, hnearest]

theorem magnitude_mul_pow (c k : Nat) (e : Int) :
    (⟨c * 10 ^ k, e - k⟩ : Decimal).magnitude = (⟨c, e⟩ : Decimal).magnitude := by
  induction k with
  | zero => simp
  | succ k ih =>
    have hc : c * 10 ^ (k + 1) = 10 * (c * 10 ^ k) := by ring
    have he : e - (k + 1 : Nat) = e - k - 1 := by omega
    rw [hc, he, magnitude_mul_ten, ih]

@[simp] theorem magnitude_trim (d : Decimal) : d.trim.magnitude = d.magnitude := by
  fun_induction trim d with
  | case1 d h =>
    simp [magnitude, h]
  | case2 d h₀ hmod ih =>
    have hc : 10 * (d.coefficient / 10) = d.coefficient := by omega
    rw [ih, ← magnitude_mul_ten, hc, Int.add_sub_cancel]
  | case3 d h₀ hmod => rfl

/-- A trimmed zero has no exponent. -/
theorem exponent_trim {d : Decimal} (h : d.trim.coefficient = 0) : d.trim.exponent = 0 := by
  fun_induction trim d with
  | case1 d h => rfl
  | case2 d h₀ hmod ih => exact ih h
  | case3 d h₀ hmod => exact absurd h h₀

end Value

/-! ## The decimal that is written -/

section Shortest

variable {m : Nat}

/-- A neighbour is one that reads back. -/
theorem magnitude_neighbour? {tie : Tie} {e : Int} {d : Decimal}
    (h : neighbour? tie m e = some d) : d.magnitude = m := by
  rw [neighbour?] at h
  have hread := List.find?_some h
  exact of_decide_eq_true hread

/-- The size of the coefficient tells where the point stands. -/
theorem pointPosition_bounds {d : Decimal} {k l : Nat} (hk : 0 < k)
    (hlow : 10 ^ k ≤ d.coefficient) (hl : 0 < l) (hhigh : d.coefficient < 10 ^ l) :
    k + d.exponent < d.pointPosition ∧ d.pointPosition ≤ l + d.exponent := by
  have hlow' : ¬ d.digits.length ≤ k := fun hle =>
    Nat.not_le_of_lt ((Nat.length_toDigits_le_iff (by decide) hk).mp hle) hlow
  have hhigh' : d.digits.length ≤ l := (Nat.length_toDigits_le_iff (by decide) hl).mpr hhigh
  unfold pointPosition
  omega

theorem coefficient_exact (m : Nat) :
    (exact m).coefficient = Binary64.units m * Nat.pow 5 1074 := rfl

theorem exponent_exact (m : Nat) : (exact m).exponent = -1074 := rfl

/-- The exact value of a finite number lies where magnitudes are looked for. -/
theorem pointPosition_exact (h₀ : 0 < m) (hm : m < Binary64.infinity) :
    ¬ (exact m).pointPosition < -330 ∧ ¬ 310 < (exact m).pointPosition := by
  have hleast : 10 ^ 743 ≤ Nat.pow 5 1074 := by decide +kernel
  have hmost : 2 * Binary64.binade * 2 ^ 2045 * Nat.pow 5 1074 ≤ 10 ^ 1384 := by decide +kernel
  have hpos : 0 < Nat.pow 5 1074 := by decide +kernel
  have hc := coefficient_exact m
  have he := exponent_exact m
  -- from here on the power must not be opened
  generalize exact m = d at hc he ⊢
  generalize Nat.pow 5 1074 = p at hleast hmost hpos hc
  have hlow : 10 ^ 743 ≤ d.coefficient := by
    rw [hc]
    exact hleast.trans (Nat.le_mul_of_pos_left _ (Binary64.units_pos h₀))
  have hhigh : d.coefficient < 10 ^ 1384 := by
    rw [hc]
    exact (Nat.mul_lt_mul_of_pos_right (Binary64.units_lt hm) hpos).trans_le hmost
  obtain ⟨h₁, h₂⟩ := pointPosition_bounds (by decide) hlow (by decide) hhigh
  clear hleast hmost hlow hhigh hc
  omega

theorem magnitude_of_coefficient_eq_zero {d : Decimal} (h : d.coefficient = 0) :
    d.magnitude = 0 := by
  rw [magnitude, if_pos (.inl h)]

theorem magnitude_exact (hm : m < Binary64.infinity) : (exact m).magnitude = m := by
  have hc := coefficient_exact m
  have he := exponent_exact m
  rcases Nat.eq_zero_or_pos m with rfl | h₀
  · generalize exact 0 = d at hc ⊢
    generalize Nat.pow 5 1074 = p at hc
    have hunits : Binary64.units 0 = 0 := rfl
    rw [hunits, Nat.zero_mul] at hc
    exact magnitude_of_coefficient_eq_zero hc
  · obtain ⟨hlow, hhigh⟩ := pointPosition_exact h₀ hm
    have hpos : 0 < Nat.pow 5 1074 := by decide +kernel
    -- the power of five is a factor of both sides, and what is left of the ten is the unit
    have hten : Nat.pow 10 1074 = Nat.pow 5 1074 * Binary64.unitsOfOne := by
      delta Binary64.unitsOfOne
      generalize 1074 = n
      exact Nat.mul_pow 5 2 n
    generalize exact m = d at hc he hlow hhigh ⊢
    generalize Nat.pow 5 1074 = p at hpos hc hten
    generalize hplaces : 1074 = places at hten
    have hne : d.coefficient ≠ 0 := by
      rw [hc]
      exact (Nat.mul_pos (Binary64.units_pos h₀) hpos).ne'
    have hnum : d.exponent.toNat = 0 := by
      rw [he]
      rfl
    have hden : (-d.exponent).toNat = places := by
      rw [he, ← hplaces]
      rfl
    have hone : Nat.pow 10 0 = 1 := rfl
    rw [magnitude, if_neg (not_or.mpr ⟨hne, hlow⟩), if_neg hhigh, hnum, hden, hten, hone,
      Nat.mul_one, hc, Nat.mul_comm, Binary64.nearest_mul_left hpos]
    exact Binary64.nearest_units hm

/-- The decimal that is written for a finite number reads back as the number. -/
theorem magnitude_shortest (tie : Tie) (hm : m < Binary64.infinity) :
    (shortest tie m).magnitude = m := by
  delta shortest
  extract_lets place found
  rw [magnitude_trim]
  cases hfound : found with
  | none => exact magnitude_exact hm
  | some d =>
    obtain ⟨k, -, hk⟩ := List.exists_of_findSome?_eq_some hfound
    exact magnitude_neighbour? hk

/-- Zero is written without an exponent. -/
theorem exponent_shortest (tie : Tie) (m : Nat) (h : (shortest tie m).coefficient = 0) :
    (shortest tie m).exponent = 0 :=
  exponent_trim h

end Shortest

end Decimal

end FactorSearch
