import FactorSearch.Token

/-!
# Equality by value

Two numbers are equal by value if they are one number and no NaN, or two zeros.  So equal numbers
have the same bits, unless they are zeros of opposite signs; tokens follow their constants.
-/

namespace FactorSearch

namespace Binary64

variable {x y : Binary64}

/-- A number is its sign and its magnitude. -/
theorem eq_of_negative_of_magnitude (hn : x.negative = y.negative)
    (hm : x.magnitude = y.magnitude) : x = y := by
  have hx := x.bits.toNat_lt
  have hy := y.bits.toNat_lt
  simp only [negative, decide_eq_decide] at hn
  simp only [magnitude] at hm
  have hbits : x.bits.toNat = y.bits.toNat := by
    simp only [signBit] at hn hm
    omega
  obtain ⟨b⟩ := x
  obtain ⟨b'⟩ := y
  exact congrArg Binary64.mk (UInt64.toNat_inj.mp hbits)

theorem isNaN_of_isZero (hx : x.isZero = true) : x.isNaN = false := by
  have hm : x.magnitude = 0 := of_decide_eq_true hx
  simp [isNaN, hm]

theorem isNaN_of_isFinite (hx : x.isFinite = true) : x.isNaN = false := by
  have hm : x.magnitude < infinity := of_decide_eq_true hx
  exact decide_eq_false (by omega)

theorem ieeeEq_iff :
    x.ieeeEq y = true ↔ x = y ∧ y.isNaN = false ∨ x.isZero = true ∧ y.isZero = true := by
  simp only [ieeeEq, Bool.and_eq_true, Bool.or_eq_true, Bool.not_eq_true', beq_iff_eq]
  constructor
  · rintro ⟨⟨-, hy⟩, h | h⟩
    · exact .inl ⟨h, hy⟩
    · exact .inr h
  · rintro (⟨rfl, hy⟩ | ⟨hx, hy⟩)
    · exact ⟨⟨hy, hy⟩, .inl rfl⟩
    · exact ⟨⟨isNaN_of_isZero hx, isNaN_of_isZero hy⟩, .inr ⟨hx, hy⟩⟩

theorem ieeeEq_comm : x.ieeeEq y = y.ieeeEq x := by
  have h : ∀ {x y : Binary64}, x.ieeeEq y = true → y.ieeeEq x = true := by
    intro x y h
    rcases ieeeEq_iff.mp h with ⟨rfl, -⟩ | ⟨hx, hy⟩
    · exact h
    · exact ieeeEq_iff.mpr (.inr ⟨hy, hx⟩)
  exact Bool.eq_iff_iff.mpr ⟨h, h⟩

/-- Numbers equal by value differ only if they are zeros of opposite signs. -/
theorem eq_or_opposite_of_ieeeEq (h : x.ieeeEq y = true) :
    x = y ∨ x.isZero = true ∧ y.isZero = true ∧ x.negative ≠ y.negative := by
  rcases ieeeEq_iff.mp h with ⟨h, -⟩ | ⟨hx, hy⟩
  · exact .inl h
  · by_cases hn : x.negative = y.negative
    · have hx' : x.magnitude = 0 := of_decide_eq_true hx
      have hy' : y.magnitude = 0 := of_decide_eq_true hy
      exact .inl (eq_of_negative_of_magnitude hn (hx'.trans hy'.symm))
    · exact .inr ⟨hx, hy, hn⟩

end Binary64

namespace Token

variable {s t : Token}

theorem kind_eq_of_ieeeEq (h : s.ieeeEq t = true) : s.kind = t.kind := by
  cases s <;> cases t <;> first | rfl | simp [ieeeEq] at h

theorem ieeeEq_comm : s.ieeeEq t = t.ieeeEq s := by
  cases s <;> cases t <;> simp [ieeeEq, Binary64.ieeeEq_comm, eq_comm]

/-- Tokens equal by value differ only if they are zeros of opposite signs. -/
theorem eq_or_opposite_of_ieeeEq (h : s.ieeeEq t = true) :
    s = t ∨ ∃ a b : Binary64, s = .constant a ∧ t = .constant b ∧
      a.isZero = true ∧ b.isZero = true ∧ a.negative ≠ b.negative := by
  by_cases hs : ∃ a, s = .constant a
  · obtain ⟨a, rfl⟩ := hs
    obtain ⟨b, rfl⟩ : ∃ b, t = .constant b := by
      have hk : Kind.constant = t.kind := kind_eq_of_ieeeEq h
      cases t <;> first | exact ⟨_, rfl⟩ | cases hk
    rcases Binary64.eq_or_opposite_of_ieeeEq h with rfl | ⟨ha, hb, hn⟩
    · exact .inl rfl
    · exact .inr ⟨a, b, rfl, rfl, ha, hb, hn⟩
  · have heq : s.ieeeEq t = decide (s = t) := by
      cases s <;> first | rfl | exact absurd ⟨_, rfl⟩ hs
    rw [heq] at h
    exact .inl (of_decide_eq_true h)

end Token

end FactorSearch
