import FactorSearch.Mask
import FactorSearch.Legality

/-!
# The mask of a legality report

An operator is allowed if its category is; the tokens of any other kind are allowed or not as one
block of ids.  `legalMask?` writes a mask flag by flag; no write leaves the action space, so
`legalMask` has a mask for every vocabulary and every report.
-/

namespace FactorSearch

namespace Legality

/-- The kinds of tokens that one flag allows as a whole. -/
def blocks : List (Flag × Token.Kind) :=
  [(.feature, .feature), (.constant, .constant), (.deltaTime, .deltaTime),
    (.terminator, .terminator)]

end Legality

namespace Vocabulary

variable (v : Vocabulary) (legal : Legality)

/-- Allows the operators of legal categories; the first of `ops` has the id `id`. -/
def allowOperators? : List Operator → Nat → Mask → Option Mask
  | [], _, m => some m
  | op :: ops, id, m =>
    if legal.categories.get op.category then
      (m.allow? id).bind (allowOperators? ops (id + 1))
    else allowOperators? ops (id + 1) m

/-- Allows the blocks of legal kinds. -/
def allowBlocks? : List (Legality.Flag × Token.Kind) → Mask → Option Mask
  | [], m => some m
  | (flag, kind) :: rest, m =>
    if legal.get flag then (m.allowBlock? (v.layout.ids kind)).bind (allowBlocks? rest)
    else allowBlocks? rest m

def legalMask? : Option Mask :=
  (allowOperators? legal v.operators (v.layout.ids .operator).start
    (Mask.empty v.layout.actions)).bind (v.allowBlocks? legal Legality.blocks)

section Defined

variable {v legal}

theorem layout_actions : v.layout.actions = v.size := by
  simp only [Layout.actions, layout, emptySlots, size]
  omega

theorem exists_allowOperators?_eq_some (ops : List Operator) (id : Nat) (m : Mask)
    (h : id + ops.length ≤ m.size) :
    ∃ m', allowOperators? legal ops id m = some m' ∧ m'.size = m.size := by
  -- every operator takes one id, so the others start one further, in a mask of the same size
  induction ops generalizing id m with
  | nil => exact ⟨m, rfl, rfl⟩
  | cons op ops ih =>
    simp only [List.length_cons] at h
    rw [allowOperators?]
    split
    · have hid : id < m.size := by omega
      obtain ⟨m₁, h₁⟩ : ∃ m₁, m.allow? id = some m₁ := by simp [Mask.allow?, hid]
      have hs := Mask.size_of_allow? h₁
      obtain ⟨m₂, h₂, h₃⟩ := ih (id + 1) m₁ (by omega)
      exact ⟨m₂, by rw [h₁]; exact h₂, by omega⟩
    · exact ih (id + 1) m (by omega)

theorem exists_allowBlocks?_eq_some (rest : List (Legality.Flag × Token.Kind)) (m : Mask)
    (h : m.size = v.size) : ∃ m', v.allowBlocks? legal rest m = some m' ∧ m'.size = v.size := by
  induction rest generalizing m with
  | nil => exact ⟨m, rfl, h⟩
  | cons p rest ih =>
    obtain ⟨flag, kind⟩ := p
    rw [allowBlocks?]
    split
    · -- every block ends within the mask, which has one entry for each action
      obtain ⟨m₁, h₁⟩ : ∃ m₁, m.allowBlock? (v.layout.ids kind) = some m₁ := by
        have hb : (v.layout.ids kind).start ≤ (v.layout.ids kind).stop ∧
            (v.layout.ids kind).stop ≤ m.size := by
          rw [h]
          cases kind <;> simp only [Layout.ids, Layout.slots, layout, emptySlots, size] <;> omega
        simp [Mask.allowBlock?, hb]
      obtain ⟨m₂, h₂, h₃⟩ := ih m₁ ((Mask.size_of_allowBlock? h₁).trans h)
      exact ⟨m₂, by rw [h₁]; exact h₂, h₃⟩
    · exact ih m h

theorem exists_legalMask?_eq_some :
    ∃ m, v.legalMask? legal = some m ∧ m.size = v.layout.actions := by
  have h : (v.layout.ids .operator).start + v.operators.length ≤
      (Mask.empty v.layout.actions).size := by
    simp only [Mask.size_empty, Layout.actions, Layout.ids, Layout.slots, layout, emptySlots]
    omega
  obtain ⟨m₁, h₁, hs₁⟩ : ∃ m₁, allowOperators? legal v.operators (v.layout.ids .operator).start
      (Mask.empty v.layout.actions) = some m₁ ∧ m₁.size = _ :=
    exists_allowOperators?_eq_some _ _ _ h
  obtain ⟨m₂, h₂, hs₂⟩ : ∃ m₂, v.allowBlocks? legal Legality.blocks m₁ = some m₂ ∧ m₂.size = _ :=
    exists_allowBlocks?_eq_some _ _ (hs₁.trans (by rw [Mask.size_empty, layout_actions]))
  exact ⟨m₂, by simp [legalMask?, h₁, h₂], hs₂.trans layout_actions.symm⟩

theorem legalMask?_isSome : (v.legalMask? legal).isSome := by
  obtain ⟨m, h, -⟩ : ∃ m, v.legalMask? legal = some m ∧ m.size = _ := exists_legalMask?_eq_some
  rw [h, Option.isSome_some]

end Defined

/-- The actions that a report allows. -/
def legalMask : Mask := (v.legalMask? legal).get legalMask?_isSome

end Vocabulary

end FactorSearch
