import FactorSearch.Mask.Legal
import FactorSearch.Proofs.ActionIds

/-!
# The mask allows what the report permits

`Legality.permits` reads a report token by token.  Main statement: whatever the report, every write
to the mask is in bounds, and of its ids those are allowed that decode to a token which the report
permits; the summary flag of the operators is not read (`legalMask_exact`).
-/

namespace FactorSearch

namespace Legality

/-- Whether a report lets a token come next. -/
def permits (legal : Legality) : Token → Bool
  | .operator op => legal.categories.get op.category
  | .feature _ => legal.feature
  | .deltaTime _ => legal.deltaTime
  | .constant _ => legal.constant
  | .terminator => legal.terminator

/-- A block of ids stands for the tokens of its kind. -/
theorem permits_iff_of_mem_blocks {legal : Legality} {p : Flag × Token.Kind} (hp : p ∈ blocks)
    {t : Token} (ht : t.kind = p.2) : legal.permits t = legal.get p.1 := by
  simp only [blocks, List.mem_cons, List.not_mem_nil, or_false] at hp
  rcases hp with rfl | rfl | rfl | rfl <;> cases t <;> first | rfl | cases ht

theorem exists_mem_blocks {t : Token} (ht : t.kind ≠ .operator) : ∃ p ∈ blocks, p.2 = t.kind := by
  cases t with
  | operator op => exact absurd rfl ht
  | feature f => exact ⟨(.feature, .feature), by simp [blocks], rfl⟩
  | deltaTime days => exact ⟨(.deltaTime, .deltaTime), by simp [blocks], rfl⟩
  | constant c => exact ⟨(.constant, .constant), by simp [blocks], rfl⟩
  | terminator => exact ⟨(.terminator, .terminator), by simp [blocks], rfl⟩

end Legality

namespace Mask

variable {m m' : Mask} {id : Nat}

/-- A mask is its size and the ids it allows. -/
theorem eq_of_isAllowed (hs : m.size = m'.size)
    (h : ∀ id, m.isAllowed id = m'.isAllowed id) : m = m' := by
  have hflags : m.flags = m'.flags := by
    refine List.ext_getElem hs fun id h₁ h₂ => ?_
    have hid := h id
    simp only [isAllowed, List.getElem?_eq_getElem h₁, List.getElem?_eq_getElem h₂] at hid
    exact hid
  cases m
  cases m'
  exact congrArg Mask.mk hflags

theorem isAllowed_empty (n id : Nat) : (empty n).isAllowed id = false := by
  simp only [isAllowed, empty, List.getElem?_replicate]
  split <;> rfl

theorem isAllowed_of_allow? {i : Nat} (h : m.allow? i = some m') :
    m'.isAllowed id = true ↔ m.isAllowed id = true ∨ id = i := by
  unfold allow? at h
  split at h
  next hi =>
    cases h
    rw [size] at hi
    simp only [isAllowed, List.getElem?_set]
    by_cases hid : i = id
    · simp [hid, hid ▸ hi]
    · simp [hid, Ne.symm hid]
  next => cases h

theorem isAllowed_of_allowBlock? {b : Block} (h : m.allowBlock? b = some m') :
    m'.isAllowed id = true ↔ m.isAllowed id = true ∨ id ∈ b := by
  unfold allowBlock? at h
  split at h
  next hb =>
    cases h
    rw [size] at hb
    rw [Block.mem_iff]
    simp only [isAllowed, List.getElem?_append, List.getElem?_take, List.getElem?_drop,
      List.getElem?_replicate, List.length_append, List.length_take, List.length_replicate]
    grind
  next => cases h

end Mask

namespace Vocabulary

variable {v : Vocabulary} {legal : Legality} {m m' : Mask} {id : Nat}

theorem isAllowed_of_allowOperators? {ops : List Operator} {first : Nat}
    (h : allowOperators? legal ops first m = some m') :
    m'.isAllowed id = true ↔ m.isAllowed id = true ∨
      ∃ i op, id = first + i ∧ ops[i]? = some op ∧ legal.categories.get op.category = true := by
  induction ops generalizing first m with
  | nil =>
    cases h
    simp
  | cons op ops ih =>
    -- the head has the id `first`; the tail starts at the next one
    have hsplit : (∃ i op', id = first + i ∧ (op :: ops)[i]? = some op' ∧
          legal.categories.get op'.category = true) ↔
        (id = first ∧ legal.categories.get op.category = true) ∨
          ∃ i op', id = first + 1 + i ∧ ops[i]? = some op' ∧
            legal.categories.get op'.category = true := by
      constructor
      · rintro ⟨_ | i, op', rfl, h, hop⟩
        · cases h
          exact .inl ⟨rfl, hop⟩
        · exact .inr ⟨i, op', by omega, h, hop⟩
      · rintro (⟨rfl, hop⟩ | ⟨i, op', rfl, h, hop⟩)
        · exact ⟨0, op, rfl, rfl, hop⟩
        · exact ⟨i + 1, op', by omega, h, hop⟩
    rw [hsplit]
    rw [allowOperators?] at h
    split at h
    next hop =>
      obtain ⟨m₁, h₁, h₂⟩ := Option.bind_eq_some_iff.mp h
      rw [ih h₂, Mask.isAllowed_of_allow? h₁]
      simp [hop, or_assoc]
    next hop =>
      rw [ih h]
      simp [hop]

theorem isAllowed_of_allowBlocks? {rest : List (Legality.Flag × Token.Kind)}
    (h : v.allowBlocks? legal rest m = some m') :
    m'.isAllowed id = true ↔ m.isAllowed id = true ∨
      ∃ p ∈ rest, legal.get p.1 = true ∧ id ∈ v.layout.ids p.2 := by
  induction rest generalizing m with
  | nil =>
    cases h
    simp
  | cons p rest ih =>
    obtain ⟨flag, kind⟩ := p
    rw [allowBlocks?] at h
    split at h
    next hf =>
      obtain ⟨m₁, h₁, h₂⟩ := Option.bind_eq_some_iff.mp h
      rw [ih h₂, Mask.isAllowed_of_allowBlock? h₁]
      simp [hf, or_assoc]
    next hf =>
      rw [ih h]
      simp [hf]

theorem legalMask?_legalMask : v.legalMask? legal = some (v.legalMask legal) := by
  rw [legalMask, Option.some_get]

/-- A mask allows exactly the ids of the tokens that the report permits. -/
theorem isAllowed_legalMask_iff :
    (v.legalMask legal).isAllowed id = true ↔
      ∃ t, v.tokens[id]? = some t ∧ legal.permits t = true := by
  have hmask : v.legalMask? legal = some (v.legalMask legal) := legalMask?_legalMask
  obtain ⟨m₁, h₁, h₂⟩ := Option.bind_eq_some_iff.mp hmask
  rw [isAllowed_of_allowBlocks? h₂, isAllowed_of_allowOperators? h₁, Mask.isAllowed_empty]
  constructor
  · rintro ((h | ⟨i, op, rfl, h, hop⟩) | ⟨p, hp, hflag, hid⟩)
    · cases h
    · have hi : (v.layout.ids .operator).start + i = i := by
        simp [Layout.ids, Layout.slots, layout, emptySlots]
      rw [hi]
      exact ⟨_, getElem?_operators_eq_some_iff.mp h, hop⟩
    · obtain ⟨t, ht, hk⟩ : ∃ t, v.tokens[id]? = some t ∧ t.kind = p.2 := by
        simpa using mem_ids_iff.mp hid
      exact ⟨t, ht, by rw [Legality.permits_iff_of_mem_blocks hp hk, hflag]⟩
  · rintro ⟨t, ht, hpermits⟩
    by_cases hk : t.kind = .operator
    · obtain ⟨op, rfl⟩ : ∃ op, t = .operator op := by cases t <;> simp [Token.kind] at hk ⊢
      refine .inl (.inr ⟨id, op, ?_, getElem?_operators_eq_some_iff.mpr ht, hpermits⟩)
      simp [Layout.ids, Layout.slots, layout, emptySlots]
    · obtain ⟨p, hp, hkind⟩ := Legality.exists_mem_blocks hk
      refine .inr ⟨p, hp, ?_, (mem_ids_iff_of_getElem? ht).mpr hkind.symm⟩
      rw [← Legality.permits_iff_of_mem_blocks hp hkind.symm, hpermits]

theorem size_legalMask : (v.legalMask legal).size = v.layout.actions := by
  obtain ⟨m, h, hs⟩ : ∃ m, v.legalMask? legal = some m ∧ m.size = v.layout.actions :=
    exists_legalMask?_eq_some
  rw [legalMask?_legalMask] at h
  rw [Option.some.inj h, hs]

/-- What a report says of operators as a whole does not change the mask. -/
theorem legalMask_set_anyOperator (b : Bool) :
    v.legalMask (legal.set b .anyOperator) = v.legalMask legal := by
  have hpermits : ∀ t, (legal.set b .anyOperator).permits t = legal.permits t := by
    intro t
    cases t <;> rfl
  refine Mask.eq_of_isAllowed (size_legalMask.trans size_legalMask.symm) fun id => ?_
  rw [Bool.eq_iff_iff, isAllowed_legalMask_iff, isAllowed_legalMask_iff]
  simp only [hpermits]

/-- Writing the mask never leaves the action space, and the mask has the size of it.  It allows the
ids below this size whose tokens the report permits, whatever the report says of operators as a
whole. -/
theorem legalMask_exact (v : Vocabulary) (legal : Legality) :
    v.legalMask? legal = some (v.legalMask legal) ∧
      (v.legalMask legal).size = v.layout.actions ∧
      (∀ id : Nat, (v.legalMask legal).isAllowed id = true ↔
        id < v.layout.actions ∧ ∃ t, v.decode id = .ok t ∧ legal.permits t = true) ∧
      ∀ b, v.legalMask (legal.set b .anyOperator) = v.legalMask legal := by
  refine ⟨legalMask?_legalMask, size_legalMask, fun id => ?_, legalMask_set_anyOperator⟩
  rw [isAllowed_legalMask_iff, layout_actions]
  simp only [← decode_natCast_eq_ok_iff]
  constructor
  · rintro ⟨t, ht, hpermits⟩
    have hlt := (exists_decode_eq_ok_iff.mp ⟨t, ht⟩).2
    exact ⟨by omega, t, ht, hpermits⟩
  · rintro ⟨-, h⟩
    exact h

end Vocabulary

end FactorSearch
