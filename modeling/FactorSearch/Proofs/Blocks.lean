import FactorSearch.Proofs.ActionIds

/-!
# The id space is its tables, one after the other

Blocks of given lengths are `laid` end to end if each begins where the one before it stops.  Main
statement: the ids of the kinds are blocks as long as the tables, laid end to end from zero to the
size of the action space; an id stands for the token at its place in the concatenated tables, and
lies in the block of the kind of that token (`ids_concatenate_tables`).
-/

namespace FactorSearch

/-- Blocks of the given lengths, the first one from `start` and each other one from where the one
before it stops. -/
def Block.laid (start : Nat) : List Nat → List Block
  | [] => []
  | n :: ns => ⟨start, start + n⟩ :: laid (start + n) ns

namespace Vocabulary

variable {v : Vocabulary} {kind : Token.Kind}

/-- Moved up by the empty slot, the ids of a kind are its slots. -/
theorem add_emptySlots_ids (v : Vocabulary) (kind : Token.Kind) :
    (v.layout.ids kind).start + emptySlots = (v.layout.slots kind).start ∧
      (v.layout.ids kind).stop + emptySlots = (v.layout.slots kind).stop := by
  cases kind <;> simp only [Layout.ids, Layout.slots, layout] <;> omega

theorem map_ids_all : Token.Kind.all.map v.layout.ids = Block.laid 0
    [v.operators.length, v.features.length, v.deltaTimes.length, v.constants.length, 1] := by
  simp only [Token.Kind.all, List.map_cons, List.map_nil, Layout.ids, Layout.slots, layout,
    emptySlots, Block.laid, List.cons.injEq, Block.mk.injEq, and_true, true_and]
  omega

/-- How the ids of a vocabulary follow from its tables. -/
structure Concatenated (v : Vocabulary) : Prop where
  /-- There are as many actions as tokens, and one slot more. -/
  sizes : v.layout.actions = v.size ∧ v.layout.size = v.size + 1
  /-- Each action stands for the token at its place. -/
  decode : ∀ action : Int, 0 ≤ action → action < v.layout.actions →
    ∃ t, (v.operators.map .operator ++ v.features.map .feature ++ v.deltaTimes.map .deltaTime ++
        v.constants.map .constant ++ [.terminator])[action.toNat]? = some t ∧
      v.decode action = .ok t ∧ ∀ kind, action.toNat ∈ v.layout.ids kind ↔ t.kind = kind
  blocks : Token.Kind.all.map v.layout.ids = Block.laid 0
    [v.operators.length, v.features.length, v.deltaTimes.length, v.constants.length, 1]
  last : (v.layout.ids .terminator).stop = v.layout.actions
  /-- No number from which the empty slots are subtracted is below them. -/
  emptySlots_le : emptySlots ≤ v.layout.size ∧
    ∀ kind, emptySlots ≤ (v.layout.slots kind).start ∧ emptySlots ≤ (v.layout.slots kind).stop

theorem ids_concatenate_tables (v : Vocabulary) : v.Concatenated where
  sizes := ⟨layout_actions, by simp only [layout, emptySlots, size]; omega⟩
  decode action h₀ hlt := by
    rw [layout_actions] at hlt
    obtain ⟨t, ht⟩ := exists_decode_eq_ok_iff.mpr ⟨h₀, hlt⟩
    obtain ⟨id, rfl, hid⟩ := decode_eq_ok_iff.mp ht
    refine ⟨t, ?_, ht, fun kind => ?_⟩
    · rwa [Int.toNat_natCast]
    · rw [Int.toNat_natCast]
      exact mem_ids_iff_of_getElem? hid
  blocks := map_ids_all
  last := rfl
  emptySlots_le := by
    refine ⟨Nat.le_add_left _ _, fun kind => ?_⟩
    obtain ⟨hstart, hstop⟩ := add_emptySlots_ids v kind
    omega

end Vocabulary

end FactorSearch
