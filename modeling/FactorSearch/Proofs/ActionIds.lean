import FactorSearch.Mask.Legal

/-!
# Action ids are places in the list of tokens

`tokens` puts the tables of a vocabulary one after the other.  `decode` looks an action up in that
list, and the ids of a kind of tokens are the places where the list has that kind.
-/

namespace FactorSearch

instance : Membership Nat Block := ⟨fun b id => b.start ≤ id ∧ id < b.stop⟩

theorem Block.mem_iff {b : Block} {id : Nat} : id ∈ b ↔ b.start ≤ id ∧ id < b.stop := Iff.rfl

namespace Vocabulary

variable {v : Vocabulary}

/-! ## Decoding -/

section Decode

/-- Slots are places in the list of tokens, moved up by the empty slot. -/
theorem tokenAt?_add_emptySlots (id : Nat) : v.tokenAt? (id + emptySlots) = v.tokens[id]? := by
  simp only [tokenAt?, layout, emptySlots, tokens, List.getElem?_append, List.length_append,
    List.length_map, List.getElem?_map]
  grind

theorem decode_natCast_eq_ok_iff {id : Nat} {t : Token} :
    v.decode id = .ok t ↔ v.tokens[id]? = some t := by
  rw [← tokenAt?_add_emptySlots, ← Int.ofNat_eq_natCast]
  unfold decode
  cases h : v.tokenAt? (id + emptySlots) with
  | none => simp [h]
  | some t' => simp [h]

theorem decode_eq_ok_iff {action : Int} {t : Token} :
    v.decode action = .ok t ↔ ∃ id : Nat, action = id ∧ v.tokens[id]? = some t := by
  cases action with
  | ofNat id =>
    rw [Int.ofNat_eq_natCast, decode_natCast_eq_ok_iff]
    constructor
    · exact fun h => ⟨id, rfl, h⟩
    · rintro ⟨id', h, h'⟩
      rwa [Int.natCast_inj.mp h]
  | negSucc n =>
    constructor
    · intro h
      cases h
    · rintro ⟨id, h, -⟩
      cases h

/-- The actions of a vocabulary are the numbers below its size. -/
theorem exists_decode_eq_ok_iff {action : Int} :
    (∃ t, v.decode action = .ok t) ↔ 0 ≤ action ∧ action < v.size := by
  simp only [decode_eq_ok_iff]
  constructor
  · rintro ⟨t, id, rfl, h⟩
    obtain ⟨hlt, -⟩ := List.getElem?_eq_some_iff.mp h
    rw [length_tokens] at hlt
    omega
  · rintro ⟨h₀, hlt⟩
    obtain ⟨id, rfl⟩ := Int.eq_ofNat_of_zero_le h₀
    have hid : id < v.tokens.length := by
      rw [length_tokens]
      omega
    exact ⟨v.tokens[id], id, rfl, List.getElem?_eq_getElem hid⟩

theorem decode_eq_error_iff {action : Int} {fault : ActionFault} :
    v.decode action = .error fault ↔
      ¬ (0 ≤ action ∧ action < v.size) ∧ fault = .outOfRange action v.size := by
  -- there is one fault, so which actions have it is decided by which have a token
  have hfault : ∀ fault, v.decode action = .error fault → fault = .outOfRange action v.size := by
    intro fault h
    unfold decode at h
    rw [layout_actions] at h
    split at h
    · split at h
      · cases h
      · cases h
        rfl
    · cases h
      rfl
  rw [← exists_decode_eq_ok_iff]
  cases hd : v.decode action with
  | ok t => simp
  | error fault' => simp [hfault fault' hd, eq_comm]

/-- In a vocabulary of no more tokens than 32 bits can count an id loses nothing in 32 bits. -/
theorem toNat_actionId (hv : v.size ≤ UInt32.size) {action : Int} {t : Token}
    (h : v.decode action = .ok t) : ((UInt32.ofNat action.toNat).toNat : Int) = action := by
  obtain ⟨h₀, hlt⟩ := exists_decode_eq_ok_iff.mp ⟨t, h⟩
  have hw : action.toNat < UInt32.size := by omega
  rw [UInt32.toNat_ofNat_of_lt' hw]
  omega

end Decode

/-! ## The ids of a kind -/

section Kinds

theorem map_kind_tokens : v.tokens.map Token.kind =
    List.replicate v.operators.length .operator ++ List.replicate v.features.length .feature ++
      List.replicate v.deltaTimes.length .deltaTime ++
      List.replicate v.constants.length .constant ++ [.terminator] := by
  simp [tokens, Function.comp_def, Token.kind, List.map_const']

theorem mem_ids_iff {kind : Token.Kind} {id : Nat} :
    id ∈ v.layout.ids kind ↔ (v.tokens.map Token.kind)[id]? = some kind := by
  rw [map_kind_tokens, Block.mem_iff]
  simp only [List.getElem?_append, List.length_append, List.length_replicate,
    List.getElem?_replicate]
  cases kind <;> simp only [Layout.ids, Layout.slots, layout, emptySlots] <;> grind

theorem mem_ids_iff_of_getElem? {kind : Token.Kind} {id : Nat} {t : Token}
    (h : v.tokens[id]? = some t) : id ∈ v.layout.ids kind ↔ t.kind = kind := by
  rw [mem_ids_iff, List.getElem?_map, h]
  simp

theorem getElem?_operators_eq_some_iff {id : Nat} {op : Operator} :
    v.operators[id]? = some op ↔ v.tokens[id]? = some (.operator op) := by
  by_cases h : id < v.operators.length
  · have ht : v.tokens[id]? = v.operators[id]?.map .operator := by
      simp [tokens, List.getElem?_append, h]
    rw [ht]
    simp
  · -- behind the first block no token is an operator
    have hk : id ∉ v.layout.ids .operator := by
      rw [Block.mem_iff]
      simp only [Layout.ids, Layout.slots, layout, emptySlots]
      omega
    constructor
    · intro h'
      exact absurd (List.getElem?_eq_some_iff.mp h').1 h
    · intro h'
      exact absurd ((mem_ids_iff_of_getElem? h').mpr rfl) hk

/-- The terminator has the last id. -/
theorem getElem?_tokens_eq_terminator_iff {id : Nat} :
    v.tokens[id]? = some .terminator ↔ id + 1 = v.size := by
  have hlast : id ∈ v.layout.ids .terminator ↔ id + 1 = v.size := by
    rw [Block.mem_iff]
    simp only [Layout.ids, Layout.slots, layout, emptySlots, size]
    omega
  rw [← hlast, mem_ids_iff, List.getElem?_map]
  cases v.tokens[id]? with
  | none => simp
  | some t => cases t <;> simp [Token.kind]

theorem decode_last : v.decode ((v.size - 1 : Nat) : Int) = .ok .terminator := by
  rw [decode_natCast_eq_ok_iff, getElem?_tokens_eq_terminator_iff, size]
  omega

end Kinds

end Vocabulary

end FactorSearch
