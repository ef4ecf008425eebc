import FactorSearch.Proofs.ActionIds
import FactorSearch.Proofs.Equality

/-!
# Action ids number the tokens

`table` gives the tokens of a kind, in the order of their ids; `decode` reads an entry of a table,
and `encode` finds the entry that equals a token by value.  Main statement: the ids below the size
and the tokens of the vocabulary determine each other, up to the sign of a zero (`numbered`).
-/

namespace FactorSearch

namespace Vocabulary

variable {v : Vocabulary} {kind : Token.Kind} {s t : Token} {slot i : Nat} {action : Int}
  {id : ActionId}

/-! ## Tables -/

section Tables

/-- The tokens of a kind, in the order of their ids. -/
def table (v : Vocabulary) : Token.Kind → List Token
  | .operator => v.operators.map .operator
  | .feature => v.features.map .feature
  | .deltaTime => v.deltaTimes.map .deltaTime
  | .constant => v.constants.map .constant
  | .terminator => [.terminator]

theorem kind_of_mem_table (hs : s ∈ v.table kind) : s.kind = kind := by
  cases kind <;> simp only [table, List.mem_map, List.mem_singleton] at hs
  case terminator => rw [hs]; rfl
  all_goals
    obtain ⟨a, -, rfl⟩ := hs
    rfl

/-- The block of a kind is as long as its table. -/
theorem start_add_length_table (v : Vocabulary) (kind : Token.Kind) :
    (v.layout.slots kind).start + (v.table kind).length = (v.layout.slots kind).stop := by
  cases kind <;> simp [table, Layout.slots, layout]

/-- No entry of a table equals a later one. -/
theorem pairwise_table (v : Vocabulary) (kind : Token.Kind) :
    (v.table kind).Pairwise fun s t => s.ieeeEq t = false := by
  have hv := v.wellFormed
  cases kind with
  | operator =>
    exact List.pairwise_map.mpr (hv.operators.imp fun h => by simpa [Token.ieeeEq] using h)
  | feature =>
    exact List.pairwise_map.mpr (hv.features.imp fun h => by simpa [Token.ieeeEq] using h)
  | deltaTime =>
    exact List.pairwise_map.mpr (hv.deltaTimes.imp fun h => by simpa [Token.ieeeEq] using h)
  | constant => exact List.pairwise_map.mpr hv.constants
  | terminator => exact List.pairwise_singleton _ _

/-- No constant of a vocabulary is a NaN, so every entry equals itself. -/
theorem ieeeEq_self_of_mem_table (ht : t ∈ v.table kind) : t.ieeeEq t = true := by
  -- only a constant can differ from itself, and those of a table are finite
  by_cases hc : ∃ c, t = .constant c
  · obtain ⟨c, rfl⟩ := hc
    have hk : Token.Kind.constant = kind := kind_of_mem_table ht
    rw [← hk] at ht
    obtain ⟨c', hc', h⟩ := List.mem_map.mp ht
    cases h
    have hf := v.wellFormed.constants_finite c hc'
    exact Binary64.ieeeEq_iff.mpr (.inl ⟨rfl, Binary64.isNaN_of_isFinite hf⟩)
  · cases t with
    | constant c => exact absurd ⟨c, rfl⟩ hc
    | operator op => exact decide_eq_true rfl
    | feature f => exact decide_eq_true rfl
    | deltaTime days => exact decide_eq_true rfl
    | terminator => rfl

/-- Looking for an entry by value finds its place. -/
theorem findIdx?_table (h : (v.table kind)[i]? = some t) :
    (v.table kind).findIdx? (·.ieeeEq t) = some i := by
  obtain ⟨hi, rfl⟩ := List.getElem?_eq_some_iff.mp h
  refine List.findIdx?_eq_some_iff_getElem.mpr ⟨hi, ?_, fun j hj => ?_⟩
  · exact ieeeEq_self_of_mem_table (List.getElem_mem hi)
  · have hd := List.pairwise_iff_getElem.mp (pairwise_table v kind)
    rw [hd j i (by omega) hi hj]
    exact Bool.false_ne_true

/-- Entries equal by value are one entry. -/
theorem eq_of_ieeeEq_getElem?_table {j : Nat} (hi : (v.table kind)[i]? = some s)
    (hj : (v.table kind)[j]? = some t) (h : s.ieeeEq t = true) : i = j := by
  have hd := List.pairwise_iff_getElem.mp (pairwise_table v kind)
  obtain ⟨hi', rfl⟩ := List.getElem?_eq_some_iff.mp hi
  obtain ⟨hj', rfl⟩ := List.getElem?_eq_some_iff.mp hj
  rcases Nat.lt_trichotomy i j with hlt | rfl | hlt
  · rw [hd i j hi' hj' hlt] at h
    cases h
  · rfl
  · rw [Token.ieeeEq_comm, hd j i hj' hi' hlt] at h
    cases h

end Tables

/-! ## Slots -/

section Slots

/-- The slots of a kind hold its table, one entry after the other. -/
theorem tokenAt?_of_mem_slots (h : slot ∈ v.layout.slots kind) :
    v.tokenAt? slot = (v.table kind)[slot - (v.layout.slots kind).start]? := by
  rw [Block.mem_iff] at h
  cases kind <;>
    simp only [Layout.slots, layout, emptySlots] at h ⊢ <;>
    simp only [tokenAt?, layout, emptySlots, table, List.getElem?_map] <;>
    grind

/-- Tokens that are equal as they stand are found as their contents are. -/
theorem findIdx?_map_eq_idxOf? {α : Type} [DecidableEq α] {f : α → Token}
    (hf : ∀ a b, (f a).ieeeEq (f b) = decide (a = b)) (l : List α) (a : α) :
    (l.map f).findIdx? (·.ieeeEq (f a)) = l.idxOf? a := by
  have hp : (fun s : Token => s.ieeeEq (f a)) ∘ f = (· == a) := by
    funext b
    exact hf b a
  rw [List.findIdx?_map, hp, List.idxOf?]

theorem slotOf?_eq (t : Token) : v.slotOf? t =
    ((v.table t.kind).findIdx? (·.ieeeEq t)).map ((v.layout.slots t.kind).start + ·) := by
  -- constants are looked up by their value, all other entries by themselves
  cases t with
  | operator op =>
    rw [Token.kind, table, findIdx?_map_eq_idxOf? (by simp [Token.ieeeEq])]
    rfl
  | feature f =>
    rw [Token.kind, table, findIdx?_map_eq_idxOf? (by simp [Token.ieeeEq])]
    rfl
  | deltaTime days =>
    rw [Token.kind, table, findIdx?_map_eq_idxOf? (by simp [Token.ieeeEq])]
    rfl
  | constant c =>
    rw [Token.kind, table, List.findIdx?_map]
    rfl
  | terminator => rfl

theorem emptySlots_le_start : emptySlots ≤ (v.layout.slots kind).start := by
  cases kind <;> simp only [Layout.slots, layout] <;> omega

theorem add_emptySlots_mem_slots_iff {id : Nat} :
    id + emptySlots ∈ v.layout.slots kind ↔ id ∈ v.layout.ids kind := by
  have hs : emptySlots ≤ (v.layout.slots kind).start := emptySlots_le_start
  rw [Block.mem_iff, Block.mem_iff]
  simp only [Layout.ids]
  omega

end Slots

/-! ## Ids and entries -/

section Entries

/-- An id decodes to the entry in its slot. -/
theorem decode_natCast_eq_ok_iff_getElem?_table {id : Nat} :
    v.decode id = .ok t ↔ ∃ i, (v.table t.kind)[i]? = some t ∧
      id + emptySlots = (v.layout.slots t.kind).start + i := by
  rw [decode_natCast_eq_ok_iff]
  constructor
  · intro h
    have hmem := add_emptySlots_mem_slots_iff.mpr ((mem_ids_iff_of_getElem? h).mpr rfl)
    have hat := tokenAt?_of_mem_slots hmem
    rw [tokenAt?_add_emptySlots, h] at hat
    exact ⟨_, hat.symm, by rw [Block.mem_iff] at hmem; omega⟩
  · rintro ⟨i, h, hid⟩
    have hi : i < (v.table t.kind).length := (List.getElem?_eq_some_iff.mp h).1
    have hlen := start_add_length_table v t.kind
    have hmem : id + emptySlots ∈ v.layout.slots t.kind := by
      rw [Block.mem_iff]
      omega
    rw [← tokenAt?_add_emptySlots, tokenAt?_of_mem_slots hmem, hid, Nat.add_sub_cancel_left, h]

/-- Every entry of a table has an id. -/
theorem exists_decode_of_mem_table (ht : t ∈ v.table kind) : ∃ id : Nat, v.decode id = .ok t := by
  obtain rfl := kind_of_mem_table ht
  obtain ⟨i, hi⟩ := List.mem_iff_getElem?.mp ht
  have hstart : emptySlots ≤ (v.layout.slots t.kind).start := emptySlots_le_start
  refine ⟨(v.layout.slots t.kind).start + i - emptySlots, ?_⟩
  exact decode_natCast_eq_ok_iff_getElem?_table.mpr ⟨i, hi, by omega⟩

theorem encode_eq_ok_iff : v.encode t = .ok id ↔
    ∃ i, (v.table t.kind).findIdx? (·.ieeeEq t) = some i ∧
      id = UInt32.ofNat ((v.layout.slots t.kind).start + i - emptySlots) := by
  rw [encode, slotOf?_eq]
  cases (v.table t.kind).findIdx? (·.ieeeEq t) with
  | none => simp
  | some i => simp [eq_comm]

theorem exists_encode_eq_ok_iff :
    (∃ id, v.encode t = .ok id) ↔ ∃ s ∈ v.table t.kind, s.ieeeEq t = true := by
  rw [← List.any_eq_true, ← List.findIdx?_isSome, Option.isSome_iff_exists]
  simp only [encode_eq_ok_iff]
  exact ⟨fun ⟨_, i, h, _⟩ => ⟨i, h⟩, fun ⟨i, h⟩ => ⟨_, i, h, rfl⟩⟩

theorem encode_eq_unknownToken (h : ¬ ∃ id, v.encode t = .ok id) :
    v.encode t = .error (.unknownToken t) := by
  unfold encode at h ⊢
  cases hs : v.slotOf? t with
  | none => rfl
  | some slot => simp [hs] at h

theorem encode_of_decode {id : Nat} (h : v.decode id = .ok t) :
    v.encode t = .ok (UInt32.ofNat id) := by
  obtain ⟨i, hi, hid⟩ := decode_natCast_eq_ok_iff_getElem?_table.mp h
  refine encode_eq_ok_iff.mpr ⟨i, findIdx?_table hi, ?_⟩
  rw [← hid, Nat.add_sub_cancel]

/-- A token decodes back from its id, if 32 bits are enough for the id. -/
theorem decode_of_encode (hv : v.layout.actions ≤ UInt32.size) (h : v.encode t = .ok id) :
    ∃ s, v.decode id.toNat = .ok s ∧ s.ieeeEq t = true := by
  obtain ⟨i, hi, rfl⟩ := encode_eq_ok_iff.mp h
  obtain ⟨hlt, heq, -⟩ := List.findIdx?_eq_some_iff_getElem.mp hi
  have hk := Token.kind_eq_of_ieeeEq heq
  have hstart : emptySlots ≤ (v.layout.slots t.kind).start := emptySlots_le_start
  -- the id leads to the entry that was found, not to the token that was looked up
  have hd : v.decode ((v.layout.slots t.kind).start + i - emptySlots : Nat) =
      .ok (v.table t.kind)[i] := by
    refine decode_natCast_eq_ok_iff_getElem?_table.mpr ⟨i, ?_, ?_⟩
    · rw [hk, List.getElem?_eq_getElem hlt]
    · rw [hk]
      omega
  have hsize := (exists_decode_eq_ok_iff.mp ⟨_, hd⟩).2
  rw [layout_actions] at hv
  rw [UInt32.toNat_ofNat_of_lt' (by omega)]
  exact ⟨_, hd, heq⟩

/-- Distinct ids stand for distinct tokens, also by value. -/
theorem eq_of_decode_of_ieeeEq {a b : Nat} (ha : v.decode a = .ok s) (hb : v.decode b = .ok t)
    (h : s.ieeeEq t = true) : a = b := by
  obtain ⟨i, hi, hia⟩ := decode_natCast_eq_ok_iff_getElem?_table.mp ha
  obtain ⟨j, hj, hjb⟩ := decode_natCast_eq_ok_iff_getElem?_table.mp hb
  rw [Token.kind_eq_of_ieeeEq h] at hi hia
  have hij : i = j := eq_of_ieeeEq_getElem?_table hi hj h
  omega

end Entries

/-! ## The numbering -/

section Main

/-- The action ids of a vocabulary number its tokens. -/
structure Numbered (v : Vocabulary) : Prop where
  decode_ok_iff : ∀ action : Int,
    (∃ t, v.decode action = .ok t) ↔ 0 ≤ action ∧ action < v.layout.actions
  decode_error : ∀ action : Int, ¬ (0 ≤ action ∧ action < v.layout.actions) →
    v.decode action = .error (.outOfRange action v.layout.actions)
  /-- A slot of a kind lies behind the start of its block, by less than its table is long. -/
  entry : ∀ kind slot, slot ∈ v.layout.slots kind → (v.layout.slots kind).start ≤ slot ∧
    ∃ h : slot - (v.layout.slots kind).start < (v.table kind).length,
      v.tokenAt? slot = some (v.table kind)[slot - (v.layout.slots kind).start]
  /-- Neither the slot of a token nor the number of slots is below the empty slots. -/
  emptySlots_le : emptySlots ≤ v.layout.size ∧ ∀ t slot, v.slotOf? t = some slot → emptySlots ≤ slot
  encode_decode : ∀ action t, v.decode action = .ok t → ∃ id, v.encode t = .ok id ∧
    (id.toNat : Int) = action % UInt32.size ∧
    (v.layout.actions ≤ UInt32.size → (id.toNat : Int) = action)
  distinct : ∀ a b s t, v.decode a = .ok s → v.decode b = .ok t → a ≠ b → s.ieeeEq t = false
  encode_ok_iff : ∀ t, (∃ id, v.encode t = .ok id) ↔
    t = .terminator ∨ ∃ s ∈ v.table t.kind, s.ieeeEq t = true
  encode_error : ∀ t, (¬ ∃ id, v.encode t = .ok id) → v.encode t = .error (.unknownToken t) ∧
    (ActionFault.unknownToken t).message = "token " ++ t.text ++ " is not in the vocabulary"
  decode_encode : v.layout.actions ≤ UInt32.size → ∀ t id, v.encode t = .ok id →
    ∃ s, v.decode id.toNat = .ok s ∧ s.ieeeEq t = true ∧
      (s = t ∨ ∃ a b : Binary64, s = .constant a ∧ t = .constant b ∧
        a.isZero = true ∧ b.isZero = true ∧ a.negative ≠ b.negative)

/-- The ids below the size stand for the tokens of the vocabulary, each for one of its own.  A token
has an id if it equals an entry of its table by value; it is given back with its bits, unless it is
a zero and the table holds the zero of the other sign. -/
theorem numbered (v : Vocabulary) : v.Numbered where
  decode_ok_iff action := by
    rw [layout_actions]
    exact exists_decode_eq_ok_iff
  decode_error action h := by
    rw [layout_actions] at h ⊢
    exact decode_eq_error_iff.mpr ⟨h, rfl⟩
  entry kind slot h := by
    have hlen := start_add_length_table v kind
    have hat := tokenAt?_of_mem_slots h
    rw [Block.mem_iff] at h
    have hlt : slot - (v.layout.slots kind).start < (v.table kind).length := by omega
    exact ⟨h.1, hlt, hat.trans (List.getElem?_eq_getElem hlt)⟩
  emptySlots_le := by
    refine ⟨by simp only [layout]; omega, fun t slot h => ?_⟩
    rw [slotOf?_eq] at h
    obtain ⟨i, -, rfl⟩ := Option.map_eq_some_iff.mp h
    exact Nat.le_trans emptySlots_le_start (Nat.le_add_right _ i)
  encode_decode action t h := by
    obtain ⟨id, rfl, -⟩ := decode_eq_ok_iff.mp h
    refine ⟨_, encode_of_decode h, by simp, fun hv => ?_⟩
    have hid := toNat_actionId (layout_actions ▸ hv) h
    rwa [Int.toNat_natCast] at hid
  distinct a b s t ha hb hne := by
    obtain ⟨a, rfl, -⟩ := decode_eq_ok_iff.mp ha
    obtain ⟨b, rfl, -⟩ := decode_eq_ok_iff.mp hb
    -- equal entries stand at one place, and that place has one id
    cases h : s.ieeeEq t with
    | false => rfl
    | true => exact absurd (congrArg _ (eq_of_decode_of_ieeeEq ha hb h)) hne
  encode_ok_iff t := by
    rw [exists_encode_eq_ok_iff]
    refine ⟨.inr, ?_⟩
    rintro (rfl | h)
    · exact ⟨.terminator, List.mem_singleton_self _, rfl⟩
    · exact h
  encode_error t h := ⟨encode_eq_unknownToken h, rfl⟩
  decode_encode hv t id h := by
    obtain ⟨s, hs, heq⟩ := decode_of_encode hv h
    exact ⟨s, hs, heq, Token.eq_or_opposite_of_ieeeEq heq⟩

/-- A vocabulary that lists `-0` alone. -/
def negativeZero : Vocabulary where
  operators := []
  features := []
  deltaTimes := []
  constants := [-0.0]
  wellFormed := Tables.fault?_eq_none_iff.mp (by decide +kernel)

/-- It has an id for `0` too, and gives `-0` back. -/
theorem numbered_negativeZero :
    let v := negativeZero
    v.layout.actions ≤ UInt32.size ∧ v.encode (.constant 0.0) = .ok 0 ∧
      ∃ s, v.decode 0 = .ok s ∧ s.ieeeEq (.constant 0.0) = true ∧ s ≠ .constant 0.0 := by
  intro v
  have hv : v.layout.actions ≤ UInt32.size := by decide
  have henc : v.encode (.constant 0.0) = .ok 0 := rfl
  obtain ⟨s, hs, heq, -⟩ := (numbered v).decode_encode hv _ _ henc
  refine ⟨hv, henc, s, hs, heq, ?_⟩
  rintro rfl
  have hd : v.decode 0 = .ok (.constant (-0.0)) := rfl
  have hne : (0.0 : Binary64) ≠ -0.0 := by decide +kernel
  exact hne (Token.constant.inj (Except.ok.inj (hs.symm.trans hd)))

end Main

end Vocabulary

end FactorSearch
