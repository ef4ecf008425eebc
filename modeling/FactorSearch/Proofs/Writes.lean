import FactorSearch.Proofs.Permission

/-!
# A mask is a set of ids

Writes to a mask come in any order, and some of them reach outside the action space and are refused.
Main statement: what a mask allows in the end is what it allowed at the start and what the other
writes name, and whatever is asked of it afterwards tells this set (`writes_accumulate`).
-/

namespace FactorSearch

namespace Mask

variable {m m' m₁ m₂ : Mask} {id : Nat} {logits masked : List Binary32}

/-! ## Writes -/

section Writes

/-- One id, or a block of them. -/
inductive Write
  | id (id : Nat)
  | block (b : Block)
deriving DecidableEq

/-- The ids that a write is to allow. -/
def Write.Names : Write → Nat → Prop
  | .id i, id => id = i
  | .block b, id => id ∈ b

/-- A write that stays inside an action space. -/
def Write.Fits (size : Nat) : Write → Prop
  | .id i => i < size
  | .block b => b.start ≤ b.stop ∧ b.stop ≤ size

def write? (m : Mask) : Write → Option Mask
  | .id i => m.allow? i
  | .block b => m.allowBlock? b

/-- The mask behind a write; one that is refused leaves it as it is. -/
def write (m : Mask) (w : Write) : Mask := (m.write? w).getD m

def writeAll (m : Mask) (ws : List Write) : Mask := ws.foldl write m

variable {w : Write} {ws ws' : List Write}

theorem exists_write?_eq_some_iff : (∃ m', m.write? w = some m') ↔ w.Fits m.size := by
  cases w with
  | id i =>
    by_cases hi : i < m.size
    · simp [write?, allow?, Write.Fits, hi]
    · simp [write?, allow?, Write.Fits, hi]
  | block b =>
    by_cases hb : b.start ≤ b.stop ∧ b.stop ≤ m.size
    · simp [write?, allowBlock?, Write.Fits, hb]
    · simp only [write?, allowBlock?, Write.Fits, if_neg hb, reduceCtorEq, exists_false]
      exact (iff_false_intro hb).symm

theorem write?_eq_none_iff : m.write? w = none ↔ ¬ w.Fits m.size := by
  rw [← exists_write?_eq_some_iff, ← Option.isSome_iff_exists, Option.not_isSome_iff_eq_none]

theorem size_of_write? (h : m.write? w = some m') : m'.size = m.size := by
  cases w with
  | id i => exact size_of_allow? h
  | block b => exact size_of_allowBlock? h

theorem isAllowed_of_write? (h : m.write? w = some m') :
    m'.isAllowed id = true ↔ m.isAllowed id = true ∨ w.Names id := by
  cases w with
  | id i => exact isAllowed_of_allow? h
  | block b => exact isAllowed_of_allowBlock? h

theorem write_of_not_fits (h : ¬ w.Fits m.size) : m.write w = m := by
  rw [write, write?_eq_none_iff.mpr h, Option.getD_none]

@[simp] theorem size_write (m : Mask) (w : Write) : (m.write w).size = m.size := by
  by_cases h : w.Fits m.size
  · obtain ⟨m', hm'⟩ := exists_write?_eq_some_iff.mpr h
    rw [write, hm', Option.getD_some, size_of_write? hm']
  · rw [write_of_not_fits h]

theorem isAllowed_write :
    (m.write w).isAllowed id = true ↔ m.isAllowed id = true ∨ w.Fits m.size ∧ w.Names id := by
  by_cases h : w.Fits m.size
  · obtain ⟨m', hm'⟩ := exists_write?_eq_some_iff.mpr h
    rw [write, hm', Option.getD_some, isAllowed_of_write? hm']
    simp [h]
  · rw [write_of_not_fits h]
    simp [h]

@[simp] theorem size_writeAll (m : Mask) (ws : List Write) : (m.writeAll ws).size = m.size := by
  induction ws generalizing m with
  | nil => rfl
  | cons w ws ih => exact (ih (m.write w)).trans (size_write m w)

/-- The size stays, so whether a write fits does not depend on when it comes. -/
theorem isAllowed_writeAll : (m.writeAll ws).isAllowed id = true ↔
    m.isAllowed id = true ∨ ∃ w ∈ ws, w.Fits m.size ∧ w.Names id := by
  induction ws generalizing m with
  | nil => simp [writeAll]
  | cons w ws ih =>
    have hcons : m.writeAll (w :: ws) = (m.write w).writeAll ws := rfl
    rw [hcons, ih, isAllowed_write, size_write, or_assoc]
    simp

theorem writeAll_eq_of_perm (h : ws.Perm ws') : m.writeAll ws = m.writeAll ws' := by
  refine eq_of_isAllowed (by rw [size_writeAll, size_writeAll]) fun id => ?_
  rw [Bool.eq_iff_iff, isAllowed_writeAll, isAllowed_writeAll]
  simp only [h.mem_iff]

end Writes

/-! ## Ids -/

section Ids

theorem isAllowed_iff : m.isAllowed id = true ↔ m.flags[id]? = some true := by
  rw [isAllowed]
  cases m.flags[id]? with
  | none => simp
  | some b => simp

theorem isAllowed_of_size_le (h : m.size ≤ id) : m.isAllowed id = false := by
  rw [isAllowed, List.getElem?_eq_none h, Option.getD_none]

theorem isAllowed_full (n id : Nat) : (full n).isAllowed id = true ↔ id < n := by
  simp [isAllowed_iff, full, List.getElem?_replicate]

/-- The places of the flags that are set. -/
def places (m : Mask) : List Nat := (m.flags.zipIdx.filter (·.1)).map (·.2)

theorem mem_places_iff : id ∈ m.places ↔ m.isAllowed id = true := by
  simp [places, isAllowed_iff, List.mem_zipIdx_iff_getElem?]

theorem places_ascending (m : Mask) : m.places.Pairwise (· < ·) := by
  have hall : m.flags.zipIdx.Pairwise fun p q => p.2 < q.2 := by
    rw [← List.pairwise_map (f := Prod.snd) (R := (· < ·)), List.zipIdx_map_snd]
    exact List.pairwise_lt_range'
  exact List.pairwise_map.mpr (hall.filter _)

theorem length_places (m : Mask) : m.places.length = m.count := by
  rw [places, List.length_map, ← List.countP_eq_length_filter]
  calc m.flags.zipIdx.countP (·.1)
      = (m.flags.zipIdx.map Prod.fst).countP id := by rw [List.countP_map, Function.id_comp]
    _ = m.flags.countP id := by rw [List.zipIdx_map_fst]
    _ = m.count := List.countP_congr fun b _ => by simp

/-- In 32 bits every place below the size is an id. -/
theorem map_toNat_ids (hm : m.size ≤ UInt32.size) : m.ids.map UInt32.toNat = m.places := by
  rw [ids, places, List.map_map]
  refine List.map_congr_left fun p hp => ?_
  have hplace : p.2 < m.size := by
    obtain ⟨hlt, -⟩ := List.getElem?_eq_some_iff.mp
      (List.mem_zipIdx_iff_getElem?.mp (List.mem_filter.mp hp).1)
    exact hlt
  exact UInt32.toNat_ofNat_of_lt' (Nat.lt_of_lt_of_le hplace hm)

theorem ids_eq_nil_iff : m.ids = [] ↔ ∀ id, m.isAllowed id = false := by
  have hplaces : m.ids = [] ↔ m.places = [] := by simp [ids, places]
  rw [hplaces, List.eq_nil_iff_forall_not_mem]
  simp only [mem_places_iff, Bool.not_eq_true]

theorem noneAllowed_iff : m.noneAllowed = true ↔ ∀ id, m.isAllowed id = false := by
  have hmem : m.noneAllowed = true ↔ true ∉ m.flags := by simp [noneAllowed]
  rw [hmem, List.mem_iff_getElem?, not_exists]
  simp only [← isAllowed_iff, Bool.not_eq_true]

end Ids

/-! ## Logits -/

section Logits

theorem getElem?_zipWith_flags {i : Nat} (hlength : logits.length = m.size) (hi : i < m.size) :
    (logits.zipWith (fun x allowed => if allowed then x else .negInfinity) m.flags)[i]? =
      if m.isAllowed i then logits[i]? else some .negInfinity := by
  have hflags : i < m.flags.length := hi
  have hlogits : i < logits.length := hlength ▸ hi
  rw [List.getElem?_zipWith, isAllowed, List.getElem?_eq_getElem hflags,
    List.getElem?_eq_getElem hlogits, Option.getD_some]
  dsimp only
  split <;> rfl

/-- The logits of the allowed ids stay as they are, to the bit. -/
theorem apply_eq_ok_iff : m.apply logits = .ok masked ↔
    logits.length = m.size ∧ masked.length = m.size ∧
      ∀ i < m.size, masked[i]? = if m.isAllowed i then logits[i]? else some .negInfinity := by
  rw [apply]
  by_cases h : logits.length = m.size
  · have hlength : (logits.zipWith (fun x allowed => if allowed then x else Binary32.negInfinity)
        m.flags).length = m.size := by
      rw [List.length_zipWith, h, size, Nat.min_self]
    rw [if_pos h, Except.ok.injEq]
    constructor
    · rintro rfl
      exact ⟨h, hlength, fun i hi => getElem?_zipWith_flags h hi⟩
    · rintro ⟨-, hmasked, hentries⟩
      refine List.ext_getElem? fun i => ?_
      by_cases hi : i < m.size
      · rw [getElem?_zipWith_flags h hi, hentries i hi]
      · rw [List.getElem?_eq_none (by omega), List.getElem?_eq_none (by omega)]
  · simp [h]

theorem exists_apply_eq_ok (h : logits.length = m.size) : ∃ masked, m.apply logits = .ok masked :=
  ⟨_, if_pos h⟩

theorem apply_of_length_ne (h : logits.length ≠ m.size) :
    m.apply logits = .error ⟨logits.length, m.size⟩ :=
  if_neg h

/-- Masks applied one after the other are their intersection. -/
theorem apply_bind_apply {m₃ : Mask} (h₂ : m₂.size = m₁.size) (h₃ : m₃.size = m₁.size)
    (hand : ∀ id, m₃.isAllowed id = (m₁.isAllowed id && m₂.isAllowed id))
    (logits : List Binary32) : (m₁.apply logits).bind m₂.apply = m₃.apply logits := by
  by_cases h : logits.length = m₁.size
  · -- an entry survives both masks if each of them allows it
    obtain ⟨once, honce⟩ := exists_apply_eq_ok h
    obtain ⟨-, hlength, hentries⟩ := apply_eq_ok_iff.mp honce
    obtain ⟨twice, htwice⟩ := exists_apply_eq_ok (m := m₂) (hlength.trans h₂.symm)
    obtain ⟨-, hlength', hentries'⟩ := apply_eq_ok_iff.mp htwice
    rw [honce, Except.bind, htwice, eq_comm, apply_eq_ok_iff]
    refine ⟨h.trans h₃.symm, by omega, fun i hi => ?_⟩
    rw [hentries' i (by omega), hentries i (by omega), hand i]
    cases m₁.isAllowed i <;> cases m₂.isAllowed i <;> rfl
  · have h' : logits.length ≠ m₃.size := fun heq => h (heq.trans h₃)
    rw [apply_of_length_ne h, apply_of_length_ne h', h₃]
    rfl

end Logits

/-! ## The set of ids -/

section Main

/-- Whatever is asked of a mask tells the same set of ids. -/
structure Coherent (m : Mask) : Prop where
  flags : ∀ id, m.flags[id]? = if id < m.size then some (m.isAllowed id) else none
  outside : ∀ id, m.size ≤ id → m.isAllowed id = false
  ids_ascending : (m.ids.map UInt32.toNat).Pairwise (· < ·)
  mem_ids : ∀ id, id ∈ m.ids.map UInt32.toNat ↔ m.isAllowed id = true
  count : m.count = m.ids.length
  noneAllowed : m.noneAllowed = true ↔ m.ids = []
  /-- One logit for each id: those of the allowed ids stay as they are, the others become negative
  infinity. -/
  apply_ok : ∀ logits, logits.length = m.size → ∃ masked, m.apply logits = .ok masked ∧
    masked.length = m.size ∧
      ∀ i < m.size, masked[i]? = if m.isAllowed i then logits[i]? else some .negInfinity
  apply_error : ∀ logits, logits.length ≠ m.size →
    m.apply logits = .error ⟨logits.length, m.size⟩

theorem coherent (hm : m.size ≤ UInt32.size) : m.Coherent where
  flags id := by
    by_cases h : id < m.size
    · have hid : id < m.flags.length := h
      rw [if_pos h, isAllowed, List.getElem?_eq_getElem hid, Option.getD_some]
    · rw [if_neg h, List.getElem?_eq_none (Nat.le_of_not_lt h)]
  outside id := isAllowed_of_size_le
  ids_ascending := by
    rw [map_toNat_ids hm]
    exact places_ascending m
  mem_ids id := by rw [map_toNat_ids hm, mem_places_iff]
  count := by rw [← length_places, ← map_toNat_ids hm, List.length_map]
  noneAllowed := noneAllowed_iff.trans ids_eq_nil_iff.symm
  apply_ok logits h := by
    obtain ⟨masked, hmasked⟩ := exists_apply_eq_ok h
    exact ⟨masked, hmasked, (apply_eq_ok_iff.mp hmasked).2⟩
  apply_error logits := apply_of_length_ne

/-- A mask of any flags, of none or of all, is written to.  At every moment a write that reaches
outside is refused, and no other, and it changes nothing; no write changes the size.  In the end
those ids are allowed that were so at the start or that some other write names, whatever the order of
the writes, and whatever is asked of the mask tells this set.  Two masks applied in either order are
their intersection. -/
theorem writes_accumulate (m : Mask) (hm : m.size ≤ UInt32.size) (ws : List Write) :
    (m.writeAll ws).size = m.size ∧
      (∀ id, (m.writeAll ws).allow? id = none ↔ m.size ≤ id) ∧
      (∀ b, (m.writeAll ws).allowBlock? b = none ↔ b.stop < b.start ∨ m.size < b.stop) ∧
      (∀ w, (m.writeAll ws).write? w = none → m.writeAll (ws ++ [w]) = m.writeAll ws) ∧
      (∀ id, (m.writeAll ws).isAllowed id = true ↔
        m.isAllowed id = true ∨ ∃ w ∈ ws, w.Fits m.size ∧ w.Names id) ∧
      (∀ ws', ws.Perm ws' → m.writeAll ws' = m.writeAll ws) ∧
      (m.writeAll ws).Coherent ∧
      (∀ m₂ m₃ : Mask, m₂.size = m.size → m₃.size = m.size →
        (∀ id, m₃.isAllowed id = ((m.writeAll ws).isAllowed id && m₂.isAllowed id)) →
          ∀ logits, ((m.writeAll ws).apply logits).bind m₂.apply = m₃.apply logits ∧
            (m₂.apply logits).bind (m.writeAll ws).apply = m₃.apply logits) ∧
      ∀ n id, (empty n).isAllowed id = false ∧ ((full n).isAllowed id = true ↔ id < n) := by
  have hsize : (m.writeAll ws).size = m.size := size_writeAll m ws
  refine ⟨hsize, fun id => ?_, fun b => ?_, fun w h => ?_, fun id => isAllowed_writeAll,
    fun ws' h => (writeAll_eq_of_perm h).symm, coherent (by rw [hsize]; exact hm), ?_,
    fun n id => ⟨isAllowed_empty n id, isAllowed_full n id⟩⟩
  · have hrefused : (m.writeAll ws).write? (.id id) = none ↔ ¬ id < (m.writeAll ws).size :=
      write?_eq_none_iff
    rw [hsize, Nat.not_lt] at hrefused
    exact hrefused
  · have hrefused : (m.writeAll ws).write? (.block b) = none ↔
        ¬ (b.start ≤ b.stop ∧ b.stop ≤ (m.writeAll ws).size) := write?_eq_none_iff
    rw [hsize] at hrefused
    exact hrefused.trans (by omega)
  · rw [writeAll, List.foldl_append]
    exact write_of_not_fits (write?_eq_none_iff.mp h)
  · -- masking keeps the length, so the second mask fits as the first did
    intro m₂ m₃ h₂ h₃ hand logits
    refine ⟨apply_bind_apply (by omega) (by omega) hand logits, ?_⟩
    refine apply_bind_apply (by omega) (by omega) (fun id => ?_) logits
    rw [hand, Bool.and_comm]

/-- Four ids: a block up to the end, one behind it, an empty block, one that runs backwards. -/
theorem writes_accumulate_four :
    let m := empty 4
    let ws : List Write := [.block ⟨2, 4⟩, .id 4, .block ⟨4, 4⟩, .block ⟨3, 1⟩]
    m.size ≤ UInt32.size ∧ (m.writeAll ws).ids = [2, 3] ∧ (m.writeAll ws).Coherent ∧
      ∀ ws', ws.Perm ws' → m.writeAll ws' = m.writeAll ws := by
  intro m ws
  have hm : m.size ≤ UInt32.size := by decide
  obtain ⟨-, -, -, -, -, hperm, hcoherent, -⟩ := writes_accumulate m hm ws
  exact ⟨hm, by decide, hcoherent, hperm⟩

end Main

end Mask

end FactorSearch
