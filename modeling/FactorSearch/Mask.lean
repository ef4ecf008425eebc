import FactorSearch.Vocabulary.Actions

/-!
# Masks over an action space

A mask flags the allowed ones among the action ids below its size.  Writes outside the space are
refused and leave the mask alone.
-/

namespace FactorSearch

/-- An IEEE 754 single precision number, as its 32 bits. -/
structure Binary32 where
  bits : UInt32
deriving DecidableEq

namespace Binary32

def negInfinity : Binary32 := ⟨0xff800000⟩

def isNaN (x : Binary32) : Bool := 0x7f800000 < x.bits.toNat % 0x80000000

end Binary32

structure Mask where
  flags : List Bool
deriving DecidableEq

namespace Mask

/-- Nothing is allowed. -/
def empty (size : Nat) : Mask := ⟨List.replicate size false⟩

/-- Everything is allowed. -/
def full (size : Nat) : Mask := ⟨List.replicate size true⟩

/-- Logits of another length than the mask. -/
structure LengthMismatch where
  logits : Nat
  size : Nat
deriving DecidableEq

def LengthMismatch.message (m : LengthMismatch) : String :=
  s!"logits length {m.logits} != action space size {m.size}"

variable (m : Mask)

def size : Nat := m.flags.length

/-- Allows one id. -/
def allow? (id : Nat) : Option Mask :=
  if id < m.size then some ⟨m.flags.set id true⟩ else none

/-- Allows a block of ids. -/
def allowBlock? (b : Block) : Option Mask :=
  if b.start ≤ b.stop ∧ b.stop ≤ m.size then
    some ⟨m.flags.take b.start ++ List.replicate (b.stop - b.start) true ++ m.flags.drop b.stop⟩
  else none

/-- Whether an id is allowed; one outside the space never is. -/
def isAllowed (id : Nat) : Bool := m.flags[id]?.getD false

/-- The allowed ids, ascending. -/
def ids : List ActionId :=
  (m.flags.zipIdx.filter (·.1)).map fun p => UInt32.ofNat p.2

/-- How many ids are allowed. -/
def count : Nat := m.flags.count true

def isEmpty : Bool := m.flags.isEmpty

def noneAllowed : Bool := !m.flags.contains true

/-- Puts every logit that is not allowed to negative infinity. -/
def apply (logits : List Binary32) : Except LengthMismatch (List Binary32) :=
  if logits.length = m.size then
    .ok (logits.zipWith (fun x allowed => if allowed then x else .negInfinity) m.flags)
  else .error ⟨logits.length, m.size⟩

variable {m}

theorem size_of_allow? {id : Nat} {m' : Mask} (h : m.allow? id = some m') : m'.size = m.size := by
  unfold allow? at h
  split at h
  · cases h
    simp [size]
  · cases h

theorem size_of_allowBlock? {b : Block} {m' : Mask} (h : m.allowBlock? b = some m') :
    m'.size = m.size := by
  unfold allowBlock? at h
  split at h
  next hb =>
    cases h
    simp only [size, List.length_append, List.length_take, List.length_replicate, List.length_drop]
    simp only [size] at hb
    omega
  next => cases h

@[simp] theorem size_empty (n : Nat) : (empty n).size = n := by simp [empty, size]

@[simp] theorem size_full (n : Nat) : (full n).size = n := by simp [full, size]

end Mask

end FactorSearch
