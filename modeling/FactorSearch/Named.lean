/-!
# Finite types whose members have names

`Named α` lists the members of `α` once and in order, and gives each a name of its own.  The order
is the one members are shown and sorted in; `ofName?` is the inverse of `name`.
-/

namespace FactorSearch

/-- Every member of `α`, once and in order, and a name for each. -/
class Named (α : Type) where
  all : List α
  name : α → String
  mem_all : ∀ a, a ∈ all
  nodup_names : (all.map name).Nodup

namespace Named

variable {α : Type} [Named α]

/-- All names, in order. -/
def names (α : Type) [Named α] : List String := (all : List α).map name

/-- The member of this name. -/
def ofName? (s : String) : Option α := (all : List α).find? fun a => name a = s

/-- The place of `a` in the order. -/
def position (a : α) : Nat := (names α).idxOf (name a)

/-- The same members in order; equal members keep their places. -/
def sort (as : List α) : List α := as.mergeSort fun a b => position a ≤ position b

theorem eq_of_mem_of_name_eq {l : List α} (hl : (l.map name).Nodup) {a b : α} (ha : a ∈ l)
    (hb : b ∈ l) (h : name a = name b) : a = b := by
  induction l with
  | nil => simp at ha
  | cons x xs ih =>
    simp only [List.map_cons, List.nodup_cons, List.mem_map, not_exists, not_and] at hl
    rcases List.mem_cons.mp ha with rfl | ha' <;> rcases List.mem_cons.mp hb with rfl | hb'
    · rfl
    · exact absurd h.symm (hl.1 b hb')
    · exact absurd h (hl.1 a ha')
    · exact ih hl.2 ha' hb'

/-- A name belongs to one member. -/
theorem name_injective {a b : α} (h : name a = name b) : a = b :=
  eq_of_mem_of_name_eq nodup_names (mem_all a) (mem_all b) h

theorem ofName?_eq_some_iff {s : String} {a : α} : ofName? s = some a ↔ name a = s := by
  constructor
  · intro h
    simpa using List.find?_some h
  · rintro rfl
    cases h : ofName? (α := α) (name a) with
    | none =>
      have := List.find?_eq_none.mp h a (mem_all a)
      simp at this
    | some b =>
      have := List.find?_some h
      rw [name_injective (of_decide_eq_true this)]

@[simp] theorem ofName?_name (a : α) : ofName? (name a) = some a :=
  ofName?_eq_some_iff.mpr rfl

end Named

end FactorSearch
