import FactorSearch.Token

/-!
# Vocabularies

A vocabulary is four tables of tokens in which nothing repeats, no delta time is zero and every
constant is finite.  `Tables` are tables as they come; `Vocabulary.ofTables` accepts the well-formed
ones and names the first fault of the others.
-/

namespace FactorSearch

namespace Vocabulary

structure Tables where
  operators : List Operator
  features : List Feature
  deltaTimes : List UInt32
  constants : List Binary64
deriving DecidableEq

/-- Why tables are not a vocabulary, with the entry at fault. -/
inductive Fault
  | duplicateOperator (op : Operator)
  | duplicateFeature (f : Feature)
  | duplicateDeltaTime (days : UInt32)
  | duplicateConstant (c : Binary64)
  | nonFiniteConstant (c : Binary64)
  | zeroDeltaTime
deriving DecidableEq

def Fault.message : Fault → String
  | duplicateOperator op => "duplicate operator " ++ op.name
  | duplicateFeature f => "duplicate feature " ++ f.text
  | duplicateDeltaTime days => "duplicate delta time " ++ toString days.toNat
  | duplicateConstant c => "duplicate constant " ++ Token.constantText c
  | nonFiniteConstant c => "constant " ++ Token.constantText c ++ " is not finite"
  | zeroDeltaTime => "delta time must be non-zero"

section FirstFault

variable {α : Type} (wrong : α → Option Fault) (same : α → α → Bool) (repeated : α → Fault)

/-- The first fault of a table that follows the entries `seen`: an entry that is wrong by itself, or
one that repeats an earlier entry. -/
def firstFault? : List α → List α → Option Fault
  | _, [] => none
  | seen, a :: as =>
    match wrong a with
    | some fault => some fault
    | none => if seen.any (same · a) then some (repeated a) else firstFault? (a :: seen) as

variable {wrong same repeated}

theorem firstFault?_eq_none_iff {seen as : List α} :
    firstFault? wrong same repeated seen as = none ↔
      (∀ a ∈ as, wrong a = none) ∧ (∀ b ∈ seen, ∀ a ∈ as, same b a = false) ∧
        as.Pairwise (same · · = false) := by
  -- the entries move to those seen one by one, so the statement is about all that may be seen
  induction as generalizing seen with
  | nil => simp [firstFault?]
  | cons a as ih =>
    rw [firstFault?]
    cases hw : wrong a with
    | some fault => simp [hw]
    | none =>
      by_cases hs : seen.any (same · a)
      · obtain ⟨b, hb, hba⟩ := List.any_eq_true.mp hs
        rw [if_pos hs]
        simp only [reduceCtorEq, false_iff]
        rintro ⟨-, h, -⟩
        simp [h b hb a List.mem_cons_self] at hba
      · have hs' : ∀ b ∈ seen, same b a = false := by
          simpa using hs
        rw [if_neg hs, ih]
        simp only [List.mem_cons, List.pairwise_cons]
        constructor
        · rintro ⟨h₁, h₂, h₃⟩
          refine ⟨?_, ?_, fun b hb => h₂ a (.inl rfl) b hb, h₃⟩
          · rintro b (rfl | hb)
            · exact hw
            · exact h₁ b hb
          · rintro b hb c (rfl | hc)
            · exact hs' b hb
            · exact h₂ b (.inr hb) c hc
        · rintro ⟨h₁, h₂, h₃, h₄⟩
          refine ⟨fun b hb => h₁ b (.inr hb), ?_, h₄⟩
          rintro b (rfl | hb) c hc
          · exact h₃ c hc
          · exact h₂ b hb c (.inr hc)

end FirstFault

namespace Tables

variable (t : Tables)

/-- Nothing repeats, no delta time is zero, every constant is finite. -/
structure WellFormed : Prop where
  operators : t.operators.Nodup
  features : t.features.Nodup
  deltaTimes : t.deltaTimes.Nodup
  deltaTimes_ne_zero : ∀ days ∈ t.deltaTimes, days ≠ 0
  constants : t.constants.Pairwise (·.ieeeEq · = false)
  constants_finite : ∀ c ∈ t.constants, c.isFinite = true

/-- The first fault, table by table. -/
def fault? : Option Fault :=
  firstFault? (fun _ => none) (· = ·) .duplicateOperator [] t.operators <|>
  firstFault? (fun _ => none) (· = ·) .duplicateFeature [] t.features <|>
  firstFault? (fun days => if days = 0 then some .zeroDeltaTime else none) (· = ·)
    .duplicateDeltaTime [] t.deltaTimes <|>
  firstFault? (fun c => if c.isFinite then none else some (.nonFiniteConstant c)) (·.ieeeEq ·)
    .duplicateConstant [] t.constants

variable {t}

theorem fault?_eq_none_iff : t.fault? = none ↔ t.WellFormed := by
  simp only [fault?, Option.orElse_eq_orElse, Option.orElse_eq_or, Option.or_eq_none_iff,
    firstFault?_eq_none_iff, List.not_mem_nil, false_implies, implies_true, true_and,
    ite_eq_right_iff, ite_eq_left_iff, reduceCtorEq, imp_false, decide_eq_false_iff_not,
    Bool.not_eq_true, Bool.not_eq_false]
  constructor
  · rintro ⟨h₁, h₂, ⟨h₃, h₄⟩, h₅, h₆⟩
    exact ⟨h₁, h₂, h₄, h₃, h₆, h₅⟩
  · rintro ⟨h₁, h₂, h₃, h₄, h₅, h₆⟩
    exact ⟨h₁, h₂, ⟨h₄, h₃⟩, h₆, h₅⟩

/-- Equality that compares constants by value. -/
def ieeeEq (s t : Tables) : Bool :=
  s.operators = t.operators && s.features = t.features && s.deltaTimes = t.deltaTimes &&
    s.constants.isEqv t.constants Binary64.ieeeEq

end Tables

end Vocabulary

/-- Well-formed tables. -/
structure Vocabulary extends Vocabulary.Tables where
  wellFormed : toTables.WellFormed
deriving DecidableEq

namespace Vocabulary

def ofTables (t : Tables) : Except Fault Vocabulary :=
  match h : t.fault? with
  | none => .ok ⟨t, Tables.fault?_eq_none_iff.mp h⟩
  | some fault => .error fault

/-- The tables of the standard experiment. -/
def standard : Vocabulary where
  operators :=
    [.abs, .log, .csRank].map .unary ++
    [.add, .sub, .mul, .div, .greater, .less].map .binary ++
    [.ref, .mean, .sum, .std, .var, .max, .min, .med, .mad, .delta, .wma, .ema].map .rolling ++
    [.cov, .corr].map .pairRolling
  features := Named.all
  deltaTimes := [10, 20, 30, 40, 50]
  constants :=
    [-30.0, -10.0, -5.0, -2.0, -1.0, -0.5, -0.01, 0.01, 0.5, 1.0, 2.0, 5.0, 10.0, 30.0]
  wellFormed := Tables.fault?_eq_none_iff.mp (by decide +kernel)

variable (v : Vocabulary)

/-- Every token of the vocabulary: the tables one after the other, then the terminator. -/
def tokens : List Token :=
  v.operators.map .operator ++ v.features.map .feature ++ v.deltaTimes.map .deltaTime ++
    v.constants.map .constant ++ [.terminator]

/-- How many tokens there are, the terminator included. -/
def size : Nat :=
  v.operators.length + v.features.length + v.deltaTimes.length + v.constants.length + 1

theorem length_tokens : v.tokens.length = v.size := by
  simp [tokens, size, Nat.add_assoc]

end Vocabulary

end FactorSearch
