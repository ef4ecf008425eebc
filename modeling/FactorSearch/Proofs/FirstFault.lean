import FactorSearch.Vocabulary

/-!
# Which fault of the tables is reported

`Tables.FaultAt t place fault` says what is wrong with one entry, given the entries before it in its
table.  Main statement: tables are accepted, as they are, exactly if they are well-formed; of the
faults of other tables the one at the first place is reported (`judged`).
-/

namespace FactorSearch

namespace Vocabulary

/-! ## Accepted and refused tables -/

section Tables

variable {t : Tables} {v : Vocabulary} {fault : Fault}

theorem ofTables_toTables (v : Vocabulary) : ofTables v.toTables = .ok v := by
  have hfault : v.toTables.fault? = none := Tables.fault?_eq_none_iff.mpr v.wellFormed
  unfold ofTables
  split
  · rfl
  · next fault h =>
    rw [hfault] at h
    cases h

theorem ofTables_eq_ok_iff : ofTables t = .ok v ↔ t.WellFormed ∧ v.toTables = t := by
  constructor
  · intro h
    unfold ofTables at h
    split at h
    · next hfault =>
      cases h
      exact ⟨Tables.fault?_eq_none_iff.mp hfault, rfl⟩
    · cases h
  · rintro ⟨-, rfl⟩
    exact v.ofTables_toTables

theorem ofTables_eq_error_iff : ofTables t = .error fault ↔ t.fault? = some fault := by
  unfold ofTables
  split
  · next h => simp [h]
  · next fault' h => simp [h]

end Tables

/-! ## The first fault of one table -/

section Scan

variable {α : Type} {wrong : α → Option Fault} {same : α → α → Bool} {repeated : α → Fault}
  {seen as : List α} {a : α} {i : Nat} {fault : Fault}

/-- The fault of an entry behind the entries `earlier`: what is wrong with it by itself comes before
its being a repetition. -/
def Faulty (wrong : α → Option Fault) (same : α → α → Bool) (repeated : α → Fault)
    (earlier : List α) (a : α) (fault : Fault) : Prop :=
  wrong a = some fault ∨
    wrong a = none ∧ (∃ b ∈ earlier, same b a = true) ∧ fault = repeated a

/-- The order of the earlier entries does not matter. -/
theorem faulty_congr {earlier earlier' : List α} (h : ∀ b, b ∈ earlier ↔ b ∈ earlier') :
    Faulty wrong same repeated earlier a fault ↔ Faulty wrong same repeated earlier' a fault := by
  simp only [Faulty, h]

theorem faulty_eq_iff [DecidableEq α] {earlier : List α} :
    Faulty wrong (fun b a => decide (b = a)) repeated earlier a fault ↔
      wrong a = some fault ∨ wrong a = none ∧ a ∈ earlier ∧ fault = repeated a := by
  simp [Faulty]

theorem firstFault?_cons_eq_some_iff : firstFault? wrong same repeated seen (a :: as) = some fault ↔
    Faulty wrong same repeated seen a fault ∨
      (∀ fault', ¬ Faulty wrong same repeated seen a fault') ∧
        firstFault? wrong same repeated (a :: seen) as = some fault := by
  rw [firstFault?]
  -- an entry that is wrong in itself is not compared with those before it
  cases hwrong : wrong a with
  | some fault' =>
    have hfaulty : Faulty wrong same repeated seen a fault' := .inl hwrong
    constructor
    · intro h
      cases h
      exact .inl hfaulty
    · rintro (h | ⟨hnot, -⟩)
      · rcases h with h | ⟨h, -⟩
        · exact hwrong.symm.trans h
        · rw [hwrong] at h
          cases h
      · exact absurd hfaulty (hnot fault')
  | none =>
    by_cases hseen : seen.any (same · a) = true
    · have hrepeat : ∃ b ∈ seen, same b a = true := List.any_eq_true.mp hseen
      simp only [hseen, if_true, Option.some.injEq]
      constructor
      · intro h
        exact .inl (.inr ⟨hwrong, hrepeat, h.symm⟩)
      · rintro (h | ⟨hnot, -⟩)
        · rcases h with h | ⟨-, -, h⟩
          · rw [hwrong] at h
            cases h
          · exact h.symm
        · exact absurd (.inr ⟨hwrong, hrepeat, rfl⟩) (hnot (repeated a))
    · have hnone : ∀ fault', ¬ Faulty wrong same repeated seen a fault' := by
        rintro fault' (h | ⟨-, h, -⟩)
        · rw [hwrong] at h
          cases h
        · exact hseen (List.any_eq_true.mpr h)
      simp only [hseen, Bool.false_eq_true, if_false]
      constructor
      · intro h
        exact .inr ⟨hnone, h⟩
      · rintro (h | ⟨-, h⟩)
        · exact absurd h (hnone fault)
        · exact h

/-- The scan reports the first entry that is at fault. -/
theorem firstFault?_eq_some_iff : firstFault? wrong same repeated seen as = some fault ↔
    ∃ i a, as[i]? = some a ∧ Faulty wrong same repeated (as.take i ++ seen) a fault ∧
      ∀ j < i, ∀ b fault', as[j]? = some b →
        ¬ Faulty wrong same repeated (as.take j ++ seen) b fault' := by
  induction as generalizing seen with
  | nil => simp [firstFault?]
  | cons c as ih =>
    -- behind `c` the same entries come earlier, in another order
    have hshift : ∀ k b fault', Faulty wrong same repeated (as.take k ++ c :: seen) b fault' ↔
        Faulty wrong same repeated ((c :: as).take (k + 1) ++ seen) b fault' := by
      intro k b fault'
      refine faulty_congr fun x => ?_
      simp only [List.take_succ_cons, List.mem_append, List.mem_cons]
      grind
    rw [firstFault?_cons_eq_some_iff, ih]
    constructor
    · rintro (h | ⟨hnot, i, a, hi, ha, hfirst⟩)
      · exact ⟨0, c, rfl, h, fun j hj => absurd hj (Nat.not_lt_zero j)⟩
      · refine ⟨i + 1, a, hi, (hshift i a fault).mp ha, fun j hj b fault' hb h => ?_⟩
        cases j with
        | zero =>
          cases hb
          exact hnot fault' h
        | succ j => exact hfirst j (by omega) b fault' hb ((hshift j b fault').mpr h)
    · rintro ⟨i, a, hi, ha, hfirst⟩
      cases i with
      | zero =>
        cases hi
        exact .inl ha
      | succ i =>
        have hnot : ∀ fault', ¬ Faulty wrong same repeated seen c fault' :=
          fun fault' => hfirst 0 (Nat.succ_pos i) c fault' rfl
        refine .inr ⟨hnot, i, a, hi, (hshift i a fault).mpr ha, fun j hj b fault' hb h => ?_⟩
        exact hfirst (j + 1) (by omega) b fault' hb ((hshift j b fault').mp h)

variable {P : Nat → Fault → Prop}
  (hP : ∀ i fault, P i fault ↔
    ∃ a, as[i]? = some a ∧ Faulty wrong same repeated (as.take i) a fault)

include hP

/-- The same, where `P` tells the entries that are at fault. -/
theorem firstFault?_nil_eq_some_iff : firstFault? wrong same repeated [] as = some fault ↔
    ∃ i, P i fault ∧ ∀ j < i, ∀ fault', ¬ P j fault' := by
  rw [firstFault?_eq_some_iff]
  simp only [List.append_nil, hP]
  constructor
  · rintro ⟨i, a, hi, ha, hfirst⟩
    exact ⟨i, ⟨a, hi, ha⟩, fun j hj fault' ⟨b, hb, h⟩ => hfirst j hj b fault' hb h⟩
  · rintro ⟨i, ⟨a, hi, ha⟩, hfirst⟩
    exact ⟨i, a, hi, ha, fun j hj b fault' hb h => hfirst j hj fault' ⟨b, hb, h⟩⟩

theorem firstFault?_nil_eq_none_iff :
    firstFault? wrong same repeated [] as = none ↔ ∀ i fault, ¬ P i fault := by
  constructor
  · intro hnone i
    -- the least index at fault would have been reported
    induction i using Nat.strongRecOn with
    | ind i ih =>
      intro fault h
      have hsome := (firstFault?_nil_eq_some_iff hP).mpr ⟨i, h, ih⟩
      rw [hnone] at hsome
      cases hsome
  · intro hright
    refine Option.eq_none_iff_forall_ne_some.mpr fun fault hsome => ?_
    obtain ⟨i, h, -⟩ := (firstFault?_nil_eq_some_iff hP).mp hsome
    exact hright i fault h

end Scan

/-! ## Places in the tables -/

section Places

/-- The tables. -/
inductive Table
  | operators
  | features
  | deltaTimes
  | constants
deriving DecidableEq

/-- When a table is looked at. -/
def Table.rank : Table → Nat
  | operators => 0
  | features => 1
  | deltaTimes => 2
  | constants => 3

/-- Where an entry stands. -/
structure Place where
  table : Table
  index : Nat
deriving DecidableEq

/-- Tables one after the other, and each from its beginning. -/
def Place.Before (p q : Place) : Prop :=
  p.table.rank < q.table.rank ∨ p.table = q.table ∧ p.index < q.index

namespace Tables

variable {t : Tables} {table : Table} {i : Nat} {place : Place} {fault : Fault}

/-- The entry at a place is at fault.  An entry that is not fit to stand in its table at all is not
called a repetition. -/
inductive FaultAt (t : Tables) : Place → Fault → Prop
  | duplicateOperator {i : Nat} {op : Operator} (h : t.operators[i]? = some op)
      (hrepeat : op ∈ t.operators.take i) : FaultAt t ⟨.operators, i⟩ (.duplicateOperator op)
  | duplicateFeature {i : Nat} {f : Feature} (h : t.features[i]? = some f)
      (hrepeat : f ∈ t.features.take i) : FaultAt t ⟨.features, i⟩ (.duplicateFeature f)
  | zeroDeltaTime {i : Nat} (h : t.deltaTimes[i]? = some 0) :
      FaultAt t ⟨.deltaTimes, i⟩ .zeroDeltaTime
  | duplicateDeltaTime {i : Nat} {days : UInt32} (h : t.deltaTimes[i]? = some days)
      (hdays : days ≠ 0) (hrepeat : days ∈ t.deltaTimes.take i) :
      FaultAt t ⟨.deltaTimes, i⟩ (.duplicateDeltaTime days)
  | nonFiniteConstant {i : Nat} {c : Binary64} (h : t.constants[i]? = some c)
      (hc : c.isFinite = false) : FaultAt t ⟨.constants, i⟩ (.nonFiniteConstant c)
  | duplicateConstant {i : Nat} {c : Binary64} (h : t.constants[i]? = some c)
      (hc : c.isFinite = true) (hrepeat : ∃ b ∈ t.constants.take i, b.ieeeEq c = true) :
      FaultAt t ⟨.constants, i⟩ (.duplicateConstant c)

/-- The first fault of one table. -/
def tableFault? (t : Tables) : Table → Option Fault
  | .operators => firstFault? (fun _ => none) (· = ·) .duplicateOperator [] t.operators
  | .features => firstFault? (fun _ => none) (· = ·) .duplicateFeature [] t.features
  | .deltaTimes =>
    firstFault? (fun days => if days = 0 then some .zeroDeltaTime else none) (· = ·)
      .duplicateDeltaTime [] t.deltaTimes
  | .constants =>
    firstFault? (fun c => if c.isFinite then none else some (.nonFiniteConstant c)) (·.ieeeEq ·)
      .duplicateConstant [] t.constants

theorem fault?_eq : t.fault? = (t.tableFault? .operators <|> t.tableFault? .features <|>
    t.tableFault? .deltaTimes <|> t.tableFault? .constants) := rfl

/-- In a table whose entries have no fault of their own, all that can be wrong with an entry is that
it repeats another one. -/
theorem faultAt_iff_of_repeats {α : Type} [DecidableEq α] {as : List α} {repeated : α → Fault}
    (hmake : ∀ a, as[i]? = some a → a ∈ as.take i → t.FaultAt ⟨table, i⟩ (repeated a))
    (hbreak : t.FaultAt ⟨table, i⟩ fault →
      ∃ a, as[i]? = some a ∧ a ∈ as.take i ∧ fault = repeated a) :
    t.FaultAt ⟨table, i⟩ fault ↔ ∃ a, as[i]? = some a ∧
      Faulty (fun _ => none) (· = ·) repeated (as.take i) a fault := by
  simp only [faulty_eq_iff, reduceCtorEq, false_or, true_and]
  refine ⟨hbreak, ?_⟩
  rintro ⟨a, h, hrepeat, rfl⟩
  exact hmake a h hrepeat

theorem faultAt_operators_iff : t.FaultAt ⟨.operators, i⟩ fault ↔ ∃ op, t.operators[i]? = some op ∧
    Faulty (fun _ => none) (· = ·) .duplicateOperator (t.operators.take i) op fault :=
  faultAt_iff_of_repeats (fun _ => .duplicateOperator) fun
    | .duplicateOperator h hrepeat => ⟨_, h, hrepeat, rfl⟩

theorem faultAt_features_iff : t.FaultAt ⟨.features, i⟩ fault ↔ ∃ f, t.features[i]? = some f ∧
    Faulty (fun _ => none) (· = ·) .duplicateFeature (t.features.take i) f fault :=
  faultAt_iff_of_repeats (fun _ => .duplicateFeature) fun
    | .duplicateFeature h hrepeat => ⟨_, h, hrepeat, rfl⟩

theorem faultAt_deltaTimes_iff : t.FaultAt ⟨.deltaTimes, i⟩ fault ↔
    ∃ days, t.deltaTimes[i]? = some days ∧
      Faulty (fun days => if days = 0 then some .zeroDeltaTime else none) (· = ·)
        .duplicateDeltaTime (t.deltaTimes.take i) days fault := by
  simp only [faulty_eq_iff]
  constructor
  · intro h
    cases h with
    | zeroDeltaTime h => exact ⟨0, h, .inl rfl⟩
    | duplicateDeltaTime h hdays hrepeat => exact ⟨_, h, .inr ⟨if_neg hdays, hrepeat, rfl⟩⟩
  · rintro ⟨days, h, hfault⟩
    by_cases hzero : days = 0
    · simp only [hzero, if_true, Option.some.injEq, reduceCtorEq, false_and, or_false] at hfault
      rw [hzero] at h
      exact hfault ▸ .zeroDeltaTime h
    · simp only [hzero, if_false, reduceCtorEq, false_or, true_and] at hfault
      obtain ⟨hrepeat, rfl⟩ := hfault
      exact .duplicateDeltaTime h hzero hrepeat

theorem faultAt_constants_iff : t.FaultAt ⟨.constants, i⟩ fault ↔
    ∃ c, t.constants[i]? = some c ∧
      Faulty (fun c => if c.isFinite then none else some (.nonFiniteConstant c)) (·.ieeeEq ·)
        .duplicateConstant (t.constants.take i) c fault := by
  simp only [Faulty]
  constructor
  · intro h
    cases h with
    | nonFiniteConstant h hc => exact ⟨_, h, .inl (by rw [hc]; rfl)⟩
    | duplicateConstant h hc hrepeat => exact ⟨_, h, .inr ⟨if_pos hc, hrepeat, rfl⟩⟩
  · rintro ⟨c, h, hfault⟩
    -- a constant that is not finite is reported as such, also where it repeats another
    by_cases hc : c.isFinite = true
    · simp only [hc, if_true, reduceCtorEq, false_or, true_and] at hfault
      obtain ⟨hrepeat, rfl⟩ := hfault
      exact .duplicateConstant h hc hrepeat
    · simp only [hc, Bool.false_eq_true, if_false, Option.some.injEq, reduceCtorEq, false_and,
        or_false] at hfault
      exact hfault ▸ .nonFiniteConstant h (Bool.eq_false_iff.mpr hc)

theorem tableFault?_eq_some_iff : t.tableFault? table = some fault ↔
    ∃ i, t.FaultAt ⟨table, i⟩ fault ∧ ∀ j < i, ∀ fault', ¬ t.FaultAt ⟨table, j⟩ fault' := by
  cases table with
  | operators => exact firstFault?_nil_eq_some_iff fun _ _ => faultAt_operators_iff
  | features => exact firstFault?_nil_eq_some_iff fun _ _ => faultAt_features_iff
  | deltaTimes => exact firstFault?_nil_eq_some_iff fun _ _ => faultAt_deltaTimes_iff
  | constants => exact firstFault?_nil_eq_some_iff fun _ _ => faultAt_constants_iff

theorem tableFault?_eq_none_iff :
    t.tableFault? table = none ↔ ∀ i fault, ¬ t.FaultAt ⟨table, i⟩ fault := by
  cases table with
  | operators => exact firstFault?_nil_eq_none_iff fun _ _ => faultAt_operators_iff
  | features => exact firstFault?_nil_eq_none_iff fun _ _ => faultAt_features_iff
  | deltaTimes => exact firstFault?_nil_eq_none_iff fun _ _ => faultAt_deltaTimes_iff
  | constants => exact firstFault?_nil_eq_none_iff fun _ _ => faultAt_constants_iff

/-- A table is looked at if those before it have no fault. -/
theorem fault?_eq_some_iff_tableFault? : t.fault? = some fault ↔ ∃ table,
    t.tableFault? table = some fault ∧
      ∀ table' : Table, table'.rank < table.rank → t.tableFault? table' = none := by
  simp only [fault?_eq, Option.orElse_eq_orElse, Option.orElse_eq_or, Option.or_eq_some_iff]
  constructor
  · rintro (h | ⟨h₀, h | ⟨h₁, h | ⟨h₂, h⟩⟩⟩)
    · refine ⟨.operators, h, fun table' hrank => ?_⟩
      cases table' <;> simp [Table.rank] at hrank
    · refine ⟨.features, h, fun table' hrank => ?_⟩
      cases table' <;> simp [Table.rank] at hrank
      exact h₀
    · refine ⟨.deltaTimes, h, fun table' hrank => ?_⟩
      cases table' <;> simp [Table.rank] at hrank
      · exact h₀
      · exact h₁
    · refine ⟨.constants, h, fun table' hrank => ?_⟩
      cases table' <;> simp [Table.rank] at hrank
      · exact h₀
      · exact h₁
      · exact h₂
  · rintro ⟨table, h, hnone⟩
    cases table with
    | operators => exact .inl h
    | features => exact .inr ⟨hnone .operators (by decide), .inl h⟩
    | deltaTimes =>
      exact .inr ⟨hnone .operators (by decide), .inr ⟨hnone .features (by decide), .inl h⟩⟩
    | constants =>
      exact .inr ⟨hnone .operators (by decide), .inr ⟨hnone .features (by decide),
        .inr ⟨hnone .deltaTimes (by decide), h⟩⟩⟩

/-- The fault that is reported is the one at the first place. -/
theorem fault?_eq_some_iff : t.fault? = some fault ↔ ∃ place, t.FaultAt place fault ∧
    ∀ place' fault', t.FaultAt place' fault' → ¬ place'.Before place := by
  rw [fault?_eq_some_iff_tableFault?]
  constructor
  · -- an earlier place is in an earlier table, or before it in the same one
    rintro ⟨table, htable, hbefore⟩
    obtain ⟨i, hi, hfirst⟩ := tableFault?_eq_some_iff.mp htable
    refine ⟨⟨table, i⟩, hi, ?_⟩
    rintro ⟨table', j⟩ fault' h (hrank | ⟨rfl, hj⟩)
    · exact tableFault?_eq_none_iff.mp (hbefore table' hrank) j fault' h
    · exact hfirst j hj fault' h
  · rintro ⟨⟨table, i⟩, hi, hfirst⟩
    refine ⟨table, tableFault?_eq_some_iff.mpr ⟨i, hi, fun j hj fault' h => ?_⟩, ?_⟩
    · exact hfirst ⟨table, j⟩ fault' h (.inr ⟨rfl, hj⟩)
    · intro table' hrank
      refine tableFault?_eq_none_iff.mpr fun j fault' h => ?_
      exact hfirst ⟨table', j⟩ fault' h (.inl hrank)

/-- Tables of finite constants are not refused for a constant that is not finite. -/
theorem fault?_ne_nonFiniteConstant (h : ∀ c ∈ t.constants, c.isFinite = true) (c : Binary64) :
    t.fault? ≠ some (.nonFiniteConstant c) := by
  intro hfault
  obtain ⟨place, hplace, -⟩ := fault?_eq_some_iff.mp hfault
  cases hplace with
  | nonFiniteConstant hc hinfinite =>
    rw [h c (List.mem_of_getElem? hc)] at hinfinite
    cases hinfinite

end Tables

end Places

/-! ## The verdict -/

/-- Tables are accepted, and handed on as they are, exactly if nothing in them repeats, by value in
the case of the constants, no delta time is zero and every constant is finite.  Of the faults of
other tables the one at the first place is reported: tables in their order, the entries of a table
in theirs, and what an entry is by itself before what it repeats.  The two zeros are one value. -/
theorem judged (t : Tables) :
    ((∃ v, ofTables t = .ok v) ↔
      t.operators.Nodup ∧ t.features.Nodup ∧ t.deltaTimes.Nodup ∧
        (∀ days ∈ t.deltaTimes, days ≠ 0) ∧ (∀ c ∈ t.constants, c.isFinite = true) ∧
          t.constants.Pairwise fun c c' => c.ieeeEq c' = false) ∧
      (∀ v, ofTables t = .ok v → v.toTables = t) ∧
      (∀ fault, ofTables t = .error fault ↔ ∃ place, t.FaultAt place fault ∧
        ∀ place' fault', t.FaultAt place' fault' → ¬ place'.Before place) ∧
      (0.0 : Binary64).ieeeEq (-0.0) = true := by
  have haccepted : (∃ v, ofTables t = .ok v) ↔ t.WellFormed := by
    constructor
    · rintro ⟨v, h⟩
      exact (ofTables_eq_ok_iff.mp h).1
    · intro h
      exact ⟨⟨t, h⟩, ofTables_eq_ok_iff.mpr ⟨h, rfl⟩⟩
  refine ⟨haccepted.trans ⟨?_, ?_⟩, fun v h => (ofTables_eq_ok_iff.mp h).2, fun fault => ?_,
    by decide +kernel⟩
  · intro h
    exact ⟨h.operators, h.features, h.deltaTimes, h.deltaTimes_ne_zero, h.constants_finite,
      h.constants⟩
  · rintro ⟨hoperators, hfeatures, hdeltaTimes, hzero, hfinite, hconstants⟩
    exact ⟨hoperators, hfeatures, hdeltaTimes, hzero, hconstants, hfinite⟩
  · rw [ofTables_eq_error_iff]
    exact Tables.fault?_eq_some_iff

end Vocabulary

end FactorSearch
