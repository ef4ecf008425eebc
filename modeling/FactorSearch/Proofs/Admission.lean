import FactorSearch.Environment
import FactorSearch.Proofs.Members

/-!
# Nothing ill-formed is let in

A vocabulary that is read is the tables that are read, accepted as `Vocabulary.ofTables` accepts
them.  With a library whose numbers are finite, nothing is refused for a number that is not
(`Vocabulary.ne_nonFiniteConstant_of_refuses`), and a configuration that is read is valid unless its
length is zero (`Config.ofJson_eq`).  Main statement: whichever way a vocabulary or a configuration
comes in, it is well-formed (`every_entry_guarded`).
-/

namespace FactorSearch

open Json

variable {lib : Library Vocabulary.Fault}

/-! ## Vocabularies -/

namespace Vocabulary

/-- Tables that are read have finite constants. -/
theorem finite_of_made (hfinite : lib.Finite) {t : Tables} (h : tablesFormat.Made lib t) :
    ∀ c ∈ t.constants, c.isFinite = true := by
  obtain ⟨⟨operators?, features?, deltaTimes?, constants?, _⟩,
    ⟨operators, features, deltaTimes, constants, _⟩, ⟨-, -, -, hmade, -⟩, hvalues, rfl⟩ := h
  -- without defaults, the constants are those of the draft
  have hvalues := (Fields.complete_cons_eq_ok_iff.mp hvalues).2
  have hvalues := (Fields.complete_cons_eq_ok_iff.mp hvalues).2
  have hvalues := (Fields.complete_cons_eq_ok_iff.mp hvalues).2
  have hconstants := (Fields.complete_cons_eq_ok_iff.mp hvalues).1
  rw [Option.or_none] at hconstants
  intro c hc
  obtain ⟨text, htext⟩ := hmade constants hconstants c hc
  exact hfinite htext

/-- The tables have no conversion that could refuse them, but the vocabulary may be refused. -/
theorem exists_of_refuses {fault : Fault} (h : format.Refuses lib fault) :
    ∃ t, tablesFormat.Made lib t ∧ ofTables t = .error fault := by
  rcases h with h | h
  · rcases h with h | h | h | h | h <;> cases h
  · exact h

/-- A cause for which tables in a text are refused: every cause but one. -/
theorem ne_nonFiniteConstant_of_refuses (hfinite : lib.Finite) {fault : Fault}
    (h : format.Refuses lib fault) (c : Binary64) : fault ≠ .nonFiniteConstant c := by
  rintro rfl
  obtain ⟨t, ht, hfault⟩ := exists_of_refuses h
  exact Tables.fault?_ne_nonFiniteConstant (finite_of_made hfinite ht) c
    (ofTables_eq_error_iff.mp hfault)

end Vocabulary

/-! ## Configurations -/

namespace Config

variable {c : Config} {text : String}

/-- What holds of a configuration that is read, before it is validated. -/
structure Admitted (lib : Library Vocabulary.Fault) (c : Config) : Prop where
  reward : c.rewardPerStep.isFinite = true
  vocabulary : c.vocabulary = .standard ∨ Vocabulary.format.Made lib c.vocabulary

theorem admitted_of_made (hfinite : lib.Finite) (h : format.Made lib c) : c.Admitted lib := by
  obtain ⟨⟨maxLength?, rewardPerStep?, vocabulary?, _⟩,
    ⟨maxLength, rewardPerStep, vocabulary, _⟩, ⟨-, hreward, hvocabulary, -⟩, hvalues, rfl⟩ := h
  have hvalues := (Fields.complete_cons_eq_ok_iff.mp hvalues).2
  obtain ⟨hreward?, hvalues⟩ := Fields.complete_cons_eq_ok_iff.mp hvalues
  obtain ⟨hvocabulary?, -⟩ := Fields.complete_cons_eq_ok_iff.mp hvalues
  -- each value was read or is a default
  constructor
  · rcases Option.or_eq_some_iff.mp hreward? with hread | ⟨-, hdefault⟩
    · obtain ⟨text, htext⟩ := hreward rewardPerStep hread
      exact hfinite htext
    · cases hdefault
      rfl
  · rcases Option.or_eq_some_iff.mp hvocabulary? with hread | ⟨-, hdefault⟩
    · exact .inr (hvocabulary vocabulary hread)
    · cases hdefault
      exact .inl rfl

theorem refuses_iff {fault : Vocabulary.Fault} :
    format.Refuses lib fault ↔ Vocabulary.format.Refuses lib fault := by
  constructor
  · rintro (h | h | h | h)
    · cases h
    · cases h
    · exact h
    · cases h
  · exact fun h => .inr (.inr (.inl h))

/-- A vocabulary beside other members is read by itself. -/
theorem described_cons_vocabulary_iff {m : Member} {ms : List Member} {c' : Config}
    (hm : m.Named "vocabulary") (hothers : ∀ m' ∈ ms, ¬ m'.Named "vocabulary")
    (hc : Described lib ms c) : Described lib (m :: ms) c' ↔
      ∃ v, lib.Reads Vocabulary.format m.element.value v ∧ c' = { c with vocabulary := v } := by
  have hlength : ¬ m.Named "max_expr_length" := hm.not_named (by decide)
  have hreward : ¬ m.Named "reward_per_step" := hm.not_named (by decide)
  constructor
  · rintro ⟨-, h₁, h₂, h₃⟩
    -- the other slots do not see the vocabulary
    have hsame₁ := hc.maxLength.unique ((Slot.cons_iff hlength).mp h₁)
    have hsame₂ := hc.rewardPerStep.unique ((Slot.cons_iff hreward).mp h₂)
    refine ⟨c'.vocabulary, ((Slot.cons_named_iff hm).mp h₃).1, ?_⟩
    rw [hsame₁, hsame₂]
  · rintro ⟨v, hv, rfl⟩
    exact ⟨List.forall_mem_cons.mpr ⟨⟨_, hm⟩, hc.named⟩, (Slot.cons_iff hlength).mpr hc.maxLength,
      (Slot.cons_iff hreward).mpr hc.rewardPerStep, (Slot.cons_named_iff hm).mpr ⟨hv, hothers⟩⟩

variable (htracing : lib.Tracing) (hfinite : lib.Finite)

include htracing hfinite

/-- A configuration that is read is valid, unless its length is zero. -/
theorem ofJson_eq (text : String) : ofJson lib text =
    match lib.read format text with
    | .error fault => .error (.json fault)
    | .ok c => if c.maxLength = 0 then .error (.invalid .zeroLength) else .ok c := by
  rw [ofJson]
  cases hread : lib.read format text with
  | error fault => rfl
  | ok c =>
    have hreward := (admitted_of_made hfinite (htracing.made format hread)).reward
    dsimp only
    by_cases hlength : c.maxLength = 0
    · rw [if_pos hlength, validate, if_pos hlength]
    · rw [if_neg hlength, validate_eq_ok_iff.mpr ⟨hlength, hreward⟩]

theorem ofJson_eq_invalid_iff {fault : Invalid} : ofJson lib text = .error (.invalid fault) ↔
    fault = .zeroLength ∧ ∃ c, lib.read format text = .ok c ∧ c.maxLength = 0 := by
  rw [ofJson_eq htracing hfinite]
  cases lib.read format text with
  | error fault' => simp
  | ok c' =>
    dsimp only
    split
    · next hlength => simp [hlength, eq_comm]
    · next hlength => simp [hlength]

omit htracing hfinite in
theorem read_eq_error_of_ofJson_eq {fault : lib.Fault} (h : ofJson lib text = .error (.json fault)) :
    lib.read format text = .error fault := by
  rw [ofJson] at h
  cases hread : lib.read format text with
  | error fault' =>
    rw [hread] at h
    cases h
    rfl
  | ok c =>
    rw [hread] at h
    dsimp only at h
    split at h <;> cases h

end Config

/-! ## Messages

The message about a reward that is not finite begins as no other does.
-/

section Messages

def BeginsWith (letter : Char) (s : String) : Prop := s.toList.head? = some letter

theorem BeginsWith.append {letter : Char} {a : String} (h : BeginsWith letter a) (b : String) :
    BeginsWith letter (a ++ b) := by
  rw [BeginsWith, String.toList_append, List.head?_append, h]
  rfl

theorem BeginsWith.ne {letter other : Char} {a b : String} (ha : BeginsWith letter a)
    (hb : BeginsWith other b) (h : letter ≠ other) : a ≠ b := by
  rintro rfl
  exact h (Option.some.inj (ha.symm.trans hb))

theorem Config.Fault.message?_ne_nonFiniteReward {Ω : Type} {fault : Config.Fault Ω}
    (h : ∀ invalid, fault = .invalid invalid → invalid = .zeroLength) (message? : Ω → Option String)
    (reward : Binary64) : fault.message? message? ≠
      (Config.Fault.invalid (.nonFiniteReward reward) : Config.Fault Ω).message? message? := by
  have hjson : BeginsWith 'f' "failed to parse JSON: " := rfl
  have hinvalid : BeginsWith 'i' "invalid config: " := rfl
  have hreward : BeginsWith 'r' (Invalid.nonFiniteReward reward).message :=
    BeginsWith.append (a := "reward_per_step must be finite, got ") rfl _
  -- other prefixes begin with another letter, and so does the message behind the same prefix
  cases fault with
  | notFound => exact nofun
  | notText => exact nofun
  | json fault =>
    intro heq
    obtain ⟨message, -, hsame⟩ := Option.map_eq_some_iff.mp heq
    exact (hjson.append _).ne (hinvalid.append _) (by decide) hsame
  | invalid fault =>
    obtain rfl := h fault rfl
    have hlength : BeginsWith 'm' Invalid.zeroLength.message := rfl
    exact fun heq =>
      hlength.ne hreward (by decide) ((String.append_right_inj _).mp (Option.some.inj heq))

end Messages

/-! ## Every entry -/

section Main

/-- Nothing ill-formed comes in, whichever way it comes. -/
structure Guarded (lib : Library Vocabulary.Fault) : Prop where
  /-- Given tables are accepted if they are well-formed, and handed on as they are. -/
  tables : ∀ t v, Vocabulary.ofTables t = .ok v ↔ t.WellFormed ∧ v.toTables = t
  /-- The standard tables would have been accepted. -/
  standard : Vocabulary.ofTables Vocabulary.standard.toTables = .ok .standard ∧
    Config.standard.vocabulary = .standard
  /-- A vocabulary in a text is its four tables, accepted and refused as if they were given. -/
  vocabulary : ∀ text,
    (∀ v, Vocabulary.ofJson lib text = .ok v ↔
      ∃ t, lib.read Vocabulary.tablesFormat text = .ok t ∧ Vocabulary.ofTables t = .ok v) ∧
    ∀ t fault, lib.read Vocabulary.tablesFormat text = .ok t → Vocabulary.ofTables t = .error fault →
      Vocabulary.ofJson lib text = .error (lib.refuse fault)
  /-- So is one inside a configuration: if its tables are read, and all the rest is, the
  configuration is accepted exactly if the tables are. -/
  nested : ∀ (t : ObjectText) (m : Member) (ms : List Member) (c : Config) (tables : Vocabulary.Tables),
    t.object.members.Perm (m :: ms) → m.Named "vocabulary" →
      (∀ m' ∈ ms, ¬ m'.Named "vocabulary") → Config.Described lib ms c → c.validate = .ok () →
        lib.Reads Vocabulary.tablesFormat m.element.value tables →
          ∀ c', Config.ofJson lib t.text = .ok c' ↔
            ∃ v, Vocabulary.ofTables tables = .ok v ∧ c' = { c with vocabulary := v }
  /-- A configuration has the standard vocabulary or one made of tables that can be read. -/
  config_vocabulary : ∀ text c, Config.ofJson lib text = .ok c →
    c.vocabulary.toTables.WellFormed ∧
      (c.vocabulary = .standard ∨ ∃ t, Vocabulary.tablesFormat.Made lib t ∧
        Vocabulary.ofTables t = .ok c.vocabulary)
  config_valid : ∀ text c, Config.ofJson lib text = .ok c → c.validate = .ok () ∧
    ∀ {σ ι : Type} (grammar : Grammar σ ι), Environment.ofConfig grammar c =
      .ok ⟨grammar, c.vocabulary, c.maxLength.toNat, c.rewardPerStep⟩
  /-- A configuration is invalid exactly if the whole text is read and the length in it is zero. -/
  config_invalid : ∀ text fault, Config.ofJson lib text = .error (.invalid fault) ↔
    fault = .zeroLength ∧ ∃ c, lib.read Config.format text = .ok c ∧ c.maxLength = 0
  /-- No text is refused for a number that is not finite, and no message says so of a reward. -/
  vocabulary_finite : ∀ text c,
    Vocabulary.ofJson lib text ≠ .error (lib.refuse (.nonFiniteConstant c))
  config_finite : ∀ text fault x, Config.ofJson lib text = .error fault →
    fault ≠ .json (lib.refuse (.nonFiniteConstant x)) ∧ fault ≠ .invalid (.nonFiniteReward x) ∧
      ∀ message? : lib.Fault → Option String, fault.message? message? ≠
        (Config.Fault.invalid (.nonFiniteReward x) : Config.Fault lib.Fault).message? message?

theorem every_entry_guarded (hreading : lib.Reading) (htracing : lib.Tracing)
    (hfinite : lib.Finite) : Guarded lib where
  tables _ _ := Vocabulary.ofTables_eq_ok_iff
  standard := ⟨Vocabulary.standard.ofTables_toTables, rfl⟩
  vocabulary text := ⟨fun _ => htracing.accepted _ _ _ _, fun _ _ => htracing.refused _ _ _ _⟩
  nested t m ms c tables hperm hm hothers hdescribed hvalid htables c' := by
    have hmembers : Config.Described lib t.object.members c' ↔
        Config.Described lib (m :: ms) c' :=
      ⟨fun h => h.rearranged (.perm hperm), fun h => h.rearranged (.perm hperm.symm)⟩
    -- the vocabulary is decided by the tables, since a text is read as one value only
    have htables (v : Vocabulary) : lib.Reads Vocabulary.format m.element.value v ↔
        Vocabulary.ofTables tables = .ok v := by
      refine (htracing.accepted _ _ _ _).trans ⟨?_, fun h => ⟨tables, htables, h⟩⟩
      rintro ⟨tables', htables', h⟩
      rwa [Library.Reads.unique htables htables']
    -- no vocabulary makes a configuration invalid
    have hvalidate (v : Vocabulary) :
        ({ c with vocabulary := v } : Config).validate = .ok () :=
      Config.validate_eq_ok_iff.mpr (Config.validate_eq_ok_iff.mp hvalid)
    rw [Config.ofJson_text_eq_ok_iff hreading, hmembers,
      Config.described_cons_vocabulary_iff hm hothers hdescribed]
    simp only [htables]
    constructor
    · exact And.left
    · rintro ⟨v, hv, rfl⟩
      exact ⟨⟨v, hv, rfl⟩, hvalidate v⟩
  config_vocabulary text c h := by
    obtain ⟨hread, -⟩ := Config.ofJson_eq_ok_iff.mp h
    exact ⟨c.vocabulary.wellFormed,
      (Config.admitted_of_made hfinite (htracing.made Config.format hread)).vocabulary⟩
  config_valid text c h := by
    obtain ⟨-, hvalid⟩ := Config.ofJson_eq_ok_iff.mp h
    refine ⟨hvalid, fun grammar => ?_⟩
    rw [Environment.ofConfig, hvalid]
  config_invalid _ _ := Config.ofJson_eq_invalid_iff htracing hfinite
  vocabulary_finite text c h :=
    Vocabulary.ne_nonFiniteConstant_of_refuses hfinite (htracing.refusal Vocabulary.format h) c rfl
  config_finite text fault x h := by
    -- the reward was read, so it is finite and only the length can be invalid
    have hinvalid : ∀ invalid, fault = .invalid invalid → invalid = .zeroLength := by
      rintro invalid rfl
      exact ((Config.ofJson_eq_invalid_iff htracing hfinite).mp h).1
    have hmessage := Config.Fault.message?_ne_nonFiniteReward hinvalid
    refine ⟨?_, ?_, fun message? => hmessage message? x⟩
    · rintro rfl
      have hrefuses := Config.refuses_iff.mp
        (htracing.refusal Config.format (Config.read_eq_error_of_ofJson_eq h))
      exact Vocabulary.ne_nonFiniteConstant_of_refuses hfinite hrefuses x rfl
    · rintro rfl
      cases hinvalid _ rfl

/-- The library that programs run with lets nothing ill-formed in.  Tables may stand in an array. -/
theorem every_entry_guarded_standard : Guarded (Json.standard Vocabulary.Fault) ∧
    (Vocabulary.ofJson (Json.standard Vocabulary.Fault)
      "[[\"Abs\"], [], [5], [-0.5, 2]]").toOption.map (·.toTables) =
        some ⟨[.unary .abs], [], [5], [-0.5, 2.0]⟩ :=
  ⟨every_entry_guarded (reading_onePass _) (tracing_onePass _) (finite_onePass _),
    by decide +kernel⟩

end Main

end FactorSearch
