import FactorSearch.Proofs.RoundTrip

/-!
# A configuration is read by the names of its members

An object describes a configuration if the only member of each known name is read, alone, as the
slot of this name, and the slots without a member have their defaults (`Config.Described`).  Main
statement: with a library that reads objects member by member, a text that holds an object is read
as the valid configuration that the object describes, so neither the order of the members nor members
of other names nor blanks make a difference; and a vocabulary in it has all of its tables or is none
(`config_read_by_name`).
-/

namespace FactorSearch

open Json

namespace Json

/-- A text that is an object with blanks around it. -/
structure ObjectText where
  before : List Char
  object : Object
  after : List Char
  blank_before : Blank before
  blank_after : Blank after
  wellFormed : object.WellFormed

def ObjectText.text (t : ObjectText) : String :=
  String.ofList (t.before ++ (t.object.chars ++ t.after))

variable {ε α : Type} {lib : Library ε} {reads : List Char → α → Prop} {ts : List Type}
  {ms : List Member} {name : String} {a : α}

/-- Where there is no default, there is a member. -/
theorem Slot.exists_named (h : Slot name reads none ms a) : ∃ m ∈ ms, m.Named name := by
  by_contra hnone
  have habsent := h.absent fun m hm hname => hnone ⟨m, hm, hname⟩
  cases habsent

/-- An object is read as a record if every member has a name and every field its value. -/
theorem reads_record_iff (hreading : lib.Reading) {title : String} {fields : Fields ε ts}
    {make : Values ts → α} {split : α → Values ts} {o : Object} (hnodup : fields.names.Nodup)
    (hdepth : (Format.record title fields make split).depth < 128) (ho : o.WellFormed) :
    lib.Reads (.record title fields make split) o.chars a ↔
      (∀ m ∈ o.members, ∃ name, m.Named name) ∧
        ∃ values, fields.Described lib o.members values ∧ make values = a := by
  rw [hreading.record title fields make split o hdepth ho]
  constructor
  · rintro ⟨d, values, hd, hcomplete, ha⟩
    obtain ⟨hnamed, hdescribed⟩ := (fields.exists_yields_iff hnodup).mp ⟨d, hd, hcomplete⟩
    exact ⟨hnamed, values, hdescribed, ha⟩
  · rintro ⟨hnamed, values, hdescribed, ha⟩
    obtain ⟨d, hd, hcomplete⟩ := (fields.exists_yields_iff hnodup).mpr ⟨hnamed, hdescribed⟩
    exact ⟨d, values, hd, hcomplete, ha⟩

end Json

variable {lib : Library Vocabulary.Fault}

/-! ## Vocabularies -/

namespace Vocabulary

/-- The names of the tables of a vocabulary. -/
def tableNames : List String := ["operators", "features", "delta_times", "constants"]

/-- A vocabulary is read from an object that has all of its tables. -/
theorem exists_named_of_reads (hreading : lib.Reading) {o : Object} (ho : o.WellFormed)
    {v : Vocabulary} (h : lib.Reads format o.chars v) {name : String} (hname : name ∈ tableNames) :
    ∃ m ∈ o.members, m.Named name := by
  obtain ⟨t, ht, -⟩ := (hreading.accepted _ _ _ _).mp h
  obtain ⟨-, ⟨operators, features, deltaTimes, constants, _⟩, ⟨h₁, h₂, h₃, h₄, -⟩, -⟩ :=
    (reads_record_iff hreading (by decide) (by decide) ho).mp ht
  -- none of the four has a default
  simp only [tableNames, List.mem_cons, List.not_mem_nil, or_false] at hname
  rcases hname with rfl | rfl | rfl | rfl
  · exact h₁.exists_named
  · exact h₂.exists_named
  · exact h₃.exists_named
  · exact h₄.exists_named

end Vocabulary

/-! ## Configurations -/

namespace Config

variable {c : Config} {t : ObjectText} {m : Member} {ms ms' : List Member} {name : String}

/-- The names of the members that a configuration has. -/
def memberNames : List String := ["max_expr_length", "reward_per_step", "vocabulary"]

/-- Every member has a name, and every slot of the configuration has the value that the only member
of its name is read as, or the default. -/
structure Described (lib : Library Vocabulary.Fault) (ms : List Member) (c : Config) : Prop where
  named : ∀ m ∈ ms, ∃ name, m.Named name
  maxLength : Slot "max_expr_length" (lib.Reads .unsigned) (some 15) ms c.maxLength
  rewardPerStep : Slot "reward_per_step" (lib.Reads .float) (some 0.0) ms c.rewardPerStep
  vocabulary : Slot "vocabulary" (lib.Reads Vocabulary.format) (some .standard) ms c.vocabulary

theorem read_text_eq_ok_iff (hreading : lib.Reading) :
    lib.read format t.text = .ok c ↔ Described lib t.object.members c := by
  have ho := t.wellFormed
  refine (hreading.blanks format t.blank_before ho.isValue t.blank_after).trans ?_
  refine (reads_record_iff hreading (by decide) (by decide) ho).trans ?_
  constructor
  · rintro ⟨hnamed, ⟨maxLength, rewardPerStep, vocabulary, _⟩, ⟨h₁, h₂, h₃, -⟩, rfl⟩
    exact ⟨hnamed, h₁, h₂, h₃⟩
  · rintro ⟨hnamed, h₁, h₂, h₃⟩
    exact ⟨hnamed, (c.maxLength, c.rewardPerStep, c.vocabulary, ()), ⟨h₁, h₂, h₃, trivial⟩, rfl⟩

theorem ofJson_text_eq_ok_iff (hreading : lib.Reading) :
    ofJson lib t.text = .ok c ↔ Described lib t.object.members c ∧ c.validate = .ok () := by
  rw [ofJson_eq_ok_iff, read_text_eq_ok_iff hreading]

/-! ### Other members, another order, other blanks -/

/-- The members are put in another order, members of other names are added or left out, and the
blanks are changed. -/
inductive Rearranged : List Member → List Member → Prop
  | perm {ms ms' : List Member} (h : ms.Perm ms') : Rearranged ms ms'
  | add {m : Member} {ms : List Member} {name : String} (hname : m.Named name)
    (hunknown : name ∉ memberNames) : Rearranged ms (m :: ms)
  | remove {m : Member} {ms : List Member} {name : String} (hname : m.Named name)
    (hunknown : name ∉ memberNames) : Rearranged (m :: ms) ms
  | respace {m m' : Member} {ms : List Member} (hkey : m.key = m'.key)
    (hvalue : m.element.value = m'.element.value) : Rearranged (m :: ms) (m' :: ms)
  | trans {ms ms' ms'' : List Member} (h : Rearranged ms ms') (h' : Rearranged ms' ms'') :
    Rearranged ms ms''

theorem described_cons_iff (hname : m.Named name) (hunknown : name ∉ memberNames) :
    Described lib (m :: ms) c ↔ Described lib ms c := by
  have hother {name' : String} (hknown : name' ∈ memberNames) : ¬ m.Named name' :=
    hname.not_named_of_mem hunknown hknown
  constructor
  · rintro ⟨hnamed, h₁, h₂, h₃⟩
    exact ⟨(List.forall_mem_cons.mp hnamed).2, (Slot.cons_iff (hother (by decide))).mp h₁,
      (Slot.cons_iff (hother (by decide))).mp h₂, (Slot.cons_iff (hother (by decide))).mp h₃⟩
  · rintro ⟨hnamed, h₁, h₂, h₃⟩
    exact ⟨List.forall_mem_cons.mpr ⟨⟨name, hname⟩, hnamed⟩,
      (Slot.cons_iff (hother (by decide))).mpr h₁, (Slot.cons_iff (hother (by decide))).mpr h₂,
      (Slot.cons_iff (hother (by decide))).mpr h₃⟩

/-- What members describe is a matter of their names and values. -/
theorem Described.rearranged (h : Described lib ms c) (hms : Rearranged ms ms') :
    Described lib ms' c := by
  induction hms with
  | perm hperm =>
    exact ⟨fun m hm => h.named m (hperm.mem_iff.mpr hm), h.maxLength.perm hperm,
      h.rewardPerStep.perm hperm, h.vocabulary.perm hperm⟩
  | add hname hunknown => exact (described_cons_iff hname hunknown).mpr h
  | remove hname hunknown => exact (described_cons_iff hname hunknown).mp h
  | @respace m m' ms hkey hvalue =>
    refine ⟨?_, h.maxLength.respace hkey hvalue, h.rewardPerStep.respace hkey hvalue,
      h.vocabulary.respace hkey hvalue⟩
    -- blanks are no part of a key, so the member keeps its name
    obtain ⟨⟨name, hname⟩, hnamed⟩ := List.forall_mem_cons.mp h.named
    refine List.forall_mem_cons.mpr ⟨⟨name, ?_⟩, hnamed⟩
    rwa [Member.Named, ← hkey]
  | trans _ _ ih ih' => exact ih' (ih h)

end Config

/-! ## Main statement -/

section Main

/-- A configuration is read by the names of its members. -/
structure ByName (lib : Library Vocabulary.Fault) : Prop where
  /-- An object is read as the configuration that its members describe, if it is valid: each known
  name stands for the value that the only member of this name is read as, or for the default, and
  members of other names stand for nothing, whatever their values are. -/
  described : ∀ (t : ObjectText) (c : Config), Config.ofJson lib t.text = .ok c ↔
    Config.Described lib t.object.members c ∧ c.validate = .ok ()
  /-- Neither the order of the members nor those of other names nor blanks change a configuration
  that is read. -/
  rearranged : ∀ (t t' : ObjectText) (c : Config),
    Config.Rearranged t.object.members t'.object.members →
      Config.ofJson lib t.text = .ok c → Config.ofJson lib t'.text = .ok c
  /-- Nothing takes the place of a table that a vocabulary lacks. -/
  lacking : ∀ (t : ObjectText), ∀ m ∈ t.object.members, m.Named "vocabulary" →
    ∀ o : Object, o.WellFormed → m.element.value = o.chars →
      ∀ name ∈ Vocabulary.tableNames, (∀ m' ∈ o.members, ¬ m'.Named name) →
        ∃ fault, Config.ofJson lib t.text = .error (.json fault)

theorem config_read_by_name (hreading : lib.Reading) : ByName lib where
  described _ _ := Config.ofJson_text_eq_ok_iff hreading
  rearranged t t' c hrearranged h := by
    obtain ⟨hdescribed, hvalid⟩ := (Config.ofJson_text_eq_ok_iff hreading).mp h
    exact (Config.ofJson_text_eq_ok_iff hreading).mpr ⟨hdescribed.rearranged hrearranged, hvalid⟩
  lacking t m hm hvocabulary o ho hvalue name hname hlacks := by
    cases hread : lib.read Config.format t.text with
    | error fault => exact ⟨fault, by rw [Config.ofJson, hread]⟩
    | ok c =>
      -- the vocabulary of the configuration would be read from the object
      have hdescribed := (Config.read_text_eq_ok_iff hreading).mp hread
      have hread := hdescribed.vocabulary.present m hm hvocabulary
      rw [hvalue] at hread
      obtain ⟨m', hm', hname'⟩ := Vocabulary.exists_named_of_reads hreading ho hread hname
      exact absurd hname' (hlacks m' hm')

/-- The library that programs run with is one for which this holds.  Members of other names may
nest, and the known ones may come in any order. -/
theorem config_read_by_name_standard : ByName (Json.standard Vocabulary.Fault) ∧
    (Config.ofJson (Json.standard Vocabulary.Fault)
      (" \x7b\"x\" : [1, \x7b\"y\": null\x7d], " ++
        "\"reward_per_step\":-2, \"max_expr_length\": 9\x7d ")).toOption =
        some ⟨9, -2.0, .standard⟩ :=
  ⟨config_read_by_name (reading_onePass _), by decide +kernel⟩

end Main

end FactorSearch
