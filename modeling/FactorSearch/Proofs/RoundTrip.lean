import FactorSearch.Config.Json
import FactorSearch.Proofs.FirstFault
import FactorSearch.Proofs.OnePass

/-!
# Configurations come back from their JSON

`Library.Returns` says what a value is read as from its own text.  A list comes back element by
element and a record field by field, so a vocabulary comes back, since its constants are finite, and
a configuration does unless its reward is written as `null`.  Main statement: reading the text of a
configuration gives the configuration back exactly if it is valid (`Config.ofJson_toJson`).
-/

namespace FactorSearch

open Json

/-! ## What comes back -/

namespace Json

variable {ε α β : Type} {lib : Library ε} {ts : List Type} {ms : List Member}

/-- The text of `a` is read as `a'`. -/
def Library.Returns (lib : Library ε) (format : Format ε α) (a a' : α) : Prop :=
  lib.read format (lib.write format a) = .ok a'

theorem Library.Returns.unique {format : Format ε α} {a a' a'' : α} (h : lib.Returns format a a')
    (h' : lib.Returns format a a'') : a' = a'' :=
  Except.ok.inj (h.symm.trans h')

/-- The same, field by field. -/
def Fields.Returns (lib : Library ε) : {ts : List Type} → Fields ε ts → Values ts → Values ts → Prop
  | _, .nil, _, _ => True
  | _, .cons _ _ format rest, (a, values), (a', values') =>
    lib.Returns format a a' ∧ rest.Returns lib values values'

theorem reads_write_iff {format : Format ε α} {a a' : α} :
    lib.Reads format (lib.write format a).toList a' ↔ lib.Returns format a a' := by
  rw [Library.Reads, String.ofList_toList, Library.Returns]

/-! ### Records -/

/-- A record is written without members of other names. -/
theorem Fields.WrittenAs.exists_named : {ts : List Type} → {fields : Fields ε ts} →
    {values : Values ts} → {ms : List Member} → fields.WrittenAs lib values ms →
    ∀ m ∈ ms, ∃ name ∈ fields.names, m.Named name
  | _, .nil, _, _, h => by
    rw [WrittenAs] at h
    rw [h]
    exact List.forall_mem_nil _
  | _, .cons name _ _ rest, (_, _), m :: ms, h => by
    obtain ⟨hm, -, hms⟩ := h
    refine List.forall_mem_cons.mpr ⟨⟨name, List.mem_cons_self, hm⟩, fun m' hmem => ?_⟩
    obtain ⟨name', hname', hm'⟩ := hms.exists_named m' hmem
    exact ⟨name', List.mem_cons_of_mem _ hname', hm'⟩

/-- The members that are written describe what comes back of the values. -/
theorem Fields.WrittenAs.described_iff : {ts : List Type} → {fields : Fields ε ts} →
    {values values' : Values ts} → {ms : List Member} → fields.names.Nodup →
    fields.WrittenAs lib values ms →
    (fields.Described lib ms values' ↔ fields.Returns lib values values')
  | _, .nil, _, _, _, _, _ => Iff.rfl
  | _, .cons name _ format rest, (a, values), (a', values'), m :: ms, hnodup, h => by
    obtain ⟨hname, hnodup⟩ := List.nodup_cons.mp hnodup
    obtain ⟨hm, hvalue, hms⟩ := h
    -- the other members have the names of other fields
    have hothers : ∀ m' ∈ ms, ¬ m'.Named name := by
      intro m' hmem
      obtain ⟨name', hname', hm'⟩ := hms.exists_named m' hmem
      refine hm'.not_named ?_
      rintro rfl
      exact hname hname'
    rw [Described, Slot.cons_named_iff hm, described_cons_iff hm hname,
      hms.described_iff hnodup, hvalue, reads_write_iff, Returns]
    simp only [and_iff_left hothers]

variable (hreading : lib.Reading) (hwriting : lib.Writing)

include hreading hwriting

theorem returns_record_iff {title : String} {fields : Fields ε ts} {make : Values ts → α}
    {split : α → Values ts} {a a' : α} (hnodup : fields.names.Nodup)
    (hdepth : (Format.record title fields make split).depth < 128) :
    lib.Returns (.record title fields make split) a a' ↔
      ∃ values, fields.Returns lib (split a) values ∧ make values = a' := by
  obtain ⟨o, ho, hwritten, htext⟩ := hwriting.record title fields make split a
  have hnamed : ∀ m ∈ o.members, ∃ name, m.Named name := by
    intro m hm
    obtain ⟨name, -, hname⟩ := hwritten.exists_named m hm
    exact ⟨name, hname⟩
  -- what is read is described by the members, and so is what was written
  have hdescribed (values : Values ts) :
      (∃ d, fields.Yields lib (Draft.blank ts) o.members d ∧ fields.complete d = .ok values) ↔
        fields.Returns lib (split a) values := by
    rw [fields.exists_yields_iff hnodup, hwritten.described_iff hnodup]
    exact and_iff_right hnamed
  rw [← reads_write_iff, htext, hreading.record title fields make split o hdepth ho]
  simp only [← hdescribed]
  constructor
  · rintro ⟨d, values, hd, hcomplete, ha⟩
    exact ⟨values, ⟨d, hd, hcomplete⟩, ha⟩
  · rintro ⟨values, ⟨d, hd, hcomplete⟩, ha⟩
    exact ⟨d, values, hd, hcomplete, ha⟩

/-! ### Lists and conversions -/

/-- A list comes back if all of its elements do. -/
theorem returns_list {element : Format ε α} {as : List α}
    (hdepth : (Format.list element).depth < 128) (has : ∀ a ∈ as, lib.Returns element a a) :
    lib.Returns (.list element) as as := by
  obtain ⟨s, hs, helements, htext⟩ := hwriting.list element as
  have hwritten : List.Forall₂ (lib.Reads element) (s.elements.map Element.value) as := by
    rw [helements, List.forall₂_map_left_iff, List.forall₂_same]
    exact fun a ha => reads_write_iff.mpr (has a ha)
  rw [← reads_write_iff, htext, hreading.list element s hdepth hs]
  exact List.forall₂_map_left_iff.mp hwritten

theorem returns_convert {base : Format ε α} {accept : α → Except ε β} {origin : β → α} {b : β}
    (hbase : lib.Returns base (origin b) (origin b)) (haccept : accept (origin b) = .ok b) :
    lib.Returns (.convert base accept origin) b b := by
  rw [Library.Returns, hwriting.convert, hreading.accepted]
  exact ⟨origin b, hbase, haccept⟩

end Json

variable {lib : Library Vocabulary.Fault} (hreading : lib.Reading) (hwriting : lib.Writing)

/-! ## Vocabularies -/

namespace Vocabulary

include hreading hwriting

/-- Tables come back if their constants are finite: no other entry can be lost. -/
theorem returns_tables {t : Tables} (ht : ∀ c ∈ t.constants, c.isFinite = true) :
    lib.Returns tablesFormat t t := by
  refine (returns_record_iff hreading hwriting (by decide) (by decide)).mpr
    ⟨(t.operators, t.features, t.deltaTimes, t.constants, ()), ?_, rfl⟩
  refine ⟨?_, ?_, ?_, ?_, trivial⟩
  · exact returns_list hreading hwriting (by decide) fun op _ => hwriting.named op
  · exact returns_list hreading hwriting (by decide) fun f _ => hwriting.named f
  · exact returns_list hreading hwriting (by decide) fun days _ => hwriting.unsigned days
  · exact returns_list hreading hwriting (by decide) fun c hc => hwriting.float (ht c hc)

theorem returns_format (v : Vocabulary) : lib.Returns format v v :=
  returns_convert hreading hwriting
    (returns_tables hreading hwriting v.wellFormed.constants_finite) v.ofTables_toTables

/-- One token of each kind. -/
def oneOfEach : Vocabulary where
  operators := [.unary .abs]
  features := [.closePrice]
  deltaTimes := [20]
  constants := [-0.5]
  wellFormed := Tables.fault?_eq_none_iff.mp (by decide +kernel)

end Vocabulary

/-! ## Configurations -/

namespace Config

theorem validate_eq_ok_iff {c : Config} :
    c.validate = .ok () ↔ c.maxLength ≠ 0 ∧ c.rewardPerStep.isFinite = true := by
  unfold validate
  split
  · next h => simp [h]
  · next h =>
    split
    · next hreward => simp [h, hreward]
    · next hreward => simp [h, hreward]

/-- A configuration is read, then validated. -/
theorem ofJson_eq_ok_iff {text : String} {c : Config} :
    ofJson lib text = .ok c ↔ lib.read format text = .ok c ∧ c.validate = .ok () := by
  rw [ofJson]
  cases lib.read format text with
  | error fault => simp
  | ok c' =>
    dsimp only
    cases hvalidate : c'.validate with
    | ok u =>
      constructor
      · rintro ⟨⟩
        exact ⟨rfl, hvalidate⟩
      · rintro ⟨⟨⟩, -⟩
        rfl
    | error fault =>
      constructor
      · rintro ⟨⟩
      · rintro ⟨⟨⟩, hvalid⟩
        rw [hvalid] at hvalidate
        cases hvalidate

section

include hreading hwriting

/-- A configuration comes back, unless its reward is not finite: then nothing does. -/
theorem returns_format_iff {c c' : Config} :
    lib.Returns format c c' ↔ c.rewardPerStep.isFinite = true ∧ c' = c := by
  have hlength : lib.Returns .unsigned c.maxLength c.maxLength := hwriting.unsigned c.maxLength
  have hvocabulary := Vocabulary.returns_format hreading hwriting c.vocabulary
  refine (returns_record_iff hreading hwriting (by decide) (by decide)).trans ?_
  constructor
  · rintro ⟨⟨maxLength, rewardPerStep, vocabulary, _⟩, ⟨h₁, h₂, h₃, -⟩, rfl⟩
    cases hreward : c.rewardPerStep.isFinite with
    | true =>
      have hfloat : lib.Returns .float c.rewardPerStep c.rewardPerStep := hwriting.float hreward
      rw [h₁.unique hlength, h₂.unique hfloat, h₃.unique hvocabulary]
      exact ⟨rfl, rfl⟩
    | false =>
      -- the reward was written as null, which no number is read from
      rw [Library.Returns, hwriting.float_null hreward] at h₂
      exact absurd h₂ (hwriting.null rewardPerStep)
  · rintro ⟨hreward, rfl⟩
    have hfloat : lib.Returns .float c'.rewardPerStep c'.rewardPerStep := hwriting.float hreward
    exact ⟨(c'.maxLength, c'.rewardPerStep, c'.vocabulary, ()),
      ⟨hlength, hfloat, hvocabulary, trivial⟩, rfl⟩

/-- Reading the text of a configuration gives the configuration back if it is valid, and nothing
else; what is wrong with it otherwise is the reward first, then the length. -/
theorem ofJson_toJson (c : Config) :
    (∀ c', ofJson lib (toJson lib c) = .ok c' ↔ c.validate = .ok () ∧ c' = c) ∧
      (c.rewardPerStep.isFinite = false →
        ∃ fault, ofJson lib (toJson lib c) = .error (.json fault)) ∧
      (c.rewardPerStep.isFinite = true → c.maxLength = 0 →
        ofJson lib (toJson lib c) = .error (.invalid .zeroLength)) := by
  have hread (c' : Config) :
      lib.read format (toJson lib c) = .ok c' ↔ c.rewardPerStep.isFinite = true ∧ c' = c :=
    returns_format_iff hreading hwriting
  refine ⟨fun c' => ?_, fun hreward => ?_, fun hreward hlength => ?_⟩
  · rw [ofJson_eq_ok_iff, hread]
    constructor
    · rintro ⟨⟨-, rfl⟩, hvalid⟩
      exact ⟨hvalid, rfl⟩
    · rintro ⟨hvalid, rfl⟩
      exact ⟨⟨(validate_eq_ok_iff.mp hvalid).2, rfl⟩, hvalid⟩
  · cases hjson : lib.read format (toJson lib c) with
    | error fault => exact ⟨fault, by rw [ofJson, hjson]⟩
    | ok c' =>
      rw [((hread c').mp hjson).1] at hreward
      cases hreward
  · have hinvalid : c.validate = .error .zeroLength := if_pos hlength
    rw [ofJson, (hread c).mpr ⟨hreward, rfl⟩]
    dsimp only
    rw [hinvalid]

end

/-- The library that rounds to the nearest is one for which this holds; the faster one reads this
text in the same way. -/
theorem ofJson_toJson_oneOfEach :
    ofJson (onePass Vocabulary.Fault Numeral.nearest)
        (toJson (onePass Vocabulary.Fault Numeral.nearest) ⟨20, 0.1, .oneOfEach⟩) =
      .ok ⟨20, 0.1, .oneOfEach⟩ ∧
    (ofJson (Json.standard Vocabulary.Fault)
        (toJson (Json.standard Vocabulary.Fault) ⟨20, 0.1, .oneOfEach⟩)).toOption =
      some ⟨20, 0.1, .oneOfEach⟩ :=
  ⟨((ofJson_toJson (reading_onePass _) writing_onePass ⟨20, 0.1, .oneOfEach⟩).1 _).mpr
    ⟨validate_eq_ok_iff.mpr ⟨by decide, by decide +kernel⟩, rfl⟩, by decide +kernel⟩

end Config

end FactorSearch
