import FactorSearch.Json.Laws
import FactorSearch.Proofs.Scalars

/-!
# Slots for the members of a name

A slot takes the value of one member, whatever the other members are.  `Fetches` follows the members
one after the other; `Slot` says what comes out of it without an order, so it does not change when
the members are put in another order (`Slot.perm`), when others are added or left out
(`Slot.cons_iff`), or with the blanks around them (`Slot.respace`).  A record is made of one slot for
each of its fields (`Fields.exists_yields_iff`).
-/

namespace FactorSearch.Json

variable {ε α : Type} {reads : List Char → α → Prop} {name : String} {old new default : Option α}
  {a : α} {m m' : Member} {ms ms' : List Member}

/-! ## One member after the other -/

section Order

/-- What a member makes of a slot for the values of members called `name`. -/
inductive Puts (name : String) (reads : List Char → α → Prop) : Option α → Member → Option α → Prop
  | own {m : Member} {a : α} (hm : m.Named name) (ha : reads m.element.value a) :
    Puts name reads none m (some a)
  | other {m : Member} {old : Option α} (hm : ¬ m.Named name) : Puts name reads old m old

/-- The members one after the other. -/
inductive Fetches (name : String) (reads : List Char → α → Prop) :
    Option α → List Member → Option α → Prop
  | nil (old : Option α) : Fetches name reads old [] old
  | cons {m : Member} {ms : List Member} {old mid new : Option α} (hm : Puts name reads old m mid)
    (hms : Fetches name reads mid ms new) : Fetches name reads old (m :: ms) new

theorem Puts.of_named (h : Puts name reads old m new) (hm : m.Named name) :
    old = none ∧ ∃ a, reads m.element.value a ∧ new = some a := by
  cases h with
  | own _ ha => exact ⟨rfl, _, ha, rfl⟩
  | other hother => exact absurd hm hother

theorem Puts.of_not_named (h : Puts name reads old m new) (hm : ¬ m.Named name) : new = old := by
  cases h with
  | own hown _ => exact absurd hown hm
  | other _ => rfl

theorem fetches_cons_iff (hm : ¬ m.Named name) :
    Fetches name reads old (m :: ms) new ↔ Fetches name reads old ms new := by
  constructor
  · rintro (_ | ⟨hput, hms⟩)
    rwa [hput.of_not_named hm] at hms
  · exact .cons (.other hm)

/-- A slot that is filled takes no second value. -/
theorem fetches_some_iff :
    Fetches name reads (some a) ms new ↔ new = some a ∧ ∀ m ∈ ms, ¬ m.Named name := by
  -- a slot that is full takes no other member of its name
  induction ms with
  | nil =>
    constructor
    · rintro ⟨⟩
      exact ⟨rfl, List.forall_mem_nil _⟩
    · rintro ⟨rfl, -⟩
      exact .nil _
  | cons m ms ih =>
    rw [List.forall_mem_cons]
    by_cases hm : m.Named name
    · constructor
      · rintro (_ | ⟨hput, -⟩)
        cases (hput.of_named hm).1
      · rintro ⟨-, hother, -⟩
        exact absurd hm hother
    · rw [fetches_cons_iff hm, ih]
      constructor
      · rintro ⟨hnew, hms⟩
        exact ⟨hnew, hm, hms⟩
      · rintro ⟨hnew, -, hms⟩
        exact ⟨hnew, hms⟩

end Order

/-! ## Any order -/

section AnyOrder

/-- One member at most is called `name`; its value is read as `a`, and without such a member `a` is
the default. -/
structure Slot (name : String) (reads : List Char → α → Prop) (default : Option α)
    (ms : List Member) (a : α) : Prop where
  once : ms.Pairwise fun m m' => ¬ (m.Named name ∧ m'.Named name)
  present : ∀ m ∈ ms, m.Named name → reads m.element.value a
  absent : (∀ m ∈ ms, ¬ m.Named name) → default = some a

theorem Slot.cons_iff (hm : ¬ m.Named name) :
    Slot name reads default (m :: ms) a ↔ Slot name reads default ms a := by
  constructor
  · rintro ⟨honce, hpresent, habsent⟩
    refine ⟨(List.pairwise_cons.mp honce).2, (List.forall_mem_cons.mp hpresent).2, fun h => ?_⟩
    exact habsent (List.forall_mem_cons.mpr ⟨hm, h⟩)
  · rintro ⟨honce, hpresent, habsent⟩
    refine ⟨List.pairwise_cons.mpr ⟨fun m' _ h => hm h.1, honce⟩,
      List.forall_mem_cons.mpr ⟨fun h => absurd h hm, hpresent⟩, fun h => ?_⟩
    exact habsent (List.forall_mem_cons.mp h).2

/-- A member of the name of the slot is the only one. -/
theorem Slot.cons_named_iff (hm : m.Named name) : Slot name reads default (m :: ms) a ↔
    reads m.element.value a ∧ ∀ m' ∈ ms, ¬ m'.Named name := by
  constructor
  · intro h
    refine ⟨h.present m List.mem_cons_self hm, fun m' hmem hm' => ?_⟩
    exact (List.pairwise_cons.mp h.once).1 m' hmem ⟨hm, hm'⟩
  · rintro ⟨ha, hothers⟩
    refine ⟨List.pairwise_cons.mpr ⟨fun m' hmem h => hothers m' hmem h.2, ?_⟩,
      List.forall_mem_cons.mpr ⟨fun _ => ha, fun m' hmem hm' => absurd hm' (hothers m' hmem)⟩,
      fun h => absurd hm (h m List.mem_cons_self)⟩
    exact List.pairwise_of_forall_mem_list fun m' hmem _ _ h => hothers m' hmem h.1

theorem Slot.perm (h : Slot name reads default ms a) (hms : ms.Perm ms') :
    Slot name reads default ms' a where
  once := (hms.pairwise_iff fun hne h => hne h.symm).mp h.once
  present m hm := h.present m (hms.mem_iff.mpr hm)
  absent hnone := h.absent fun m hm => hnone m (hms.mem_iff.mp hm)

theorem Slot.respace (h : Slot name reads default (m :: ms) a) (hkey : m.key = m'.key)
    (hvalue : m.element.value = m'.element.value) : Slot name reads default (m' :: ms) a := by
  have hnamed : m'.Named name ↔ m.Named name := by rw [Member.Named, Member.Named, hkey]
  by_cases hm : m.Named name
  · rw [Slot.cons_named_iff hm, hvalue] at h
    exact (Slot.cons_named_iff (hnamed.mpr hm)).mpr h
  · rw [Slot.cons_iff hm] at h
    exact (Slot.cons_iff fun hm' => hm (hnamed.mp hm')).mpr h

/-- A slot has the value that its members fetch. -/
theorem slot_iff_exists_fetches : Slot name reads default ms a ↔
    ∃ new, Fetches name reads none ms new ∧ new.or default = some a := by
  -- members of other names are passed over, and the first of the name leaves no room for others
  induction ms with
  | nil =>
    constructor
    · intro h
      exact ⟨none, .nil _, h.absent (List.forall_mem_nil _)⟩
    · rintro ⟨new, ⟨⟩, hdefault⟩
      exact ⟨.nil, fun _ hm => absurd hm List.not_mem_nil, fun _ => hdefault⟩
  | cons m ms ih =>
    by_cases hm : m.Named name
    · rw [Slot.cons_named_iff hm]
      constructor
      · rintro ⟨ha, hothers⟩
        exact ⟨some a, .cons (.own hm ha) (fetches_some_iff.mpr ⟨rfl, hothers⟩), rfl⟩
      · rintro ⟨new, _ | ⟨hput, hms⟩, hnew⟩
        obtain ⟨-, a', ha', rfl⟩ := hput.of_named hm
        obtain ⟨rfl, hothers⟩ := fetches_some_iff.mp hms
        cases hnew
        exact ⟨ha', hothers⟩
    · rw [Slot.cons_iff hm, ih]
      simp only [fetches_cons_iff hm]

end AnyOrder

/-! ## Records -/

section Records

variable {lib : Library ε} {ts : List Type} {format : Format ε α} {rest : Fields ε ts}
  {d d' : Draft ts} {key : String} {value : List Char}

theorem Library.Reads.unique {format : Format ε α} {v : List Char} {a a' : α}
    (h : lib.Reads format v a) (h' : lib.Reads format v a') : a = a' :=
  Except.ok.inj (h.symm.trans h')

/-- A text is read in one way at most, so a slot has one value at most. -/
theorem Slot.unique {a' : α} (h : Slot name (lib.Reads format) default ms a)
    (h' : Slot name (lib.Reads format) default ms a') : a = a' := by
  by_cases hexists : ∃ m ∈ ms, m.Named name
  · obtain ⟨m, hm, hname⟩ := hexists
    exact (h.present m hm hname).unique (h'.present m hm hname)
  · have hnone : ∀ m ∈ ms, ¬ m.Named name := fun m hm hname => hexists ⟨m, hm, hname⟩
    exact Option.some.inj ((h.absent hnone).symm.trans (h'.absent hnone))

/-- One slot for each field. -/
def Fields.Described (lib : Library ε) : {ts : List Type} → Fields ε ts → List Member → Values ts →
    Prop
  | _, .nil, _, _ => True
  | _, .cons name default format rest, ms, (a, values) =>
    Slot name (lib.Reads format) default ms a ∧ rest.Described lib ms values

/-- A member that no field is named like may be left out. -/
theorem Fields.described_cons_iff (hm : m.Named name) : {ts : List Type} → {fields : Fields ε ts} →
    {values : Values ts} → name ∉ fields.names →
    (fields.Described lib (m :: ms) values ↔ fields.Described lib ms values)
  | _, .nil, _, _ => Iff.rfl
  | _, .cons name' _ format rest, (a, values), hname => by
    have hother : ¬ m.Named name' := hm.not_named (List.ne_of_not_mem_cons hname)
    rw [Described, Described, Slot.cons_iff hother,
      described_cons_iff hm (List.not_mem_of_not_mem_cons hname)]

/-! ### A member and the fields -/

theorem Fields.takes_cons_self_iff {a? a?' : Option α} :
    (Fields.cons name default format rest).Takes lib name value (a?, d) (a?', d') ↔
      a? = none ∧ (∃ a, lib.Reads format value a ∧ a?' = some a) ∧ d' = d := by
  rw [Fields.Takes, if_pos rfl]

theorem Fields.takes_cons_iff {a? a?' : Option α} (hne : key ≠ name) :
    (Fields.cons name default format rest).Takes lib key value (a?, d) (a?', d') ↔
      a?' = a? ∧ rest.Takes lib key value d d' := by
  rw [Fields.Takes, if_neg hne]

/-- A member of another name makes nothing of a draft. -/
theorem Fields.takes_unknown_iff : {ts : List Type} → (fields : Fields ε ts) →
    key ∉ fields.names → {d d' : Draft ts} → (fields.Takes lib key value d d' ↔ d' = d)
  | _, .nil, _, (), () => ⟨fun _ => rfl, fun _ => trivial⟩
  | _, .cons name default format rest, hkey, (a?, d), (a?', d') => by
    have hrest : key ∉ rest.names := List.not_mem_of_not_mem_cons hkey
    rw [takes_cons_iff (List.ne_of_not_mem_cons hkey), rest.takes_unknown_iff hrest]
    exact Prod.mk_inj.symm

/-- A member goes to the slot of the first field, or to the other fields. -/
theorem Fields.takes_iff {a? a?' : Option α} (hname : name ∉ rest.names) (hm : m.Named key) :
    (Fields.cons name default format rest).Takes lib key m.element.value (a?, d) (a?', d') ↔
      Puts name (lib.Reads format) a? m a?' ∧ rest.Takes lib key m.element.value d d' := by
  -- the member is either for the first field or for one of the others, never for both
  by_cases hkey : key = name
  · subst hkey
    rw [takes_cons_self_iff, rest.takes_unknown_iff hname]
    constructor
    · rintro ⟨rfl, ⟨a, ha, rfl⟩, hd⟩
      exact ⟨.own hm ha, hd⟩
    · rintro ⟨hput, hd⟩
      obtain ⟨hold, hnew⟩ := hput.of_named hm
      exact ⟨hold, hnew, hd⟩
  · have hother : ¬ m.Named name := hm.not_named hkey
    rw [takes_cons_iff hkey]
    constructor
    · rintro ⟨rfl, hd⟩
      exact ⟨.other hother, hd⟩
    · rintro ⟨hput, hd⟩
      exact ⟨hput.of_not_named hother, hd⟩

/-! ### All members -/

/-- Without fields, all that members need is a name. -/
theorem Fields.yields_nil_iff {d d' : Draft []} :
    (Fields.nil : Fields ε []).Yields lib d ms d' ↔ ∀ m ∈ ms, ∃ name, m.Named name := by
  induction ms with
  | nil => exact ⟨fun _ => List.forall_mem_nil _, fun _ => .nil d⟩
  | cons m ms ih =>
    rw [List.forall_mem_cons]
    constructor
    · rintro (_ | ⟨hname, -, hms⟩)
      exact ⟨⟨_, hname⟩, ih.mp hms⟩
    · rintro ⟨⟨name, hname⟩, hms⟩
      exact .cons hname trivial (ih.mpr hms)

/-- What the members make of a draft is what they make of the slot of each field. -/
theorem Fields.yields_cons_iff {a? a?' : Option α} (hname : name ∉ rest.names) :
    (Fields.cons name default format rest).Yields lib (a?, d) ms (a?', d') ↔
      Fetches name (lib.Reads format) a? ms a?' ∧ rest.Yields lib d ms d' := by
  -- every member is taken by one field, so the fields can be followed apart from each other
  induction ms generalizing a? d with
  | nil =>
    constructor
    · rintro ⟨⟩
      exact ⟨.nil _, .nil _⟩
    · rintro ⟨⟨⟩, ⟨⟩⟩
      exact .nil _
  | cons m ms ih =>
    constructor
    · rintro (_ | @⟨_, ⟨a?₁, d₁⟩, _, _, _, _, hkey, hm, hms⟩)
      obtain ⟨hput, htakes⟩ := (takes_iff hname hkey).mp hm
      obtain ⟨hfetches, hyields⟩ := ih.mp hms
      exact ⟨.cons hput hfetches, .cons hkey htakes hyields⟩
    · rintro ⟨_ | ⟨hput, hfetches⟩, _ | ⟨hkey, htakes, hyields⟩⟩
      exact .cons hkey ((takes_iff hname hkey).mpr ⟨hput, htakes⟩) (ih.mpr ⟨hfetches, hyields⟩)

theorem Fields.complete_cons_eq_ok_iff {a? : Option α} {values : Values ts} :
    (Fields.cons name default format rest).complete (a?, d) = .ok (a, values) ↔
      a?.or default = some a ∧ rest.complete d = .ok values := by
  rw [Fields.complete]
  cases a?.or default with
  | none => simp
  | some a' =>
    cases rest.complete d with
    | error missing => simp [Except.map]
    | ok values' =>
      rw [Option.some_inj, Except.ok.injEq]
      exact (iff_of_eq (Except.ok.injEq _ _)).trans Prod.mk_inj

/-- An object is read as a record exactly if its members describe the values of the record. -/
theorem Fields.exists_yields_iff : {ts : List Type} → (fields : Fields ε ts) →
    fields.names.Nodup → {values : Values ts} →
    ((∃ d, fields.Yields lib (Draft.blank ts) ms d ∧ fields.complete d = .ok values) ↔
      (∀ m ∈ ms, ∃ name, m.Named name) ∧ fields.Described lib ms values)
  | _, .nil, _, () => by
    constructor
    · rintro ⟨d, hd, -⟩
      exact ⟨yields_nil_iff.mp hd, trivial⟩
    · rintro ⟨hnamed, -⟩
      exact ⟨(), yields_nil_iff.mpr hnamed, rfl⟩
  | _, .cons name default format rest, hnodup, (a, values) => by
    obtain ⟨hname, hnodup⟩ := List.nodup_cons.mp hnodup
    have ih : (∃ d, rest.Yields lib (Draft.blank _) ms d ∧ rest.complete d = .ok values) ↔
      (∀ m ∈ ms, ∃ name, m.Named name) ∧ rest.Described lib ms values :=
        rest.exists_yields_iff hnodup
    rw [Fields.Described, slot_iff_exists_fetches]
    constructor
    · rintro ⟨⟨a?, d⟩, hyields, hcomplete⟩
      obtain ⟨hfetches, hyields⟩ := (yields_cons_iff hname).mp hyields
      obtain ⟨ha, hcomplete⟩ := complete_cons_eq_ok_iff.mp hcomplete
      obtain ⟨hnamed, hdescribed⟩ := ih.mp ⟨d, hyields, hcomplete⟩
      exact ⟨hnamed, ⟨a?, hfetches, ha⟩, hdescribed⟩
    · rintro ⟨hnamed, ⟨a?, hfetches, ha⟩, hdescribed⟩
      obtain ⟨d, hyields, hcomplete⟩ := ih.mpr ⟨hnamed, hdescribed⟩
      exact ⟨(a?, d), (yields_cons_iff hname).mpr ⟨hfetches, hyields⟩,
        complete_cons_eq_ok_iff.mpr ⟨ha, hcomplete⟩⟩

end Records

end FactorSearch.Json
