import FactorSearch.Json.OnePass
import FactorSearch.Proofs.Slots
import FactorSearch.Proofs.Surroundings

/-!
# Records are read member by member

In one pass, a member is read as what `Fields.Takes` makes of it, without a look at the text around
it, and an object is read as a record exactly if its members, one after the other, yield a draft that
can be completed (`settled_record`).  So every format has a decisive reader
(`Format.decisive_reader`).
-/

namespace FactorSearch.Json

open Reader

variable {ε : Type} {ts : List Type} (round : Numeral → Nat) {fields : Fields ε ts} {d d' : Draft ts}
  {b s blank : List Char} {m : Member} {ms : List Member} {name key : String} {first : Bool}

/-- All fields have decisive readers. -/
def Fields.AllDecisive (round : Numeral → Nat) : {ts : List Type} → Fields ε ts → Prop
  | _, .nil => True
  | _, .cons _ _ format rest => Decisive (format.reader round) ∧ rest.AllDecisive round

/-- A value is given inside a text if it is what the library reads the value as alone. -/
theorem gives_iff_reads {α : Type} {format : Format ε α} {v : List Char} {a : α}
    (hformat : Decisive (format.reader round)) (hv : IsValue v) :
    Gives (format.reader round) v a ↔ (onePass ε round).Reads format v a :=
  hformat.gives_iff_run hv

/-! ## One member -/

section Member

/-- A member of the name of the first field is as good as its value. -/
theorem Fields.member_cons_self {α : Type} {default : Option α} {format : Format ε α}
    {rest : Fields ε ts} (hm : m.Spaced) (d : Draft ts) (s : List Char) :
    (Fields.cons key default format rest).member round key (none, d)
        (m.behind ++ ':' :: (m.element.chars ++ s)) =
      (do pure (some (← format.reader round), d) : Reader ε (Draft (α :: ts)))
        (m.element.before ++ (m.element.value ++ (m.element.after ++ s))) := by
  have hempty : ¬ (none : Option α).isSome = true := Bool.false_ne_true
  rw [Fields.member, if_pos rfl, if_neg hempty, bind_of_ok (mark_append_cons hm.behind rfl _),
    m.element.chars_append]

variable (hm : m.Spaced) (hv : IsValue m.element.value) (hs : Ended s)

include hm hv hs

/-- A member is read from behind its key as what it makes of the draft. -/
theorem Fields.member_eq_ok : {ts : List Type} → {fields : Fields ε ts} → {d d' : Draft ts} →
    fields.AllDecisive round → fields.Takes (onePass ε round) key m.element.value d d' →
    fields.member round key d (m.behind ++ ':' :: (m.element.chars ++ s)) =
      .ok (d', m.element.after ++ s)
  | _, .nil, _, _, _, _ => by
    -- no field has this name, so the value is passed over
    have hskip : (skipValue : Reader ε Unit) (m.element.chars ++ s) =
        .ok ((), m.element.after ++ s) := by
      rw [m.element.chars_append]
      exact skipValue_value hv hm.element.before (hs.append hm.element.after)
    rw [Fields.member, bind_of_ok (mark_append_cons hm.behind rfl _)]
    exact bind_of_ok hskip
  | _, .cons name default format rest, (a?, d), (a?', d'), hfields, htakes => by
    obtain ⟨hformat, hrest⟩ := hfields
    by_cases hkey : key = name
    · subst hkey
      obtain ⟨rfl, ⟨a, ha, rfl⟩, rfl⟩ := Fields.takes_cons_self_iff.mp htakes
      have hgives := (gives_iff_reads round hformat hv).mpr ha
      rw [Fields.member_cons_self round hm]
      exact bind_of_ok (hgives.eq_ok_append hm.element.before (hs.append hm.element.after))
    · obtain ⟨ha, hd⟩ := (Fields.takes_cons_iff hkey).mp htakes
      rw [Fields.member, if_neg hkey, bind_of_ok (Fields.member_eq_ok hrest hd), ha]
      rfl

/-- A member that makes nothing of a draft is at fault: its field is filled already, or its value is
not read. -/
theorem Fields.exists_member_eq_error : {ts : List Type} → {fields : Fields ε ts} →
    {d : Draft ts} → fields.AllDecisive round →
    (∀ d', ¬ fields.Takes (onePass ε round) key m.element.value d d') →
    ∃ fault, fields.member round key d (m.behind ++ ':' :: (m.element.chars ++ s)) = .error fault
  | _, .nil, d, _, htakes => absurd trivial (htakes d)
  | _, .cons name default format rest, (a?, d), hfields, htakes => by
    obtain ⟨hformat, hrest⟩ := hfields
    by_cases hkey : key = name
    · subst hkey
      cases a? with
      | some a =>
        -- a second member of the name is refused before its value is read
        rw [Fields.member, if_pos rfl]
        exact ⟨.mismatch (.duplicateField key), rfl⟩
      | none =>
        rw [Fields.member_cons_self round hm]
        rcases hformat _ hv with ⟨a, ha⟩ | hfails
        · have hread := (gives_iff_reads round hformat hv).mp ha
          exact absurd (takes_cons_self_iff.mpr ⟨rfl, ⟨a, hread, rfl⟩, rfl⟩) (htakes (some a, d))
        · obtain ⟨fault, hfault⟩ := hfails ⟨m.element.before, m.element.after ++ s,
            hm.element.before, hs.append hm.element.after⟩
          exact ⟨fault, bind_of_error hfault⟩
    · have hothers (d' : Draft _) : ¬ rest.Takes (onePass ε round) key m.element.value d d' :=
        fun h => htakes (a?, d') ((takes_cons_iff hkey).mpr ⟨rfl, h⟩)
      obtain ⟨fault, hfault⟩ := Fields.exists_member_eq_error hrest hothers
      rw [Fields.member, if_neg hkey]
      exact ⟨fault, bind_of_error hfault⟩

end Member

/-! ## One round -/

section Round

theorem memberRound_brace (member : String → Draft ts → Reader ε (Draft ts)) (first : Bool)
    (d : Draft ts) (hb : Blank b) (s : List Char) :
    memberRound member (first, d) (b ++ '}' :: s) = .ok (.inr d, '}' :: s) := by
  rw [memberRound, bind_of_ok (nextKey?_brace first hb s)]
  rfl

/-- A round reads the key of a member, and `member` what is behind it. -/
theorem memberRound_named (member : String → Draft ts → Reader ε (Draft ts)) (hb : Blank b)
    (hm : m.Spaced) (hname : m.Named name) (s : List Char) :
    memberRound member (first, d) (b ++ (comma first ++ (m.chars ++ s))) =
      (do pure (.inl (false, ← member name d)) : Reader ε ((Bool × Draft ts) ⊕ Draft ts))
        (m.behind ++ ':' :: (m.element.chars ++ s)) := by
  rw [memberRound, bind_of_ok (nextKey?_named first hb hm hname s)]

/-- A member is at fault if it has no name, if its field is filled already, or if its value is. -/
theorem exists_memberRound_eq_error (hfields : fields.AllDecisive round)
    (h : ∀ name, m.Named name → ∀ d',
      ¬ fields.Takes (onePass ε round) name m.element.value d d')
    (hb : Blank b) (hm : m.Spaced) (hkey : Text.Inside m.key) (hv : IsValue m.element.value)
    (hs : Ended s) (first : Bool) :
    ∃ fault, memberRound (fields.member round) (first, d)
      (b ++ (comma first ++ (m.chars ++ s))) = .error fault := by
  by_cases hnamed : ∃ name, m.Named name
  · obtain ⟨name, hname⟩ := hnamed
    obtain ⟨fault, hfault⟩ := Fields.exists_member_eq_error round hm hv hs hfields (h name hname)
    rw [memberRound_named _ hb hm hname]
    exact ⟨fault, bind_of_error hfault⟩
  · -- a key that spells no name is not even read
    obtain ⟨fault, hfault⟩ := Text.exists_read_eq_error (ε := ε) hkey
      (fun name hname => hnamed ⟨name, hname⟩) (m.behind ++ ':' :: (m.element.chars ++ s))
    have hmemberKey : (memberKey : Reader ε String) ('"' :: (m.key ++ '"' ::
        (m.behind ++ ':' :: (m.element.chars ++ s)))) = .error fault :=
      (bind_of_ok (mark_cons rfl)).trans hfault
    refine ⟨fault, bind_of_error ?_⟩
    rw [nextKey?_member first hb hm]
    exact map_of_error hmemberKey

theorem length_lt_of_member (m : Member) (b s : List Char) (first : Bool) :
    (m.element.after ++ s).length < (b ++ (comma first ++ (m.chars ++ s))).length := by
  simp only [m.chars_append, Element.chars_append, List.length_append, List.length_cons]
  omega

end Round

/-! ## All members -/

section Members

variable (hms : ∀ m ∈ ms, m.Spaced) (hkeys : ∀ m ∈ ms, Text.Inside m.key)
  (hvalues : ∀ m ∈ ms, IsValue m.element.value) (hblank : Blank blank) (hb : Blank b)

include hms hvalues hblank hb in
/-- The rounds over the members, up to the closing brace. -/
theorem Fields.Yields.rounds (hfields : fields.AllDecisive round)
    (h : fields.Yields (onePass ε round) d ms d') (first : Bool) (s : List Char) :
    Rounds (memberRound (fields.member round)) (first, d)
      (b ++ (separated first (ms.map Member.chars) ++ (blank ++ '}' :: s)))
      (.ok (d', '}' :: s)) := by
  -- the blanks behind a value stand before what follows, so every round hands them on
  induction h generalizing b first with
  | nil d =>
    have hblanks : Blank (b ++ blank) := List.forall_mem_append.mpr ⟨hb, hblank⟩
    have hround := memberRound_brace (fields.member round) first d hblanks s
    rw [List.append_assoc] at hround
    exact .done hround
  | @cons d d₁ d' m ms name hname htakes _ ih =>
    obtain ⟨hm, hms⟩ := List.forall_mem_cons.mp hms
    obtain ⟨hv, hvalues⟩ := List.forall_mem_cons.mp hvalues
    have hended := ended_separated (ms.map Member.chars) hblank .object s
    rw [List.map_cons, separated_cons_append]
    refine .next ?_ (length_lt_of_member m b _ first) (ih hms hvalues hm.element.after false)
    rw [memberRound_named _ hb hm hname]
    exact bind_of_ok (Fields.member_eq_ok round hm hv hended hfields htakes)

include hms hkeys hvalues hblank hb in
/-- Members that yield no draft make a fault. -/
theorem exists_rounds_members_error (hfields : fields.AllDecisive round)
    (h : ∀ d', ¬ fields.Yields (onePass ε round) d ms d') (first : Bool) (s : List Char) :
    ∃ fault, Rounds (memberRound (fields.member round)) (first, d)
      (b ++ (separated first (ms.map Member.chars) ++ (blank ++ '}' :: s))) (.error fault) := by
  induction ms generalizing d b first with
  | nil => exact absurd (.nil d) (h d)
  | cons m ms ih =>
    obtain ⟨hm, hms⟩ := List.forall_mem_cons.mp hms
    obtain ⟨hkey, hkeys⟩ := List.forall_mem_cons.mp hkeys
    obtain ⟨hv, hvalues⟩ := List.forall_mem_cons.mp hvalues
    have hended := ended_separated (ms.map Member.chars) hblank .object s
    rw [List.map_cons, separated_cons_append]
    by_cases htakes : ∃ name d₁, m.Named name ∧
      fields.Takes (onePass ε round) name m.element.value d d₁
    · -- the fault is in one of the other members
      obtain ⟨name, d₁, hname, hd₁⟩ := htakes
      obtain ⟨fault, hrounds⟩ := ih hms hkeys hvalues hm.element.after
        (fun d' hd' => h d' (.cons hname hd₁ hd')) false
      refine ⟨fault, .next ?_ (length_lt_of_member m b _ first) hrounds⟩
      rw [memberRound_named _ hb hm hname]
      exact bind_of_ok (Fields.member_eq_ok round hm hv hended hfields hd₁)
    · obtain ⟨fault, hfault⟩ := exists_memberRound_eq_error round hfields
        (fun name hname d' hd' => htakes ⟨name, d', hname, hd'⟩) hb hm hkey hv hended first
      exact ⟨fault, .fault hfault⟩

end Members

/-! ## Objects -/

section Objects

variable {o : Object} {values : Values ts} {title : String}
  {elements : Bool → Reader ε (Draft ts)}

theorem completed_eq_pure {missing : String → Mismatch} (h : fields.complete d = .ok values) :
    (completed fields missing d : Reader ε (Values ts)) = pure values := by
  rw [completed, h]

theorem uniform_completed {ι : Type} (missing : String → Mismatch) (d : Draft ts)
    (text : ι → List Char) :
    Uniform (completed fields missing d : Reader ε (Values ts)) text text := by
  unfold completed
  split
  · exact uniform_pure _
  · exact (fails_fail _).uniform _

theorem Object.chars_append (o : Object) (s : List Char) :
    o.chars ++ s = '{' :: (separated true (o.members.map Member.chars) ++ (o.blank ++ '}' :: s)) :=
  bracketed_append .object _ _ s

/-- Behind the opening brace of a record. -/
theorem record_brace (member : String → Draft ts → Reader ε (Draft ts)) (hb : Blank b)
    (s : List Char) : record fields round title member elements (b ++ '{' :: s) =
      (loop (memberRound member) (true, Draft.blank ts) >>= fun d =>
        completed fields .missingField d >>= fun values =>
          mark '}' >>= fun _ => pure values) s := by
  rw [record, ahead_bind_cons hb rfl, if_pos rfl]
  exact bind_of_ok (drop_cons '{' s)

theorem gives_record (hfields : fields.AllDecisive round) (ho : o.WellFormed)
    (hd : fields.Yields (onePass ε round) (Draft.blank ts) o.members d)
    (hvalues : fields.complete d = .ok values) :
    Gives (record fields round title (fields.member round) elements) o.chars values := by
  intro i
  have hloop := (Fields.Yields.rounds round ho.spaced ho.values ho.blank blank_nil hfields hd true
    i.behind).loop_eq
  rw [Around.text, o.chars_append, record_brace round _ i.blank]
  refine (bind_of_ok hloop).trans ?_
  rw [completed_eq_pure hvalues, pure_bind, bind_of_ok (mark_cons rfl)]
  rfl

theorem fails_record (hfields : fields.AllDecisive round) (ho : o.WellFormed)
    (h : ∀ d, fields.Yields (onePass ε round) (Draft.blank ts) o.members d →
      ∀ values, fields.complete d ≠ .ok values) :
    Fails (record fields round title (fields.member round) elements)
      fun i : Around => i.text o.chars := by
  intro i
  change ∃ fault, record fields round title (fields.member round) elements
    (i.before ++ (o.chars ++ i.behind)) = .error fault
  rw [o.chars_append, record_brace round _ i.blank]
  by_cases hyields : ∃ d, fields.Yields (onePass ε round) (Draft.blank ts) o.members d
  · -- a field is missing
    obtain ⟨d, hd⟩ := hyields
    have hloop := (Fields.Yields.rounds round ho.spaced ho.values ho.blank blank_nil hfields hd true
      i.behind).loop_eq
    cases hcomplete : fields.complete d with
    | ok values => exact absurd hcomplete (h d hd values)
    | error name =>
      refine ⟨.mismatch (.missingField name), (bind_of_ok hloop).trans ?_⟩
      rw [completed, hcomplete]
      rfl
  · obtain ⟨fault, hrounds⟩ := exists_rounds_members_error round ho.spaced ho.keys ho.values
      ho.blank blank_nil hfields (fun d hd => hyields ⟨d, hd⟩) true i.behind
    exact ⟨fault, bind_of_error hrounds.loop_eq⟩

theorem settled_record (hfields : fields.AllDecisive round) (ho : o.WellFormed) :
    Settled (record fields round title (fields.member round) elements) o.chars fun values =>
      ∃ d, fields.Yields (onePass ε round) (Draft.blank ts) o.members d ∧
        fields.complete d = .ok values where
  gives := by
    rintro values ⟨d, hd, hvalues⟩
    exact gives_record round hfields ho hd hvalues
  fails h := fails_record round hfields ho fun d hd values hvalues => h values ⟨d, hd, hvalues⟩

end Objects

/-! ## Arrays -/

section Arrays

variable {es : List Element}

/-- No bracket is closed before an element. -/
theorem fails_mark_element {e : Element} (he : e.Spaced) (hv : IsValue e.value) (hb : Blank b)
    (first : Bool) (behind : Around → List Char) : Fails (mark ']' : Reader ε Unit)
      fun i => b ++ (comma first ++ (e.chars ++ behind i)) := by
  cases first with
  | true =>
    obtain ⟨c, cs, hcs, hbegins⟩ := hv.exists_cons
    have hblanks : Blank (b ++ e.before) := List.forall_mem_append.mpr ⟨hb, he.before⟩
    simp only [comma_true, List.nil_append, e.chars_append, hcs, List.cons_append,
      ← List.append_assoc]
    exact fails_mark (fun _ => hblanks) hbegins.1 hbegins.2.2.1
  | false => exact fails_mark (fun _ => hb) rfl (by decide)

/-- The elements of an array go to the fields in order.  What they leave is the closing bracket, or
one element too many. -/
theorem Fields.exists_uniform_elements (hblank : Blank blank) : {ts : List Type} →
    (fields : Fields ε ts) → fields.AllDecisive round → {es : List Element} → {b : List Char} →
    (∀ e ∈ es, e.Spaced) → (∀ e ∈ es, IsValue e.value) → Blank b → (first : Bool) →
    ∃ left, Uniform (fields.elements round first)
        (fun i : Around =>
          b ++ (separated first (es.map Element.chars) ++ (blank ++ ']' :: i.behind))) left ∧
      Uniform (mark ']' : Reader ε Unit) left Around.behind
  | _, .nil, _, [], b, _, _, hb, first => by
    have hblanks : Blank (b ++ blank) := List.forall_mem_append.mpr ⟨hb, hblank⟩
    refine ⟨_, uniform_pure (), ?_⟩
    simp only [List.map_nil, separated, List.nil_append, ← List.append_assoc]
    exact uniform_mark (fun _ => hblanks) rfl
  | _, .nil, _, e :: es, b, hes, hvalues, hb, first => by
    refine ⟨_, uniform_pure (), ?_⟩
    simp only [List.map_cons, separated_cons_append]
    exact (fails_mark_element (hes e List.mem_cons_self) (hvalues e List.mem_cons_self) hb first
      _).uniform _
  | _, .cons _ _ format rest, _, [], b, _, _, hb, first => by
    have hblanks : Blank (b ++ blank) := List.forall_mem_append.mpr ⟨hb, hblank⟩
    refine ⟨fun i => ']' :: i.behind, ?_, uniform_mark (fun _ => blank_nil) rfl⟩
    refine uniform_of_ok (a := Draft.blank _) fun i => ?_
    rw [List.map_nil, separated, List.nil_append, ← List.append_assoc, Fields.elements,
      bind_of_ok (moreElements_bracket _ hblanks i.behind)]
    rfl
  | _, .cons _ _ format rest, hfields, e :: es, b, hes, hvalues, hb, first => by
    obtain ⟨hformat, hrest⟩ := hfields
    obtain ⟨he, hes⟩ := List.forall_mem_cons.mp hes
    obtain ⟨hv, hvalues⟩ := List.forall_mem_cons.mp hvalues
    obtain ⟨left, hleft, hmark⟩ :=
      rest.exists_uniform_elements hblank hrest hes hvalues he.after false
    have hended (i : Around) : Ended (e.after ++
        (separated false (es.map Element.chars) ++ (blank ++ ']' :: i.behind))) :=
      (ended_separated _ hblank .array i.behind).append he.after
    -- the element goes to the first field, and the other elements to the other fields
    have hbehind := (hformat.uniform hv (fun _ => blank_nil) hended).bind fun a =>
      hleft.bind fun draft => uniform_pure (some a, draft)
    refine ⟨left, hbehind.of_eq fun i => ?_, hmark⟩
    rw [List.map_cons, separated_cons_append, Fields.elements,
      bind_of_ok (moreElements_element first hb he hv _)]
    rfl

end Arrays

/-! ## Every format -/

theorem decisive_record (title : String) (hfields : fields.AllDecisive round) :
    Decisive (record fields round title (fields.member round) (fields.elements round)) := by
  -- any other character begins no record, whatever follows it
  have hother (c : Char) (s : List Char) (hc : isBlank c = false) (hne : c ≠ '{' ∧ c ≠ '[') :
      Uniform (record fields round title (fields.member round) (fields.elements round))
        (fun i : Around => i.text (c :: s)) Around.behind := by
    refine uniform_head hc ?_
    rw [if_neg hne.1, if_neg hne.2]
    exact (fails_unexpected round c title _).uniform _
  intro v hv
  cases hv with
  | null => exact hother 'n' _ rfl (by decide)
  | true => exact hother 't' _ rfl (by decide)
  | false => exact hother 'f' _ rfl (by decide)
  | string => exact hother '"' _ rfl (by decide)
  | number hnumber =>
    obtain ⟨c, s, rfl, hc⟩ := hnumber.exists_cons
    exact hother c s (begins_of_numeral hc).1 ⟨ne_of_numeral hc rfl, ne_of_numeral hc rfl⟩
  | array hblank hes hvalues =>
    obtain ⟨left, hleft, hmark⟩ :=
      fields.exists_uniform_elements round hblank hfields hes hvalues blank_nil true
    refine uniform_bracketed (c := '[') (d := ']') .array rfl rfl ?_
    rw [if_neg (by decide), if_pos rfl]
    -- the fields take the elements in order, and the bracket decides that there are no others
    refine (uniform_of_ok fun i => drop_cons '[' _).bind fun _ => hleft.bind fun d => ?_
    exact (uniform_completed _ d left).bind fun values => hmark.bind fun _ => uniform_pure values
  | @object ms blank hblank hms hkeys hvalues =>
    exact (settled_record round hfields (o := ⟨ms, blank⟩) ⟨hblank, hms, hkeys, hvalues⟩).uniform

mutual

/-- Values of any format are read whole, and by themselves. -/
theorem Format.decisive_reader : {α : Type} → (format : Format ε α) → Decisive (format.reader round)
  | _, @Format.unsigned _ _ _ => decisive_unsigned round
  | _, .float => decisive_float round
  | _, @Format.named _ _ _ => decisive_named round
  | _, .list element => decisive_list round element.decisive_reader
  | _, .record title fields make _ => (decisive_record round title fields.allDecisive).map make
  | _, .convert base accept _ => by
    refine base.decisive_reader.bind fun a => ?_
    cases accept a with
    | ok b => exact .inl ⟨b, rfl⟩
    | error cause => exact .inr ⟨.refused cause, rfl⟩

theorem Fields.allDecisive : {ts : List Type} → (fields : Fields ε ts) → fields.AllDecisive round
  | _, .nil => trivial
  | _, .cons _ _ format rest => ⟨format.decisive_reader, rest.allDecisive⟩

end

end FactorSearch.Json
